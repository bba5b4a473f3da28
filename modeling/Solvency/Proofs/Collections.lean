import Mathlib.Data.Finset.Card
import Mathlib.Data.List.Forall2
import Mathlib.Data.List.Nodup
import Solvency.Table

/-! Laws of the collections that states are made of: traversals and runs that may fail, and
tables. -/

namespace Solvency

section Traversal

variable {α β ε : Type} {f : α → Except ε β}

theorem map_eq_ok_iff {g : α → β} {x : Except ε α} {b : β} :
    g <$> x = .ok b ↔ ∃ a, x = .ok a ∧ g a = b := by
  cases x <;> simp

theorem exists_of_isOk {x : Except ε α} (h : x.isOk = true) : ∃ a, x = .ok a := by
  cases x with
  | error e => cases h
  | ok a => exact ⟨a, rfl⟩

theorem toOption_eq_some_iff {x : Except ε α} {a : α} : x.toOption = some a ↔ x = .ok a := by
  cases x <;> simp [Except.toOption]

theorem pure_eq_ok_iff {a b : α} : (pure a : Except ε α) = .ok b ↔ a = b :=
  Except.ok.injEq a b ▸ Iff.rfl

theorem ok_bind (a : α) (g : α → Except ε β) : (.ok a >>= g) = g a := by
  simp only [bind, Except.bind]

theorem throw_bind (e : ε) (g : α → Except ε β) : (throw e >>= g) = throw e := by
  simp only [bind, Except.bind, throw, throwThe, MonadExceptOf.throw]

theorem bind_eq_ok_iff {g : α → Except ε β} {x : Except ε α} {b : β} :
    x >>= g = .ok b ↔ ∃ a, x = .ok a ∧ g a = .ok b := by
  cases x <;> simp [bind, Except.bind]

theorem bind_eq_error_iff {g : α → Except ε β} {x : Except ε α} {e : ε} :
    x >>= g = .error e ↔ x = .error e ∨ ∃ a, x = .ok a ∧ g a = .error e := by
  cases x <;> simp [bind, Except.bind]

theorem mapM_eq_ok_iff {items : List α} {results : List β} :
    items.mapM f = .ok results ↔ List.Forall₂ (fun a b => f a = .ok b) items results := by
  induction items generalizing results with
  | nil => cases results <;> simp [pure, Except.pure]
  | cons a rest ih =>
    rw [List.mapM_cons]
    cases ha : f a with
    | error e => cases results <;> simp [ha, bind, Except.bind]
    | ok b =>
      cases hrest : rest.mapM f with
      | error e => cases results <;> simp [ha, hrest, ← ih, bind, Except.bind]
      | ok bs => cases results <;> simp [ha, hrest, ← ih, bind, Except.bind, pure, Except.pure]

/-- A traversal fails as the first item that does. -/
theorem mapM_eq_error_iff {items : List α} {e : ε} :
    items.mapM f = .error e ↔ ∃ before a after, items = before ++ a :: after ∧
      (∀ earlier ∈ before, ∃ b, f earlier = .ok b) ∧ f a = .error e := by
  induction items with
  | nil => simp [pure, Except.pure]
  | cons first rest ih =>
    simp only [List.mapM_cons, bind_eq_error_iff, ih]
    constructor
    · rintro (hfirst | ⟨b, hb, ⟨before, a, after, rfl, hbefore, ha⟩ | ⟨_, _, hpure⟩⟩)
      · exact ⟨[], first, rest, rfl, by simp, hfirst⟩
      · exact ⟨first :: before, a, after, rfl, List.forall_mem_cons.mpr ⟨⟨b, hb⟩, hbefore⟩, ha⟩
      · cases hpure
    · rintro ⟨before, a, after, hitems, hbefore, ha⟩
      cases before with
      | nil =>
        cases hitems
        exact .inl ha
      | cons earlier before =>
        cases hitems
        obtain ⟨⟨b, hb⟩, hbefore⟩ := List.forall_mem_cons.mp hbefore
        exact .inr ⟨b, hb, .inl ⟨before, a, after, rfl, hbefore, ha⟩⟩

theorem mapM_congr {g : α → Except ε β} {items : List α} (h : ∀ a ∈ items, f a = g a) :
    items.mapM f = items.mapM g := by
  induction items with
  | nil => rfl
  | cons a rest ih =>
    obtain ⟨ha, hrest⟩ := List.forall_mem_cons.mp h
    rw [List.mapM_cons, List.mapM_cons, ha, ih hrest]

theorem exists_of_forall₂ {R : α → β → Prop} {items : List α} {results : List β}
    (h : List.Forall₂ R items results) {a : α} (ha : a ∈ items) : ∃ b ∈ results, R a b := by
  induction h with
  | nil => cases ha
  | cons hfirst _ ih =>
    rcases List.mem_cons.mp ha with rfl | ha
    · exact ⟨_, List.mem_cons_self, hfirst⟩
    · obtain ⟨b, hb, hfound⟩ := ih ha
      exact ⟨b, List.mem_cons_of_mem _ hb, hfound⟩

theorem exists_forall₂ {R : α → β → Prop} {items : List α} (h : ∀ a ∈ items, ∃ b, R a b) :
    ∃ results, List.Forall₂ R items results := by
  induction items with
  | nil => exact ⟨[], .nil⟩
  | cons a rest ih =>
    obtain ⟨⟨b, hb⟩, hrest⟩ := List.forall_mem_cons.mp h
    obtain ⟨results, hresults⟩ := ih hrest
    exact ⟨b :: results, .cons hb hresults⟩

theorem exists_ok_of_mapM {items : List α} {results : List β} (h : items.mapM f = .ok results)
    {a : α} (ha : a ∈ items) : ∃ b ∈ results, f a = .ok b :=
  exists_of_forall₂ (mapM_eq_ok_iff.mp h) ha

theorem mapM_eq_ok_map {g : α → β} {items : List α} (h : ∀ a ∈ items, f a = .ok (g a)) :
    items.mapM f = .ok (items.map g) := by
  rw [mapM_eq_ok_iff, List.forall₂_map_right_iff, List.forall₂_same]
  exact h

/-- What each step keeps is kept by all of them. -/
theorem foldlM_preserves {step : α → β → Option α} {P : α → Prop}
    (hstep : ∀ {s s' b}, P s → step s b = some s' → P s') {s s' : α} (h : P s) {run : List β}
    (hrun : run.foldlM step s = some s') : P s' := by
  induction run generalizing s with
  | nil =>
    cases hrun
    exact h
  | cons b rest ih =>
    rw [List.foldlM_cons] at hrun
    obtain ⟨next, hnext, hrest⟩ := Option.bind_eq_some_iff.mp hrun
    exact ih (hstep h hnext) hrest

end Traversal

namespace Table

variable {κ α : Type} [DecidableEq κ]

theorem find?_erase_eq_some {t : Table κ α} {k k' : κ} {a : α} :
    (t.erase k).find? k' = some a ↔ k' ≠ k ∧ t.find? k' = some a := by
  rw [find?_erase]
  split <;> simp_all

@[simp] theorem find?_empty (k : κ) : ({} : Table κ α).find? k = none := rfl

theorem find?_modify (t : Table κ α) (k k' : κ) (f : α → α) :
    (t.modify k f).find? k' = if k' = k then (t.find? k').map f else t.find? k' := by
  obtain ⟨entries⟩ := t
  simp only [find?, modify]
  induction entries with
  | nil => simp
  | cons entry rest ih =>
    have hentry : (if entry.1 = k then (entry.1, f entry.2) else (entry.1, entry.2)) =
        (entry.1, if entry.1 = k then f entry.2 else entry.2) := by split <;> rfl
    rw [List.map_cons, hentry, List.lookup_cons, List.lookup_cons]
    cases hk : k' == entry.1 with
    | true =>
      rw [eq_of_beq hk]
      by_cases hold : entry.1 = k <;> simp [hold]
    | false => exact ih

theorem keys_modify (t : Table κ α) (k : κ) (f : α → α) : (t.modify k f).keys = t.keys := by
  simp only [keys, modify, List.map_map]
  refine List.map_congr_left fun entry _ => ?_
  by_cases h : entry.1 = k <;> simp [h]

theorem keys_foldl_modify (t : Table κ α) (ks : List κ) (f : α → α) :
    (ks.foldl (fun t k => t.modify k f) t).keys = t.keys := by
  induction ks generalizing t with
  | nil => rfl
  | cons k rest ih => rw [List.foldl_cons, ih, keys_modify]

/-- A change that makes no difference a second time reaches the keys that are listed. -/
theorem find?_foldl_modify (t : Table κ α) (ks : List κ) {f : α → α} (hf : ∀ a, f (f a) = f a)
    (k : κ) : (ks.foldl (fun t k => t.modify k f) t).find? k =
      if k ∈ ks then (t.find? k).map f else t.find? k := by
  have htwice : ∀ found : Option α, (found.map f).map f = found.map f := by
    rintro (_ | a)
    · rfl
    · exact congrArg some (hf a)
  induction ks generalizing t with
  | nil => rfl
  | cons first rest ih =>
    rw [List.foldl_cons, ih, find?_modify]
    by_cases hfirst : k = first <;> by_cases hrest : k ∈ rest <;> simp [hfirst, hrest, htwice]

theorem countP_values_modify (t : Table κ α) (k : κ) {f : α → α} {p : α → Bool}
    (h : ∀ a, p (f a) = p a) : (t.modify k f).values.countP p = t.values.countP p := by
  simp only [values, modify, List.map_map, List.countP_map]
  refine List.countP_congr fun entry _ => ?_
  by_cases hk : entry.1 = k <;> simp [hk, h]

theorem find?_map {β : Type} (t : Table κ α) (f : α → β) (k : κ) :
    Table.find? ⟨t.entries.map fun e => (e.1, f e.2)⟩ k = (t.find? k).map f := by
  obtain ⟨entries⟩ := t
  simp only [find?]
  induction entries with
  | nil => rfl
  | cons entry rest ih =>
    rw [List.map_cons, List.lookup_cons, List.lookup_cons, ih]
    cases k == entry.1 <;> rfl

theorem mem_entries_of_find? {t : Table κ α} {k : κ} {a : α} (h : t.find? k = some a) :
    (k, a) ∈ t.entries := by
  obtain ⟨before, after, hentries, _⟩ := List.lookup_eq_some_iff.mp h
  simp [hentries]

theorem mem_values_of_find? {t : Table κ α} {k : κ} {a : α} (h : t.find? k = some a) :
    a ∈ t.values :=
  List.mem_map_of_mem (mem_entries_of_find? h)

theorem nodup_keys_erase {t : Table κ α} (h : t.keys.Nodup) (k : κ) : (t.erase k).keys.Nodup :=
  h.sublist (List.filter_sublist.map _)

theorem nodup_keys_insert {t : Table κ α} (h : t.keys.Nodup) (k : κ) (a : α) :
    (t.insert k a).keys.Nodup := by
  refine List.nodup_cons.mpr ⟨?_, nodup_keys_erase h k⟩
  simp [erase]

theorem find?_of_mem_entries {t : Table κ α} (h : t.keys.Nodup) {entry : κ × α}
    (hentry : entry ∈ t.entries) : t.find? entry.1 = some entry.2 := by
  obtain ⟨entries⟩ := t
  obtain ⟨k, a⟩ := entry
  obtain ⟨before, after, rfl⟩ := List.append_of_mem hentry
  refine List.lookup_eq_some_iff.mpr ⟨before, after, rfl, fun other hother => ?_⟩
  have hnodup : (before.map (·.1) ++ k :: after.map (·.1)).Nodup := by simpa [keys] using h
  have hne := (List.nodup_append.mp hnodup).2.2 _ (List.mem_map_of_mem hother) k List.mem_cons_self
  simpa using Ne.symm hne

theorem modify_eq_self {t : Table κ α} (h : t.keys.Nodup) {k : κ} {f : α → α}
    (hf : ∀ a, t.find? k = some a → f a = a) : t.modify k f = t := by
  have hentry : ∀ entry ∈ t.entries,
      (if entry.1 = k then (entry.1, f entry.2) else (entry.1, entry.2)) = entry := by
    intro entry hentry
    by_cases hk : entry.1 = k
    · have hfound := find?_of_mem_entries h hentry
      rw [if_pos hk, hf entry.2 (hk ▸ hfound)]
    · rw [if_neg hk]
  have hentries : (t.modify k f).entries = t.entries :=
    (List.map_congr_left hentry).trans (List.map_id _)
  cases t
  exact congrArg Table.mk hentries

theorem exists_find?_of_mem_values {t : Table κ α} (h : t.keys.Nodup) {a : α}
    (ha : a ∈ t.values) : ∃ k, t.find? k = some a := by
  obtain ⟨entry, hentry, rfl⟩ := List.mem_map.mp ha
  exact ⟨entry.1, find?_of_mem_entries h hentry⟩

theorem mem_keys_iff {t : Table κ α} {k : κ} : k ∈ t.keys ↔ (t.find? k).isSome := by
  obtain ⟨entries⟩ := t
  simp only [find?, keys]
  induction entries with
  | nil => simp
  | cons entry rest ih =>
    rw [List.map_cons, List.mem_cons, List.lookup_cons, ih]
    cases hk : k == entry.1 with
    | true => exact iff_of_true (.inl (eq_of_beq hk)) rfl
    | false => exact or_iff_right (ne_of_beq_false hk)

theorem keys_eq_nil {t : Table κ α} (h : ∀ k a, t.find? k ≠ some a) : t.keys = [] := by
  refine List.eq_nil_iff_forall_not_mem.mpr fun k hk => ?_
  obtain ⟨a, ha⟩ := Option.isSome_iff_exists.mp (mem_keys_iff.mp hk)
  exact h k a ha

/-- What is found under one key only is found once. -/
theorem countP_values_le_one {t : Table κ α} (h : t.keys.Nodup) {p : α → Bool} (k : κ)
    (hp : ∀ k' a, t.find? k' = some a → p a = true → k' = k) : t.values.countP p ≤ 1 := by
  have hcount : t.values.countP p ≤ t.keys.countP (· == k) := by
    simp only [values, keys, List.countP_map]
    refine List.countP_mono_left fun entry hentry hpa => ?_
    simpa using hp entry.1 entry.2 (find?_of_mem_entries h hentry) hpa
  exact Nat.le_trans hcount (List.nodup_iff_count_le_one.mp h k)

/-- Values are counted by the keys under which they are found. -/
theorem countP_values_eq_card {t : Table κ α} (h : t.keys.Nodup) {p : α → Bool} {found : Finset κ}
    (hfound : ∀ k, k ∈ found ↔ ∃ a, t.find? k = some a ∧ p a = true) :
    t.values.countP p = found.card := by
  have hnodup : ((t.entries.filter (p ·.2)).map (·.1)).Nodup :=
    h.sublist (List.filter_sublist.map _)
  have heq : found = ((t.entries.filter (p ·.2)).map (·.1)).toFinset := by
    ext k
    rw [hfound, List.mem_toFinset, List.mem_map]
    constructor
    · rintro ⟨a, hk, ha⟩
      exact ⟨(k, a), List.mem_filter.mpr ⟨mem_entries_of_find? hk, ha⟩, rfl⟩
    · rintro ⟨entry, hentry, rfl⟩
      obtain ⟨hmem, ha⟩ := List.mem_filter.mp hentry
      exact ⟨entry.2, find?_of_mem_entries h hmem, ha⟩
  rw [heq, List.toFinset_card_of_nodup hnodup, List.length_map, values, List.countP_map,
    List.countP_eq_length_filter]
  rfl

end Table

end Solvency
