import Mathlib.Data.List.OfFn
import Mathlib.Data.List.ReduceOption
import Mathlib.Order.Bounds.Basic
import Solvency.Proofs.Collections
import Solvency.View.Build

/-! What a composed view is made of. Every part of it is what the lookup gives for the
address of the part, and the range of slots covers all of them. -/

namespace Solvency

namespace SlotRange

def Covers (range : SlotRange) (slot : Slot) : Prop := range.min ≤ slot ∧ slot ≤ range.max

theorem Covers.eq_min {range : SlotRange} {slot : Slot} (h : range.Covers slot)
    (hspread : range.spread ≤ 0) : slot = range.min := by
  have hle : range.max ≤ range.min := Nat.sub_eq_zero_iff_le.mp (Nat.le_zero.mp hspread)
  exact Nat.le_antisymm (Nat.le_trans h.2 hle) h.1

/-- The bounds are the least and the greatest of the slots. -/
structure Spans (range : SlotRange) (slots : Set Slot) : Prop where
  least : IsLeast slots range.min
  greatest : IsGreatest slots range.max

section Spans

variable {range range' : SlotRange} {slots : Set Slot} {slot : Slot}

theorem Spans.covers (h : range.Spans slots) (hslot : slot ∈ slots) : range.Covers slot :=
  ⟨h.least.2 hslot, h.greatest.2 hslot⟩

theorem Spans.unique (h : range.Spans slots) (h' : range'.Spans slots) : range = range' := by
  cases range
  cases range'
  rw [mk.injEq]
  exact ⟨h.least.unique h'.least, h.greatest.unique h'.greatest⟩

theorem spans_ofSlot (slot : Slot) : (ofSlot slot).Spans {slot} :=
  ⟨isLeast_singleton, isGreatest_singleton⟩

theorem Spans.extend (h : range.Spans slots) (slot : Slot) :
    (range.extend slot).Spans (insert slot slots) := by
  have hleast : IsLeast (insert slot slots) (Min.min range.min slot) :=
    Nat.min_comm slot range.min ▸ h.least.insert slot
  have hgreatest : IsGreatest (insert slot slots) (Max.max range.max slot) :=
    Nat.max_comm slot range.max ▸ h.greatest.insert slot
  exact ⟨hleast, hgreatest⟩

end Spans

end SlotRange

def Observed.map {α β : Type} (f : α → β) (seen : Observed α) : Observed β :=
  ⟨seen.address, seen.slot, f seen.value⟩

namespace Entity

/-- A reader of one kind of account: it takes the value out of exactly the accounts of the kind. -/
structure Reads {α : Type} (as? : Entity → Option α) (inject : α → Entity) (kind : AccountKind) :
    Prop where
  eq_some_iff : ∀ {e value}, as? e = some value ↔ e = inject value
  kind_iff : ∀ {e}, e.kind = kind ↔ ∃ value, e = inject value

theorem reads_marginAccount : Reads marginAccount? .marginAccount .marginAccount := by
  constructor <;> intro e <;> cases e <;> simp [marginAccount?, kind]

theorem reads_group : Reads group? .group .group := by
  constructor <;> intro e <;> cases e <;> simp [group?, kind]

theorem reads_rootBank : Reads rootBank? .rootBank .rootBank := by
  constructor <;> intro e <;> cases e <;> simp [rootBank?, kind]

theorem reads_oraclePrice : Reads oraclePrice? .oraclePrice .oraclePrice := by
  constructor <;> intro e <;> cases e <;> simp [oraclePrice?, kind]

theorem reads_openOrders : Reads openOrders? .openOrders .openOrders := by
  constructor <;> intro e <;> cases e <;> simp [openOrders?, kind]

theorem reads_perpMarket : Reads perpMarket? .perpMarket .perpMarket := by
  constructor <;> intro e <;> cases e <;> simp [perpMarket?, kind]

end Entity

namespace View

def components (v : View) : List (Observed Entity) :=
  [v.account.map .marginAccount, v.group.map .group] ++
    v.rootBanks.toList.reduceOption.map (·.map .rootBank) ++
    v.oracles.toList.reduceOption.map (·.map .oraclePrice) ++
    v.openOrders.toList.reduceOption.map (·.map .openOrders) ++
    v.perpMarkets.toList.reduceOption.map (·.map .perpMarket)

def ofParts (account : Observed MarginAccount) (group : Observed Group) (parts : Lookup.Parts) :
    View where
  account
  group
  rootBanks := Vector.ofFn fun i => parts.find? (.rootBank i) Entity.rootBank?
  oracles := Vector.ofFn fun i => parts.find? (.oracle i) Entity.oraclePrice?
  openOrders := Vector.ofFn fun i => parts.find? (.openOrders i) Entity.openOrders?
  perpMarkets := Vector.ofFn fun i => parts.find? (.perpMarket i) Entity.perpMarket?
  slots := parts.slots account.slot group.slot

end View

namespace Lookup

variable {lookup : Lookup} {tolerance : Nat} {a : Address}

def Sees (lookup : Lookup) (seen : Observed Entity) : Prop :=
  ∃ v, lookup seen.address = some v ∧ v.entity = seen.value ∧ v.observedSlot = seen.slot

/-- What a requirement asks for stands at its address. -/
structure Meets (lookup : Lookup) (r : Requirement) (seen : Observed Entity) : Prop where
  set : r.address ≠ .zero
  address : seen.address = r.address
  kind : seen.value.kind = r.role.kind
  sees : lookup.Sees seen

theorem resolve_eq_ok_iff {r : Requirement} {seen : Observed Entity} :
    lookup.resolve r = .ok seen ↔ lookup.Meets r seen := by
  obtain ⟨address, slot, value⟩ := seen
  have hmeets : lookup.Meets r ⟨address, slot, value⟩ ↔
      r.address ≠ .zero ∧ address = r.address ∧ value.kind = r.role.kind ∧
        ∃ v, lookup address = some v ∧ v.entity = value ∧ v.observedSlot = slot :=
    ⟨fun h => ⟨h.set, h.address, h.kind, h.sees⟩, fun ⟨hset, h, hkind, hsees⟩ =>
      ⟨hset, h, hkind, hsees⟩⟩
  rw [resolve, hmeets]
  split
  · simp_all
  · split
    · grind
    · split <;> grind

section Reading

variable {α : Type} {as? : Entity → Option α} {inject : α → Entity} {kind : AccountKind}

theorem resolveAs_eq_ok_iff (hreads : Entity.Reads as? inject kind) {r : Requirement}
    {seen : Observed α} :
    lookup.resolveAs r as? = .ok seen ↔ lookup.resolve r = .ok (seen.map inject) := by
  rw [resolveAs, bind_eq_ok_iff]
  constructor
  · rintro ⟨found, hfound, h⟩
    cases hvalue : as? found.value with
    | none => simp [hvalue, throw, throwThe, MonadExceptOf.throw] at h
    | some value =>
      simp only [hvalue, pure, Except.pure, Except.ok.injEq] at h
      subst h
      simpa only [Observed.map, ← hreads.eq_some_iff.mp hvalue] using hfound
  · intro h
    have hvalue : as? (inject seen.value) = some seen.value := hreads.eq_some_iff.mpr rfl
    exact ⟨_, h, by simp [Observed.map, hvalue, pure, Except.pure]⟩

theorem resolveAs_eq_error_iff {r : Requirement} (hreads : Entity.Reads as? inject r.role.kind)
    {error : Failure} :
    lookup.resolveAs r as? = .error error ↔ lookup.resolve r = .error error := by
  rw [resolveAs, bind_eq_error_iff]
  refine or_iff_left ?_
  rintro ⟨found, hfound, h⟩
  obtain ⟨value, hvalue⟩ := hreads.kind_iff.mp (resolve_eq_ok_iff.mp hfound).kind
  rw [hreads.eq_some_iff.mpr hvalue] at h
  cases h

end Reading

theorem account_eq_ok_iff {seen : Observed MarginAccount} :
    lookup.account a = .ok seen ↔
      lookup.resolve ⟨a, .marginAccount⟩ = .ok (seen.map .marginAccount) :=
  resolveAs_eq_ok_iff Entity.reads_marginAccount

theorem group_eq_ok_iff {seen : Observed Group} :
    lookup.group a = .ok seen ↔ lookup.resolve ⟨a, .group⟩ = .ok (seen.map .group) :=
  resolveAs_eq_ok_iff Entity.reads_group

def Resolves (lookup : Lookup) (requirements : List Requirement) (parts : Parts) : Prop :=
  List.Forall₂ (fun r part => lookup.resolve r = .ok part.2 ∧ r.role = part.1) requirements parts

theorem resolves_iff_mapM {requirements : List Requirement} {parts : Parts} :
    (requirements.mapM fun r => return (r.role, ← lookup.resolve r)) = .ok parts ↔
      lookup.Resolves requirements parts := by
  have hpart : ∀ (r : Requirement) (part : Role × Observed Entity),
      (do return (r.role, ← lookup.resolve r)) = .ok part ↔
        lookup.resolve r = .ok part.2 ∧ r.role = part.1 := by
    rintro r ⟨role, seen⟩
    simp only [bind_eq_ok_iff, pure, Except.pure, Except.ok.injEq, Prod.mk.injEq]
    grind
  simp only [mapM_eq_ok_iff, hpart, Resolves]

theorem build_eq_ok_iff {view : View} :
    lookup.build tolerance a = .ok view ↔
      ∃ account group parts, lookup.account a = .ok account ∧
        lookup.group account.value.group = .ok group ∧
        lookup.Resolves (Requirement.plan account.value group.value) parts ∧
        (parts.slots account.slot group.slot).spread ≤ tolerance ∧
        View.ofParts account group parts = view := by
  simp only [build, bind_eq_ok_iff, resolves_iff_mapM]
  refine exists_congr fun account => ?_
  simp only [← exists_and_left]
  refine exists_congr fun group => exists_congr fun parts => ?_
  refine and_congr_right' (and_congr_right' (and_congr_right' ?_))
  split
  case isTrue h =>
    simp [throw, throwThe, MonadExceptOf.throw, Nat.not_le.mpr h]
  case isFalse h =>
    simp [Nat.not_lt.mp h, View.ofParts, pure, Except.pure]

theorem Parts.mem_of_find? {α : Type} {as? : Entity → Option α} {inject : α → Entity}
    {kind : AccountKind} (hreads : Entity.Reads as? inject kind) {parts : Parts} {role : Role}
    {seen : Observed α} (h : parts.find? role as? = some seen) :
    (role, seen.map inject) ∈ parts := by
  simp only [Parts.find?, Option.bind_eq_bind, Option.bind_eq_some_iff] at h
  obtain ⟨found, hfound, value, hvalue, hseen⟩ := h
  obtain ⟨before, after, hparts, _⟩ := List.lookup_eq_some_iff.mp hfound
  cases hseen
  rw [hparts, Observed.map, ← hreads.eq_some_iff.mp hvalue]
  simp

theorem Parts.spans_foldl (parts : Parts) {range : SlotRange} {slots : Set Slot}
    (h : range.Spans slots) :
    (parts.foldl (fun range (_, seen) => range.extend seen.slot) range).Spans
      (slots ∪ {slot | ∃ part ∈ parts, part.2.slot = slot}) := by
  induction parts generalizing range slots with
  | nil => simpa using h
  | cons part rest ih =>
    have hrest := ih (h.extend part.2.slot)
    have hslots : insert part.2.slot slots ∪ {slot | ∃ other ∈ rest, other.2.slot = slot} =
        slots ∪ {slot | ∃ other ∈ part :: rest, other.2.slot = slot} := by
      ext slot
      simp only [Set.mem_union, Set.mem_insert_iff, Set.mem_ofPred_eq, List.mem_cons]
      grind
    exact hslots ▸ hrest

theorem Parts.spans_slots (parts : Parts) (account group : Slot) :
    (parts.slots account group).Spans
      ({group, account} ∪ {slot | ∃ part ∈ parts, part.2.slot = slot}) :=
  parts.spans_foldl ((SlotRange.spans_ofSlot account).extend group)

theorem mem_components_ofParts {account : Observed MarginAccount} {group : Observed Group}
    {parts : Parts} {seen : Observed Entity}
    (h : seen ∈ (View.ofParts account group parts).components) :
    seen = account.map .marginAccount ∨ seen = group.map .group ∨
      ∃ part ∈ parts, part.2 = seen := by
  have hslots : ∀ {α : Type} {n : Nat} {as? : Entity → Option α} {inject : α → Entity}
      {kind : AccountKind} {role : Fin n → Role}, Entity.Reads as? inject kind →
      seen ∈ (Vector.ofFn fun i => parts.find? (role i) as?).toList.reduceOption.map
        (·.map inject) → ∃ part ∈ parts, part.2 = seen := by
    intro α n as? inject kind role hreads hseen
    obtain ⟨found, hfound, rfl⟩ := List.mem_map.mp hseen
    rw [List.reduceOption_mem_iff, Vector.toList_ofFn, List.mem_ofFn] at hfound
    obtain ⟨i, hi⟩ := hfound
    exact ⟨_, Parts.mem_of_find? hreads hi, rfl⟩
  simp only [View.components, View.ofParts, List.mem_append, List.mem_cons, List.not_mem_nil,
    or_false] at h
  rcases h with (((((h | h) | h) | h) | h) | h)
  · exact .inl h
  · exact .inr (.inl h)
  · exact .inr (.inr (hslots Entity.reads_rootBank h))
  · exact .inr (.inr (hslots Entity.reads_oraclePrice h))
  · exact .inr (.inr (hslots Entity.reads_openOrders h))
  · exact .inr (.inr (hslots Entity.reads_perpMarket h))

theorem Resolves.sees {requirements : List Requirement} {parts : Parts}
    (h : lookup.Resolves requirements parts) : ∀ part ∈ parts, lookup.Sees part.2 := by
  induction h with
  | nil => simp
  | cons hpart _ ih =>
    have hsees := (resolve_eq_ok_iff.mp hpart.1).sees
    exact List.forall_mem_cons.mpr ⟨hsees, ih⟩

/-- A view shows at every address what the lookup gives there, and its range is no wider
than the tolerance. -/
theorem sees_of_build {view : View} (h : lookup.build tolerance a = .ok view) :
    view.slots.spread ≤ tolerance ∧
      ∀ seen ∈ view.components, lookup.Sees seen ∧ view.slots.Covers seen.slot := by
  obtain ⟨account, group, parts, haccount, hgroup, hparts, hspread, rfl⟩ := build_eq_ok_iff.mp h
  have hspans := parts.spans_slots account.slot group.slot
  refine ⟨hspread, fun seen hseen => ?_⟩
  rcases mem_components_ofParts hseen with rfl | rfl | ⟨part, hpart, rfl⟩
  · exact ⟨(resolve_eq_ok_iff.mp (account_eq_ok_iff.mp haccount)).sees,
      hspans.covers (.inl (.inr rfl))⟩
  · exact ⟨(resolve_eq_ok_iff.mp (group_eq_ok_iff.mp hgroup)).sees,
      hspans.covers (.inl (.inl rfl))⟩
  · exact ⟨hparts.sees part hpart, hspans.covers (.inr ⟨part, hpart, rfl⟩)⟩

end Lookup

end Solvency
