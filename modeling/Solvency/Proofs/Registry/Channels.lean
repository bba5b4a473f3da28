import Solvency.Proofs.Registry.Events
import Solvency.Proofs.Registry.History

/-! What each operation of a registry does to its channels. The channel of an address says what
the entry of the address says, or said before the last gap, and no channel serves two addresses. -/

namespace Solvency.Registry

variable {r r' : Registry} {a b : Address} {e : Entity} {s : Slot} {id : Nat}
  {channel : Latest Versioned} {op : Op}

/-- Closes every stream of an address. -/
def Op.closes : Op → Address → Bool
  | .unsubscribe other, a => other = a
  | .remove other, a => other = a
  | _, _ => false

/-- What is sent to the channel of an address. -/
def Op.sends? (r : Registry) : Op → Address → Option Versioned
  | .put other e s, a =>
    if other = a ∧ (r.put a e s).1.isObserved then (r.put a e s).2.get? a else none
  | _, _ => none

/-- An open channel whose value is that of the entry, and is there if the entry is fresh. -/
structure Airs (r : Registry) (a : Address) (channel : Latest Versioned) : Prop where
  isOpen : channel.isOpen = true
  held : ∀ v, channel.value = some v → ∃ entry, r.entries.find? a = some entry ∧
    v.entity = entry.entity ∧ v.slot = entry.slot
  fresh : ∀ entry, r.entries.find? a = some entry → entry.epoch = r.epoch → channel.value ≠ none

theorem Airs.isSome_value (h : r.Airs a channel) (hget : (r.get? a).isSome = true) :
    channel.value.isSome = true := by
  obtain ⟨v, hv⟩ := Option.isSome_iff_exists.mp hget
  obtain ⟨entry, hentry, hepoch, _⟩ := get?_eq_some_iff.mp hv
  exact Option.isSome_iff_ne_none.mpr (h.fresh entry hentry hepoch)

structure Tuned (r : Registry) : Prop where
  epoch_le : ∀ a entry, r.entries.find? a = some entry → entry.epoch ≤ r.epoch
  lt_next : ∀ id channel, r.channels.find? id = some channel → id < r.nextChannel
  apart : ∀ a b id, r.watchers.find? a = some id → r.watchers.find? b = some id → a = b
  airs : ∀ a id, r.watchers.find? a = some id →
    ∃ channel, r.channels.find? id = some channel ∧ r.Airs a channel

section Put

theorem put_of_not_observed (h : (r.put a e s).1.isObserved = false) : (r.put a e s).2 = r := by
  rw [put] at h ⊢
  split at h
  · cases h
  · cases h
  · rfl

theorem put_of_observed (h : (r.put a e s).1.isObserved = true) :
    ∃ entries, (r.put a e s).2 = ({ r with entries }.notify a).emit (.updated a s) := by
  rw [put] at h ⊢
  split at h
  · exact ⟨_, rfl⟩
  · exact ⟨_, rfl⟩
  · cases h

/-- An observation that counts is newer than the entry, or renews it at the same slot. -/
theorem observed_cases (h : (r.put a e s).1.isObserved = true) {stored : Entry}
    (hstored : r.entries.find? a = some stored) :
    stored.slot < s ∨ s = stored.slot ∧ (r.put a e s).1 = .revalidated := by
  rw [put_fst] at h ⊢
  rw [outcome, hstored] at h ⊢
  dsimp only at h ⊢
  by_cases hlt : stored.slot < s
  · exact .inl hlt
  · rw [if_neg hlt] at h ⊢
    by_cases hrenew : s = stored.slot ∧ ¬ r.isFresh stored
    · exact .inr ⟨hrenew.1, if_pos hrenew⟩
    · rw [if_neg hrenew] at h
      cases h

theorem get?_put_of_observed (h : (r.put a e s).1.isObserved = true) :
    ∃ v, (r.put a e s).2.get? a = some v ∧ v.slot = s := by
  have hentry := find?_entries_put (r := r) (a := a) (e := e) (s := s) (b := a)
  rw [if_pos rfl] at hentry
  refine ⟨_, get?_eq_some_iff.mpr ⟨_, hentry, ?_, rfl⟩, ?_⟩
  · rw [epoch_put]
    refine Entry.epoch_absorb fun stored hstored => .inr ?_
    rcases observed_cases h hstored with hlt | ⟨hsame, _⟩
    · exact Nat.le_of_lt hlt
    · exact Nat.le_of_eq hsame.symm
  · change (Entry.absorb _ _ _ _).slot = s
    cases hstored : r.entries.find? a with
    | none => rfl
    | some stored =>
      rcases observed_cases h hstored with hlt | ⟨hsame, _⟩
      · rw [Entry.absorb, if_pos hlt]
      · have hle : ¬ stored.slot < s := Nat.not_lt.mpr (Nat.le_of_eq hsame)
        rw [Entry.absorb, if_neg hle, if_pos hsame]
        exact hsame.symm

theorem find?_channels_put (hr : r.Tuned) (h : (r.put a e s).1.isObserved = true) {v : Versioned}
    (hv : (r.put a e s).2.get? a = some v) :
    (r.put a e s).2.channels.find? id =
      if r.watchers.find? a = some id then (r.channels.find? id).map (·.send v)
      else r.channels.find? id := by
  obtain ⟨entries, hput⟩ := put_of_observed h
  have hget : { r with entries }.get? a = some v := by
    rw [hput] at hv
    rw [← hv]
    exact (get?_congr (by simp) (by simp) (by simp) (by simp)).symm
  rw [hput]
  change (({ r with entries } : Registry).notify a).channels.find? id = _
  cases hid : r.watchers.find? a with
  | none => simp [notify, hid]
  | some own =>
    obtain ⟨channel, hchannel, hairs⟩ := hr.airs a own hid
    -- the channel holds nothing newer than the entry, so what is put is not held back
    have hsend : channel.value.any (v.slot < ·.slot) = false := by
      cases hvalue : channel.value with
      | none => rfl
      | some held =>
        obtain ⟨stored, hstored, _, hslot⟩ := hairs.held held hvalue
        obtain ⟨v', hv', hs⟩ := get?_put_of_observed h
        cases hv.symm.trans hv'
        have hle : held.slot ≤ v.slot := by
          rw [hslot, hs]
          rcases observed_cases h hstored with hlt | ⟨hsame, _⟩
          · exact Nat.le_of_lt hlt
          · exact Nat.le_of_eq hsame.symm
        simpa using hle
    simp only [notify, hid, hget, Table.find?_modify]
    by_cases hown : id = own
    · subst hown
      simp [hchannel, hsend]
    · simp [hown, Ne.symm hown]

end Put

section Perform

@[simp] theorem watchers_notify : (r.notify a).watchers = r.watchers := by
  rw [notify]
  split <;> rfl

@[simp] theorem nextChannel_notify : (r.notify a).nextChannel = r.nextChannel := by
  rw [notify]
  split <;> rfl

theorem watchers_put : (r.put a e s).2.watchers = r.watchers := by
  rw [put]
  split <;> simp [emit]

theorem nextChannel_put : (r.put a e s).2.nextChannel = r.nextChannel := by
  rw [put]
  split <;> simp [emit]

theorem find?_watchers_unsubscribe :
    (r.unsubscribe a).watchers.find? b = if b = a then none else r.watchers.find? b := by
  rw [unsubscribe]
  split
  case h_1 hnone =>
    split
    case isTrue hb => rw [hb, hnone]
    case isFalse => rfl
  · exact r.watchers.find?_erase a b

theorem find?_channels_unsubscribe :
    (r.unsubscribe a).channels.find? id =
      if r.watchers.find? a = some id then (r.channels.find? id).map Latest.close
      else r.channels.find? id := by
  rw [unsubscribe]
  cases hid : r.watchers.find? a with
  | none => simp
  | some own => simp [Table.find?_modify, eq_comm]

theorem find?_watchers_perform (r : Registry) (op : Op) (b : Address) :
    (r.perform op).watchers.find? b =
      if op.closes b then none
      else if op = .subscribe b then some ((r.watchers.find? b).getD r.nextChannel)
      else r.watchers.find? b := by
  cases op with
  | put a e s => simp [perform, Op.closes, watchers_put]
  | get a => simp [perform, Op.closes]
  | peek a => simp [perform, Op.closes]
  | remove a =>
    simp only [perform, remove, find?_watchers_unsubscribe, Op.closes]
    by_cases hb : b = a <;> simp [hb, eq_comm]
  | invalidateAll => simp [perform, Op.closes, invalidateAll, emit]
  | confirmSlot s =>
    simp only [perform, confirmSlot, Op.closes]
    split <;> simp [emit]
  | setLive a live => simp [perform, Op.closes, setLive]
  | subscribe a =>
    simp only [perform, subscribe, Op.closes]
    split
    case h_1 own hown =>
      by_cases hb : b = a <;> simp [hb, hown, eq_comm]
    case h_2 hnone =>
      by_cases hb : b = a <;> simp [hb, hnone, Table.find?_insert, eq_comm]
  | unsubscribe a =>
    simp only [perform, find?_watchers_unsubscribe, Op.closes]
    by_cases hb : b = a <;> simp [hb, eq_comm]

/-- An address keeps its channel until its streams are closed, and gets a new one with its first. -/
theorem watched_of_perform (h : (r.perform op).watchers.find? a = some id) :
    op.closes a = false ∧ (r.watchers.find? a = some id ∨
      op = .subscribe a ∧ r.watchers.find? a = none ∧ id = r.nextChannel) := by
  rw [find?_watchers_perform] at h
  split at h
  · cases h
  case isFalse hcloses =>
    refine ⟨eq_false_of_ne_true hcloses, ?_⟩
    split at h
    case isTrue hop =>
      cases ha : r.watchers.find? a with
      | none => exact .inr ⟨hop, rfl, by simpa [ha, eq_comm] using h⟩
      | some own => exact .inl (by simpa [ha] using h)
    case isFalse => exact .inl h

theorem nextChannel_perform (r : Registry) (op : Op) :
    r.nextChannel ≤ (r.perform op).nextChannel := by
  cases op with
  | put a e s => exact Nat.le_of_eq nextChannel_put.symm
  | get a => exact Nat.le_refl _
  | peek a => exact Nat.le_refl _
  | remove a =>
    simp only [perform, remove, unsubscribe]
    split <;> exact Nat.le_refl _
  | invalidateAll => exact Nat.le_refl _
  | confirmSlot s =>
    simp only [perform, confirmSlot]
    split <;> exact Nat.le_refl _
  | setLive a live => exact Nat.le_refl _
  | subscribe a =>
    simp only [perform, subscribe]
    split
    · exact Nat.le_refl _
    · exact Nat.le_succ _
  | unsubscribe a =>
    simp only [perform, unsubscribe]
    split <;> exact Nat.le_refl _

theorem epoch_le_perform (r : Registry) (op : Op) : r.epoch ≤ (r.perform op).epoch := by
  cases op <;> simp [perform, setLive, invalidateAll]

theorem find?_entries_perform (hcloses : op.closes a = false) (hsends : op.sends? r a = none) :
    (r.perform op).entries.find? a = r.entries.find? a := by
  cases op with
  | put b e s =>
    by_cases hb : b = a
    · subst hb
      cases hobserved : (r.put b e s).1.isObserved with
      | false => rw [perform, put_of_not_observed hobserved]
      | true =>
        obtain ⟨v, hv, _⟩ := get?_put_of_observed hobserved
        simp [Op.sends?, hobserved, hv] at hsends
    · rw [perform, find?_entries_put, if_neg (Ne.symm hb)]
  | remove b =>
    have hb : a ≠ b := by simpa [Op.closes, eq_comm] using hcloses
    rw [perform, find?_entries_remove, if_neg hb]
  | confirmSlot s => rw [perform, entries_confirmSlot]
  | subscribe b => rw [perform, entries_subscribe]
  | unsubscribe b => rw [perform, entries_unsubscribe]
  | _ => rfl

theorem sends?_eq_some {v : Versioned} (h : op.sends? r a = some v) :
    ∃ e s, op = .put a e s ∧ (r.put a e s).1.isObserved = true ∧
      (r.put a e s).2.get? a = some v ∧ v.slot = s := by
  cases op with
  | put b e s =>
    rw [Op.sends?] at h
    split at h
    case isTrue hcond =>
      obtain ⟨rfl, hobserved⟩ := hcond
      obtain ⟨v', hv', hs⟩ := get?_put_of_observed hobserved
      cases h.symm.trans hv'
      exact ⟨e, s, rfl, hobserved, h, hs⟩
    case isFalse => cases h
  | _ => cases h

theorem find?_channels_remove :
    (r.remove a).2.channels.find? id =
      if r.watchers.find? a = some id then (r.channels.find? id).map Latest.close
      else r.channels.find? id :=
  find?_channels_unsubscribe

theorem sends?_of_not_observed (h : (r.put a e s).1.isObserved = false) (b : Address) :
    (Op.put a e s).sends? r b = none := by
  rw [Op.sends?, if_neg]
  rintro ⟨rfl, htrue⟩
  rw [h] at htrue
  cases htrue

/-- All that an operation does to a channel: it closes it, sends to it, opens it or leaves it. -/
theorem Tuned.channels_cases (hr : r.Tuned) (op : Op) (id : Nat) :
    ((r.perform op).channels.find? id = r.channels.find? id ∧
      ∀ a, r.watchers.find? a = some id → op.closes a = false ∧ op.sends? r a = none) ∨
    (∃ a, r.watchers.find? a = some id ∧ op.closes a = true ∧
      (r.perform op).channels.find? id = (r.channels.find? id).map Latest.close) ∨
    (∃ a v, r.watchers.find? a = some id ∧ op.closes a = false ∧ op.sends? r a = some v ∧
      (r.perform op).channels.find? id = (r.channels.find? id).map (·.send v)) ∨
    ∃ a, op = .subscribe a ∧ r.watchers.find? a = none ∧ id = r.nextChannel := by
  cases op with
  | put a e s =>
    cases hobserved : (r.put a e s).1.isObserved with
    | false =>
      rw [perform, put_of_not_observed hobserved]
      exact .inl ⟨rfl, fun b _ => ⟨rfl, sends?_of_not_observed hobserved b⟩⟩
    | true =>
      obtain ⟨v, hv, _⟩ := get?_put_of_observed hobserved
      rw [perform, find?_channels_put hr hobserved hv]
      by_cases ha : r.watchers.find? a = some id
      · rw [if_pos ha]
        exact .inr (.inr (.inl ⟨a, v, ha, rfl, by simp [Op.sends?, hobserved, hv], rfl⟩))
      · rw [if_neg ha]
        refine .inl ⟨rfl, fun b hb => ⟨rfl, ?_⟩⟩
        have hne : a ≠ b := fun heq => ha (heq ▸ hb)
        simp [Op.sends?, hne]
  | remove a =>
    rw [perform, find?_channels_remove]
    by_cases ha : r.watchers.find? a = some id
    · rw [if_pos ha]
      exact .inr (.inl ⟨a, ha, decide_eq_true rfl, rfl⟩)
    · rw [if_neg ha]
      exact .inl ⟨rfl, fun b hb => ⟨decide_eq_false fun heq => ha (heq ▸ hb), rfl⟩⟩
  | unsubscribe a =>
    rw [perform, find?_channels_unsubscribe]
    by_cases ha : r.watchers.find? a = some id
    · rw [if_pos ha]
      exact .inr (.inl ⟨a, ha, decide_eq_true rfl, rfl⟩)
    · rw [if_neg ha]
      exact .inl ⟨rfl, fun b hb => ⟨decide_eq_false fun heq => ha (heq ▸ hb), rfl⟩⟩
  | confirmSlot s =>
    refine .inl ⟨?_, fun _ _ => ⟨rfl, rfl⟩⟩
    rw [perform, confirmSlot]
    split <;> rfl
  | subscribe a =>
    cases ha : r.watchers.find? a with
    | some own =>
      refine .inl ⟨?_, fun _ _ => ⟨rfl, rfl⟩⟩
      rw [perform, subscribe, ha]
    | none =>
      by_cases hid : id = r.nextChannel
      · exact .inr (.inr (.inr ⟨a, rfl, ha, hid⟩))
      · refine .inl ⟨?_, fun _ _ => ⟨rfl, rfl⟩⟩
        simp [perform, subscribe, ha, Table.find?_insert, hid]
  | _ => exact .inl ⟨rfl, fun _ _ => ⟨rfl, rfl⟩⟩

theorem Tuned.channel_unwatched (hr : r.Tuned) (op : Op)
    (hid : r.channels.find? id = some channel) (hfree : ∀ b, r.watchers.find? b ≠ some id) :
    (r.perform op).channels.find? id = some channel ∧
      ∀ b, (r.perform op).watchers.find? b ≠ some id := by
  have hne : id ≠ r.nextChannel := Nat.ne_of_lt (hr.lt_next id channel hid)
  refine ⟨?_, fun b hb => ?_⟩
  · rcases hr.channels_cases op id with ⟨hsame, _⟩ | ⟨a, ha, _⟩ | ⟨a, _, ha, _⟩ | ⟨_, _, _, hnew⟩
    · rw [hsame, hid]
    · exact absurd ha (hfree a)
    · exact absurd ha (hfree a)
    · exact absurd hnew hne
  · obtain ⟨_, hold | ⟨_, _, hnew⟩⟩ := watched_of_perform hb
    · exact hfree b hold
    · exact hne hnew

/-- The channel of an address is sent what its entry says, and closed with its streams. -/
theorem Tuned.channel_watched (hr : r.Tuned) (op : Op) (ha : r.watchers.find? a = some id)
    (hid : r.channels.find? id = some channel) :
    (r.perform op).channels.find? id = some
      (if op.closes a then channel.close else (op.sends? r a).elim channel channel.send) := by
  have hne : id ≠ r.nextChannel := Nat.ne_of_lt (hr.lt_next id channel hid)
  rcases hr.channels_cases op id with ⟨hsame, hleft⟩ | ⟨b, hb, hcloses, hclosed⟩ |
    ⟨b, v, hb, hcloses, hsends, hsent⟩ | ⟨_, _, _, hnew⟩
  · obtain ⟨hcloses, hsends⟩ := hleft a ha
    rw [hsame, hid, hcloses, hsends]
    rfl
  · rw [hclosed, hid, hr.apart a b id ha hb, hcloses]
    rfl
  · rw [hsent, hid, hr.apart a b id ha hb, hcloses, hsends]
    rfl
  · exact absurd hnew hne

theorem Tuned.lt_next_perform (hr : r.Tuned) (op : Op)
    (hid : (r.perform op).channels.find? id = some channel) : id < (r.perform op).nextChannel := by
  have hold : ∀ {found}, r.channels.find? id = some found → id < (r.perform op).nextChannel :=
    fun h => Nat.lt_of_lt_of_le (hr.lt_next id _ h) (r.nextChannel_perform op)
  rcases hr.channels_cases op id with ⟨hsame, _⟩ | ⟨_, _, _, hclosed⟩ | ⟨_, _, _, _, _, hsent⟩ |
    ⟨a, rfl, ha, rfl⟩
  · exact hold (hsame ▸ hid)
  · obtain ⟨found, hfound, _⟩ := Option.map_eq_some_iff.mp (hclosed ▸ hid)
    exact hold hfound
  · obtain ⟨found, hfound, _⟩ := Option.map_eq_some_iff.mp (hsent ▸ hid)
    exact hold hfound
  · simp [perform, subscribe, ha]

theorem get?_subscribe : (r.subscribe a).2.get? b = r.get? b :=
  get?_congr (by simp) (by simp) (by simp) (by simp)

theorem find?_channels_subscribe (hnone : r.watchers.find? a = none) :
    (r.perform (.subscribe a)).watchers.find? a = some r.nextChannel ∧
      (r.perform (.subscribe a)).channels.find? r.nextChannel = some { value := r.get? a } := by
  simp [perform, subscribe, hnone, Table.find?_insert]

theorem Airs.opened (r : Registry) (a : Address) :
    (r.perform (.subscribe a)).Airs a { value := r.get? a } where
  isOpen := rfl
  held v hv := by
    obtain ⟨entry, hentry, _, rfl⟩ := get?_eq_some_iff.mp hv
    exact ⟨entry, by rw [perform, entries_subscribe, hentry], rfl, rfl⟩
  fresh entry hentry hepoch := by
    rw [perform, entries_subscribe] at hentry
    rw [perform, epoch_subscribe] at hepoch
    exact Option.isSome_iff_ne_none.mp
      (Option.isSome_of_mem (get?_eq_some_iff.mpr ⟨entry, hentry, hepoch, rfl⟩))

theorem Airs.kept (hr : r.Tuned) (h : r.Airs a channel) (op : Op) (hcloses : op.closes a = false)
    (hsends : op.sends? r a = none) : (r.perform op).Airs a channel where
  isOpen := h.isOpen
  held := by
    rw [find?_entries_perform hcloses hsends]
    exact h.held
  fresh entry hentry hepoch := by
    rw [find?_entries_perform hcloses hsends] at hentry
    have hle := hr.epoch_le a entry hentry
    exact h.fresh entry hentry (Nat.le_antisymm hle (hepoch ▸ r.epoch_le_perform op))

theorem Airs.sent {v : Versioned} (hopen : channel.isOpen = true) (h : r.get? a = some v) :
    r.Airs a (channel.send v) where
  isOpen := hopen
  held v' hv' := by
    cases hv'
    obtain ⟨entry, hentry, _, rfl⟩ := get?_eq_some_iff.mp h
    exact ⟨entry, hentry, rfl, rfl⟩
  fresh _ _ _ := nofun

theorem Tuned.epoch_le_perform (hr : r.Tuned) (op : Op) {entry : Entry}
    (h : (r.perform op).entries.find? a = some entry) : entry.epoch ≤ (r.perform op).epoch := by
  have hold : r.entries.find? a = some entry → entry.epoch ≤ (r.perform op).epoch := fun hentry =>
    Nat.le_trans (hr.epoch_le a entry hentry) (r.epoch_le_perform op)
  cases hcloses : op.closes a with
  | true =>
    cases op with
    | remove b =>
      have hb : b = a := by simpa [Op.closes] using hcloses
      simp [perform, find?_entries_remove, hb] at h
    | unsubscribe b =>
      rw [perform, entries_unsubscribe] at h
      exact hold h
    | _ => cases hcloses
  | false =>
    cases hsends : op.sends? r a with
    | none => exact hold (find?_entries_perform hcloses hsends ▸ h)
    | some v =>
      obtain ⟨e, s, rfl, _, hv, _⟩ := sends?_eq_some hsends
      obtain ⟨fresh, hfresh, hepoch, _⟩ := get?_eq_some_iff.mp hv
      cases hfresh.symm.trans h
      exact Nat.le_of_eq hepoch

/-- What one operation preserves. -/
theorem Tuned.perform (hr : r.Tuned) (op : Op) : (r.perform op).Tuned where
  epoch_le _ _ := hr.epoch_le_perform op
  lt_next _ _ := hr.lt_next_perform op
  apart a b id ha hb := by
    have hnew : ∀ b, r.watchers.find? b ≠ some r.nextChannel := by
      intro b hb
      obtain ⟨channel, hchannel, _⟩ := hr.airs b _ hb
      exact Nat.lt_irrefl _ (hr.lt_next _ channel hchannel)
    obtain ⟨_, ha | ⟨hop, _, rfl⟩⟩ := watched_of_perform ha
    · obtain ⟨_, hb | ⟨_, _, rfl⟩⟩ := watched_of_perform hb
      · exact hr.apart a b id ha hb
      · exact absurd ha (hnew a)
    · obtain ⟨_, hb | ⟨hop', _⟩⟩ := watched_of_perform hb
      · exact absurd hb (hnew b)
      · exact Op.subscribe.inj (hop.symm.trans hop')
  airs a id ha := by
    obtain ⟨hcloses, hold | ⟨rfl, hnone, rfl⟩⟩ := watched_of_perform ha
    · obtain ⟨channel, hchannel, hairs⟩ := hr.airs a id hold
      refine ⟨_, hr.channel_watched op hold hchannel, ?_⟩
      rw [hcloses]
      cases hsends : op.sends? r a with
      | none => exact hairs.kept hr op hcloses hsends
      | some v =>
        obtain ⟨e, s, rfl, _, hv, _⟩ := sends?_eq_some hsends
        exact .sent hairs.isOpen hv
    · exact ⟨_, (find?_channels_subscribe hnone).2, .opened r a⟩

theorem tuned_ofBuffer (buffer : Nat) : (ofBuffer buffer).Tuned :=
  ⟨fun _ _ => nofun, fun _ _ => nofun, fun _ _ _ => nofun, fun _ _ => nofun⟩

end Perform

end Solvency.Registry
