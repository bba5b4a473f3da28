import Solvency.Proofs.Registry.Fields
import Solvency.Proofs.View.Slots

/-! What a reader of a registry sees, and the events that tell of changes in it. An address
is looked at again after an update of it, and everything is in a new epoch. -/

namespace Solvency

/-- An event after which an address has to be looked at again. -/
def RegistryEvent.Touches (a : Address) : RegistryEvent → Prop
  | updated address _ => address = a
  | slotConfirmed _ => False
  | invalidated _ => True

namespace Registry

variable {r r' : Registry} {a b : Address} {e : Entity} {slot : Slot}

theorem get?_congr (hentry : r'.entries.find? b = r.entries.find? b) (hepoch : r'.epoch = r.epoch)
    (hlive : b ∈ r'.live ↔ b ∈ r.live) (hconfirmed : r'.confirmedSlot = r.confirmedSlot) :
    r'.get? b = r.get? b := by
  have hcontains : r'.live.contains b = r.live.contains b := by
    rw [Bool.eq_iff_iff, List.contains_iff_mem, List.contains_iff_mem]
    exact hlive
  have hversioned : ∀ entry, r'.isFresh entry = r.isFresh entry ∧
      r'.versioned b entry = r.versioned b entry := by
    intro entry
    have hfresh : r'.isFresh entry = r.isFresh entry := by rw [isFresh, isFresh, hepoch]
    exact ⟨hfresh, by rw [versioned, versioned, observedSlot, observedSlot, hfresh, hcontains,
      hconfirmed]⟩
  rw [get?, get?, hentry]
  cases r.entries.find? b with
  | none => rfl
  | some entry =>
    simp only [Option.bind_eq_bind, Option.bind_some, (hversioned entry).1, (hversioned entry).2]

theorem get?_eq_some_iff {v : Versioned} :
    r.get? b = some v ↔ ∃ entry, r.entries.find? b = some entry ∧
      entry.epoch = r.epoch ∧ r.versioned b entry = v := by
  simp [get?, Option.bind_eq_some_iff, isFresh]

theorem get?_eq_none_iff :
    r.get? b = none ↔ ∀ entry, r.entries.find? b = some entry → entry.epoch ≠ r.epoch := by
  simp only [get?, Option.bind_eq_bind, Option.bind_eq_none_iff, isFresh]
  simp

theorem put_cases (r : Registry) (a : Address) (e : Entity) (slot : Slot) :
    (r.put a e slot).2.events = r.events.push (.updated a slot) ∨
      (r.put a e slot).2 = r ∧
        ∃ entry, r.entries.find? a = some entry ∧ (entry.epoch = r.epoch ∨ slot < entry.slot) := by
  rw [put]
  split
  · exact .inl (by simp [emit])
  · exact .inl (by simp [emit])
  case h_3 stored houtcome =>
    refine .inr ⟨rfl, ?_⟩
    rw [outcome] at houtcome
    split at houtcome
    · cases houtcome
    case h_2 entry hentry =>
      refine ⟨entry, hentry, ?_⟩
      split at houtcome
      · cases houtcome
      case isFalse hlt =>
        split at houtcome
        · cases houtcome
        case isFalse hsame =>
          simp only [isFresh, beq_iff_eq] at hsame
          by_cases hfresh : entry.epoch = r.epoch
          · exact .inl hfresh
          · have hne : slot ≠ entry.slot := fun heq => hsame ⟨heq, hfresh⟩
            exact .inr (Nat.lt_of_le_of_ne (Nat.le_of_not_lt hlt) hne)

theorem events_remove (r : Registry) (a : Address) : (r.remove a).2.events = r.events := by
  simp only [remove, unsubscribe]
  split <;> rfl

theorem get?_put (hb : b ≠ a) : (r.put a e slot).2.get? b = r.get? b := by
  refine get?_congr ?_ epoch_put ?_ confirmedSlot_put
  · rw [find?_entries_put, if_neg hb]
  · rw [live_put]

theorem get?_setLive (hb : b ≠ a) (live : Bool) : (r.setLive a live).get? b = r.get? b := by
  refine get?_congr rfl rfl ?_ rfl
  cases live with
  | true => exact List.mem_insert_iff.trans (or_iff_right hb)
  | false => exact List.mem_erase_of_ne hb

/-- With everything fresh being live, a confirmed slot is observed at every address. -/
theorem get?_confirmSlot (hlive : ∀ b, b ∉ r.live → r.get? b = none) :
    (r.confirmSlot slot).get? = Lookup.raise r.get? slot := by
  funext b
  by_cases hb : b ∈ r.live
  · simp only [get?, Lookup.raise, entries_confirmSlot, Option.bind_eq_bind]
    cases r.entries.find? b with
    | none => rfl
    | some entry =>
      have hcontains : r.live.contains b = true := List.contains_iff_mem.mpr hb
      by_cases hfresh : r.isFresh entry = true
      · have hfresh' : (r.confirmSlot slot).isFresh entry = true := by
          simpa only [isFresh, epoch_confirmSlot] using hfresh
        simp [hfresh, hfresh', versioned, observedSlot, hb, Versioned.raise, Nat.max_assoc]
      · have hfresh' : ¬ (r.confirmSlot slot).isFresh entry = true := by
          simpa only [isFresh, epoch_confirmSlot] using hfresh
        simp [hfresh, hfresh']
  · have hnone := hlive b hb
    have hnone' : (r.confirmSlot slot).get? b = none := by
      rw [get?_eq_none_iff] at hnone ⊢
      simpa only [entries_confirmSlot, epoch_confirmSlot] using hnone
    rw [hnone', Lookup.raise, hnone]
    rfl

end Registry

end Solvency
