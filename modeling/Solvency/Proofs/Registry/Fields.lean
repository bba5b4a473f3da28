import Solvency.Proofs.Collections
import Solvency.Registry.Basic

/-! What each operation of a registry does to its entries, live addresses, epoch and
confirmed slot. Streams and events are beside these and touch none of them. -/

namespace Solvency.Registry

variable {r : Registry} {a b : Address} {e : Entity} {s : Slot}

@[simp] theorem entries_emit (event : RegistryEvent) : (r.emit event).entries = r.entries := rfl

@[simp] theorem live_emit (event : RegistryEvent) : (r.emit event).live = r.live := rfl

@[simp] theorem epoch_emit (event : RegistryEvent) : (r.emit event).epoch = r.epoch := rfl

@[simp] theorem confirmedSlot_emit (event : RegistryEvent) :
    (r.emit event).confirmedSlot = r.confirmedSlot := rfl

@[simp] theorem entries_notify : (r.notify a).entries = r.entries := by
  rw [notify]
  split <;> rfl

@[simp] theorem live_notify : (r.notify a).live = r.live := by
  rw [notify]
  split <;> rfl

@[simp] theorem epoch_notify : (r.notify a).epoch = r.epoch := by
  rw [notify]
  split <;> rfl

@[simp] theorem confirmedSlot_notify : (r.notify a).confirmedSlot = r.confirmedSlot := by
  rw [notify]
  split <;> rfl

@[simp] theorem events_notify : (r.notify a).events = r.events := by
  rw [notify]
  split <;> rfl

@[simp] theorem entries_unsubscribe : (r.unsubscribe a).entries = r.entries := by
  rw [unsubscribe]
  split <;> rfl

@[simp] theorem live_unsubscribe : (r.unsubscribe a).live = r.live := by
  rw [unsubscribe]
  split <;> rfl

@[simp] theorem epoch_unsubscribe : (r.unsubscribe a).epoch = r.epoch := by
  rw [unsubscribe]
  split <;> rfl

@[simp] theorem confirmedSlot_unsubscribe : (r.unsubscribe a).confirmedSlot = r.confirmedSlot := by
  rw [unsubscribe]
  split <;> rfl

@[simp] theorem entries_subscribe : (r.subscribe a).2.entries = r.entries := by
  rw [subscribe]
  split <;> rfl

@[simp] theorem live_subscribe : (r.subscribe a).2.live = r.live := by
  rw [subscribe]
  split <;> rfl

@[simp] theorem epoch_subscribe : (r.subscribe a).2.epoch = r.epoch := by
  rw [subscribe]
  split <;> rfl

@[simp] theorem confirmedSlot_subscribe : (r.subscribe a).2.confirmedSlot = r.confirmedSlot := by
  rw [subscribe]
  split <;> rfl

@[simp] theorem live_put : (r.put a e s).2.live = r.live := by
  rw [put]
  split <;> simp

@[simp] theorem epoch_put : (r.put a e s).2.epoch = r.epoch := by
  rw [put]
  split <;> simp

@[simp] theorem confirmedSlot_put : (r.put a e s).2.confirmedSlot = r.confirmedSlot := by
  rw [put]
  split <;> simp

/-- What is stored at an address after an observation: a newer one replaces the entry, one at
the same slot only renews its epoch. -/
def Entry.absorb (stored : Option Entry) (epoch : Nat) (entity : Entity) (slot : Slot) : Entry :=
  match stored with
  | none => ⟨entity, slot, epoch⟩
  | some entry =>
    if entry.slot < slot then ⟨entity, slot, epoch⟩
    else if slot = entry.slot then { entry with epoch }
    else entry

theorem Entry.le_slot_absorb (stored : Option Entry) (epoch : Nat) :
    s ≤ (absorb stored epoch e s).slot ∧
      ∀ entry, stored = some entry → entry.slot ≤ (absorb stored epoch e s).slot := by
  cases stored with
  | none => simp [absorb]
  | some entry => grind [absorb]

theorem Entry.epoch_absorb {stored : Option Entry} {epoch : Nat}
    (h : ∀ entry, stored = some entry → entry.epoch = epoch ∨ entry.slot ≤ s) :
    (absorb stored epoch e s).epoch = epoch := by
  cases stored with
  | none => rfl
  | some entry => grind [absorb]

theorem find?_entries_put :
    (r.put a e s).2.entries.find? b =
      if b = a then some (Entry.absorb (r.entries.find? a) r.epoch e s)
      else r.entries.find? b := by
  rw [put, outcome]
  cases ha : r.entries.find? a with
  | none => simp [Table.find?_insert, Entry.absorb]
  | some stored =>
    by_cases hlt : stored.slot < s
    · simp [hlt, Table.find?_insert, Entry.absorb]
    · by_cases hrenew : s = stored.slot ∧ ¬ r.isFresh stored
      · by_cases hb : b = a
        · simp [hrenew, Entry.absorb, hb, ha, Table.find?_modify]
        · simp [hrenew, hb, Table.find?_modify]
      · simp only [hlt, hrenew, if_false, Entry.absorb]
        by_cases hb : b = a
        · by_cases hs : s = stored.slot
          · have hfresh : stored.epoch = r.epoch := by simpa [hs, isFresh] using hrenew
            simp [hb, ha, hs, ← hfresh]
          · simp [hb, ha, hs]
        · simp [hb]

theorem find?_entries_remove :
    (r.remove a).2.entries.find? b = if b = a then none else r.entries.find? b := by
  simp [remove, Table.find?_erase]

@[simp] theorem epoch_remove : (r.remove a).2.epoch = r.epoch := by
  simp [remove]

@[simp] theorem confirmedSlot_remove : (r.remove a).2.confirmedSlot = r.confirmedSlot := by
  simp [remove]

@[simp] theorem live_remove : (r.remove a).2.live = r.live.erase a := rfl

@[simp] theorem entries_confirmSlot : (r.confirmSlot s).entries = r.entries := by
  rw [confirmSlot]
  split <;> simp

@[simp] theorem live_confirmSlot : (r.confirmSlot s).live = r.live := by
  rw [confirmSlot]
  split <;> simp

@[simp] theorem epoch_confirmSlot : (r.confirmSlot s).epoch = r.epoch := by
  rw [confirmSlot]
  split <;> simp

@[simp] theorem confirmedSlot_confirmSlot :
    (r.confirmSlot s).confirmedSlot = max r.confirmedSlot s := by
  rw [confirmSlot]
  split
  case isTrue h => exact (Nat.max_eq_right (Nat.le_of_lt h)).symm
  case isFalse h => exact (Nat.max_eq_left (Nat.le_of_not_lt h)).symm

end Solvency.Registry
