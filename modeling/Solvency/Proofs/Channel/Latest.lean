import Solvency.Channel.Latest

/-! What a reader finds in a channel that holds the newest value only, and what it has seen
of the channel after a look. -/

namespace Solvency.Latest

variable {α : Type}

theorem poll_snd (c : Latest α) (seen : Option Nat) : (c.poll seen).2 = some c.version := by
  rw [poll]
  split
  case isTrue hseen => exact hseen
  case isFalse => rfl

/-- A look finds what is held unless the reader has seen this version. -/
theorem poll_fst (c : Latest α) (seen : Option Nat) :
    (c.poll seen).1 = if seen = some c.version then c.idle else c.value.elim c.idle .item := by
  rw [poll]
  split <;> rfl

theorem idle_of_open {c : Latest α} (hopen : c.isOpen = true) : c.idle = .pending := by
  rw [idle, if_pos hopen]

theorem idle_of_closed {c : Latest α} (hclosed : c.isOpen = false) : c.idle = .ended := by
  rw [idle, hclosed]
  rfl

theorem poll_eq_item_iff {c : Latest α} {seen : Option Nat} {value : α} :
    (c.poll seen).1 = .item value ↔ seen ≠ some c.version ∧ c.value = some value := by
  have hidle : c.idle ≠ .item value := by
    rw [idle]
    split <;> nofun
  rw [poll_fst]
  by_cases hseen : seen = some c.version
  · simp [hseen, hidle]
  · cases hvalue : c.value with
    | none => simp [hseen, hidle]
    | some held => simp [hseen]

end Solvency.Latest
