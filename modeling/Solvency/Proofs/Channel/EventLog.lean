import Mathlib.Data.List.Basic
import Solvency.Channel.EventLog

/-! What a listener of a bounded log has coming to it. An event that is pushed stays
outstanding until it is received, or until the listener is told that it lost some. -/

namespace Solvency.EventLog

variable {ε : Type} {log : EventLog ε} {position : Nat} {p q : ε → Prop}

/-- The log holds as many of the newest events as there is room for. -/
structure Full (log : EventLog ε) : Prop where
  room : 0 < log.capacity
  length : log.recent.length = min log.total log.capacity

/-- A listener has lost events, or an event of a kind is among those it has yet to receive. -/
def Outstanding (log : EventLog ε) (position : Nat) (p : ε → Prop) : Prop :=
  log.capacity < log.total - position ∨ ∃ event ∈ log.recent.take (log.total - position), p event

theorem full_ofBuffer (buffer : Nat) : (ofBuffer buffer : EventLog ε).Full :=
  ⟨Nat.pos_of_isPowerOfTwo (Nat.isPowerOfTwo_nextPowerOfTwo _), by simp [ofBuffer]⟩

theorem Full.push (h : log.Full) (event : ε) : (log.push event).Full := by
  have hlength := h.length
  refine ⟨h.room, ?_⟩
  simp only [EventLog.push, List.length_take, List.length_cons]
  omega

theorem Outstanding.imp (h : log.Outstanding position p) (hpq : ∀ event, p event → q event) :
    log.Outstanding position q := by
  rcases h with hlost | ⟨event, hmem, hp⟩
  · exact .inl hlost
  · exact .inr ⟨event, hmem, hpq event hp⟩

theorem mem_take_push {event other : ε} {n : Nat} (hn : n + 1 ≤ log.capacity)
    (h : other = event ∨ other ∈ log.recent.take n) :
    other ∈ (log.push event).recent.take (n + 1) := by
  have htake : (log.push event).recent.take (n + 1) = event :: log.recent.take n := by
    simp only [push, List.take_take, Nat.min_eq_left hn, List.take_succ_cons]
  rw [htake]
  exact List.mem_cons.mpr h

theorem Outstanding.push (h : log.Outstanding position p) (hposition : position ≤ log.total)
    (event : ε) : (log.push event).Outstanding position p := by
  have hbehind : (log.push event).total - position = (log.total - position) + 1 := by
    have htotal : (log.push event).total = log.total + 1 := rfl
    omega
  by_cases hlost : log.capacity < (log.total - position) + 1
  · exact .inl (hbehind ▸ hlost)
  · rcases h with hlost' | ⟨other, hmem, hp⟩
    · exact absurd (Nat.lt_succ_of_lt hlost') hlost
    · refine .inr ⟨other, ?_, hp⟩
      rw [hbehind]
      exact mem_take_push (Nat.le_of_not_lt hlost) (.inr hmem)

theorem outstanding_push (hposition : position ≤ log.total) {event : ε} (hp : p event) :
    (log.push event).Outstanding position p := by
  have hbehind : (log.push event).total - position = (log.total - position) + 1 := by
    have htotal : (log.push event).total = log.total + 1 := rfl
    omega
  by_cases hlost : log.capacity < (log.total - position) + 1
  · exact .inl (hbehind ▸ hlost)
  · refine .inr ⟨event, ?_, hp⟩
    rw [hbehind]
    exact mem_take_push (Nat.le_of_not_lt hlost) (.inl rfl)

theorem Full.foldl (h : log.Full) (new : List ε) : (new.foldl EventLog.push log).Full := by
  induction new generalizing log with
  | nil => exact h
  | cons event rest ih => exact ih (h.push event)

theorem total_le_foldl (log : EventLog ε) (new : List ε) :
    log.total ≤ (new.foldl EventLog.push log).total := by
  induction new generalizing log with
  | nil => exact Nat.le_refl _
  | cons event rest ih => exact Nat.le_trans (Nat.le_succ _) (ih (log.push event))

theorem Outstanding.foldl (h : log.Outstanding position p) (hposition : position ≤ log.total)
    (new : List ε) : (new.foldl EventLog.push log).Outstanding position p := by
  induction new generalizing log with
  | nil => exact h
  | cons event rest ih => exact ih (h.push hposition event) (Nat.le_succ_of_le hposition)

theorem outstanding_foldl (hposition : position ≤ log.total) {new : List ε} {event : ε}
    (hmem : event ∈ new) (hp : p event) :
    (new.foldl EventLog.push log).Outstanding position p := by
  induction new generalizing log with
  | nil => cases hmem
  | cons first rest ih =>
    have hnext : position ≤ (log.push first).total := Nat.le_succ_of_le hposition
    rcases List.mem_cons.mp hmem with rfl | hmem
    · exact (outstanding_push hposition hp).foldl hnext rest
    · exact ih hnext hmem

/-- Receiving either reports a loss, or takes the oldest event and leaves the others. -/
theorem receive?_cases (hposition : position ≤ log.total)
    {reception : Reception ε} {next : Nat} (hr : log.receive? position = some (reception, next)) :
    next ≤ log.total ∧
      ((∃ missed, reception = .lagged missed) ∨ ∃ event, reception = .event event ∧
        ∀ p, log.Outstanding position p → p event ∨ log.Outstanding next p) := by
  simp only [receive?] at hr
  split at hr
  case isTrue =>
    cases hr
    exact ⟨Nat.sub_le _ _, .inl ⟨_, rfl⟩⟩
  case isFalse hlost =>
    split at hr
    · cases hr
    case h_2 n hbehind =>
      obtain ⟨event, hevent, heq⟩ := Option.map_eq_some_iff.mp hr
      cases heq
      refine ⟨by omega, .inr ⟨event, rfl, fun p hp => ?_⟩⟩
      have hnext : log.total - (position + 1) = n := by omega
      rcases hp with hlost' | ⟨other, hmem, hp⟩
      · exact absurd hlost' hlost
      · rw [hbehind, List.take_add_one, hevent] at hmem
        rcases List.mem_append.mp hmem with hmem | hmem
        · exact .inr (.inr ⟨other, hnext ▸ hmem, hp⟩)
        · cases List.mem_singleton.mp hmem
          exact .inl hp

theorem not_outstanding (h : log.Full) (hr : log.receive? position = none) :
    ¬ log.Outstanding position p := by
  have hlength := h.length
  simp only [receive?] at hr
  split at hr
  · cases hr
  case isFalse hlost =>
    split at hr
    case h_1 hbehind =>
      rintro (hlost' | ⟨event, hmem, _⟩)
      · exact hlost hlost'
      · rw [hbehind] at hmem
        cases hmem
    case h_2 n hbehind =>
      rw [Option.map_eq_none_iff, List.getElem?_eq_none_iff] at hr
      omega

/-- What was ever pushed, oldest first, with as many of the newest events held as there is room
for. -/
structure Records (log : EventLog ε) (all : List ε) : Prop where
  total : log.total = all.length
  recent : log.recent = all.reverse.take log.capacity

theorem records_ofBuffer (buffer : Nat) : (ofBuffer buffer : EventLog ε).Records [] :=
  ⟨rfl, by simp [ofBuffer]⟩

theorem Records.push {all : List ε} (h : log.Records all) (event : ε) :
    (log.push event).Records (all ++ [event]) where
  total := by simp [EventLog.push, h.total]
  recent := by
    have hcapacity : (log.push event).capacity = log.capacity := rfl
    rw [hcapacity, EventLog.push, h.recent, List.reverse_append, List.reverse_singleton,
      List.singleton_append]
    cases log.capacity with
    | zero => rfl
    | succ room => simp [List.take_take]

/-- A listener that is not too far behind receives the oldest event that it has not passed. -/
theorem Records.receive?_eq {all : List ε} (h : log.Records all)
    (hroom : ¬ log.capacity < log.total - position) :
    log.receive? position = all[position]?.map fun event => (.event event, position + 1) := by
  rw [receive?, if_neg hroom]
  rw [h.total] at hroom ⊢
  split
  case h_1 hbehind => rw [List.getElem?_eq_none (by omega), Option.map_none]
  case h_2 n hbehind =>
    have hn : n < log.capacity := by omega
    have hposition : all.length - 1 - n = position := by omega
    rw [h.recent, List.getElem?_take_of_lt hn, List.getElem?_reverse (by omega), hposition]

end Solvency.EventLog
