/-! A log of events with room for the newest ones. A listener that falls behind by more
is told how many it lost, and goes on with the oldest that is left. -/

namespace Solvency

/-- The newest events first, at most `capacity` of them, and how many there ever were. -/
structure EventLog (ε : Type) where
  capacity : Nat
  recent : List ε := []
  total : Nat := 0

inductive Reception (ε : Type) where
  | event (event : ε)
  | lagged (missed : Nat)
deriving DecidableEq

namespace EventLog

variable {ε : Type}

/-- Room for at least `buffer` events: the next power of two. -/
def ofBuffer (buffer : Nat) : EventLog ε := { capacity := (max buffer 1).nextPowerOfTwo }

def push (log : EventLog ε) (event : ε) : EventLog ε :=
  { log with recent := (event :: log.recent).take log.capacity, total := log.total + 1 }

/-- What a listener that has passed `position` events receives next, and its new position. -/
def receive? (log : EventLog ε) (position : Nat) : Option (Reception ε × Nat) :=
  let behind := log.total - position
  if log.capacity < behind then
    some (.lagged (behind - log.capacity), log.total - log.capacity)
  else
    match behind with
    | 0 => none
    | n + 1 => log.recent[n]?.map fun event => (.event event, position + 1)

def pending (log : EventLog ε) (position : Nat) : List (Reception ε) :=
  let behind := log.total - position
  if log.capacity < behind then
    .lagged (behind - log.capacity) :: log.recent.reverse.map .event
  else
    (log.recent.take behind).reverse.map .event

end EventLog

end Solvency
