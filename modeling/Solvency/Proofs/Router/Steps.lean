import Solvency.Proofs.Ledger.History
import Solvency.Router

/-! What may happen between a ledger and the router that follows it. A router with several
streams may read from any of them; otherwise it chooses in the order of its loop. -/

namespace Solvency

namespace Link

def performLedger (s : Link) (op : Ledger.Op) : Link :=
  { s with transport := { s.transport with ledger := s.transport.ledger.perform op } }

def IsQuiet (s : Link) : Prop :=
  s.router.commands = [] ∧ ∀ id ∈ s.router.streams.values, s.accountStep? id = none

/-- One thing that happens, and what it writes. A resync is answered at once, whatever else is
asked for; that allows more orders than a queue of requests does. -/
inductive Step (s : Link) : List RawAccount → Link → Prop
  | ledger (op : Ledger.Op) : Step s (s.transport.ledger.written op) (s.performLedger op)
  | wait (ms : Nat) : Step s [] { s with now := s.now + ms }
  | resync : Step s [] s.resync.2
  | command {s' : Link} (h : s.commandStep? = some s') : Step s [] s'
  | account {s' : Link} {id : Nat} (hfree : s.router.commands = [])
      (hid : id ∈ s.router.streams.values) (h : s.accountStep? id = some s') : Step s [] s'
  | slot {s' : Link} (hquiet : s.IsQuiet) (h : s.slotStep? = some s') : Step s [] s'
  | timer {s' : Link} (hquiet : s.IsQuiet) (hslot : s.slotStep? = none)
      (h : s.timerStep? = some s') : Step s [] s'

/-- Everything unread of any stream has been read. -/
def Drained (s : Link) : Prop := ∀ id ∈ s.router.streams.values, s.accountStep? id = none

theorem Drained.queue {s : Link} (h : s.Drained) {a : Address} {id : Nat} {inbox : Inbox RawAccount}
    (hid : s.router.streams.find? a = some id)
    (hfeed : s.transport.ledger.accountFeeds.find? id = some (a, inbox)) : inbox.queue = [] := by
  cases hqueue : inbox.queue with
  | nil => rfl
  | cons d queue =>
    have hnext := Ledger.nextAccount?_eq_some_iff.mpr ⟨a, inbox, queue, hfeed, hqueue, rfl⟩
    have hstep := h id (Table.mem_values_of_find? hid)
    simp [accountStep?, hnext] at hstep

theorem IsQuiet.drained {s : Link} (h : s.IsQuiet) : s.Drained := h.2

theorem commandStep?_eq_none_iff {s : Link} :
    s.commandStep? = none ↔ s.router.commands = [] := by
  rw [commandStep?]
  split <;> simp_all

theorem step_of_step? {s s' : Link} (h : s.step? = some s') : s.Step [] s' := by
  rw [step?] at h
  split at h
  case isFalse => cases h
  case isTrue =>
    cases hcommand : s.commandStep? with
    | some next =>
      simp only [hcommand, Option.some_or, Option.some.injEq] at h
      exact h ▸ .command hcommand
    | none =>
      have hfree : s.router.commands = [] := commandStep?_eq_none_iff.mp hcommand
      cases haccount : s.router.streams.values.findSome? s.accountStep? with
      | some next =>
        obtain ⟨id, hid, hstep⟩ := List.exists_of_findSome?_eq_some haccount
        simp only [hcommand, haccount, Option.none_or, Option.some_or, Option.some.injEq] at h
        exact h ▸ .account hfree hid hstep
      | none =>
        have hquiet : s.IsQuiet := ⟨hfree, List.findSome?_eq_none_iff.mp haccount⟩
        cases hslot : s.slotStep? with
        | some next =>
          simp only [hcommand, haccount, hslot, Option.none_or, Option.some_or,
            Option.some.injEq] at h
          exact h ▸ .slot hquiet hslot
        | none =>
          simp only [hcommand, haccount, hslot, Option.none_or] at h
          exact .timer hquiet hslot h

/-- The states that a router over a ledger may get into, with everything written so far. -/
inductive Reaches : Link → List RawAccount → Prop
  | start {heartbeats : Bool} {l : Ledger} {writes : List RawAccount}
      (h : l.Reaches heartbeats writes) (settings : TransportSettings) (buffer now : Nat) :
      Reaches (start { ledger := l } settings buffer now) writes
  | step {s s' : Link} {writes written : List RawAccount} (h : Reaches s writes)
      (hstep : s.Step written s') : Reaches s' (written ++ writes)
  | send {s : Link} {writes : List RawAccount} (h : Reaches s writes) (command : Router.Command) :
      Reaches (s.send command).2 writes

/-- A request that finds the queue empty is the next to be met. -/
theorem commandStep?_send_track {s : Link} (hrunning : s.router.running = true)
    (hfree : s.router.commands = []) (a : Address) :
    (s.send (.track a)).2.commandStep? = some (s.track a).2 := by
  rw [Link.send, if_pos hrunning]
  obtain ⟨transport, registry, ⟨⟩, now⟩ := s
  cases hfree
  rfl

theorem Reaches.track {s : Link} {writes : List RawAccount} (h : s.Reaches writes)
    (hrunning : s.router.running = true) (hfree : s.router.commands = []) (a : Address) :
    (s.track a).2.Reaches writes :=
  (h.send (.track a)).step (.command (commandStep?_send_track hrunning hfree a))

end Link

end Solvency
