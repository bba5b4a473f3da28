import Solvency.Push.Scheduler

/-! The engine: what callers may ask of it, and how time passes in it. -/

namespace Solvency

/-- More steps than any one request or timer leads to. -/
def stepLimit : Nat := 1000000

/-- Rounds of loading: the account, its group, their references, and one to spare. -/
def loadRounds : Nat := 4

/-- Composes a view, tracking what is missing in between. Each round can reveal only the next
layer of references. When the rounds are used up, the failure is that of the last one. -/
def loadWith {σ : Type} (track : σ → Address → Except Failure Unit × σ) (lookup : σ → Lookup)
    (tolerance : Nat) (account : Address) :
    (rounds : Nat) → Option Failure → σ → Except Failure View × σ
  | 0, last, s =>
    (match (lookup s).build tolerance account with
      | .ok view => .ok view
      | .error error => .error (last.getD error), s)
  | rounds + 1, _, s =>
    match (lookup s).build tolerance account with
    | .ok view => (.ok view, s)
    | .error error =>
      if error.isTransient then
        let missing := ((lookup s).requirements account).filterMap fun r =>
          if (lookup s r.address).isNone then some r.address else none
        if missing.isEmpty then
          (.error error, s)
        else
          match trackAll missing s with
          | (.ok (), s) => loadWith track lookup tolerance account rounds (some error) s
          | (.error error, s) => (.error error, s)
      else
        (.error error, s)
where
  trackAll : List Address → σ → Except Failure Unit × σ
    | [], s => (.ok (), s)
    | address :: rest, s =>
      match track s address with
      | (.ok (), s) => trackAll rest s
      | (.error error, s) => (.error error, s)

namespace Engine

def taskStep? (e : Engine) : Task → Option Engine
  | .router => e.link.step?.map fun link => { e with link, lastRun := .router }
  | .scheduler => e.schedulerStep?.map ({ · with lastRun := .scheduler })

/-- Each task goes on until it has nothing left to do, until neither has. -/
def settleWithin (e : Engine) (task : Task) : (limit : Nat) → Engine
  | 0 => e
  | limit + 1 =>
    match e.taskStep? task with
    | some e => e.settleWithin task limit
    | none =>
      match e.taskStep? task.other with
      | some e => e.settleWithin task.other limit
      | none => e

/-- Does all that can be done at this time. The task that has waited longer goes first. -/
def settle (e : Engine) : Engine := e.settleWithin e.lastRun.other stepLimit

def nextDeadline? (e : Engine) : Option Nat :=
  [e.link.nextDeadline?, e.scheduler.flushAt, e.idleAt?].reduceOption.min?

/-- Lets the time pass, timer by timer; no two deadlines of one time are apart. -/
def sleepUntil (e : Engine) (time : Nat) : (limit : Nat) → Engine
  | 0 => e
  | limit + 1 =>
    match e.nextDeadline?.filter (· ≤ time) with
    | none => { e with link := { e.link with now := time } }
    | some deadline =>
      { e with link := { e.link with now := max e.now deadline } }.settle.sleepUntil time limit

/-- Each deadline lies after the time before it. -/
def sleep (e : Engine) (ms : Nat) : Engine := e.sleepUntil (e.now + ms) (ms + 1)

def start (transport : Transport) (settings : Settings) (now : Nat) : Engine :=
  let link := Link.start transport settings.transport settings.sync.changeBuffer now
  { link
    scheduler := {
      window := settings.sync.coalescingWindowMs
      idlePolicy := settings.sync.idlePolicy
      position := link.registry.events.total }
    calculator := ⟨settings.risk.healthType, settings.risk.liquidationThreshold⟩
    tolerance := settings.sync.stalenessToleranceSlots }

/-- Pins an address and has it tracked; whatever follows from that is done on return. -/
def track (e : Engine) (address : Address) : Except Failure Unit × Engine :=
  let (result, link) := e.link.request (·.track address)
  let pinned := e.pinned.insert address
  (result, { e with link, pinned, lastRun := .router }.settle)

def resync (e : Engine) : Except Failure Unit × Engine :=
  let (result, link) := e.link.request Link.resync
  (result, { e with link, lastRun := .router }.settle)

/-- The current value of an address, fetched if it is unknown. -/
def resolve (e : Engine) (address : Address) : Except Failure Entity × Engine :=
  match e.lookup address with
  | some v => (.ok v.entity, e)
  | none =>
    match e.track address with
    | (.error error, e) => (.error error, e)
    | (.ok (), e) =>
      ((e.lookup address).elim (.error (e.link.unavailable address)) (.ok ·.entity), e)

def load (e : Engine) (account : Address) : Except Failure View × Engine :=
  loadWith track lookup e.tolerance account loadRounds none e

def build (e : Engine) (account : Address) : Except Failure View :=
  e.lookup.build e.tolerance account

def evaluate (e : Engine) (account : Address) : Except Failure Snapshot :=
  e.calculator.evaluate e.clock <$> e.build account

def watch (e : Engine) (account : Address) : Nat × Engine :=
  let (id, notifier) := e.notifier.subscribe account
  (id, { e with notifier }.updateScheduler fun s => { s with commands := s.commands ++ [account] })

/-- Nothing is watched any more, but the streams stay open. -/
def stop (e : Engine) : Engine :=
  let s := e.scheduler
  { e with
    link := e.link.stop
    scheduler := {
      window := s.window
      idlePolicy := s.idlePolicy
      arrangement := s.arrangement
      position := s.position } }

end Engine

end Solvency
