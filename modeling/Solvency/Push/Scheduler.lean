import Solvency.Notifier
import Solvency.Risk.Valuation
import Solvency.Router

/-! The scheduler recomposes watched accounts when what they depend on changes, once per
coalescing window. Addresses are shared between the accounts that need them; one that no
account needs any more is given up as the idle policy says. -/

namespace Solvency

/-- The order in which the members of a set come up. Nothing may be said of it but that each comes
up once. There are the sets of the scheduler itself, and those that belong to an account. -/
structure Arrangement where
  order : Option Address → List Address → List Address
  perm : ∀ owner members, (order owner members).Perm members

instance : Inhabited Arrangement := ⟨⟨fun _ members => members, fun _ _ => .rfl⟩⟩

structure Scheduler where
  window : Nat
  idlePolicy : IdlePolicy
  arrangement : Arrangement := default
  commands : List Address := []
  /-- How far the event log of the registry has been read. -/
  position : Nat
  watched : List Address := []
  /-- The addresses that the view of a watched account needs. -/
  dependencies : Table Address (List Address) := {}
  /-- The watched accounts that need an address. -/
  dependents : Table Address (List Address) := {}
  /-- Addresses that the router was asked to track. -/
  tracked : List Address := []
  dirty : List Address := []
  /-- Accounts whose last composition failed. -/
  pending : List Address := []
  flushAt : Option Nat := none
  /-- When an address that is no longer needed is given up. -/
  idle : Table Address Nat := {}

inductive Task where
  | router
  | scheduler
deriving DecidableEq

def Task.other : Task → Task
  | router => scheduler
  | scheduler => router

structure Engine where
  link : Link
  notifier : Notifier := {}
  scheduler : Scheduler
  calculator : Calculator
  tolerance : Nat
  /-- Addresses loaded on demand; they are never given up. -/
  pinned : List Address := []
  /-- The time of day, in nanoseconds since the beginning of 1970. -/
  clock : Nat := 0
  lastRun : Task := .router

namespace Engine

def lookup (e : Engine) : Lookup := e.link.registry.get?

def now (e : Engine) : Nat := e.link.now

def updateScheduler (e : Engine) (f : Scheduler → Scheduler) : Engine :=
  { e with scheduler := f e.scheduler }

/-- A flush is due one window after the first account becomes dirty. -/
def markDirty (e : Engine) (accounts : List Address) : Engine :=
  let s := e.scheduler
  let dirty := accounts.foldl (fun dirty a => dirty.insert a) s.dirty
  let flushAt := if s.dirty.length < dirty.length ∧ s.flushAt = none
    then some (e.now + s.window) else s.flushAt
  { e with scheduler := { s with dirty, flushAt } }

def requirementAddresses (e : Engine) (account : Address) : List Address :=
  ((e.lookup.requirements account).map (·.address)).eraseDups

def untrack (e : Engine) (address : Address) : Engine :=
  { e with
    scheduler := { e.scheduler with tracked := e.scheduler.tracked.erase address }
    link := (e.link.send (.untrack address)).2 }

/-- What becomes of an address that no account needs any more. -/
def release (e : Engine) (address : Address) : Engine :=
  if e.scheduler.tracked.contains address && !e.pinned.contains address then
    match e.scheduler.idlePolicy with
    | .never => e
    | .immediate => e.untrack address
    | .afterIdle secs => e.updateScheduler fun s =>
        { s with idle := s.idle.insert address (e.now + 1000 * secs) }
  else
    e

def addDependency (account : Address) (e : Engine) (address : Address) : Engine :=
  let s := e.scheduler
  let s := { s with
    dependents := s.dependents.insert address
      (((s.dependents.find? address).getD []).insert account)
    idle := s.idle.erase address }
  if s.tracked.contains address then
    { e with scheduler := s }
  else
    match e.link.send (.track address) with
    | (.ok (), link) => { e with scheduler := { s with tracked := s.tracked.insert address }, link }
    | (.error _, link) => { e with scheduler := s, link }

def removeDependency (account : Address) (e : Engine) (address : Address) : Engine :=
  let s := e.scheduler
  match ((s.dependents.find? address).getD []).erase account with
  | [] => { e with scheduler := { s with dependents := s.dependents.erase address } }.release address
  | accounts => { e with scheduler := { s with dependents := s.dependents.insert address accounts } }

def setDependencies (e : Engine) (account : Address) (next : List Address) : Engine :=
  let previous := (e.scheduler.dependencies.find? account).getD []
  let arrange := e.scheduler.arrangement.order (some account)
  let e := e.updateScheduler fun s => { s with dependencies := s.dependencies.erase account }
  let e := (arrange (next.filter (!previous.contains ·))).foldl (addDependency account) e
  let e := (arrange (previous.filter (!next.contains ·))).foldl (removeDependency account) e
  if next.isEmpty then e
  else e.updateScheduler fun s => { s with dependencies := s.dependencies.insert account next }

/-- An account that is watched again is composed again: its channel may be new and empty. -/
def onWatch (e : Engine) (account : Address) : Engine :=
  let e :=
    if e.scheduler.watched.contains account then e
    else
      let e := e.updateScheduler fun s => { s with watched := s.watched.insert account }
      e.setDependencies account (e.requirementAddresses account)
  e.markDirty [account]

/-- A release that a new watcher has overtaken is void. -/
def onRelease (e : Engine) (account : Address) : Engine :=
  if !e.notifier.isWatched account && e.scheduler.watched.contains account then
    let e := e.updateScheduler fun s => { s with
      watched := s.watched.erase account
      dirty := s.dirty.erase account
      pending := s.pending.erase account }
    e.setDependencies account []
  else
    e

def onEvent (e : Engine) : RegistryEvent → Engine
  | .updated address _ => e.markDirty ((e.scheduler.dependents.find? address).getD [])
  | .slotConfirmed _ => e.markDirty e.scheduler.pending
  | .invalidated _ => { e with notifier := e.notifier.invalidate }.markDirty e.scheduler.watched

/-- After events were lost, every watched account is composed again. -/
def onReception (e : Engine) : Reception RegistryEvent → Engine
  | .event event => e.onEvent event
  | .lagged _ => e.markDirty e.scheduler.watched

/-- Composes one account again, which takes some time. A failure takes back what was published,
and only widens the dependencies: an absent part hides what lies behind it. -/
def recompose (e : Engine) (account : Address) : Engine :=
  if e.scheduler.watched.contains account then
    match e.lookup.build e.tolerance account with
    | .ok view =>
      let e := e.updateScheduler fun s => { s with pending := s.pending.erase account }
      let notifier := (e.notifier.publish account (e.calculator.evaluate e.clock view)).2
      { e with notifier, clock := e.clock + 1 }.setDependencies account view.dependencies.eraseDups
    | .error _ =>
      let e := { e with notifier := e.notifier.withdraw account }.updateScheduler fun s =>
        { s with pending := s.pending.insert account }
      let previous := (e.scheduler.dependencies.find? account).getD []
      e.setDependencies account (e.requirementAddresses account ++ previous).eraseDups
  else
    e

def flush (e : Engine) : Engine :=
  (e.scheduler.arrangement.order none e.scheduler.dirty).foldl recompose
    (e.updateScheduler fun s => { s with flushAt := none, dirty := [] })

def expireIdle (e : Engine) : Engine :=
  let expired := e.scheduler.idle.entries.filterMap fun (address, deadline) =>
    if deadline ≤ e.now then some address else none
  (e.scheduler.arrangement.order none expired).foldl (fun e address =>
    let e := e.updateScheduler fun s => { s with idle := s.idle.erase address }
    if e.scheduler.dependents.contains address || e.pinned.contains address then e
    else e.untrack address) e

def watchStep? (e : Engine) : Option Engine :=
  match e.scheduler.commands with
  | [] => none
  | account :: commands => some ((e.updateScheduler ({ · with commands })).onWatch account)

def releaseStep? (e : Engine) : Option Engine :=
  match e.notifier.released with
  | [] => none
  | account :: released =>
    some ({ e with notifier := { e.notifier with released } }.onRelease account)

def eventStep? (e : Engine) : Option Engine := do
  let (reception, position) ← e.link.registry.events.receive? e.scheduler.position
  return (e.updateScheduler ({ · with position })).onReception reception

def flushStep? (e : Engine) : Option Engine := do
  if (← e.scheduler.flushAt) ≤ e.now then some e.flush else none

def idleAt? (e : Engine) : Option Nat := e.scheduler.idle.values.min?

def idleStep? (e : Engine) : Option Engine := do
  if (← e.idleAt?) ≤ e.now then some e.expireIdle else none

/-- What the scheduler does next: requests to watch, releases, events, then its timers. -/
def schedulerStep? (e : Engine) : Option Engine :=
  e.watchStep?.or <| e.releaseStep?.or <| e.eventStep?.or <| e.flushStep?.or e.idleStep?

end Engine

end Solvency
