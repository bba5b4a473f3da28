import Solvency.Proofs.Push.Books
import Solvency.Proofs.Push.Enlisted
import Solvency.Push.Engine

/-! No change is forgotten. For every watched account the scheduler holds what its view amounts
to now, or something that makes it look again is on its way: a request, a flush, an event, or
an address that is to be tracked. -/

namespace Solvency.Engine

open Router.Command (Renewed)

variable {e e' : Engine} {writes : List RawAccount} {todo : List Address} {a : Address}

def Concerns (e : Engine) (account : Address) : RegistryEvent → Prop
  | .updated address _ => address ∈ e.scheduler.dependenciesOf account
  | .slotConfirmed _ => account ∈ e.scheduler.pending
  | .invalidated _ => True

/-- What is held for an account is what composing it now would lead to. -/
structure Current (e : Engine) (account : Address) : Prop where
  covered : ∀ r ∈ e.lookup.requirements account, r.address ∈ e.scheduler.dependenciesOf account
  composed : ∀ view, e.build account = .ok view → ∃ snapshot,
    e.notifier.latest? account = some snapshot ∧ ∀ time,
      ({ snapshot with slotRange := .ofSlot 0 }).Agrees (e.calculator.evaluate time view.bare)
  failed : ∀ error, e.build account = .error error →
    e.notifier.latest? account = none ∧ account ∈ e.scheduler.pending

inductive Accounted (writes : List RawAccount) (e : Engine) (account : Address) : Prop
  | asked (h : account ∈ e.scheduler.commands)
  | dirty (h : account ∈ e.scheduler.dirty)
  | due (h : e.link.registry.events.Outstanding e.scheduler.position (e.Concerns account))
  | owed (address : Address) (hdepends : address ∈ e.scheduler.dependenciesOf account)
      (h : e.link.Owed writes address)
  | current (h : e.Current account)

/-- The state between steps. In the middle of one, there are accounts still to be seen to. -/
structure Tended (writes : List RawAccount) (todo : List Address) (e : Engine) : Prop where
  link : e.link.Settled writes
  full : e.link.registry.events.Full
  position_le : e.scheduler.position ≤ e.link.registry.events.total
  proper : e.notifier.Proper
  books : e.Balanced
  nodup : e.scheduler.watched.Nodup
  flush : e.scheduler.dirty ≠ [] → e.scheduler.flushAt ≠ none
  released : ∀ a, a ∈ e.scheduler.watched ∨ a ∈ e.scheduler.commands →
    e.notifier.isWatched a = true ∨ a ∈ e.notifier.released
  asked : ∀ a, e.notifier.isWatched a = true →
    a ∈ e.scheduler.watched ∨ a ∈ e.scheduler.commands
  accounted : ∀ a ∈ e.scheduler.watched, e.notifier.isWatched a = true →
    a ∈ todo ∨ e.Accounted writes a

structure Alike (writes : List RawAccount) (e e' : Engine) (account : Address) : Prop where
  registry : e'.link.registry = e.link.registry
  owed : ∀ address, e.link.Owed writes address → e'.link.Owed writes address
  position : e'.scheduler.position = e.scheduler.position
  dependencies : e'.scheduler.dependenciesOf account = e.scheduler.dependenciesOf account
  pending : account ∈ e'.scheduler.pending ↔ account ∈ e.scheduler.pending
  latest : e'.notifier.latest? account = e.notifier.latest? account
  calculator : e'.calculator = e.calculator
  tolerance : e'.tolerance = e.tolerance

theorem Concerns.of_eq
    (hdependencies : e'.scheduler.dependenciesOf a = e.scheduler.dependenciesOf a)
    (hpending : a ∈ e'.scheduler.pending ↔ a ∈ e.scheduler.pending) (event : RegistryEvent) :
    e'.Concerns a event ↔ e.Concerns a event := by
  cases event with
  | updated address slot => simp only [Concerns, hdependencies]
  | slotConfirmed slot => exact hpending
  | invalidated epoch => exact .rfl

theorem Current.of_bare (h : e.Current a)
    (hrequirements : e'.lookup.requirements a = e.lookup.requirements a)
    (hcomposed : ∀ view, e'.build a = .ok view →
      ∃ before, e.build a = .ok before ∧ view.bare = before.bare)
    (hcomposable : ∀ view, e.build a = .ok view → ∃ after, e'.build a = .ok after)
    (hdependencies : e'.scheduler.dependenciesOf a = e.scheduler.dependenciesOf a)
    (hpending : a ∈ e'.scheduler.pending ↔ a ∈ e.scheduler.pending)
    (hlatest : e'.notifier.latest? a = e.notifier.latest? a)
    (hcalculator : e'.calculator = e.calculator) : e'.Current a where
  covered r hr := by
    rw [hdependencies]
    exact h.covered r (hrequirements ▸ hr)
  composed view hview := by
    obtain ⟨before, hbefore, hbare⟩ := hcomposed view hview
    rw [hlatest, hcalculator, hbare]
    exact h.composed before hbefore
  failed error herror := by
    rw [hlatest, hpending]
    cases hbefore : e.build a with
    | error before => exact h.failed before hbefore
    | ok view =>
      obtain ⟨after, hafter⟩ := hcomposable view hbefore
      cases herror.symm.trans hafter

theorem Current.congr (h : e.Current a) (halike : Alike writes e e' a) : e'.Current a := by
  have hlookup : e'.lookup = e.lookup := by rw [lookup, lookup, halike.registry]
  have hbuild : e'.build a = e.build a := by rw [build, build, hlookup, halike.tolerance]
  exact h.of_bare (by rw [hlookup]) (fun view hview => ⟨view, hbuild ▸ hview, rfl⟩)
    (fun view hview => ⟨view, hbuild ▸ hview⟩) halike.dependencies halike.pending halike.latest
    halike.calculator

theorem Accounted.congr (h : e.Accounted writes a) (halike : Alike writes e e' a)
    (hasked : a ∈ e.scheduler.commands → e'.Accounted writes a)
    (hdirty : a ∈ e.scheduler.dirty → e'.Accounted writes a) : e'.Accounted writes a := by
  cases h with
  | asked h => exact hasked h
  | dirty h => exact hdirty h
  | due h =>
    refine .due ?_
    rw [halike.registry, halike.position]
    exact h.imp fun event => (Concerns.of_eq halike.dependencies halike.pending event).mpr
  | owed x hx h => exact .owed x (halike.dependencies ▸ hx) (halike.owed x h)
  | current h => exact .current (h.congr halike)

theorem Tended.enlisted (h : e.Tended writes todo) :
    Enlisted e.scheduler.watched e.scheduler.commands e.notifier :=
  ⟨h.proper, h.nodup, h.released, h.asked⟩

theorem Tended.accounts (h : e.Tended writes []) (hwatched : a ∈ e.scheduler.watched)
    (hopen : e.notifier.isWatched a = true) : e.Accounted writes a :=
  (h.accounted a hwatched hopen).resolve_left List.not_mem_nil

theorem Accounted.of_alike (h : e.Accounted writes a) (halike : Alike writes e e' a)
    (hcommands : e'.scheduler.commands = e.scheduler.commands)
    (hdirty : e'.scheduler.dirty = e.scheduler.dirty) : e'.Accounted writes a :=
  h.congr halike (fun hasked => .asked (hcommands ▸ hasked)) fun h => .dirty (hdirty ▸ h)

/-- Commands were sent to the router, or what the scheduler knows of addresses has changed; what
the others depend on is as it was. -/
theorem Tended.congr (h : e.Tended writes todo) (hlink : e'.link.Settled writes)
    (hregistry : e'.link.registry = e.link.registry)
    (howed : ∀ address, e.link.Owed writes address → e'.link.Owed writes address)
    (hscheduler : ∃ dependencies dependents tracked idle,
      e'.scheduler = { e.scheduler with dependencies, dependents, tracked, idle })
    (hdependencies : ∀ a, a ∉ todo →
      e'.scheduler.dependenciesOf a = e.scheduler.dependenciesOf a)
    (hnotifier : e'.notifier = e.notifier) (hcalculator : e'.calculator = e.calculator)
    (htolerance : e'.tolerance = e.tolerance) (hbooks : e'.Balanced) : e'.Tended writes todo := by
  obtain ⟨dependencies, dependents, tracked, idle, hscheduler⟩ := hscheduler
  have halike : ∀ a, a ∉ todo → Alike writes e e' a := fun a ha =>
    ⟨hregistry, howed, by rw [hscheduler], hdependencies a ha, by rw [hscheduler],
      by rw [hnotifier], hcalculator, htolerance⟩
  refine ⟨hlink, ?_, ?_, ?_, hbooks, ?_, ?_, ?_, ?_, ?_⟩
  · rw [hregistry]
    exact h.full
  · rw [hscheduler, hregistry]
    exact h.position_le
  · rw [hnotifier]
    exact h.proper
  · rw [hscheduler]
    exact h.nodup
  · rw [hscheduler]
    exact h.flush
  · rw [hscheduler, hnotifier]
    exact h.released
  · rw [hscheduler, hnotifier]
    exact h.asked
  · intro a hwatched hopen
    rw [hscheduler] at hwatched
    rw [hnotifier] at hopen
    by_cases ha : a ∈ todo
    · exact .inl ha
    · exact (h.accounted a hwatched hopen).imp_right fun haccounted =>
        haccounted.of_alike (halike a ha) (by rw [hscheduler]) (by rw [hscheduler])

section Link

variable {link : Link} {pinned : List Address} {lastRun : Task}

theorem Accounted.of_event (hposition : e.scheduler.position ≤ e.link.registry.events.total)
    {new : List RegistryEvent} (hevents : link.registry.events =
      new.foldl EventLog.push e.link.registry.events) {event : RegistryEvent} (hevent : event ∈ new)
    (hconcerns : e.Concerns a event) : Accounted writes { e with link, pinned, lastRun } a := by
  refine .due ?_
  change EventLog.Outstanding link.registry.events _ _
  rw [hevents]
  refine EventLog.outstanding_foldl hposition hevent ?_
  exact (Concerns.of_eq rfl .rfl event).mpr hconcerns

theorem Accounted.due_of_foldl (hposition : e.scheduler.position ≤ e.link.registry.events.total)
    {new : List RegistryEvent} (hevents : link.registry.events =
      new.foldl EventLog.push e.link.registry.events)
    (h : e.link.registry.events.Outstanding e.scheduler.position (e.Concerns a)) :
    Accounted writes { e with link, pinned, lastRun } a := by
  refine .due ?_
  change EventLog.Outstanding link.registry.events _ _
  rw [hevents]
  refine (h.imp fun event => ?_).foldl hposition new
  exact (Concerns.of_eq rfl .rfl event).mpr

theorem concerns_of_touches {event : RegistryEvent} {x : Address} (h : event.Touches x)
    (hx : x ∈ e.scheduler.dependenciesOf a) : e.Concerns a event := by
  cases event with
  | updated address slot =>
    cases h
    exact hx
  | slotConfirmed slot => cases h
  | invalidated epoch => trivial

/-- Every dependency that changes is announced or owed, and an account without such a dependency
would be composed as before. -/
theorem Accounted.announced (h : e.Accounted writes a)
    (hposition : e.scheduler.position ≤ e.link.registry.events.total) {new : List RegistryEvent}
    (hevents : link.registry.events = new.foldl EventLog.push e.link.registry.events)
    (hchanges : ∀ x ∈ e.scheduler.dependenciesOf a, (∃ event ∈ new, event.Touches x) ∨
      link.Owed writes x ∨ link.registry.get? x = e.link.registry.get? x ∧ ¬ e.link.Owed writes x) :
    Accounted writes { e with link, pinned, lastRun } a := by
  have htouched : ∀ x ∈ e.scheduler.dependenciesOf a, (∃ event ∈ new, event.Touches x) →
      Accounted writes { e with link, pinned, lastRun } a := by
    rintro x hx ⟨event, hevent, htouches⟩
    exact .of_event hposition hevents hevent (concerns_of_touches htouches hx)
  cases h with
  | asked h => exact .asked h
  | dirty h => exact .dirty h
  | due h => exact .due_of_foldl hposition hevents h
  | owed x hx h =>
    rcases hchanges x hx with hevent | hnext | ⟨_, hnot⟩
    · exact htouched x hx hevent
    · exact .owed x hx hnext
    · exact absurd h hnot
  | current h =>
    by_cases hchanged : ∃ r ∈ e.lookup.requirements a,
        (∃ event ∈ new, event.Touches r.address) ∨ link.Owed writes r.address
    · obtain ⟨r, hr, hevent | hnext⟩ := hchanged
      · exact htouched _ (h.covered r hr) hevent
      · exact .owed _ (h.covered r hr) hnext
    · have hsame : ∀ r ∈ e.lookup.requirements a,
          Lookup.shown link.registry.get? r.address = e.lookup.shown r.address := by
        intro r hr
        rcases hchanges _ (h.covered r hr) with hevent | hnext | ⟨hget, _⟩
        · exact absurd ⟨r, hr, .inl hevent⟩ hchanged
        · exact absurd ⟨r, hr, .inr hnext⟩ hchanged
        · exact Lookup.shown_congr hget
      have hbuild : Lookup.build link.registry.get? e.tolerance a = e.build a :=
        Lookup.build_congr hsame e.tolerance
      exact .current (h.of_bare (Lookup.requirements_congr hsame)
        (fun view hview => ⟨view, hbuild ▸ hview, rfl⟩)
        (fun view hview => ⟨view, hbuild.trans hview⟩) rfl .rfl rfl rfl)

/-- A confirmed slot may let an account be composed that could not be, and that one is pending.
What could be composed before is the same but for its slots. -/
theorem Accounted.confirmed (h : e.Accounted writes a)
    (hposition : e.scheduler.position ≤ e.link.registry.events.total) {slot : Slot}
    (hevents : link.registry.events = e.link.registry.events.push (.slotConfirmed slot))
    (hraise : link.registry.get? = Lookup.raise e.link.registry.get? slot)
    (howed : ∀ x, e.link.Owed writes x → link.Owed writes x) :
    Accounted writes { e with link, pinned, lastRun } a := by
  have hevents : link.registry.events =
      [RegistryEvent.slotConfirmed slot].foldl EventLog.push e.link.registry.events := hevents
  cases h with
  | asked h => exact .asked h
  | dirty h => exact .dirty h
  | due h => exact .due_of_foldl hposition hevents h
  | owed x hx h => exact .owed x hx (howed x h)
  | current h =>
    cases hbuild : e.build a with
    | error error =>
      exact .of_event hposition hevents (List.mem_singleton_self _) (h.failed error hbuild).2
    | ok view =>
      obtain ⟨after, hafter, hbare⟩ := Lookup.build_raise hbuild slot
      have hnext : Lookup.build link.registry.get? e.tolerance a = .ok after := by
        rw [hraise]
        exact hafter
      refine .current (h.of_bare ?_ ?_ (fun _ _ => ⟨after, hnext⟩) rfl .rfl rfl rfl)
      · change Lookup.requirements link.registry.get? a = _
        rw [hraise]
        exact Lookup.requirements_raise_of_build hbuild slot
      · intro other hother
        cases hnext.symm.trans hother
        exact ⟨view, hbuild, hbare⟩

/-- Whatever happens to the link, the accounts that it concerns are looked at again. -/
theorem Accounted.evolve (h : e.Accounted writes a) (hevolves : e.link.Evolves writes link)
    (hposition : e.scheduler.position ≤ e.link.registry.events.total)
    (hrenewed : ∀ x ∈ e.scheduler.dependenciesOf a, Renewed x e.link.router.commands) :
    Accounted writes { e with link, pinned, lastRun } a := by
  rcases hevolves.changes with ⟨new, hevents, hchanges⟩ | ⟨slot, hevents, hraise, howed⟩
  · exact h.announced hposition hevents fun x hx => hchanges x (hrenewed x hx)
  · exact h.confirmed hposition hevents hraise howed

theorem Accounted.mono (h : e.Accounted writes a) (written : List RawAccount) :
    e.Accounted (written ++ writes) a := by
  cases h with
  | asked h => exact .asked h
  | dirty h => exact .dirty h
  | due h => exact .due h
  | owed x hx h =>
    obtain ⟨w, hw, haddress⟩ := h.written
    exact .owed x hx ⟨⟨h.connected, h.unread, w, List.mem_append_right _ hw, haddress⟩, h.asked⟩
  | current h => exact .current h

theorem Tended.evolve (h : e.Tended writes todo) (written : List RawAccount)
    (hlink : link.Settled (written ++ writes))
    (hevolves : e.link.Evolves (written ++ writes) link) (pinned : List Address)
    (lastRun : Task) : Tended (written ++ writes) todo { e with link, pinned, lastRun } where
  link := hlink
  full := (hevolves.log h.full).1
  position_le := Nat.le_trans h.position_le (hevolves.log h.full).2
  proper := h.proper
  books :=
    { running := hlink.running
      dependents := h.books.dependents
      nodup := h.books.nodup
      tracked := h.books.tracked
      nodup_tracked := h.books.nodup_tracked
      renewed := fun x hx => hevolves.renewed x (h.books.renewed x hx) }
  nodup := h.nodup
  flush := h.flush
  released := h.released
  asked := h.asked
  accounted a hwatched hopen := by
    refine (h.accounted a hwatched hopen).imp_right fun haccounted => ?_
    exact (haccounted.mono written).evolve hevolves h.position_le fun x hx =>
      h.books.renewed x (h.books.tracked a x hx)

end Link

theorem Tended.rebooked (h : e.Tended writes todo)
    {dependencies : Table Address (List Address)}
    (hrebooked : (e.updateScheduler ({ · with dependencies })).Rebooked e')
    (hdependencies : ∀ a, a ∉ todo →
      (dependencies.find? a).getD [] = e.scheduler.dependenciesOf a)
    (hbooks : e'.Balanced) : e'.Tended writes todo := by
  obtain ⟨dependents, tracked, idle, sent, rfl⟩ := hrebooked
  refine h.congr ?_ rfl ?_ ⟨_, _, _, _, rfl⟩ hdependencies rfl rfl rfl hbooks
  · exact h.link.congr (h.link.toWired.congr rfl rfl rfl rfl) rfl rfl fun _ => rfl
  · intro x hx
    exact ⟨⟨hx.connected, hx.unread, hx.written⟩, List.mem_append_left _ hx.asked⟩

theorem Tended.done (h : e.Tended writes (a :: todo))
    (ha : a ∈ e.scheduler.watched → e.notifier.isWatched a = true → e.Accounted writes a) :
    e.Tended writes todo :=
  { h with
    accounted := fun b hwatched hopen => by
      rcases h.accounted b hwatched hopen with hb | haccounted
      · rcases List.mem_cons.mp hb with rfl | hb
        · exact .inr (ha hwatched hopen)
        · exact .inl hb
      · exact .inr haccounted }

/-- New dependencies concern nobody but the account that has them. -/
theorem Tended.setDependencies (h : e.Tended writes todo) (ha : a ∈ todo) (next : List Address) :
    (e.setDependencies a next).Tended writes todo ∧
      (e.setDependencies a next).scheduler.dependenciesOf a = next ∧
      ∃ dependencies, (e.updateScheduler ({ · with dependencies })).Rebooked
        (e.setDependencies a next) := by
  obtain ⟨dependencies, hrebooked, hfind⟩ := e.rebooked_setDependencies a next
  refine ⟨h.rebooked hrebooked (fun b hb => ?_) (h.books.setDependencies a next), ?_, dependencies,
    hrebooked⟩
  · rw [hfind b, if_neg]
    rintro rfl
    exact hb ha
  · obtain ⟨_, _, _, _, heq⟩ := hrebooked
    rw [heq]
    exact (hfind a).trans (if_pos rfl)

end Solvency.Engine
