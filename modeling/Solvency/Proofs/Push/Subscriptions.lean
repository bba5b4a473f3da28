import Solvency.Proofs.Push.Agreement
import Solvency.Proofs.Push.Orders
import Solvency.Proofs.Router.Manned

/-! Subscriptions against watchers. When every queue is empty, the ledger has a subscription open
for each address that a watched account depends on or a caller has pinned, and for no other. -/

namespace Solvency.Engine

variable {e e' : Engine} {a : Address}

/-- One thing that happens while requests wait for the router in their order. To load an account is
to ask for what is missing, address by address; each is pinned before it is asked for. The clock
may be set to any time, and the sets of the scheduler may come up in another order than before. -/
inductive Turn (e : Engine) : Engine → Prop
  | link {event : Link.Event} {link : Link} (hown : ∀ command, event ≠ .send command)
      (h : e.link.after? event = some link) (lastRun : Task) : Turn e { e with link, lastRun }
  | scheduler {e' : Engine} (h : e.schedulerStep? = some e') (lastRun : Task) :
      Turn e { e' with lastRun }
  | watch (account : Address) : Turn e (e.watch account).2
  | drop (id : Nat) : Turn e { e with notifier := e.notifier.drop id }
  | poll (id : Nat) : Turn e { e with notifier := (e.notifier.poll id).2 }
  | tick (clock : Nat) : Turn e { e with clock }
  | arrange (arrangement : Arrangement) : Turn e (e.updateScheduler ({ · with arrangement }))
  | ask (address : Address) : Turn e { e with
      link := (e.link.send (.track address)).2, pinned := e.pinned.insert address }

/-- The states that an engine gets into that gives up at once what nobody needs, whatever was done
to its ledger before. -/
inductive Runs : Engine → Prop
  | start {heartbeats : Bool} (changes : List Ledger.Change) {settings : Settings}
      (hpolicy : settings.sync.idlePolicy = .immediate) (now : Nat) :
      Runs (start { ledger := changes.foldl Ledger.change { heartbeats } } settings now)
  | turn {e e' : Engine} (h : Runs e) (hturn : e.Turn e') : Runs e'

/-- Only a watched account has dependencies, and the router is asked for nothing else but what
is pinned. -/
structure Exact (e : Engine) : Prop where
  link : e.link.Manned
  enlisted : Enlisted e.scheduler.watched e.scheduler.commands e.notifier
  books : Thrifty (fun a x => x ∈ e.scheduler.dependenciesOf a) e
  owners : ∀ a x, x ∈ e.scheduler.dependenciesOf a → a ∈ e.scheduler.watched

theorem Exact.congr (h : e.Exact) (hlink : e'.link = e.link) (hpinned : e'.pinned = e.pinned)
    (hscheduler : ∃ arrangement position commands dirty pending flushAt, e'.scheduler =
      { e.scheduler with arrangement, position, commands, dirty, pending, flushAt })
    (henlisted : Enlisted e.scheduler.watched e'.scheduler.commands e'.notifier) : e'.Exact := by
  obtain ⟨arrangement, position, commands, dirty, pending, flushAt, hscheduler⟩ := hscheduler
  refine ⟨hlink ▸ h.link, ?_, ?_, ?_⟩
  · rw [hscheduler] at henlisted ⊢
    exact henlisted
  · have hbooks : Thrifty (fun a x => x ∈ e.scheduler.dependenciesOf a) e' := by
      have hcarries : e.link.Carries e'.link := by
        rw [hlink]
        exact .of_eq rfl rfl rfl
      apply h.books.congr hcarries _ _ _ _ hpinned
      all_goals rw [hscheduler]
    rw [hscheduler]
    exact hbooks
  · rw [hscheduler]
    exact h.owners

theorem Exact.markDirty (h : e.Exact) (accounts : List Address) : (e.markDirty accounts).Exact :=
  h.congr rfl rfl ⟨_, _, _, _, _, _, rfl⟩ h.enlisted

/-- The account that is given new dependencies may have had some without being watched. -/
theorem exact_setDependencies (hlink : e.link.Manned)
    (henlisted : Enlisted e.scheduler.watched e.scheduler.commands e.notifier)
    (hbooks : Thrifty (fun a x => x ∈ e.scheduler.dependenciesOf a) e)
    (howners : ∀ b x, b ≠ a → x ∈ e.scheduler.dependenciesOf b → b ∈ e.scheduler.watched)
    {next : List Address} (hnext : next = [] ∨ a ∈ e.scheduler.watched) :
    (e.setDependencies a next).Exact := by
  obtain ⟨dependencies, hrebooked, hfind⟩ := e.rebooked_setDependencies a next
  have hnewbooks := bookkeeping_thrifty.setDependencies hbooks a next
  obtain ⟨dependents, tracked, idle, sent, heq⟩ := hrebooked
  rw [heq] at hnewbooks ⊢
  refine ⟨hlink.withCommands _, henlisted, hnewbooks, fun b x hx => ?_⟩
  change x ∈ (dependencies.find? b).getD [] at hx
  rw [hfind b] at hx
  by_cases hb : b = a
  · rw [if_pos hb] at hx
    rcases hnext with rfl | hwatched
    · cases hx
    · exact hb ▸ hwatched
  · rw [if_neg hb] at hx
    exact howners b x hb hx

theorem Exact.setDependencies (h : e.Exact) (ha : a ∈ e.scheduler.watched)
    (next : List Address) : (e.setDependencies a next).Exact :=
  exact_setDependencies h.link h.enlisted h.books (fun b x _ => h.owners b x) (.inr ha)

theorem Exact.watchStep (h : e.Exact) (hs : e.watchStep? = some e') : e'.Exact := by
  rw [watchStep?] at hs
  split at hs
  · cases hs
  case h_2 account rest hcommands =>
    cases hs
    have henlisted : Enlisted (e.scheduler.watched.insert account) rest e.notifier :=
      Enlisted.meet (hcommands ▸ h.enlisted)
    rw [onWatch]
    apply Exact.markDirty
    split
    case isTrue hheld =>
      have hsame : e.scheduler.watched.insert account = e.scheduler.watched :=
        List.insert_of_mem (List.contains_iff_mem.mp hheld)
      rw [hsame] at henlisted
      exact h.congr rfl rfl ⟨_, _, _, _, _, _, rfl⟩ henlisted
    case isFalse =>
      apply exact_setDependencies
      · exact h.link
      · exact henlisted
      · exact h.books.congr (.of_eq rfl rfl rfl) rfl rfl rfl rfl rfl
      · exact fun b x _ hx => List.mem_insert_of_mem (h.owners b x hx)
      · exact .inr List.mem_insert_self

theorem Exact.releaseStep (h : e.Exact) (hcommands : e.scheduler.commands = [])
    (hs : e.releaseStep? = some e') : e'.Exact := by
  have hbefore : Enlisted e.scheduler.watched [] e.notifier := hcommands ▸ h.enlisted
  rw [releaseStep?] at hs
  split at hs
  · cases hs
  case h_2 account rest hreleased =>
    cases hs
    rw [onRelease]
    split
    case isTrue hcond =>
      have hclosed : e.notifier.isWatched account = false :=
        (Bool.not_eq_true' _).mp (Bool.and_eq_true_iff.mp hcond).1
      have henlisted := hbefore.dismiss hreleased hclosed
      apply exact_setDependencies
      · exact h.link
      · rw [← hcommands] at henlisted
        exact henlisted
      · exact h.books.congr (.of_eq rfl rfl rfl) rfl rfl rfl rfl rfl
      · exact fun b x hb hx => (List.mem_erase_of_ne hb).mpr (h.owners b x hx)
      · exact .inl rfl
    case isFalse hkept =>
      have henlisted := hbefore.overtake hreleased (Enlisted.void_of_kept hkept)
      rw [← hcommands] at henlisted
      exact h.congr rfl rfl ⟨_, _, _, _, _, _, rfl⟩ henlisted

theorem Exact.eventStep (h : e.Exact) (hs : e.eventStep? = some e') : e'.Exact := by
  simp only [eventStep?, Option.bind_eq_bind, Option.bind_eq_some_iff] at hs
  obtain ⟨⟨reception, position⟩, _, hs⟩ := hs
  cases hs
  have hread : Exact (e.updateScheduler ({ · with position })) :=
    h.congr rfl rfl ⟨_, _, _, _, _, _, rfl⟩ h.enlisted
  cases reception with
  | lagged missed => exact hread.markDirty _
  | event event =>
    cases event with
    | updated address slot => exact hread.markDirty _
    | slotConfirmed slot => exact hread.markDirty _
    | invalidated epoch =>
      have henlisted := h.enlisted
      apply Exact.markDirty
      exact hread.congr rfl rfl ⟨_, _, _, _, _, _, rfl⟩
        ⟨henlisted.proper.invalidate, henlisted.nodup, henlisted.released, henlisted.asked⟩

/-- What is sent to a channel, or taken back from it, opens and closes nothing. -/
theorem Exact.tell (h : e.Exact) (a : Address) {f : Latest Snapshot → Latest Snapshot}
    (hopen : ∀ held, (f held).isOpen = held.isOpen) (clock : Nat) (pending : List Address) :
    Exact { e with
      notifier := e.notifier.alter a f, clock, scheduler := { e.scheduler with pending } } :=
  h.congr rfl rfl ⟨_, _, _, _, _, _, rfl⟩ (h.enlisted.alter a hopen)

theorem Exact.recompose (h : e.Exact) (a : Address) : (e.recompose a).Exact := by
  rw [Engine.recompose]
  split
  case isFalse => exact h
  case isTrue hcond =>
    have hwatched : a ∈ e.scheduler.watched := List.contains_iff_mem.mp hcond
    split
    case h_1 view _ =>
      have htold : Exact { e with
          notifier := (e.notifier.publish a (e.calculator.evaluate e.clock view)).2
          clock := e.clock + 1
          scheduler := { e.scheduler with pending := e.scheduler.pending.erase a } } :=
        h.tell a (Notifier.isOpen_offer _) _ _
      exact htold.setDependencies hwatched _
    case h_2 =>
      have htold : Exact { e with
          notifier := e.notifier.withdraw a
          scheduler := { e.scheduler with pending := e.scheduler.pending.insert a } } :=
        h.tell a (f := Latest.clear) (fun _ => rfl) e.clock _
      exact htold.setDependencies hwatched _

theorem Exact.flushStep (h : e.Exact) (hs : e.flushStep? = some e') : e'.Exact := by
  have hfold : ∀ (accounts : List Address) (e : Engine), e.Exact →
      (accounts.foldl Engine.recompose e).Exact := by
    intro accounts
    induction accounts with
    | nil => exact fun _ h => h
    | cons a rest ih => exact fun _ h => ih _ (h.recompose a)
  simp only [flushStep?, Option.bind_eq_bind, Option.bind_eq_some_iff] at hs
  obtain ⟨time, _, hs⟩ := hs
  split at hs
  · cases hs
    exact hfold _ _ (h.congr rfl rfl ⟨_, _, _, _, _, _, rfl⟩ h.enlisted)
  · cases hs

/-- Where everything is given up at once, nothing is left for later. -/
theorem Exact.idleStep_eq_none (h : e.Exact) : e.idleStep? = none := by
  rw [idleStep?, idleAt?, h.books.idle]
  rfl

theorem Exact.schedulerStep (h : e.Exact) (hs : e.schedulerStep? = some e') : e'.Exact := by
  simp only [schedulerStep?, Option.or_eq_some_iff] at hs
  rcases hs with hwatch | ⟨hnone, hrelease | ⟨_, hevent | ⟨_, hflush | ⟨_, hidle⟩⟩⟩⟩
  · exact h.watchStep hwatch
  · exact h.releaseStep (commands_eq_nil hnone) hrelease
  · exact h.eventStep hevent
  · exact h.flushStep hflush
  · rw [h.idleStep_eq_none] at hidle
    cases hidle

theorem Exact.withLink (h : e.Exact) {link : Link} (hlink : link.Manned)
    (hcarries : e.link.Carries link) (lastRun : Task) : Exact { e with link, lastRun } where
  link := hlink
  enlisted := h.enlisted
  books := h.books.congr hcarries rfl rfl rfl rfl rfl
  owners := h.owners

/-- What one turn preserves. -/
theorem Exact.turn (h : e.Exact) (hturn : e.Turn e') : e'.Exact := by
  cases hturn with
  | link hown hs lastRun => exact h.withLink (h.link.after hs) (Link.carries_after hown hs) lastRun
  | scheduler hs lastRun =>
    have hnext := h.schedulerStep hs
    exact hnext.withLink hnext.link (.of_eq rfl rfl rfl) lastRun
  | watch account =>
    exact h.congr rfl rfl ⟨_, _, _, _, _, _, rfl⟩ (h.enlisted.subscribe account)
  | drop id =>
    exact h.congr rfl rfl ⟨_, _, _, _, _, _, rfl⟩
      (h.enlisted.renotify (h.enlisted.proper.keeps_drop id))
  | poll id =>
    exact h.congr rfl rfl ⟨_, _, _, _, _, _, rfl⟩
      (h.enlisted.renotify (h.enlisted.proper.keeps_poll id))
  | tick clock => exact h.congr rfl rfl ⟨_, _, _, _, _, _, rfl⟩ h.enlisted
  | arrange arrangement => exact h.congr rfl rfl ⟨_, _, _, _, _, _, rfl⟩ h.enlisted
  | ask address => exact ⟨h.link.send _, h.enlisted, h.books.ask address, h.owners⟩

theorem Exact.start {l : Ledger} {heartbeats : Bool} (hkeeps : Ledger.Keeps { heartbeats } l)
    {settings : Settings} (hpolicy : settings.sync.idlePolicy = .immediate) (now : Nat) :
    (Engine.start { ledger := l } settings now).Exact := by
  have hcarries := Link.carries_reconnect {
    transport := { ledger := l }
    registry := .ofBuffer settings.sync.changeBuffer
    router := { settings := settings.transport }
    now }
  have hasked : (Engine.start { ledger := l } settings now).link.router.asked = [] :=
    hcarries.asked
  refine ⟨Link.Manned.start hkeeps _ _ _, .empty, ⟨⟨⟨hcarries.running, fun _ _ => ⟨nofun, nofun⟩,
    fun _ => .nil, nofun, .nil, nofun⟩, hpolicy, rfl, fun x => ?_, ?_⟩, nofun⟩, nofun⟩
  · rw [hasked]
    exact ⟨nofun, nofun⟩
  · rw [hasked]
    exact .nil

/-- What a run preserves. -/
theorem Exact.of_runs (h : e.Runs) : e.Exact := by
  induction h with
  | start changes hpolicy now => exact Exact.start (Ledger.keeps_foldl_change changes _) hpolicy now
  | turn _ hturn ih => exact ih.turn hturn

theorem Runs.taskStep (h : e.Runs) {task : Task} (hs : e.taskStep? task = some e') : e'.Runs := by
  cases task with
  | router =>
    obtain ⟨link, hlink, rfl⟩ := Option.map_eq_some_iff.mp hs
    have howned : e.link.Owned := (Exact.of_runs h).link.toOwned
    obtain ⟨event, hown, hevent⟩ := howned.exists_event (Link.step_of_step? hlink)
    exact h.turn (.link hown hevent .router)
  | scheduler =>
    obtain ⟨next, hnext, rfl⟩ := Option.map_eq_some_iff.mp hs
    exact h.turn (.scheduler hnext .scheduler)

theorem Runs.settle (h : e.Runs) : e.settle.Runs :=
  settle_preserves (P := Runs) (fun h => h.taskStep) h

theorem Runs.wait (h : e.Runs) (ms : Nat) :
    Runs { e with link := { e.link with now := e.link.now + ms } } := by
  have hown : ∀ command, Link.Event.wait ms ≠ .send command := nofun
  exact h.turn (.link hown rfl e.lastRun)

theorem Runs.elapse (h : e.Runs) (ms : Nat) : (e.elapse ms).Runs := (h.wait ms).settle

/-- What a load asks for is answered when nothing waits before it. -/
theorem Runs.track (h : e.Runs) (hfree : e.link.router.commands = []) (address : Address) :
    (e.track address).2.Runs := by
  have hrunning : e.link.router.running = true := (Exact.of_runs h).books.running
  have hown : ∀ command, Link.Event.command ≠ .send command := nofun
  have hmet : Link.after? (e.link.send (.track address)).2 .command =
      some (e.link.track address).2 := Link.commandStep?_send_track hrunning hfree address
  have htracked := (h.turn (.ask address)).turn (.link hown hmet .router)
  have hrequest : e.link.request (·.track address) = e.link.track address := if_pos hrunning
  rw [Engine.track, hrequest]
  exact htracked.settle

theorem Exact.tracked_iff (h : e.Exact) (hfree : e.link.router.commands = []) {x : Address} :
    x ∈ e.link.router.tracked ↔
      (∃ a ∈ e.scheduler.watched, x ∈ e.scheduler.dependenciesOf a) ∨ x ∈ e.pinned := by
  have hasked : e.link.router.asked = e.link.router.tracked := by
    rw [Router.asked, hfree]
    rfl
  rw [← hasked, h.books.wanted x]
  constructor
  · rintro (hx | hx)
    · rcases h.books.justified x hx with ⟨a, ha⟩ | hpinned
      · exact .inl ⟨a, h.owners a x ha, ha⟩
      · exact .inr hpinned
    · exact .inr hx
  · rintro (⟨a, _, ha⟩ | hpinned)
    · exact .inl (h.books.tracked a x ha)
    · exact .inr hpinned

/-- However callers, the ledger, the router and the scheduler take turns: with nothing left to do
on a connection, an account is watched exactly while a stream of it is open, an address has a
subscription exactly while a watched account depends on it or it is pinned, and once all have left
there is none. -/
theorem subscriptions_match_watchers (h : e.Runs) (hquiet : e.IsQuiet)
    (hstate : e.link.router.state = .connected) (hdrained : e.link.Drained) :
    (∀ a, a ∈ e.scheduler.watched ↔ e.notifier.isWatched a = true) ∧
    (∀ x, 0 < e.link.transport.ledger.subscriberCount x ↔
      (∃ a ∈ e.scheduler.watched, x ∈ e.scheduler.dependenciesOf a) ∨ x ∈ e.pinned) ∧
    ((∀ a, e.notifier.isWatched a = false) → e.pinned = [] →
      e.link.transport.ledger.totalSubscribers = 0) := by
  have hexact : e.Exact := Exact.of_runs h
  have hwatched : ∀ a, a ∈ e.scheduler.watched ↔ e.notifier.isWatched a = true := fun a =>
    Enlisted.mem_iff (hquiet.commands ▸ hexact.enlisted) hquiet.released
  refine ⟨hwatched, fun x => ?_, fun hclosed hpinned => ?_⟩
  · rw [hexact.link.subscribed_iff hstate hdrained, hexact.tracked_iff hquiet.routerCommands]
  · apply hexact.link.totalSubscribers_eq_zero
    apply List.eq_nil_iff_forall_not_mem.mpr
    intro x hx
    rcases (hexact.tracked_iff hquiet.routerCommands).mp hx with ⟨a, ha, _⟩ | hx
    · rw [hwatched a, hclosed a] at ha
      cases ha
    · rw [hpinned] at hx
      cases hx

theorem runs_stakedEngine : stakedEngine.Runs := by
  have hasked := (@Runs.start true stakedChanges {} rfl 0).turn (.watch ⟨1⟩)
  exact ((hasked.settle.elapse 50).elapse 50).elapse 50

/-- The group of an account was loaded, and then the last watcher of the account has left. -/
def deserted : Engine :=
  let e := (stakedEngine.track ⟨2⟩).2
  settle { e with notifier := e.notifier.drop 0 }

theorem subscriptions_match_watchers_deserted :
    (∀ e ∈ [stakedEngine, deserted], e.Runs ∧ e.IsQuiet ∧ e.link.router.state = .connected ∧
      e.link.Drained) ∧
    (stakedEngine.scheduler.watched = [⟨1⟩] ∧ stakedEngine.pinned = [] ∧
      ∀ x, 0 < stakedEngine.link.transport.ledger.subscriberCount x ↔
        x ∈ [⟨1⟩, ⟨2⟩, ⟨3⟩, ⟨4⟩, ⟨6⟩, ⟨7⟩]) ∧
    deserted.scheduler.watched = [] ∧ deserted.pinned = [⟨2⟩] ∧
      ∀ x, 0 < deserted.link.transport.ledger.subscriberCount x ↔ x = ⟨2⟩ := by
  have hchecked : (∀ e ∈ [stakedEngine, deserted], e.scheduler.commands = [] ∧
        e.notifier.released = [] ∧ e.link.registry.events.receive? e.scheduler.position = none ∧
        e.link.router.commands = [] ∧ e.scheduler.dirty = [] ∧
        e.link.router.state = .connected ∧ e.link.Drained) ∧
      stakedEngine.scheduler.watched = [⟨1⟩] ∧ stakedEngine.pinned = [] ∧
      stakedEngine.scheduler.dependenciesOf ⟨1⟩ = [⟨1⟩, ⟨2⟩, ⟨3⟩, ⟨4⟩, ⟨6⟩, ⟨7⟩] ∧
      deserted.scheduler.watched = [] ∧ deserted.pinned = [⟨2⟩] := by
    unfold Link.Drained
    decide +kernel
  obtain ⟨hidle, hwatched, hpinned, hdependencies, hunwatched, hkept⟩ := hchecked
  have hfree : stakedEngine.link.router.commands = [] :=
    (hidle _ List.mem_cons_self).2.2.2.1
  have hdeserted : deserted.Runs := ((runs_stakedEngine.track hfree ⟨2⟩).turn (.drop 0)).settle
  have hruns : ∀ e ∈ [stakedEngine, deserted], e.Runs ∧ e.IsQuiet ∧
      e.link.router.state = .connected ∧ e.link.Drained := by
    intro e he
    obtain ⟨hcommands, hreleased, hevents, hrouter, hdirty, hlink⟩ := hidle e he
    refine ⟨?_, ⟨hcommands, hreleased, hevents, hrouter, hdirty⟩, hlink⟩
    rcases List.mem_pair.mp he with heq | heq
    · exact heq ▸ runs_stakedEngine
    · exact heq ▸ hdeserted
  have hsubscribed : ∀ e ∈ [stakedEngine, deserted], ∀ x,
      0 < e.link.transport.ledger.subscriberCount x ↔
        (∃ a ∈ e.scheduler.watched, x ∈ e.scheduler.dependenciesOf a) ∨ x ∈ e.pinned := by
    intro e he
    obtain ⟨h, hquiet, hstate, hdrained⟩ := hruns e he
    exact (subscriptions_match_watchers h hquiet hstate hdrained).2.1
  refine ⟨hruns, ⟨hwatched, hpinned, fun x => ?_⟩, hunwatched, hkept, fun x => ?_⟩
  · rw [hsubscribed _ List.mem_cons_self x, hwatched, hpinned]
    simp only [List.mem_singleton, exists_eq_left, hdependencies, List.not_mem_nil, or_false]
  · rw [hsubscribed _ (List.mem_cons_of_mem _ List.mem_cons_self) x, hunwatched, hkept]
    simp

end Solvency.Engine
