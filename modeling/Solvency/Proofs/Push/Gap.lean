import Solvency.Proofs.Push.Scheduler
import Solvency.Proofs.Router.Coherence
import Solvency.Proofs.Router.Epochs
import Solvency.Settings.Check

/-! Snapshots across a gap. When a listener has received everything, each snapshot held was
composed in the epoch of the registry, unless word of that epoch was lost on the way. No two are
composed at the same time, so an older one is told apart from one that says the same. -/

namespace Solvency

/-- A snapshot, and the epoch that it was composed in. -/
structure Composition where
  epoch : Nat
  account : Address
  snapshot : Snapshot
deriving DecidableEq

namespace Engine

/-- What may happen to an engine, in any order. -/
inductive Event where
  | link (event : Link.Event)
  | pin (address : Address)
  | watch (account : Address)
  | drop (id : Nat)
  | poll (id : Nat)
  | accept
  | release
  | receive
  | flush
  | expire
  | tick (duration : Nat)
  | arrange (arrangement : Arrangement)

def after? (e : Engine) : Event → Option Engine
  | .link event => (e.link.after? event).map ({ e with link := · })
  | .pin address => some { e with
      link := (e.link.request (·.track address)).2
      pinned := e.pinned.insert address }
  | .watch account => some (e.watch account).2
  | .drop id => some { e with notifier := e.notifier.drop id }
  | .poll id => some { e with notifier := (e.notifier.poll id).2 }
  | .accept => e.watchStep?
  | .release => e.releaseStep?
  | .receive => e.eventStep?
  | .flush => e.flushStep?
  | .expire => e.idleStep?
  | .tick duration => some { e with clock := e.clock + duration }
  | .arrange arrangement => some (e.updateScheduler ({ · with arrangement }))

variable {e e' e'' : Engine}

/-- What the scheduler does next is one of the events. -/
theorem exists_event_of_schedulerStep? (h : e.schedulerStep? = some e') :
    ∃ event, e.after? event = some e' := by
  simp only [schedulerStep?, Option.or_eq_some_iff] at h
  rcases h with h | ⟨_, h | ⟨_, h | ⟨_, h | ⟨_, h⟩⟩⟩⟩
  · exact ⟨.accept, h⟩
  · exact ⟨.release, h⟩
  · exact ⟨.receive, h⟩
  · exact ⟨.flush, h⟩
  · exact ⟨.expire, h⟩

def composition? (e : Engine) (a : Address) : Option Composition :=
  if e.scheduler.watched.contains a then
    (e.build a).toOption.map fun view =>
      ⟨e.link.registry.epoch, a, e.calculator.evaluate e.clock view⟩
  else none

/-- What is composed of accounts, one after another. The last one comes first. -/
def compositions (e : Engine) : List Address → List Composition
  | [] => []
  | a :: rest => (e.recompose a).compositions rest ++ (e.composition? a).toList

/-- What a flush composes. -/
def flushed (e : Engine) : List Composition :=
  (e.updateScheduler fun s => { s with flushAt := none, dirty := [] }).compositions
    (e.scheduler.arrangement.order none e.scheduler.dirty)

/-- The epoch, if the scheduler is about to be told that it lost events. -/
def losses (e : Engine) : List Nat :=
  match e.link.registry.events.receive? e.scheduler.position with
  | some (.lagged _, _) => [e.link.registry.epoch]
  | _ => []

/-- An engine with everything that was composed in it, and the epochs in which its scheduler was
told of a loss. -/
structure History where
  engine : Engine
  composed : List Composition := []
  lagged : List Nat := []

namespace History

def after? (h : History) (event : Event) : Option History :=
  (h.engine.after? event).map fun engine =>
    match event with
    | .flush => { h with engine, composed := h.engine.flushed ++ h.composed }
    | .receive => { h with engine, lagged := h.engine.losses ++ h.lagged }
    | _ => { h with engine }

def run? (h : History) (events : List Event) : Option History := events.foldlM after? h

end History

/-- Everything was composed at a time of its own, and before now. -/
structure Dated (composed : List Composition) (clock : Nat) : Prop where
  apart : composed.Pairwise fun c c' => c'.snapshot.computedAt < c.snapshot.computedAt
  past : ∀ c ∈ composed, c.snapshot.computedAt < clock

/-- Why there may be a snapshot of an account. It was composed in this epoch, or word of the epoch
is still to come. Where word was lost, the account is to be composed again, or it was and that
made no difference. -/
inductive Vouched (composed : List Composition) (lagged : List Nat) (todo : List Address)
    (e : Engine) (a : Address) (snapshot : Snapshot) : Prop
  | composed (h : ⟨e.link.registry.epoch, a, snapshot⟩ ∈ composed)
  | told (h : e.link.registry.events.Outstanding e.scheduler.position
      RegistryEvent.IsInvalidated)
  | lost (h : e.link.registry.epoch ∈ lagged) (hdirty : a ∈ todo ∨ a ∈ e.scheduler.dirty)
  | repeated (h : e.link.registry.epoch ∈ lagged) (later : Snapshot)
      (hcomposed : ⟨e.link.registry.epoch, a, later⟩ ∈ composed) (hagrees : snapshot.Agrees later)

structure Sound (composed : List Composition) (lagged : List Nat) (todo : List Address)
    (e : Engine) : Prop where
  full : e.link.registry.events.Full
  position_le : e.scheduler.position ≤ e.link.registry.events.total
  proper : e.notifier.Proper
  dated : Dated composed e.clock
  flush : e.scheduler.dirty ≠ [] → e.scheduler.flushAt ≠ none
  watched : ∀ a snapshot, e.notifier.latest? a = some snapshot → a ∈ e.scheduler.watched
  vouched : ∀ a snapshot, e.notifier.latest? a = some snapshot →
    Vouched composed lagged todo e a snapshot

variable {composed : List Composition} {lagged : List Nat} {todo todo' : List Address} {a : Address}

theorem Vouched.of_eq {snapshot : Snapshot} (h : Vouched composed lagged todo e a snapshot)
    (hregistry : e'.link.registry = e.link.registry)
    (hposition : e'.scheduler.position = e.scheduler.position)
    (hdirty : e'.scheduler.dirty = e.scheduler.dirty) :
    Vouched composed lagged todo e' a snapshot := by
  cases h with
  | composed hcomposed => exact .composed (hregistry ▸ hcomposed)
  | told htold =>
    refine .told ?_
    rw [hregistry, hposition]
    exact htold
  | lost hlagged hlost => exact .lost (hregistry ▸ hlagged) (hdirty ▸ hlost)
  | repeated hlagged later hcomposed hagrees =>
    exact .repeated (hregistry ▸ hlagged) later (hregistry ▸ hcomposed) hagrees

theorem Dated.mono (h : Dated composed e.clock) (hclock : e.clock ≤ e'.clock) :
    Dated composed e'.clock :=
  ⟨h.apart, fun c hc => Nat.lt_of_lt_of_le (h.past c hc) hclock⟩

/-- As long as the registry stays as it is, what is no longer held needs nothing to vouch for. -/
theorem Sound.congr (h : Sound composed lagged todo e)
    (hregistry : e'.link.registry = e.link.registry)
    (hposition : e'.scheduler.position = e.scheduler.position) (hproper : e'.notifier.Proper)
    (hclock : e.clock ≤ e'.clock)
    (hflush : e'.scheduler.dirty ≠ [] → e'.scheduler.flushAt ≠ none)
    (hheld : ∀ a snapshot, e'.notifier.latest? a = some snapshot →
      e.notifier.latest? a = some snapshot ∧
      (a ∈ e.scheduler.watched → a ∈ e'.scheduler.watched) ∧
      (a ∈ todo ∨ a ∈ e.scheduler.dirty → a ∈ todo' ∨ a ∈ e'.scheduler.dirty)) :
    Sound composed lagged todo' e' where
  full := hregistry ▸ h.full
  position_le := by
    rw [hregistry, hposition]
    exact h.position_le
  proper := hproper
  dated := h.dated.mono hclock
  flush := hflush
  watched a snapshot hlatest := by
    obtain ⟨hbefore, hwatched, _⟩ := hheld a snapshot hlatest
    exact hwatched (h.watched a snapshot hbefore)
  vouched a snapshot hlatest := by
    obtain ⟨hbefore, _, hdirty⟩ := hheld a snapshot hlatest
    cases h.vouched a snapshot hbefore with
    | composed hcomposed => exact .composed (hregistry ▸ hcomposed)
    | told htold =>
      refine .told ?_
      rw [hregistry, hposition]
      exact htold
    | lost hlagged hlost => exact .lost (hregistry ▸ hlagged) (hdirty hlost)
    | repeated hlagged later hcomposed hagrees =>
      exact .repeated (hregistry ▸ hlagged) later (hregistry ▸ hcomposed) hagrees

theorem Sound.rebooked (h : Sound composed lagged todo e)
    (dependencies : Table Address (List Address))
    (hrebooked : (e.updateScheduler ({ · with dependencies })).Rebooked e') :
    Sound composed lagged todo e' := by
  obtain ⟨dependents, tracked, idle, sent, rfl⟩ := hrebooked
  exact h.congr rfl rfl h.proper le_rfl h.flush fun _ _ hlatest => ⟨hlatest, id, id⟩

theorem Sound.setDependencies (h : Sound composed lagged todo e) (account : Address)
    (next : List Address) : Sound composed lagged todo (e.setDependencies account next) := by
  obtain ⟨dependencies, hrebooked, _⟩ := e.rebooked_setDependencies account next
  exact h.rebooked dependencies hrebooked

theorem Sound.markDirty {accounts : List Address} (h : Sound composed lagged accounts e) :
    Sound composed lagged [] (e.markDirty accounts) :=
  h.congr rfl rfl h.proper le_rfl (flushAt_markDirty h.flush accounts) fun _ _ hlatest =>
    ⟨hlatest, id, fun hdirty => .inr (mem_foldl_insert.mpr hdirty)⟩

theorem Sound.weaken (h : Sound composed lagged [] e) (todo : List Address) :
    Sound composed lagged todo e :=
  h.congr rfl rfl h.proper le_rfl h.flush fun _ _ hlatest =>
    ⟨hlatest, id, fun hdirty => .inr (hdirty.resolve_left List.not_mem_nil)⟩

theorem Sound.accept (h : Sound composed lagged [] e) (hs : e.watchStep? = some e') :
    Sound composed lagged [] e' := by
  rw [watchStep?] at hs
  split at hs
  · cases hs
  case h_2 account rest _ =>
    cases hs
    rw [onWatch]
    refine Sound.markDirty (Sound.weaken ?_ _)
    split
    · exact h.congr rfl rfl h.proper le_rfl h.flush fun _ _ hlatest => ⟨hlatest, id, id⟩
    · refine Sound.setDependencies ?_ _ _
      exact h.congr rfl rfl h.proper le_rfl h.flush fun _ _ hlatest =>
        ⟨hlatest, List.mem_insert_of_mem, id⟩

/-- An account that nobody watches has no channel, and so there is nothing held of it. -/
theorem Sound.release (h : Sound composed lagged [] e) (hs : e.releaseStep? = some e') :
    Sound composed lagged [] e' := by
  rw [releaseStep?] at hs
  split at hs
  · cases hs
  case h_2 account rest _ =>
    cases hs
    have hproper := h.proper.withReleased rest
    rw [onRelease]
    split
    case isTrue hcond =>
      have hclosed : e.notifier.isWatched account = false :=
        (Bool.not_eq_true' _).mp (Bool.and_eq_true_iff.mp hcond).1
      refine Sound.setDependencies ?_ account []
      refine h.congr rfl rfl hproper le_rfl ?_ fun b snapshot hlatest => ?_
      · exact fun hdirty => h.flush fun hclean => hdirty (by simp [updateScheduler, hclean])
      · have hne : b ≠ account := by
          rintro rfl
          have hnone := h.proper.latest?_of_not_watched hclosed
          cases hnone.symm.trans hlatest
        exact ⟨hlatest, (List.mem_erase_of_ne hne).mpr,
          fun hdirty => hdirty.imp_right (List.mem_erase_of_ne hne).mpr⟩
    case isFalse => exact h.congr rfl rfl hproper le_rfl h.flush fun _ _ hlatest => ⟨hlatest, id, id⟩

theorem Sound.expireIdle (h : Sound composed lagged [] e) :
    Sound composed lagged [] e.expireIdle := by
  rw [Engine.expireIdle]
  dsimp only
  generalize (e.scheduler.arrangement.order none _) = expired
  induction expired generalizing e with
  | nil => exact h
  | cons x rest ih =>
    refine ih ?_
    have hforgotten : Sound composed lagged [] (e.updateScheduler fun s =>
        { s with idle := s.idle.erase x }) :=
      h.congr rfl rfl h.proper le_rfl h.flush fun _ _ hlatest => ⟨hlatest, id, id⟩
    simp only
    split
    · exact hforgotten
    · exact hforgotten.rebooked e.scheduler.dependencies (rebooked_untrack _ x)

theorem Sound.renotify (h : Sound composed lagged [] e) {notifier : Notifier}
    (hkeeps : e.notifier.Keeps notifier) : Sound composed lagged [] { e with notifier } := by
  refine h.congr rfl rfl hkeeps.proper le_rfl h.flush fun b snapshot hlatest => ⟨?_, id, id⟩
  have hopen : notifier.isWatched b = true := by
    by_contra hclosed
    rw [hkeeps.proper.latest?_of_not_watched (Bool.eq_false_iff.mpr hclosed)] at hlatest
    cases hlatest
  rw [← (hkeeps.watched b hopen).2]
  exact hlatest

/-- A new epoch leaves word in the log, and in an old one everything is as it was. -/
theorem Sound.link (h : Sound composed lagged [] e) {link : Link}
    (hheralds : e.link.registry.Heralds link.registry) (pinned : List Address) :
    Sound composed lagged [] { e with link, pinned } where
  full := (hheralds.full h.full).1
  position_le := Nat.le_trans h.position_le (hheralds.full h.full).2
  proper := h.proper
  dated := h.dated
  flush := h.flush
  watched := h.watched
  vouched a snapshot hlatest := by
    by_cases hepoch : link.registry.epoch = e.link.registry.epoch
    · cases h.vouched a snapshot hlatest with
      | composed hcomposed => exact .composed (hepoch.symm ▸ hcomposed)
      | told htold => exact .told (hheralds.keeps_outstanding h.position_le htold)
      | lost hlagged hdirty => exact .lost (hepoch.symm ▸ hlagged) hdirty
      | repeated hlagged later hcomposed hagrees =>
        exact .repeated (hepoch.symm ▸ hlagged) later (hepoch.symm ▸ hcomposed) hagrees
    · exact .told (hheralds.outstanding h.position_le hepoch)

theorem Sound.receive (h : Sound composed lagged [] e) (hs : e.eventStep? = some e') :
    Sound composed (e.losses ++ lagged) [] e' := by
  simp only [eventStep?, Option.bind_eq_bind, Option.bind_eq_some_iff] at hs
  obtain ⟨⟨reception, next⟩, hreceive, hs⟩ := hs
  cases hs
  have hlosses : ∀ epoch ∈ lagged, epoch ∈ e.losses ++ lagged :=
    fun _ => List.mem_append_right _
  obtain ⟨hnext, ⟨missed, rfl⟩ | ⟨event, rfl, hevent⟩⟩ :=
    EventLog.receive?_cases h.position_le hreceive
  · have hlost : e.link.registry.epoch ∈ e.losses ++ lagged := by
      simp [losses, hreceive]
    exact Sound.markDirty ⟨h.full, hnext, h.proper, h.dated, h.flush, h.watched,
      fun b snapshot hlatest => .lost hlost (.inl (h.watched b snapshot hlatest))⟩
  · have hpassed : ∀ accounts, ¬ event.IsInvalidated → Sound composed (e.losses ++ lagged) accounts
        (e.updateScheduler ({ · with position := next })) := by
      intro accounts hnot
      refine ⟨h.full, hnext, h.proper, h.dated, h.flush, h.watched, fun b snapshot hlatest => ?_⟩
      cases h.vouched b snapshot hlatest with
      | composed hcomposed => exact .composed hcomposed
      | told htold => exact .told ((hevent _ htold).resolve_left hnot)
      | lost hlagged hdirty =>
        exact .lost (hlosses _ hlagged) (.inr (hdirty.resolve_left List.not_mem_nil))
      | repeated hlagged later hcomposed hagrees =>
        exact .repeated (hlosses _ hlagged) later hcomposed hagrees
    cases event with
    | updated address slot => exact (hpassed _ id).markDirty
    | slotConfirmed slot => exact (hpassed _ id).markDirty
    | invalidated epoch =>
      have hnone : ∀ b snapshot, e.notifier.invalidate.latest? b ≠ some snapshot := by
        simp [Notifier.latest?_invalidate]
      exact Sound.markDirty ⟨h.full, hnext, h.proper.invalidate, h.dated, h.flush,
        fun b snapshot hlatest => absurd hlatest (hnone b snapshot),
        fun b snapshot hlatest => absurd hlatest (hnone b snapshot)⟩

/-- Composing an account offers it what its view amounts to, or takes back what it held. -/
theorem recompose_spec (hwatched : e.scheduler.watched.contains a = true) :
    ∃ notifier clock pending dependencies,
      (updateScheduler { e with notifier, clock } ({ · with pending, dependencies })).Rebooked
        (e.recompose a) ∧
      ((∃ view, e.composition? a =
            some ⟨e.link.registry.epoch, a, e.calculator.evaluate e.clock view⟩ ∧
          notifier = (e.notifier.publish a (e.calculator.evaluate e.clock view)).2 ∧
          clock = e.clock + 1) ∨
        e.composition? a = none ∧ notifier = e.notifier.withdraw a ∧ clock = e.clock) := by
  have hcomposition (result : Except Failure View) (hbuild : e.build a = result) :
      e.composition? a = result.toOption.map fun view =>
        ⟨e.link.registry.epoch, a, e.calculator.evaluate e.clock view⟩ := by
    rw [composition?, if_pos hwatched, hbuild]
  rw [recompose, if_pos hwatched]
  split
  case h_1 view hbuild =>
    obtain ⟨dependencies, hrebooked, _⟩ := rebooked_setDependencies { e with
      notifier := (e.notifier.publish a (e.calculator.evaluate e.clock view)).2
      clock := e.clock + 1
      scheduler := { e.scheduler with pending := e.scheduler.pending.erase a } } a
      view.dependencies.eraseDups
    exact ⟨_, _, _, dependencies, hrebooked, .inl ⟨view, hcomposition _ hbuild, rfl, rfl⟩⟩
  case h_2 error hbuild =>
    obtain ⟨dependencies, hrebooked, _⟩ := rebooked_setDependencies { e with
      notifier := e.notifier.withdraw a
      scheduler := { e.scheduler with pending := e.scheduler.pending.insert a } } a
      (e.requirementAddresses a ++ e.scheduler.dependenciesOf a).eraseDups
    exact ⟨_, _, _, dependencies, hrebooked, .inr ⟨hcomposition _ hbuild, rfl, rfl⟩⟩

/-- What is composed now comes after everything that was composed before. -/
theorem Dated.cons (h : Dated composed e.clock) (epoch : Nat) (view : View) :
    Dated (⟨epoch, a, e.calculator.evaluate e.clock view⟩ :: composed) (e.clock + 1) where
  apart := List.pairwise_cons.mpr ⟨h.past, h.apart⟩
  past := List.forall_mem_cons.mpr
    ⟨Nat.lt_succ_self _, fun c hc => Nat.lt_succ_of_lt (h.past c hc)⟩

/-- What is held of the others is vouched for as before. -/
theorem Vouched.done {b : Address} {snapshot : Snapshot}
    (h : Vouched composed lagged (a :: todo) e b snapshot) (hb : b ≠ a) (new : List Composition) :
    Vouched (new ++ composed) lagged todo e b snapshot := by
  cases h with
  | composed hcomposed => exact .composed (List.mem_append_right _ hcomposed)
  | told htold => exact .told htold
  | lost hlagged hdirty =>
    exact .lost hlagged (hdirty.imp_left fun hmem => (List.mem_cons.mp hmem).resolve_left hb)
  | repeated hlagged later hcomposed hagrees =>
    exact .repeated hlagged later (List.mem_append_right _ hcomposed) hagrees

/-- What stays although it was offered anew is as good as the offer, where word was lost. -/
theorem Vouched.repeat {old later : Snapshot} (h : Vouched composed lagged (a :: todo) e a old)
    (hagrees : old.Agrees later) :
    Vouched (⟨e.link.registry.epoch, a, later⟩ :: composed) lagged todo e a old := by
  cases h with
  | composed hcomposed => exact .composed (List.mem_cons_of_mem _ hcomposed)
  | told htold => exact .told htold
  | lost hlagged _ => exact .repeated hlagged later List.mem_cons_self hagrees
  | repeated hlagged _ _ _ => exact .repeated hlagged later List.mem_cons_self hagrees

/-- Composing an account sees to its snapshot. -/
theorem Sound.recompose (h : Sound composed lagged (a :: todo) e) :
    Sound ((e.composition? a).toList ++ composed) lagged todo (e.recompose a) := by
  by_cases hwatched : e.scheduler.watched.contains a = true
  · have hmem := List.contains_iff_mem.mp hwatched
    obtain ⟨notifier, clock, pending, dependencies, ⟨dependents, tracked, idle, sent, heq⟩,
      ⟨view, hcomposition, rfl, rfl⟩ | ⟨hcomposition, rfl, rfl⟩⟩ := recompose_spec hwatched
    · rw [heq, hcomposition]
      have hothers {b : Address} (hb : b ≠ a) := Notifier.latest?_alter_of_ne h.proper
        (Notifier.offer (e.calculator.evaluate e.clock view)) hb
      refine ⟨h.full, h.position_le, h.proper.alter a (Notifier.isOpen_offer _),
        h.dated.cons _ view, h.flush, fun b snapshot hlatest => ?_, fun b snapshot hlatest => ?_⟩
      · by_cases hb : b = a
        · exact hb ▸ hmem
        · exact h.watched b snapshot ((hothers hb).symm.trans hlatest)
      · by_cases hb : b = a
        · subst hb
          rcases h.proper.publish_cases hlatest with ⟨hold, hagrees⟩ | rfl
          · have hvouched := (h.vouched b snapshot hold).repeat hagrees
            exact hvouched.of_eq rfl rfl rfl
          · exact .composed List.mem_cons_self
        · have hbefore := h.vouched b snapshot ((hothers hb).symm.trans hlatest)
          have hvouched := hbefore.done hb
            [⟨e.link.registry.epoch, a, e.calculator.evaluate e.clock view⟩]
          exact hvouched.of_eq rfl rfl rfl
    · rw [heq, hcomposition]
      have hothers {b : Address} (hb : b ≠ a) :=
        Notifier.latest?_alter_of_ne h.proper Latest.clear hb
      have hne {b : Address} {snapshot : Snapshot}
          (hlatest : (e.notifier.withdraw a).latest? b = some snapshot) : b ≠ a := by
        rintro rfl
        cases (Notifier.latest?_withdraw h.proper b).symm.trans hlatest
      refine ⟨h.full, h.position_le, h.proper.alter a fun _ => rfl, h.dated, h.flush,
        fun b snapshot hlatest => ?_, fun b snapshot hlatest => ?_⟩
      · exact h.watched b snapshot ((hothers (hne hlatest)).symm.trans hlatest)
      · have hbefore := h.vouched b snapshot ((hothers (hne hlatest)).symm.trans hlatest)
        have hvouched := hbefore.done (hne hlatest) []
        exact hvouched.of_eq rfl rfl rfl
  · have hsame : e.recompose a = e := by rw [Engine.recompose, if_neg hwatched]
    have hnone : e.composition? a = none := if_neg hwatched
    rw [hsame, hnone]
    refine h.congr rfl rfl h.proper le_rfl h.flush fun b snapshot hlatest => ⟨hlatest, id, ?_⟩
    rintro (hdirty | hdirty)
    · rcases List.mem_cons.mp hdirty with rfl | hdirty
      · exact absurd (List.contains_iff_mem.mpr (h.watched b snapshot hlatest)) hwatched
      · exact .inl hdirty
    · exact .inr hdirty

theorem Sound.foldl_recompose (h : Sound composed lagged todo e) :
    Sound (e.compositions todo ++ composed) lagged [] (todo.foldl Engine.recompose e) := by
  induction todo generalizing e composed with
  | nil => exact h
  | cons a rest ih =>
    rw [compositions, List.append_assoc]
    exact ih h.recompose

theorem Sound.flushStep (h : Sound composed lagged [] e) (hs : e.flushStep? = some e') :
    Sound (e.flushed ++ composed) lagged [] e' := by
  simp only [flushStep?, Option.bind_eq_bind, Option.bind_eq_some_iff] at hs
  obtain ⟨_, _, hs⟩ := hs
  split at hs
  case isFalse => cases hs
  case isTrue =>
    cases hs
    refine Sound.foldl_recompose (h.congr rfl rfl h.proper le_rfl (fun hdirty => absurd rfl hdirty)
      fun b snapshot hlatest => ⟨hlatest, id, fun hdirty => .inl ?_⟩)
    have hmem := hdirty.resolve_left List.not_mem_nil
    exact (e.scheduler.arrangement.mem_order none).mpr hmem

/-- What one event preserves. -/
theorem Sound.after {h h' : History} (hsound : Sound h.composed h.lagged [] h.engine)
    {event : Event} (hs : h.after? event = some h') : Sound h'.composed h'.lagged [] h'.engine := by
  obtain ⟨engine, hengine, rfl⟩ := Option.map_eq_some_iff.mp hs
  cases event with
  | link event =>
    obtain ⟨link, hlink, rfl⟩ := Option.map_eq_some_iff.mp hengine
    exact hsound.link (Link.heralds_after hlink) _
  | pin address =>
    cases hengine
    refine hsound.link ?_ _
    rw [Link.request]
    split
    · exact Link.heralds_track _ _
    · exact .refl _
  | watch account =>
    cases hengine
    refine hsound.congr rfl rfl (hsound.proper.subscribe account) le_rfl hsound.flush ?_
    exact fun b snapshot hlatest =>
      ⟨(Notifier.latest?_subscribe hsound.proper _ _).symm.trans hlatest, id, id⟩
  | drop id =>
    cases hengine
    exact hsound.renotify (hsound.proper.keeps_drop id)
  | poll id =>
    cases hengine
    exact hsound.renotify (hsound.proper.keeps_poll id)
  | accept => exact hsound.accept hengine
  | release => exact hsound.release hengine
  | receive => exact hsound.receive hengine
  | flush => exact hsound.flushStep hengine
  | expire =>
    simp only [Engine.after?, idleStep?, Option.bind_eq_bind, Option.bind_eq_some_iff] at hengine
    obtain ⟨_, _, hengine⟩ := hengine
    split at hengine
    · cases hengine
      exact hsound.expireIdle
    · cases hengine
  | tick duration =>
    cases hengine
    exact hsound.congr rfl rfl hsound.proper (Nat.le_add_right _ _) hsound.flush
      fun _ _ hlatest => ⟨hlatest, id, id⟩
  | arrange arrangement =>
    cases hengine
    exact hsound.congr rfl rfl hsound.proper le_rfl hsound.flush
      fun _ _ hlatest => ⟨hlatest, id, id⟩

theorem sound_start (transport : Transport) (settings : Settings) (now : Nat) :
    Sound [] [] [] (start transport settings now) := by
  have hheralds := Link.heralds_reconnect {
    transport
    registry := .ofBuffer settings.sync.changeBuffer
    router := { settings := settings.transport }
    now }
  have hnone : ∀ a snapshot, ({} : Notifier).latest? a ≠ some snapshot :=
    fun _ snapshot hlatest => Option.some_ne_none snapshot hlatest.symm
  have hdated : Dated [] 0 := ⟨.nil, fun _ hc => absurd hc List.not_mem_nil⟩
  exact ⟨(hheralds.full (EventLog.full_ofBuffer _)).1, Nat.le_refl _, Notifier.proper_empty, hdated,
    fun hdirty => absurd rfl hdirty, fun a snapshot hlatest => absurd hlatest (hnone a snapshot),
    fun a snapshot hlatest => absurd hlatest (hnone a snapshot)⟩

/-- What a run preserves. -/
theorem Sound.run {h h' : History} (hsound : Sound h.composed h.lagged [] h.engine)
    {events : List Event} (hrun : h.run? events = some h') :
    Sound h'.composed h'.lagged [] h'.engine :=
  foldlM_preserves (P := fun h => Sound h.composed h.lagged [] h.engine)
    (fun h => Sound.after h) hsound hrun

/-- Once the scheduler has received everything, each snapshot that is held was composed in the
epoch of the registry, unless the scheduler was told in that epoch that it lost events. A
snapshot that outlives its epoch is of an account that is due to be composed again, or one that
says what was composed of the account since. Each composition has a time of its own, so they are
two. -/
theorem held_composed_or_lagged {transport : Transport} {settings : Settings} {now : Nat}
    {events : List Event} {h : History}
    (hrun : History.run? { engine := start transport settings now } events = some h)
    (hreceived : h.engine.link.registry.events.receive? h.engine.scheduler.position = none)
    {a : Address} {snapshot : Snapshot} (hheld : h.engine.notifier.latest? a = some snapshot) :
    (h.composed.map (·.snapshot.computedAt)).Nodup ∧
      (⟨h.engine.link.registry.epoch, a, snapshot⟩ ∈ h.composed ∨
        h.engine.link.registry.epoch ∈ h.lagged ∧
          (a ∈ h.engine.scheduler.dirty ∧ h.engine.scheduler.flushAt ≠ none ∨
            ∃ later, ⟨h.engine.link.registry.epoch, a, later⟩ ∈ h.composed ∧
              snapshot.Agrees later)) := by
  have hsound := (sound_start transport settings now).run (h := ⟨_, [], []⟩) hrun
  refine ⟨?_, ?_⟩
  · exact List.pairwise_map.mpr (hsound.dated.apart.imp fun hlt => Nat.ne_of_gt hlt)
  cases hsound.vouched a snapshot hheld with
  | composed hcomposed => exact .inl hcomposed
  | told htold => exact absurd htold (EventLog.not_outstanding hsound.full hreceived)
  | lost hlagged hdirty =>
    have hdirty := hdirty.resolve_left List.not_mem_nil
    exact .inr ⟨hlagged, .inl ⟨hdirty, hsound.flush (List.ne_nil_of_mem hdirty)⟩⟩
  | repeated hlagged later hcomposed hagrees =>
    exact .inr ⟨hlagged, .inr ⟨later, hcomposed, hagrees⟩⟩

/-- An account is watched until it and its group are known. -/
def composing : List Event :=
  [.watch ⟨1⟩, .accept, .link .command, .receive, .link (.wait 50), .flush,
    .link .command, .receive, .link (.wait 50), .flush]

theorem held_composed_or_lagged_pair :
    ∃ h snapshot, History.run?
        { engine := start { ledger := Link.pairLedger } {} 0 } composing = some h ∧
      h.engine.link.registry.events.receive? h.engine.scheduler.position = none ∧
      h.engine.notifier.latest? ⟨1⟩ = some snapshot ∧
      ⟨h.engine.link.registry.epoch, ⟨1⟩, snapshot⟩ ∈ h.composed := by
  have hran : (History.run?
      { engine := start { ledger := Link.pairLedger } {} 0 } composing).any (fun h =>
        (h.engine.link.registry.events.receive? h.engine.scheduler.position).isNone ∧
          (h.engine.notifier.latest? ⟨1⟩).isSome ∧ h.lagged = []) = true := by
    decide +kernel
  obtain ⟨h, hrun, hh⟩ := (Option.any_eq_true _ _).mp hran
  obtain ⟨hreceived, hheld, hlagged⟩ := of_decide_eq_true hh
  have hreceived := Option.isNone_iff_eq_none.mp hreceived
  obtain ⟨snapshot, hlatest⟩ := Option.isSome_iff_exists.mp hheld
  refine ⟨h, snapshot, hrun, hreceived, hlatest, ?_⟩
  refine (held_composed_or_lagged hrun hreceived hlatest).2.resolve_right fun ⟨hlost, _⟩ => ?_
  rw [hlagged] at hlost
  cases hlost

/-- With the account and its group, as many addresses as there is room for events. -/
def crowd : List Address := (List.range 14).map fun n => ⟨BitVec.ofNat 256 (16 + n)⟩

def crowdedLedger : Ledger :=
  crowd.foldl (fun l a => l.setAccount a (.rootBank default)) Link.pairLedger

def crowdedSettings : Settings := { sync := { changeBuffer := 16 } }

def crowding : List Event := crowd.flatMap fun a => [.pin a, .receive]

/-- A resync tells of the new epoch first and of every address after that, which is more than
there is room for. The scheduler hears of a loss alone, and the old snapshot stays. It stays after
the flush too, for what is composed then says the same. -/
theorem gap_outlived :
    crowdedSettings.check = .ok () ∧ ∃ h h' snapshot, History.run?
        { engine := start { ledger := crowdedLedger } crowdedSettings 0 }
        (crowding ++ composing ++ .link .resync :: List.replicate 17 .receive) = some h ∧
      h.engine.link.registry.events.receive? h.engine.scheduler.position = none ∧
      h.engine.notifier.latest? ⟨1⟩ = some snapshot ∧
      ⟨h.engine.link.registry.epoch, ⟨1⟩, snapshot⟩ ∉ h.composed ∧
      h.run? [.link (.wait 50), .flush] = some h' ∧
      h'.engine.link.registry.events.receive? h'.engine.scheduler.position = none ∧
      h'.engine.scheduler.dirty = [] ∧ h'.engine.notifier.latest? ⟨1⟩ = some snapshot ∧
      ⟨h'.engine.link.registry.epoch, ⟨1⟩, snapshot⟩ ∉ h'.composed := by
  have hran : (History.run?
      { engine := start { ledger := crowdedLedger } crowdedSettings 0 }
      (crowding ++ composing ++ .link .resync :: List.replicate 17 .receive)).any (fun h =>
        (h.run? [.link (.wait 50), .flush]).any fun h' =>
          (h.engine.notifier.latest? ⟨1⟩).any fun snapshot =>
            (h.engine.link.registry.events.receive? h.engine.scheduler.position).isNone ∧
            ⟨h.engine.link.registry.epoch, ⟨1⟩, snapshot⟩ ∉ h.composed ∧
            (h'.engine.link.registry.events.receive? h'.engine.scheduler.position).isNone ∧
            h'.engine.scheduler.dirty = [] ∧
            h'.engine.notifier.latest? ⟨1⟩ = some snapshot ∧
            ⟨h'.engine.link.registry.epoch, ⟨1⟩, snapshot⟩ ∉ h'.composed) = true := by
    decide +kernel
  obtain ⟨h, hrun, hh⟩ := (Option.any_eq_true _ _).mp hran
  obtain ⟨h', hflush, hh'⟩ := (Option.any_eq_true _ _).mp hh
  obtain ⟨snapshot, hlatest, hchecked⟩ := (Option.any_eq_true _ _).mp hh'
  obtain ⟨hreceived, hgap, hreceived', hclean, hlatest', hgap'⟩ := of_decide_eq_true hchecked
  exact ⟨by decide +kernel, h, h', snapshot, hrun, Option.isNone_iff_eq_none.mp hreceived, hlatest,
    hgap, hflush, Option.isNone_iff_eq_none.mp hreceived', hclean, hlatest', hgap'⟩

end Engine

end Solvency
