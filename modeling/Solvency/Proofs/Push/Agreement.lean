import Solvency.Proofs.Push.Scheduler
import Solvency.Proofs.Push.Steps
import Solvency.Proofs.Router.Coherence

/-! Push against pull. When every queue is empty, each watched account holds the snapshot that
evaluating its view would give at any time, and none where there is no view. -/

namespace Solvency.Engine

variable {e e' : Engine} {writes : List RawAccount}

theorem Tended.watch (h : e.Tended writes []) (account : Address) :
    (e.watch account).2.Tended writes [] := by
  have henlisted := h.enlisted.subscribe account
  refine ⟨h.link, h.full, h.position_le, henlisted.proper, h.books.congr rfl rfl rfl rfl,
    h.nodup, h.flush, henlisted.released, henlisted.asked, fun b hwatched hb => .inr ?_⟩
  rcases (Notifier.isWatched_subscribe h.proper).mp hb with rfl | hb
  · exact .asked (List.mem_append_right _ (List.mem_singleton_self _))
  · exact (h.accounts hwatched hb).congr
      ⟨rfl, fun _ => id, rfl, rfl, .rfl, Notifier.latest?_subscribe h.proper _ _, rfl, rfl⟩
      (fun hasked => .asked (List.mem_append_left _ hasked)) fun hdirty => .dirty hdirty

theorem Tended.renotify (h : e.Tended writes []) {notifier : Notifier}
    (hkeeps : e.notifier.Keeps notifier) : Tended writes [] { e with notifier } := by
  have henlisted := h.enlisted.renotify hkeeps
  refine ⟨h.link, h.full, h.position_le, henlisted.proper, h.books.congr rfl rfl rfl rfl, h.nodup,
    h.flush, henlisted.released, henlisted.asked, fun b hwatched hb => .inr ?_⟩
  obtain ⟨hopen, hlatest⟩ := hkeeps.watched b hb
  exact (h.accounts hwatched hopen).of_alike
    ⟨rfl, fun _ => id, rfl, rfl, .rfl, hlatest, rfl, rfl⟩ rfl rfl

/-- The order in which sets come up says nothing of what is in them. -/
theorem Tended.rearrange (h : e.Tended writes []) (arrangement : Arrangement) :
    Tended writes [] (e.updateScheduler ({ · with arrangement })) := by
  refine ⟨h.link, h.full, h.position_le, h.proper, h.books.congr rfl rfl rfl rfl, h.nodup,
    h.flush, h.released, h.asked, fun b hb hopen => ?_⟩
  exact (h.accounted b hb hopen).imp_right fun haccounted =>
    haccounted.of_alike ⟨rfl, fun _ => id, rfl, rfl, .rfl, rfl, rfl, rfl⟩ rfl rfl

/-- What one step preserves. -/
theorem Tended.step (h : e.Tended writes []) {written : List RawAccount}
    (hreads : Link.Readable (written ++ writes)) (hstep : e.Step written e') :
    e'.Tended (written ++ writes) [] := by
  cases hstep with
  | link hlink lastRun =>
    exact h.evolve _ (h.link.step hreads hlink) (h.link.step_evolves hreads hlink) e.pinned lastRun
  | scheduler hs lastRun =>
    have hnext := h.schedulerStep hs
    exact hnext.congr hnext.link rfl (fun _ => id) ⟨_, _, _, _, rfl⟩ (fun _ _ => rfl) rfl rfl rfl
      (hnext.books.congr rfl rfl rfl rfl)
  | watch account => exact h.watch account
  | drop id => exact h.renotify (h.proper.keeps_drop id)
  | poll id => exact h.renotify (h.proper.keeps_poll id)
  | tick clock =>
    exact h.congr h.link rfl (fun _ => id) ⟨_, _, _, _, rfl⟩ (fun _ _ => rfl) rfl rfl rfl
      (h.books.congr rfl rfl rfl rfl)
  | arrange arrangement => exact h.rearrange arrangement
  | ask address =>
    have hbooks := h.books.track address
    refine h.congr (h.link.send _) ?_ ?_ ⟨_, _, _, _, rfl⟩ (fun _ _ => rfl) rfl rfl rfl
      (hbooks.congr rfl rfl rfl rfl)
    · rw [Link.send, if_pos h.link.running]
    · intro x hx
      rw [Link.send, if_pos h.link.running]
      exact ⟨⟨hx.connected, hx.unread, hx.written⟩, List.mem_append_left _ hx.asked⟩
  | pin address lastRun =>
    rw [Link.request, if_pos h.link.running]
    exact h.evolve [] (h.link.track hreads address)
      (h.link.announces_track hreads address).1.evolves _ lastRun

theorem Tended.start {l : Ledger} (h : l.Records writes) (hreads : Link.Readable writes)
    (settings : Settings) (now : Nat) :
    (Engine.start { ledger := l } settings now).Tended writes [] := by
  have hinitial := Link.wired_initial h settings.transport settings.sync.changeBuffer now
  have hevolves := (hinitial.announces_reconnect hreads nofun).evolves
  have hlink : Link.Settled writes
      (.start { ledger := l } settings.transport settings.sync.changeBuffer now) :=
    .start h hreads _ _ _
  have hbooks : Balanced (Engine.start { ledger := l } settings now) :=
    ⟨hlink.running, fun _ _ => ⟨nofun, nofun⟩, fun _ => .nil, nofun, .nil, nofun⟩
  exact ⟨hlink, (hevolves.log (EventLog.full_ofBuffer _)).1, Nat.le_refl _, Notifier.proper_empty,
    hbooks, .nil, fun hdirty => absurd rfl hdirty, nofun, nofun, nofun⟩

/-- What a run preserves. -/
theorem Tended.of_reaches (h : e.Reaches writes) (hreads : Link.Readable writes) :
    e.Tended writes [] := by
  induction h with
  | start h settings now => exact Tended.start h.records hreads settings now
  | step _ hstep ih =>
    exact (ih fun w hw => hreads w (List.mem_append_right _ hw)).step hreads hstep

/-- Nothing waits to be done: no request to watch, no release, no event, no command and no
account to be composed again. -/
structure IsQuiet (e : Engine) : Prop where
  commands : e.scheduler.commands = []
  released : e.notifier.released = []
  events : e.link.registry.events.receive? e.scheduler.position = none
  routerCommands : e.link.router.commands = []
  dirty : e.scheduler.dirty = []

theorem Tended.current (h : e.Tended writes []) (hquiet : e.IsQuiet) {a : Address}
    (hopen : e.notifier.isWatched a = true) : e.Current a := by
  have hwatched : a ∈ e.scheduler.watched :=
    (Enlisted.mem_iff (hquiet.commands ▸ h.enlisted) hquiet.released).mpr hopen
  rcases h.accounts hwatched hopen with
    hasked | hdirty | hdue | ⟨x, _, howed⟩ | hcurrent
  · rw [hquiet.commands] at hasked
    cases hasked
  · rw [hquiet.dirty] at hdirty
    cases hdirty
  · exact absurd hdue (EventLog.not_outstanding h.full hquiet.events)
  · have hasked := howed.asked
    rw [hquiet.routerCommands] at hasked
    cases hasked
  · exact hcurrent

/-- However callers, the ledger, the router and the scheduler take turns: an account is dirty
only while a flush is due, and when nothing waits, the latest snapshot of a watched account is
the evaluation of its view at any time, except for the slots and the time, and there is one exactly
when there is a view. -/
theorem push_agrees_with_pull (h : e.Reaches writes) (hreads : Link.Readable writes) :
    (e.scheduler.dirty ≠ [] → e.scheduler.flushAt ≠ none) ∧
    (e.IsQuiet → ∀ a, (a ∈ e.scheduler.watched ↔ e.notifier.isWatched a = true) ∧
      (e.notifier.isWatched a = true →
        ((e.notifier.latest? a).isSome = true ↔ ∃ view, e.build a = .ok view) ∧
        ∀ view, e.build a = .ok view → ∃ snapshot, e.notifier.latest? a = some snapshot ∧
          ∀ time, ({ snapshot with slotRange := view.slots }).Agrees
            (e.calculator.evaluate time view))) := by
  have htended := Tended.of_reaches h hreads
  refine ⟨htended.flush, fun hquiet a => ⟨?_, fun hopen => ?_⟩⟩
  · exact Enlisted.mem_iff (hquiet.commands ▸ htended.enlisted) hquiet.released
  · have hcurrent := htended.current hquiet hopen
    have hagrees : ∀ view, e.build a = .ok view → ∃ snapshot,
        e.notifier.latest? a = some snapshot ∧ ∀ time,
          ({ snapshot with slotRange := view.slots }).Agrees
            (e.calculator.evaluate time view) := by
      intro view hview
      obtain ⟨snapshot, hlatest, hsnapshot⟩ := hcurrent.composed view hview
      refine ⟨snapshot, hlatest, fun time => ?_⟩
      have hbare := hsnapshot time
      rw [Calculator.evaluate_bare] at hbare
      exact congrArg (fun s : Snapshot => { s with slotRange := view.slots }) hbare
    refine ⟨⟨fun hsome => ?_, fun ⟨view, hview⟩ => ?_⟩, hagrees⟩
    · cases hbuild : e.build a with
      | ok view => exact ⟨view, rfl⟩
      | error error =>
        rw [(hcurrent.failed error hbuild).1] at hsome
        cases hsome
    · obtain ⟨snapshot, hlatest, _⟩ := hagrees view hview
      rw [hlatest]
      rfl

theorem push_agrees_with_pull_staked :
    Link.Readable stakedWrites ∧ stakedEngine.Reaches stakedWrites ∧ stakedEngine.IsQuiet ∧
      ⟨1⟩ ∈ stakedEngine.scheduler.watched ∧
      ∃ view snapshot, stakedEngine.build ⟨1⟩ = .ok view ∧
        stakedEngine.notifier.latest? ⟨1⟩ = some snapshot ∧
        snapshot.positions.map (fun line => (line.kind, line.index)) = [(.spot, 0), (.perp, 0)] ∧
        ({ snapshot with slotRange := view.slots }).Agrees
          (stakedEngine.calculator.evaluate 0 view) := by
  have hchecked : (stakedEngine.scheduler.commands.isEmpty ∧
        stakedEngine.notifier.released.isEmpty ∧
        (stakedEngine.link.registry.events.receive? stakedEngine.scheduler.position).isNone ∧
        stakedEngine.link.router.commands.isEmpty ∧ stakedEngine.scheduler.dirty.isEmpty) ∧
      stakedEngine.notifier.isWatched ⟨1⟩ ∧ (stakedEngine.build ⟨1⟩).isOk ∧
      (stakedEngine.notifier.latest? ⟨1⟩).any (fun snapshot =>
        snapshot.positions.map (fun line => (line.kind, line.index)) = [(.spot, 0), (.perp, 0)]) := by
    decide +kernel
  simp only [List.isEmpty_iff, Option.isNone_iff_eq_none] at hchecked
  obtain ⟨⟨hcommands, hreleased, hevents, hrouter, hdirty⟩, hopen, hbuild, hlines⟩ := hchecked
  obtain ⟨view, hview⟩ := exists_of_isOk hbuild
  have hquiet : stakedEngine.IsQuiet := ⟨hcommands, hreleased, hevents, hrouter, hdirty⟩
  obtain ⟨hwatched, hagrees⟩ :=
    (push_agrees_with_pull reaches_stakedEngine readable_stakedWrites).2 hquiet ⟨1⟩
  obtain ⟨snapshot, hlatest, hsnapshot⟩ := (hagrees hopen).2 view hview
  rw [hlatest] at hlines
  exact ⟨readable_stakedWrites, reaches_stakedEngine, hquiet, hwatched.mpr hopen, view, snapshot, hview,
    hlatest, of_decide_eq_true hlines, hsnapshot 0⟩

end Solvency.Engine
