import Solvency.Proofs.Push.Subscriptions
import Solvency.Proofs.Push.Tidy
import Solvency.Proofs.Router.Agenda

/-! The books of a scheduler over every run of it. Who depends on whom is told the same way by
both sides, and an address is given up only while nobody needs it, after as long as was asked for. -/

namespace Solvency.Engine

open Router.Command (Renewed)

/-- What happens beside the scheduler. -/
inductive Outside (e : Engine) : Engine → Prop
  | link {event : Link.Event} {link : Link} (hown : ∀ command, event ≠ .send command)
      (h : e.link.after? event = some link) (lastRun : Task) : Outside e { e with link, lastRun }
  | watch (account : Address) : Outside e (e.watch account).2
  | drop (id : Nat) : Outside e { e with notifier := e.notifier.drop id }
  | poll (id : Nat) : Outside e { e with notifier := (e.notifier.poll id).2 }
  | tick (clock : Nat) : Outside e { e with clock }
  | arrange (arrangement : Arrangement) : Outside e (e.updateScheduler ({ · with arrangement }))
  | ask (address : Address) : Outside e { e with
      link := (e.link.send (.track address)).2, pinned := e.pinned.insert address }

/-- What is done about an address whose time to be given up has come. -/
def expire (e : Engine) (address : Address) : Engine :=
  let e := e.updateScheduler fun s => { s with idle := s.idle.erase address }
  if e.scheduler.dependents.contains address || e.pinned.contains address then e
  else e.untrack address

def IsDue (e : Engine) (address : Address) : Prop :=
  ∃ deadline, e.scheduler.idle.find? address = some deadline ∧ deadline ≤ e.now

/-- What the scheduler does, in parts so small that an address that one of them gives up is not
needed again within it. -/
inductive Move (e : Engine) : Engine → Prop
  | watch {e' : Engine} (h : e.watchStep? = some e') : Move e e'
  | release {e' : Engine} (h : e.releaseStep? = some e') : Move e e'
  | event {e' : Engine} (h : e.eventStep? = some e') : Move e e'
  | flush : Move e (e.updateScheduler fun s => { s with flushAt := none, dirty := [] })
  | recompose (account : Address) : Move e (e.recompose account)
  | expire {address : Address} (h : e.IsDue address) : Move e (e.expire address)

/-- The states that an engine went through, newest first. -/
inductive Course : List Engine → Prop
  | start (transport : Transport) (settings : Settings) (now : Nat) :
      Course [start transport settings now]
  | outside {e e' : Engine} {past : List Engine} (h : Course (e :: past)) (hstep : e.Outside e') :
      Course (e' :: e :: past)
  | move {e e' : Engine} {past : List Engine} (h : Course (e :: past)) (hmove : e.Move e') :
      Course (e' :: e :: past)

def Unneeded (e : Engine) (x : Address) : Prop :=
  ∀ a ∈ e.scheduler.watched, x ∉ e.scheduler.dependenciesOf a

/-- No watched account has depended on the address since a state at this time. -/
def UnneededSince (states : List Engine) (x : Address) (time : Nat) : Prop :=
  ∃ later e earlier, states = later ++ e :: earlier ∧ e.now = time ∧
    ∀ e' ∈ later ++ [e], e'.Unneeded x

variable {e e' : Engine} {past states : List Engine} {a x : Address} {time : Nat}

theorem unneededSince_now (h : e.Unneeded x) : UnneededSince (e :: states) x e.now :=
  ⟨[], e, states, rfl, rfl, by simpa using h⟩

theorem UnneededSince.cons (h : UnneededSince states x time) (hnow : e.Unneeded x) :
    UnneededSince (e :: states) x time := by
  obtain ⟨later, first, earlier, rfl, htime, hlater⟩ := h
  exact ⟨e :: later, first, earlier, rfl, htime, List.forall_mem_cons.mpr ⟨hnow, hlater⟩⟩

/-- An account has dependencies exactly while it is watched, and is one of them. -/
def Listed (s : Scheduler) (a : Address) : Prop :=
  match s.dependencies.find? a with
  | none => a ∉ s.watched
  | some next => a ∈ s.watched ∧ a ∈ next

theorem Listed.congr {s s' : Scheduler} (h : Listed s a)
    (hdependencies : s'.dependencies = s.dependencies)
    (hwatched : a ∈ s'.watched ↔ a ∈ s.watched) : Listed s' a := by
  rw [Listed, hdependencies]
  rw [Listed] at h
  split
  case h_1 hnone =>
    rw [hnone] at h
    exact fun ha => h (hwatched.mp ha)
  case h_2 next hsome =>
    rw [hsome] at h
    exact ⟨hwatched.mpr h.1, h.2⟩

structure Kept (e : Engine) : Prop where
  books : Tidy (fun a x => x ∈ e.scheduler.dependenciesOf a) e
  nodup : e.scheduler.watched.Nodup
  listed : ∀ a, Listed e.scheduler a

theorem Kept.unneeded_of_waiting (h : e.Kept) {deadline : Nat}
    (hx : e.scheduler.idle.find? x = some deadline) : e.Unneeded x :=
  fun a _ => h.books.free (h.books.waiting x deadline hx) a

theorem Kept.unneeded_of_untracked (h : e.Kept) (hx : x ∉ e.scheduler.tracked) : e.Unneeded x :=
  fun a _ hneeds => hx (h.books.tracked a x hneeds)

theorem Kept.congr (h : e.Kept)
    (hscheduler : ∃ arrangement position commands dirty pending flushAt, e'.scheduler =
      { e.scheduler with arrangement, position, commands, dirty, pending, flushAt })
    (hrunning : e'.link.router.running = true)
    (hrenewed : ∀ x, Renewed x e.link.router.commands → Renewed x e'.link.router.commands) :
    e'.Kept := by
  obtain ⟨arrangement, position, commands, dirty, pending, flushAt, hscheduler⟩ := hscheduler
  have hbooks : Tidy (fun a x => x ∈ e.scheduler.dependenciesOf a) e' := by
    apply h.books.congr _ _ _ hrunning hrenewed
    all_goals rw [hscheduler]
  refine ⟨?_, ?_, ?_⟩
  · rw [hscheduler]
    exact hbooks
  · rw [hscheduler]
    exact h.nodup
  · rw [hscheduler]
    exact h.listed

/-- What a part of the scheduler's work keeps, and what becomes of the addresses in it. -/
structure Proceeds (e e' : Engine) : Prop where
  kept : e'.Kept
  sheds : e.Sheds e'

theorem Kept.proceeds (h : e.Kept)
    (hscheduler : ∃ arrangement position commands dirty pending flushAt, e'.scheduler =
      { e.scheduler with arrangement, position, commands, dirty, pending, flushAt })
    (hlink : e'.link = e.link) (hpinned : e'.pinned = e.pinned) : e.Proceeds e' where
  kept := by
    apply h.congr hscheduler
    · rw [hlink]
      exact h.books.running
    · rw [hlink]
      exact fun _ => id
  sheds := by
    obtain ⟨_, _, _, _, _, _, hscheduler⟩ := hscheduler
    apply Sheds.of_eq hpinned _ _ hlink
    all_goals rw [hscheduler]

theorem Proceeds.markDirty (h : e.Proceeds e') (accounts : List Address) :
    e.Proceeds (e'.markDirty accounts) where
  kept := by
    apply Proceeds.kept
    exact h.kept.proceeds ⟨_, _, _, _, _, _, rfl⟩ rfl rfl
  sheds := h.sheds.trans (.of_eq rfl rfl rfl rfl rfl)

theorem Proceeds.after {e₀ : Engine} (h : e₀.Proceeds e') (hpinned : e₀.pinned = e.pinned)
    (hpolicy : e₀.scheduler.idlePolicy = e.scheduler.idlePolicy)
    (hidle : e₀.scheduler.idle = e.scheduler.idle) (hlink : e₀.link = e.link) :
    e.Proceeds e' := by
  have hnow : e₀.now = e.now := congrArg Link.now hlink
  refine ⟨h.kept, h.sheds.pinned.trans hpinned, h.sheds.policy.trans hpolicy,
    h.sheds.now.trans hnow, ?_, ?_⟩
  · rw [← hidle, ← hpolicy, ← hnow]
    exact h.sheds.waits
  · rw [← hlink, ← hpinned, ← hpolicy]
    exact h.sheds.sent

/-- The account that is given new dependencies may be one that was just watched or released. -/
theorem proceeds_setDependencies
    (hbooks : Tidy (fun a x => x ∈ e.scheduler.dependenciesOf a) e)
    (hnodup : e.scheduler.watched.Nodup) (hlisted : ∀ b, b ≠ a → Listed e.scheduler b)
    {next : List Address}
    (hnext : a ∈ e.scheduler.watched ∧ a ∈ next ∨ a ∉ e.scheduler.watched ∧ next = []) :
    e.Proceeds (e.setDependencies a next) := by
  have hwatched : (e.setDependencies a next).scheduler.watched = e.scheduler.watched := by
    obtain ⟨_, ⟨_, _, _, _, heq⟩, _⟩ := e.rebooked_setDependencies a next
    rw [heq]
    rfl
  refine ⟨⟨bookkeeping_tidy.setDependencies hbooks a next, hwatched ▸ hnodup, fun b => ?_⟩,
    sheds_setDependencies hbooks a next⟩
  rw [Listed, find?_setDependencies, hwatched]
  by_cases hb : b = a
  · rw [if_pos hb, hb]
    rcases hnext with ⟨hwatched, hmem⟩ | ⟨hreleased, hempty⟩
    · rw [if_neg (List.ne_nil_of_mem hmem)]
      exact ⟨hwatched, hmem⟩
    · rw [if_pos hempty]
      exact hreleased
  · rw [if_neg hb]
    exact hlisted b hb

theorem mem_requirementAddresses (e : Engine) (a : Address) : a ∈ e.requirementAddresses a :=
  List.mem_eraseDups.mpr (List.mem_map.mpr ⟨⟨a, .marginAccount⟩, List.mem_cons_self, rfl⟩)

theorem Kept.watchStep (h : e.Kept) (hs : e.watchStep? = some e') : e.Proceeds e' := by
  rw [watchStep?] at hs
  split at hs
  · cases hs
  case h_2 account rest hcommands =>
    cases hs
    rw [onWatch]
    apply Proceeds.markDirty
    split
    case isTrue => exact h.proceeds ⟨_, _, _, _, _, _, rfl⟩ rfl rfl
    case isFalse =>
      apply Proceeds.after
      case h =>
        apply proceeds_setDependencies
        · exact h.books.congr rfl rfl rfl h.books.running fun _ => id
        · exact h.nodup.insert
        · exact fun b hb => (h.listed b).congr rfl (List.mem_insert_iff.trans (or_iff_right hb))
        · exact .inl ⟨List.mem_insert_self, mem_requirementAddresses _ account⟩
      all_goals rfl

theorem Kept.releaseStep (h : e.Kept) (hs : e.releaseStep? = some e') : e.Proceeds e' := by
  rw [releaseStep?] at hs
  split at hs
  · cases hs
  case h_2 account rest hreleased =>
    cases hs
    rw [onRelease]
    split
    case isFalse => exact h.proceeds ⟨_, _, _, _, _, _, rfl⟩ rfl rfl
    case isTrue =>
      apply Proceeds.after
      case h =>
        apply proceeds_setDependencies
        · exact h.books.congr rfl rfl rfl h.books.running fun _ => id
        · exact h.nodup.erase account
        · exact fun b hb => (h.listed b).congr rfl (List.mem_erase_of_ne hb)
        · exact .inr ⟨h.nodup.not_mem_erase, rfl⟩
      all_goals rfl

theorem Kept.eventStep (h : e.Kept) (hs : e.eventStep? = some e') : e.Proceeds e' := by
  simp only [eventStep?, Option.bind_eq_bind, Option.bind_eq_some_iff] at hs
  obtain ⟨⟨reception, position⟩, _, hs⟩ := hs
  cases hs
  cases reception with
  | lagged missed => exact h.proceeds ⟨_, _, _, _, _, _, rfl⟩ rfl rfl
  | event event =>
    cases event with
    | updated address slot => exact h.proceeds ⟨_, _, _, _, _, _, rfl⟩ rfl rfl
    | slotConfirmed slot => exact h.proceeds ⟨_, _, _, _, _, _, rfl⟩ rfl rfl
    | invalidated epoch => exact h.proceeds ⟨_, _, _, _, _, _, rfl⟩ rfl rfl

theorem Kept.setDependencies (h : e.Kept) (ha : a ∈ e.scheduler.watched) {next : List Address}
    (hnext : a ∈ next) : e.Proceeds (e.setDependencies a next) :=
  proceeds_setDependencies h.books h.nodup (fun b _ => h.listed b) (.inl ⟨ha, hnext⟩)

/-- An account that is composed again depends on itself, whether it has a view or not. -/
theorem Kept.recompose (h : e.Kept) (account : Address) : e.Proceeds (e.recompose account) := by
  rw [Engine.recompose]
  split
  case isFalse => exact h.proceeds ⟨_, _, _, _, _, _, rfl⟩ rfl rfl
  case isTrue hcond =>
    have hwatched : account ∈ e.scheduler.watched := List.contains_iff_mem.mp hcond
    split
    case h_1 view hbuild =>
      have hself : account ∈ view.dependencies :=
        Lookup.mem_dependencies_of_build hbuild List.mem_cons_self
      have htold : e.Proceeds { e with
          notifier := (e.notifier.publish account (e.calculator.evaluate e.clock view)).2
          clock := e.clock + 1
          scheduler := { e.scheduler with pending := e.scheduler.pending.erase account } } :=
        h.proceeds ⟨_, _, _, _, _, _, rfl⟩ rfl rfl
      apply Proceeds.after
      · exact htold.kept.setDependencies hwatched (List.mem_eraseDups.mpr hself)
      all_goals rfl
    case h_2 =>
      have hself := List.mem_append_left (e.scheduler.dependenciesOf account)
        (mem_requirementAddresses e account)
      have htold : e.Proceeds { e with
          notifier := e.notifier.withdraw account
          scheduler := { e.scheduler with pending := e.scheduler.pending.insert account } } :=
        h.proceeds ⟨_, _, _, _, _, _, rfl⟩ rfl rfl
      apply Proceeds.after
      · exact htold.kept.setDependencies hwatched (List.mem_eraseDups.mpr hself)
      all_goals rfl

theorem Kept.expire (h : e.Kept) (address : Address) : (e.expire address).Kept := by
  have hforgotten : Kept (e.updateScheduler fun s => { s with idle := s.idle.erase address }) := by
    refine ⟨⟨h.books.toBooks.congr rfl rfl rfl rfl, h.books.filled, fun x deadline hx => ?_,
      Table.nodup_keys_erase h.books.nodup_idle address⟩, h.nodup, h.listed⟩
    exact h.books.waiting x deadline (Table.find?_erase_eq_some.mp hx).2
  rw [Engine.expire]
  split
  · exact hforgotten
  case isFalse hspare =>
    have hnone : e.scheduler.dependents.find? address = none := by
      apply Option.not_isSome_iff_eq_none.mp
      exact fun hsome => hspare ((Bool.or_eq_true _ _).mpr (.inl hsome))
    exact ⟨hforgotten.books.untrack hnone, hforgotten.nodup, hforgotten.listed⟩

theorem Kept.move (h : e.Kept) (hmove : e.Move e') :
    e.Proceeds e' ∨ ∃ x, e.IsDue x ∧ e' = e.expire x := by
  cases hmove with
  | watch hs => exact .inl (h.watchStep hs)
  | release hs => exact .inl (h.releaseStep hs)
  | event hs => exact .inl (h.eventStep hs)
  | flush => exact .inl (h.proceeds ⟨_, _, _, _, _, _, rfl⟩ rfl rfl)
  | recompose account => exact .inl (h.recompose account)
  | @expire x hdue => exact .inr ⟨x, hdue, rfl⟩

/-- Nobody but the scheduler gives up an address. -/
theorem Outside.spec (h : e.Outside e') (hrunning : e.link.router.running = true) :
    e.now ≤ e'.now ∧
      (∃ arrangement commands, e'.scheduler = { e.scheduler with arrangement, commands }) ∧
      e'.link.router.running = true ∧
      (∀ x, Renewed x e.link.router.commands → Renewed x e'.link.router.commands) ∧
      ∀ x, .untrack x ∈ e'.link.router.commands → .untrack x ∈ e.link.router.commands := by
  cases h with
  | link hown hs lastRun =>
    have hcarries := Link.carries_after hown hs
    have honward := Link.onward_after hown hs
    exact ⟨honward.now_le, ⟨_, _, rfl⟩, hcarries.running.trans hrunning, hcarries.renewed,
      fun x hx => honward.commands.subset hx⟩
  | watch account => exact ⟨Nat.le_refl _, ⟨_, _, rfl⟩, hrunning, fun _ => id, fun _ => id⟩
  | drop stream => exact ⟨Nat.le_refl _, ⟨_, _, rfl⟩, hrunning, fun _ => id, fun _ => id⟩
  | poll stream => exact ⟨Nat.le_refl _, ⟨_, _, rfl⟩, hrunning, fun _ => id, fun _ => id⟩
  | tick clock => exact ⟨Nat.le_refl _, ⟨_, _, rfl⟩, hrunning, fun _ => id, fun _ => id⟩
  | arrange => exact ⟨Nat.le_refl _, ⟨_, _, rfl⟩, hrunning, fun _ => id, fun _ => id⟩
  | ask address =>
    rw [Link.send, if_pos hrunning]
    refine ⟨Nat.le_refl _, ⟨_, _, rfl⟩, hrunning, fun x hx => hx.append (by simp), fun x hx => ?_⟩
    exact (List.mem_append.mp hx).resolve_right (by simp)

theorem Kept.outside (h : e.Kept) (hstep : e.Outside e') : e'.Kept := by
  obtain ⟨_, ⟨_, commands, hscheduler⟩, hrunning, hrenewed, _⟩ := hstep.spec h.books.running
  exact h.congr ⟨_, _, commands, _, _, _, hscheduler⟩ hrunning hrenewed

/-- The books are kept, and what waits to be given up has been unneeded since it was dated. -/
structure Timely (e : Engine) (past : List Engine) : Prop extends Kept e where
  dated : ∀ x deadline, e.scheduler.idle.find? x = some deadline → ∃ secs time,
    e.scheduler.idlePolicy = .afterIdle secs ∧ deadline = time + 1000 * secs ∧
      UnneededSince (e :: past) x time

theorem Timely.cons (h : e.Timely past) (hkept : e'.Kept)
    (hpolicy : e'.scheduler.idlePolicy = e.scheduler.idlePolicy)
    (hwaits : ∀ x deadline, e'.scheduler.idle.find? x = some deadline →
      e.scheduler.idle.find? x = some deadline ∨
        ∃ secs, e.scheduler.idlePolicy = .afterIdle secs ∧ deadline = e'.now + 1000 * secs) :
    e'.Timely (e :: past) := by
  refine ⟨hkept, fun x deadline hx => ?_⟩
  have hunneeded := hkept.unneeded_of_waiting hx
  rcases hwaits x deadline hx with hbefore | ⟨secs, hsecs, hdeadline⟩
  · obtain ⟨secs, time, hsecs, hdeadline, hsince⟩ := h.dated x deadline hbefore
    exact ⟨secs, time, hpolicy.trans hsecs, hdeadline, hsince.cons hunneeded⟩
  · exact ⟨secs, _, hpolicy.trans hsecs, hdeadline, unneededSince_now hunneeded⟩

theorem Timely.start (transport : Transport) (settings : Settings) (now : Nat) :
    (Engine.start transport settings now).Timely [] := by
  have hcarries := Link.carries_reconnect {
    transport
    registry := .ofBuffer settings.sync.changeBuffer
    router := { settings := settings.transport }
    now }
  have hbooks : Balanced (Engine.start transport settings now) :=
    ⟨hcarries.running, fun _ _ => ⟨nofun, nofun⟩, fun _ => .nil, nofun, .nil, nofun⟩
  exact ⟨⟨⟨hbooks, fun _ => nofun, fun _ _ => nofun, .nil⟩, .nil, fun _ => List.not_mem_nil⟩,
    fun _ _ => nofun⟩

theorem frame_expire (e : Engine) (x : Address) :
    (e.expire x).scheduler.idle = e.scheduler.idle.erase x ∧ (e.expire x).pinned = e.pinned ∧
      (e.expire x).scheduler.idlePolicy = e.scheduler.idlePolicy ∧ (e.expire x).now = e.now := by
  rw [Engine.expire]
  split
  · exact ⟨rfl, rfl, rfl, rfl⟩
  · obtain ⟨_, _, _, _, heq⟩ := rebooked_untrack
      (e.updateScheduler fun s => { s with idle := s.idle.erase x }) x
    exact ⟨rfl, (rebooked_untrack _ x).frame⟩

theorem Timely.move (h : e.Timely past) (hmove : e.Move e') : e'.Timely (e :: past) := by
  rcases h.toKept.move hmove with hproceeds | ⟨x, _, rfl⟩
  · have hsheds := hproceeds.sheds
    apply h.cons hproceeds.kept hsheds.policy
    rw [hsheds.now]
    exact hsheds.waits
  · obtain ⟨hidle, _, hpolicy, _⟩ := e.frame_expire x
    apply h.cons (h.toKept.expire x) hpolicy
    intro y deadline hy
    rw [hidle] at hy
    exact .inl (Table.find?_erase_eq_some.mp hy).2

theorem Timely.outside (h : e.Timely past) (hstep : e.Outside e') : e'.Timely (e :: past) := by
  obtain ⟨_, ⟨_, commands, hscheduler⟩, _⟩ := hstep.spec h.books.running
  apply h.cons (h.toKept.outside hstep)
  · rw [hscheduler]
  · rw [hscheduler]
    exact fun x deadline => .inl

/-- What a course preserves. -/
theorem Timely.of_course (h : Course (e :: past)) : e.Timely past := by
  generalize hstates : e :: past = states at h
  induction h generalizing e past with
  | start transport settings now =>
    cases hstates
    exact .start transport settings now
  | outside _ hstep ih =>
    cases hstates
    exact (ih rfl).outside hstep
  | move _ hmove ih =>
    cases hstates
    exact (ih rfl).move hmove

theorem Timely.sent (h : e.Timely past) (hmove : e.Move e') :
    ∃ sent, e'.link.router.commands = e.link.router.commands ++ sent ∧
      ∀ x, .untrack x ∈ sent → e'.Unneeded x ∧ x ∉ e'.pinned ∧
        e'.scheduler.idlePolicy ≠ .never ∧
        ∀ secs, e'.scheduler.idlePolicy = .afterIdle secs →
          ∃ time, UnneededSince (e' :: e :: past) x time ∧ time + 1000 * secs ≤ e'.now := by
  rcases h.toKept.move hmove with hproceeds | ⟨y, ⟨deadline, hy, hdue⟩, rfl⟩
  -- what is given up at once is tracked no longer, so that nobody can need it
  · obtain ⟨sent, hcommands, hsent⟩ := hproceeds.sheds.sent
    refine ⟨sent, hcommands, fun x hx => ?_⟩
    obtain ⟨hpinned, huntracked, hpolicy⟩ := hsent x hx
    rw [hproceeds.sheds.pinned, hproceeds.sheds.policy, hpolicy]
    exact ⟨hproceeds.kept.unneeded_of_untracked huntracked, hpinned, by simp, by simp⟩
  -- what is given up later is dated from the state in which it was left to nobody
  · have hkept := h.toKept.expire y
    obtain ⟨_, hpins, hpolicy, hnow⟩ := e.frame_expire y
    obtain ⟨secs, time, hsecs, rfl, hsince⟩ := h.dated y deadline hy
    rw [hpins, hpolicy, hnow, hsecs]
    rw [Engine.expire] at hkept ⊢
    split
    case isTrue => exact ⟨[], (List.append_nil _).symm, by simp⟩
    case isFalse hspare =>
      rw [if_neg hspare] at hkept
      obtain ⟨sent, hcommands, hsent⟩ := sent_untrack
        (e.updateScheduler fun s => { s with idle := s.idle.erase y }) y
      have huntracked : y ∉ (Engine.untrack (e.updateScheduler fun s =>
          { s with idle := s.idle.erase y }) y).scheduler.tracked := by
        apply not_mem_tracked_untrack
        exact h.books.nodup_tracked
      have hunneeded := hkept.unneeded_of_untracked huntracked
      have hpinned : y ∉ e.pinned := by
        intro hy
        exact hspare ((Bool.or_eq_true _ _).mpr (.inr (List.contains_iff_mem.mpr hy)))
      refine ⟨sent, hcommands, fun x hx => ?_⟩
      rw [hsent x hx]
      refine ⟨hunneeded, hpinned, by simp, fun secs' hsame => ?_⟩
      cases hsame
      exact ⟨time, hsince.cons hunneeded, hdue⟩

theorem Course.moves (h : Course (e :: past)) (hmoves : Relation.ReflTransGen Move e e') :
    ∃ later, Course (e' :: later) ∧ e :: past <:+ e' :: later := by
  induction hmoves with
  | refl => exact ⟨past, h, List.suffix_rfl⟩
  | tail _ hmove ih =>
    obtain ⟨later, hlater, hsuffix⟩ := ih
    exact ⟨_, hlater.move hmove, hsuffix.trans (List.suffix_cons _ _)⟩

theorem moves_recompose (accounts : List Address) (e : Engine) :
    Relation.ReflTransGen Move e (accounts.foldl Engine.recompose e) := by
  induction accounts generalizing e with
  | nil => exact .refl
  | cons account rest ih => exact .head (.recompose account) (ih _)

/-- What is due stays so until its turn has come. -/
theorem moves_expire {addresses : List Address} (hnodup : addresses.Nodup)
    (hdue : ∀ x ∈ addresses, e.IsDue x) :
    Relation.ReflTransGen Move e (addresses.foldl Engine.expire e) := by
  induction addresses generalizing e with
  | nil => exact .refl
  | cons y rest ih =>
    obtain ⟨hother, hrest⟩ := List.nodup_cons.mp hnodup
    obtain ⟨hy, hdue⟩ := List.forall_mem_cons.mp hdue
    refine .head (.expire hy) (ih hrest fun x hx => ?_)
    obtain ⟨deadline, hfind, hle⟩ := hdue x hx
    obtain ⟨hidle, _, _, hnow⟩ := e.frame_expire y
    have hne : x ≠ y := fun heq => hother (heq ▸ hx)
    rw [IsDue, hidle, hnow]
    exact ⟨deadline, Table.find?_erase_eq_some.mpr ⟨hne, hfind⟩, hle⟩

theorem Kept.moves_expireIdle (h : e.Kept) : Relation.ReflTransGen Move e e.expireIdle := by
  apply moves_expire
  · rw [(e.scheduler.arrangement.perm none _).nodup_iff, List.nodup_iff_pairwise_ne,
      List.pairwise_filterMap]
    have hkeys := h.books.nodup_idle
    rw [Table.keys, List.nodup_iff_pairwise_ne, List.pairwise_map] at hkeys
    refine hkeys.imp fun {first second} hne x hx y hy => ?_
    have hkey : ∀ (entry : Address × Nat) {z}, (if entry.2 ≤ e.now then some entry.1 else none) =
        some z → z = entry.1 := by
      intro entry z hz
      split at hz
      · exact (Option.some.inj hz).symm
      · cases hz
    rw [hkey first hx, hkey second hy]
    exact hne
  · intro x hx
    rw [Arrangement.mem_order] at hx
    obtain ⟨⟨y, deadline⟩, hentry, hx⟩ := List.mem_filterMap.mp hx
    dsimp only at hx
    split at hx
    case isTrue hdue =>
      cases hx
      exact ⟨deadline, Table.find?_of_mem_entries h.books.nodup_idle hentry, hdue⟩
    case isFalse => cases hx

theorem Kept.moves_schedulerStep (h : e.Kept) (hs : e.schedulerStep? = some e') :
    Relation.ReflTransGen Move e e' := by
  simp only [schedulerStep?, Option.or_eq_some_iff] at hs
  rcases hs with hwatch | ⟨_, hrelease | ⟨_, hevent | ⟨_, hflush | ⟨_, hidle⟩⟩⟩⟩
  · exact .single (.watch hwatch)
  · exact .single (.release hrelease)
  · exact .single (.event hevent)
  · simp only [flushStep?, Option.bind_eq_bind, Option.bind_eq_some_iff] at hflush
    obtain ⟨time, _, hflush⟩ := hflush
    split at hflush
    · cases hflush
      exact .head .flush (moves_recompose _ _)
    · cases hflush
  · simp only [idleStep?, Option.bind_eq_bind, Option.bind_eq_some_iff] at hidle
    obtain ⟨time, _, hidle⟩ := hidle
    split at hidle
    · cases hidle
      exact h.moves_expireIdle
    · cases hidle

theorem Course.turn (h : Course (e :: past)) (hturn : e.Turn e') :
    ∃ later, Course (e' :: later) ∧ e :: past <:+ later := by
  cases hturn with
  | link hown hs lastRun => exact ⟨_, h.outside (.link hown hs lastRun), List.suffix_rfl⟩
  | @scheduler next hs lastRun =>
    obtain ⟨later, hlater, hsuffix⟩ := h.moves ((Timely.of_course h).moves_schedulerStep hs)
    have hown : ∀ command, Link.Event.wait 0 ≠ .send command := nofun
    exact ⟨_, hlater.outside (.link hown rfl lastRun), hsuffix⟩
  | watch account => exact ⟨_, h.outside (.watch account), List.suffix_rfl⟩
  | drop id => exact ⟨_, h.outside (.drop id), List.suffix_rfl⟩
  | poll id => exact ⟨_, h.outside (.poll id), List.suffix_rfl⟩
  | tick clock => exact ⟨_, h.outside (.tick clock), List.suffix_rfl⟩
  | arrange arrangement => exact ⟨_, h.outside (.arrange arrangement), List.suffix_rfl⟩
  | ask address => exact ⟨_, h.outside (.ask address), List.suffix_rfl⟩

/-- However callers, the ledger, the router and the scheduler take turns, dependencies and
dependents are two sides of one relation without empty entries. Each watched account, and no other,
has dependencies and is one of them; what is needed is tracked and does not wait to be given up.
Only the scheduler gives addresses up, and only one that no watched account depends on and that is
not pinned, after as long as the policy asks for. -/
theorem books_kept_over_course (h : Course (e :: past)) :
    (∀ a x, x ∈ e.scheduler.dependenciesOf a ↔ a ∈ e.scheduler.dependentsOf x) ∧
    (∀ x, e.scheduler.dependents.find? x ≠ some []) ∧
    (∀ a, a ∈ e.scheduler.dependencies.keys ↔ a ∈ e.scheduler.watched) ∧
    (∀ a ∈ e.scheduler.watched, a ∈ e.scheduler.dependenciesOf a) ∧
    (∀ x ∈ e.scheduler.dependents.keys, x ∈ e.scheduler.tracked) ∧
    (∀ x ∈ e.scheduler.idle.keys, x ∉ e.scheduler.dependents.keys) ∧
    (∀ e', e.Move e' → ∃ sent, e'.link.router.commands = e.link.router.commands ++ sent ∧
      ∀ x, .untrack x ∈ sent → e'.Unneeded x ∧ x ∉ e'.pinned ∧
        e'.scheduler.idlePolicy ≠ .never ∧
        ∀ secs, e'.scheduler.idlePolicy = .afterIdle secs →
          ∃ time, UnneededSince (e' :: e :: past) x time ∧ time + 1000 * secs ≤ e'.now) ∧
    (∀ e', e.Outside e' → e.now ≤ e'.now ∧
      ∀ x, .untrack x ∈ e'.link.router.commands → .untrack x ∈ e.link.router.commands) ∧
    ∀ e', e.Turn e' → ∃ later, Course (e' :: later) ∧ e :: past <:+ later := by
  have htimely := Timely.of_course h
  have hbooks := htimely.books
  refine ⟨fun a x => (hbooks.dependents a x).symm, hbooks.filled, fun a => ?_, fun a ha => ?_,
    fun x hx => ?_, fun x hx hneeded => ?_, fun _ => htimely.sent, fun _ hstep => ?_,
    fun _ => h.turn⟩
  · have hlisted := htimely.listed a
    rw [Listed] at hlisted
    rw [Table.mem_keys_iff]
    split at hlisted
    case h_1 hnone => simp [hnone, hlisted]
    case h_2 next hsome => simp [hsome, hlisted.1]
  · have hlisted := htimely.listed a
    rw [Listed] at hlisted
    rw [Scheduler.dependenciesOf]
    split at hlisted
    case h_1 => exact absurd ha hlisted
    case h_2 next hsome =>
      rw [hsome]
      exact hlisted.2
  · obtain ⟨accounts, haccounts⟩ := Option.isSome_iff_exists.mp (Table.mem_keys_iff.mp hx)
    cases accounts with
    | nil => exact absurd haccounts (hbooks.filled x)
    | cons a rest =>
      have ha : a ∈ e.scheduler.dependentsOf x := by
        rw [Scheduler.dependentsOf, haccounts]
        exact List.mem_cons_self
      exact hbooks.tracked a x ((hbooks.dependents a x).mp ha)
  · obtain ⟨deadline, hdeadline⟩ := Option.isSome_iff_exists.mp (Table.mem_keys_iff.mp hx)
    rw [Table.mem_keys_iff, hbooks.waiting x deadline hdeadline] at hneeded
    cases hneeded
  · obtain ⟨hnow, _, _, _, hsent⟩ := hstep.spec hbooks.running
    exact ⟨hnow, hsent⟩

def admitted : Engine :=
  let e := start { ledger := Link.pairLedger } { sync := { idlePolicy := .afterIdle 1 } } 0
  ((e.watch ⟨1⟩).2.updateScheduler ({ · with commands := [] })).onWatch ⟨1⟩

/-- The only watcher of an account has left. -/
def dismissed : Engine :=
  let notifier := admitted.notifier.drop 0
  { admitted with notifier := { notifier with released := [] } }.onRelease ⟨1⟩

def lapsed : Engine :=
  { dismissed with link := { dismissed.link with now := dismissed.link.now + 1000 } }

theorem course_lapsed : ∃ past, Course (lapsed :: past) := by
  have hwatched := (Course.start { ledger := Link.pairLedger }
    { sync := { idlePolicy := .afterIdle 1 } } 0).outside (.watch ⟨1⟩)
  have hadmitted : Course (admitted :: _) := hwatched.move (.watch rfl)
  have hdismissed : Course (dismissed :: _) :=
    (hadmitted.outside (.drop 0)).move (.release rfl)
  have hown : ∀ command, Link.Event.wait 1000 ≠ .send command := nofun
  exact ⟨_, hdismissed.outside (.link hown rfl dismissed.lastRun)⟩

theorem books_kept_over_course_lapsed : ∃ past, Course (lapsed :: past) ∧
    (lapsed.expire ⟨1⟩).link.router.commands =
      lapsed.link.router.commands ++ [.untrack ⟨1⟩] ∧
    (lapsed.expire ⟨1⟩).Unneeded ⟨1⟩ ∧
    ∃ time, UnneededSince (lapsed.expire ⟨1⟩ :: lapsed :: past) ⟨1⟩ time ∧
      time + 1000 ≤ (lapsed.expire ⟨1⟩).now := by
  obtain ⟨past, hcourse⟩ := course_lapsed
  have hcommands : (lapsed.expire ⟨1⟩).link.router.commands =
      lapsed.link.router.commands ++ [.untrack ⟨1⟩] := by decide +kernel
  have hdue : lapsed.IsDue ⟨1⟩ := ⟨1000, by decide +kernel, by decide +kernel⟩
  have hpolicy : (lapsed.expire ⟨1⟩).scheduler.idlePolicy = .afterIdle 1 := by decide +kernel
  obtain ⟨_, _, _, _, _, _, hmoves, _⟩ := books_kept_over_course hcourse
  obtain ⟨sent, hsent, hgiven⟩ := hmoves _ (.expire hdue)
  have hsame : [.untrack ⟨1⟩] = sent := List.append_cancel_left (hcommands.symm.trans hsent)
  obtain ⟨hunneeded, _, _, hsince⟩ := hgiven ⟨1⟩ (hsame ▸ List.mem_cons_self)
  exact ⟨past, hcourse, hcommands, hunneeded, hsince 1 hpolicy⟩

end Solvency.Engine
