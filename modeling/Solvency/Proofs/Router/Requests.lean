import Solvency.Proofs.Router.Connection
import Solvency.Proofs.Router.Evolution

/-! What a router was asked to track. Requests are met in their order, so what it will track is
known as soon as they are made; whatever else happens to it makes no difference. -/

namespace Solvency

namespace Router

/-- What is tracked after a request. -/
def Command.apply (tracked : List Address) : Command → List Address
  | .track a => tracked.insert a
  | .untrack a => tracked.erase a

/-- What will be tracked once every request has been met. -/
def asked (r : Router) : List Address := r.commands.foldl Command.apply r.tracked

end Router

namespace Link

open Router.Command (Renewed)

variable {s s' s'' : Link} {a : Address} {event : Event}

/-- Something happened that is no request, or one was met. -/
structure Carries (s s' : Link) : Prop where
  running : s'.router.running = s.router.running
  asked : s'.router.asked = s.router.asked
  renewed : ∀ a, Renewed a s.router.commands → Renewed a s'.router.commands

theorem Carries.of_eq (hrunning : s'.router.running = s.router.running)
    (htracked : s'.router.tracked = s.router.tracked)
    (hcommands : s'.router.commands = s.router.commands) : s.Carries s' where
  running := hrunning
  asked := by rw [Router.asked, Router.asked, htracked, hcommands]
  renewed a h := hcommands ▸ h

theorem Carries.trans (h : s.Carries s') (h' : s'.Carries s'') : s.Carries s'' where
  running := h'.running.trans h.running
  asked := h'.asked.trans h.asked
  renewed a hrenewed := h'.renewed a (h.renewed a hrenewed)

theorem carries_onDisconnect (s : Link) : s.Carries s.onDisconnect := by
  rw [onDisconnect]
  split
  · exact .of_eq rfl rfl rfl
  · exact .of_eq rfl rfl rfl

theorem carries_openStream (s : Link) (a : Address) : s.Carries (s.openStream a).2 := by
  obtain ⟨streams, tally, hrouter⟩ := s.router_openStream a
  apply Carries.of_eq
  all_goals rw [hrouter]

theorem carries_connect (s : Link) : s.Carries s.connect.2 := by
  obtain ⟨streams, slots, tally, hrouter⟩ := s.router_connect
  apply Carries.of_eq
  all_goals rw [hrouter]

theorem carries_reconnect (s : Link) : s.Carries s.reconnect := by
  have hbegin : s.Carries ({ s with router := { s.router with
      reconnectAt := none, attempts := s.router.attempts + 1 } }.announce .resyncing) :=
    .of_eq rfl rfl rfl
  have hconnected := hbegin.trans (carries_connect _)
  rw [reconnect]
  split
  case h_1 s' hconnect =>
    rw [hconnect] at hconnected
    exact hconnected.trans (.of_eq rfl rfl rfl)
  case h_2 s' hconnect =>
    rw [hconnect] at hconnected
    simp only
    split
    · exact hconnected.trans (.of_eq rfl rfl rfl)
    · exact hconnected.trans (.of_eq rfl rfl rfl)

theorem carries_resync (s : Link) : s.Carries s.resync.2 := by
  have hbegin : s.Carries { s.dropStreams.invalidate with
      router := { s.dropStreams.invalidate.router with attempts := 0 } } := .of_eq rfl rfl rfl
  exact hbegin.trans (carries_reconnect _)

theorem carries_fetch (s : Link) (a : Address) : s.Carries (s.fetch a).2 := by
  rw [fetch]
  split
  · exact .of_eq rfl rfl rfl
  · exact .of_eq rfl rfl rfl

theorem carries_track (s : Link) (a : Address) :
    Carries { s with router := { s.router with tracked := s.router.tracked.insert a } }
      (s.track a).2 := by
  obtain ⟨s₁, rfl, ⟨_, htrack⟩ | ⟨_, found, hfound, htrack⟩⟩ := s.track_cases a
  · rw [htrack]
    exact .of_eq rfl rfl rfl
  · have hcarries : Carries { s with router := { s.router with
        tracked := s.router.tracked.insert a } } found.2 := by
      rcases hfound with ⟨_, rfl | rfl⟩ | ⟨_, rfl⟩
      · exact .of_eq rfl rfl rfl
      · exact carries_fetch _ a
      · exact carries_openStream _ a
    rcases htrack with htrack | ⟨htrack, _⟩
    · rw [htrack]
      exact hcarries.trans (carries_onDisconnect _)
    · rw [htrack]
      exact hcarries

theorem carries_untrack (s : Link) (a : Address) :
    Carries { s with router := { s.router with tracked := s.router.tracked.erase a } }
      (s.untrack a) := by
  rw [untrack]
  split
  case isTrue => exact .of_eq rfl rfl rfl
  case isFalse hnot =>
    have hsame : s.router.tracked.erase a = s.router.tracked :=
      List.erase_of_not_mem fun ha => hnot (List.contains_iff_mem.mpr ha)
    exact .of_eq rfl hsame.symm rfl

/-- A request that is met is one fewer to come. -/
theorem carries_command (h : s.commandStep? = some s') : s.Carries s' := by
  rw [commandStep?] at h
  split at h
  · cases h
  case h_2 command rest hcommands =>
    cases h
    have hmet : s.Carries { s with router := { s.router with
        commands := rest, tracked := command.apply s.router.tracked } } :=
      ⟨rfl, by simp only [Router.asked, hcommands, List.foldl_cons],
        fun a hrenewed => by rw [hcommands] at hrenewed; exact hrenewed.tail⟩
    cases command with
    | track a => exact hmet.trans (carries_track { s with router := { s.router with
        commands := rest } } a)
    | untrack a => exact hmet.trans (carries_untrack { s with router := { s.router with
        commands := rest } } a)

theorem carries_account {id : Nat} (h : s.accountStep? id = some s') : s.Carries s' := by
  simp only [accountStep?, Option.bind_eq_bind, Option.bind_eq_some_iff] at h
  obtain ⟨⟨d, ledger⟩, _, h⟩ := h
  cases h
  have hread : s.Carries { s with transport := { s.transport with ledger } } := .of_eq rfl rfl rfl
  cases d with
  | item raw => exact .of_eq rfl rfl rfl
  | failure error =>
    rw [onAccount]
    split
    · exact hread.trans (carries_onDisconnect _)
    · exact hread
  | ended => exact hread.trans (carries_onDisconnect _)

theorem carries_slot (h : s.slotStep? = some s') : s.Carries s' := by
  simp only [slotStep?, Option.bind_eq_bind, Option.bind_eq_some_iff] at h
  obtain ⟨id, _, ⟨d, ledger⟩, _, h⟩ := h
  cases h
  have hread : s.Carries { s with transport := { s.transport with ledger } } := .of_eq rfl rfl rfl
  cases d with
  | item slot => exact .of_eq rfl rfl rfl
  | failure error =>
    rw [onSlot]
    split
    · exact hread.trans (carries_onDisconnect _)
    · exact hread
  | ended => exact hread.trans (carries_onDisconnect _)

theorem carries_timer (h : s.timerStep? = some s') : s.Carries s' := by
  simp only [timerStep?, Option.bind_eq_bind, Option.bind_eq_some_iff] at h
  obtain ⟨time, _, h⟩ := h
  split at h
  · cases h
    exact carries_reconnect s
  · cases h

theorem carries_after (hown : ∀ command, event ≠ .send command)
    (h : s.after? event = some s') : s.Carries s' := by
  cases event with
  | ledger change =>
    cases h
    exact .of_eq rfl rfl rfl
  | breach address breach =>
    cases h
    exact .of_eq rfl rfl rfl
  | breachSlots breach =>
    cases h
    exact .of_eq rfl rfl rfl
  | wait ms =>
    cases h
    exact .of_eq rfl rfl rfl
  | send command => exact absurd rfl (hown command)
  | resync =>
    cases h
    exact carries_resync s
  | command => exact carries_command h
  | account address =>
    obtain ⟨id, _, h⟩ := Option.bind_eq_some_iff.mp h
    exact carries_account h
  | slot => exact carries_slot h
  | timer => exact carries_timer h

/-- A request is met after those before it. -/
theorem asked_send (hrunning : s.router.running = true) (command : Router.Command) :
    (s.send command).2.router.asked = command.apply s.router.asked := by
  rw [Link.send, if_pos hrunning]
  simp [Router.asked, List.foldl_append]

end Link

end Solvency
