import Solvency.Proofs.Router.Connection

/-! The time of a link and the requests that wait at its router. What happens to a connection
leaves both alone; time only goes forward, and requests are met from the front. -/

namespace Solvency.Link

variable {s s' : Link} {a : Address} {event : Event}

def agenda (s : Link) : Nat × List Router.Command := (s.now, s.router.commands)

theorem agenda_onDisconnect (s : Link) : s.onDisconnect.agenda = s.agenda := by
  rw [onDisconnect]
  split <;> rfl

theorem agenda_fetch (s : Link) (a : Address) : (s.fetch a).2.agenda = s.agenda := by
  rw [fetch]
  split <;> rfl

theorem agenda_openStream (s : Link) (a : Address) : (s.openStream a).2.agenda = s.agenda := by
  rw [openStream]
  split
  · rfl
  · exact agenda_fetch _ a

theorem agenda_openAll (s : Link) (addresses : List Address) :
    (s.openAll addresses).2.agenda = s.agenda := by
  induction addresses generalizing s with
  | nil => rfl
  | cons a rest ih =>
    have hopened := s.agenda_openStream a
    rw [openAll]
    split
    case h_1 s' hopen => rw [ih, ← hopened, hopen]
    case h_2 s' hopen => rw [ih, ← hopened, hopen]
    case h_3 s' hopen => rw [← hopened, hopen]

theorem agenda_connect (s : Link) : s.connect.2.agenda = s.agenda := by
  rw [connect]
  split
  · rfl
  · exact agenda_openAll _ _

theorem agenda_reconnect (s : Link) : s.reconnect.agenda = s.agenda := by
  have hconnected := agenda_connect ({ s with router := { s.router with
    reconnectAt := none, attempts := s.router.attempts + 1 } }.announce .resyncing)
  rw [reconnect]
  split
  case h_1 s' hconnect =>
    rw [hconnect] at hconnected
    exact hconnected
  case h_2 s' hconnect =>
    rw [hconnect] at hconnected
    simp only
    split <;> exact hconnected

theorem agenda_resync (s : Link) : s.resync.2.agenda = s.agenda :=
  agenda_reconnect { s.dropStreams.invalidate with
    router := { s.dropStreams.invalidate.router with attempts := 0 } }

theorem agenda_track (s : Link) (a : Address) : (s.track a).2.agenda = s.agenda := by
  obtain ⟨s₁, rfl, ⟨_, htrack⟩ | ⟨_, found, hfound, htrack⟩⟩ := s.track_cases a
  · rw [htrack]
    rfl
  · have hkept : found.2.agenda = s.agenda := by
      rcases hfound with ⟨_, rfl | rfl⟩ | ⟨_, rfl⟩
      · rfl
      · exact agenda_fetch _ a
      · exact agenda_openStream _ a
    rcases htrack with htrack | ⟨htrack, _⟩
    · rw [htrack, agenda_onDisconnect, hkept]
    · rw [htrack, hkept]

theorem agenda_untrack (s : Link) (a : Address) : (s.untrack a).agenda = s.agenda := by
  rw [untrack]
  split <;> rfl

theorem agenda_onAccount (s : Link) (d : Delivery RawAccount) :
    (s.onAccount d).agenda = s.agenda := by
  cases d with
  | item raw => rfl
  | failure error =>
    rw [onAccount]
    split
    · exact agenda_onDisconnect s
    · rfl
  | ended => exact agenda_onDisconnect s

theorem agenda_onSlot (s : Link) (d : Delivery Slot) : (s.onSlot d).agenda = s.agenda := by
  cases d with
  | item slot => rfl
  | failure error =>
    rw [onSlot]
    split
    · exact agenda_onDisconnect s
    · rfl
  | ended => exact agenda_onDisconnect s

/-- Time does not go back, and only the first of the requests is ever taken from the queue. -/
structure Onward (s s' : Link) : Prop where
  now_le : s.now ≤ s'.now
  commands : s'.router.commands <:+ s.router.commands

theorem Onward.of_agenda (h : s'.agenda = s.agenda) : s.Onward s' := by
  obtain ⟨hnow, hcommands⟩ := Prod.mk.inj h
  exact ⟨Nat.le_of_eq hnow.symm, hcommands ▸ List.suffix_rfl⟩

theorem onward_command (h : s.commandStep? = some s') : s.Onward s' := by
  rw [commandStep?] at h
  split at h
  · cases h
  case h_2 command rest hcommands =>
    cases h
    have hmet : (perform { s with router := { s.router with commands := rest } } command).agenda =
        (s.now, rest) := by
      cases command with
      | track a => exact agenda_track _ a
      | untrack a => exact agenda_untrack _ a
    obtain ⟨hnow, hrest⟩ := Prod.mk.inj hmet
    refine ⟨Nat.le_of_eq hnow.symm, ?_⟩
    rw [hcommands, hrest]
    exact List.suffix_cons command rest

theorem onward_after (hown : ∀ command, event ≠ .send command)
    (h : s.after? event = some s') : s.Onward s' := by
  cases event with
  | ledger change =>
    cases h
    exact .of_agenda rfl
  | breach address breach =>
    cases h
    exact .of_agenda rfl
  | breachSlots breach =>
    cases h
    exact .of_agenda rfl
  | wait ms =>
    cases h
    exact ⟨Nat.le_add_right _ ms, List.suffix_rfl⟩
  | send command => exact absurd rfl (hown command)
  | resync =>
    cases h
    exact .of_agenda (agenda_resync s)
  | command => exact onward_command h
  | account address =>
    obtain ⟨id, _, h⟩ := Option.bind_eq_some_iff.mp h
    simp only [accountStep?, Option.bind_eq_bind, Option.bind_eq_some_iff] at h
    obtain ⟨⟨d, ledger⟩, _, h⟩ := h
    cases h
    exact .of_agenda (agenda_onAccount _ d)
  | slot =>
    simp only [after?, slotStep?, Option.bind_eq_bind, Option.bind_eq_some_iff] at h
    obtain ⟨id, _, ⟨d, ledger⟩, _, h⟩ := h
    cases h
    exact .of_agenda (agenda_onSlot _ d)
  | timer =>
    simp only [after?, timerStep?, Option.bind_eq_bind, Option.bind_eq_some_iff] at h
    obtain ⟨time, _, h⟩ := h
    split at h
    · cases h
      exact .of_agenda (agenda_reconnect s)
    · cases h

end Solvency.Link
