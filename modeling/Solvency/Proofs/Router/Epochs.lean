import Solvency.Proofs.Channel.EventLog
import Solvency.Proofs.Registry.Events
import Solvency.Proofs.Router.Connection

/-! A new epoch of a registry is never silent. Whatever a router does, in whatever state, its
registry is in the same epoch afterwards or has announced that it is not. -/

namespace Solvency

def RegistryEvent.IsInvalidated : RegistryEvent → Prop
  | updated _ _ => False
  | slotConfirmed _ => False
  | invalidated _ => True

namespace Registry

variable {r r' r'' : Registry}

/-- What is new in the log tells of a new epoch, if there is one. -/
def Heralds (r r' : Registry) : Prop :=
  ∃ new : List RegistryEvent, r'.events = new.foldl EventLog.push r.events ∧
    (r'.epoch = r.epoch ∨ ∃ event ∈ new, event.IsInvalidated)

theorem Heralds.of_eq (hevents : r'.events = r.events) (hepoch : r'.epoch = r.epoch) :
    r.Heralds r' :=
  ⟨[], hevents, .inl hepoch⟩

theorem Heralds.of_push {event : RegistryEvent} (hevents : r'.events = r.events.push event)
    (hepoch : r'.epoch = r.epoch) : r.Heralds r' :=
  ⟨[event], hevents, .inl hepoch⟩

theorem Heralds.refl (r : Registry) : r.Heralds r := .of_eq rfl rfl

theorem Heralds.trans (h : r.Heralds r') (h' : r'.Heralds r'') : r.Heralds r'' := by
  obtain ⟨new, hevents, hepoch⟩ := h
  obtain ⟨new', hevents', hepoch'⟩ := h'
  refine ⟨new ++ new', by rw [List.foldl_append, ← hevents, hevents'], ?_⟩
  rcases hepoch' with hsame' | ⟨event, hmem, hevent⟩
  · rcases hepoch with hsame | ⟨event, hmem, hevent⟩
    · exact .inl (hsame'.trans hsame)
    · exact .inr ⟨event, List.mem_append_left _ hmem, hevent⟩
  · exact .inr ⟨event, List.mem_append_right _ hmem, hevent⟩

theorem Heralds.full (h : r.Heralds r') (hfull : r.events.Full) :
    r'.events.Full ∧ r.events.total ≤ r'.events.total := by
  obtain ⟨new, hevents, _⟩ := h
  rw [hevents]
  exact ⟨hfull.foldl new, EventLog.total_le_foldl _ new⟩

/-- A listener of a registry in a new epoch has that to hear of. -/
theorem Heralds.outstanding (h : r.Heralds r') {position : Nat}
    (hposition : position ≤ r.events.total) (hepoch : r'.epoch ≠ r.epoch) :
    r'.events.Outstanding position RegistryEvent.IsInvalidated := by
  obtain ⟨new, hevents, hsame | ⟨event, hmem, hevent⟩⟩ := h
  · exact absurd hsame hepoch
  · rw [hevents]
    exact EventLog.outstanding_foldl hposition hmem hevent

theorem Heralds.keeps_outstanding (h : r.Heralds r') {position : Nat} {p : RegistryEvent → Prop}
    (hposition : position ≤ r.events.total) (hout : r.events.Outstanding position p) :
    r'.events.Outstanding position p := by
  obtain ⟨new, hevents, _⟩ := h
  rw [hevents]
  exact hout.foldl hposition new

theorem heralds_invalidateAll (r : Registry) : r.Heralds r.invalidateAll :=
  ⟨[.invalidated (r.epoch + 1)], rfl, .inr ⟨_, List.mem_singleton_self _, trivial⟩⟩

theorem heralds_ingest (r : Registry) (raw : RawAccount) : r.Heralds (r.ingest raw).2 := by
  rcases r.ingest_cases raw with hsame | ⟨e, hput⟩
  · rw [hsame]
    exact .refl r
  · rw [hput]
    rcases r.put_cases raw.address e raw.slot with hevents | ⟨hsame, _⟩
    · exact .of_push hevents epoch_put
    · rw [hsame]
      exact .refl r

theorem heralds_confirmSlot (r : Registry) (slot : Slot) : r.Heralds (r.confirmSlot slot) := by
  rw [confirmSlot]
  split
  · exact .of_push rfl rfl
  · exact .refl r

theorem heralds_remove (r : Registry) (a : Address) : r.Heralds (r.remove a).2 :=
  .of_eq (r.events_remove a) epoch_remove

end Registry

namespace Link

open Registry (Heralds)

variable {s s' : Link}

theorem heralds_fetch (s : Link) (a : Address) : Heralds s.registry (s.fetch a).2.registry := by
  rw [fetch]
  split
  · exact s.registry.heralds_ingest _
  · exact .refl _

theorem heralds_openStream (s : Link) (a : Address) :
    Heralds s.registry (s.openStream a).2.registry := by
  rw [openStream]
  split
  · exact .refl _
  · have hlive : Heralds s.registry (s.registry.setLive a true) := .of_eq rfl rfl
    exact hlive.trans (heralds_fetch _ a)

theorem heralds_openAll (s : Link) (addresses : List Address) :
    Heralds s.registry (s.openAll addresses).2.registry := by
  induction addresses generalizing s with
  | nil => exact .refl _
  | cons a rest ih =>
    have hfirst := s.heralds_openStream a
    rw [openAll]
    split
    case h_1 s' hopen =>
      rw [hopen] at hfirst
      exact hfirst.trans (ih s')
    case h_2 s' hopen =>
      rw [hopen] at hfirst
      exact hfirst.trans (ih s')
    case h_3 s' hopen =>
      rw [hopen] at hfirst
      exact hfirst

theorem heralds_connect (s : Link) : Heralds s.registry s.connect.2.registry := by
  rw [connect]
  split
  · exact .refl _
  · exact heralds_openAll _ _

theorem heralds_reconnect (s : Link) : Heralds s.registry s.reconnect.registry := by
  have hconnect := heralds_connect ({ s with router := { s.router with
    reconnectAt := none, attempts := s.router.attempts + 1 } }.announce .resyncing)
  rw [reconnect]
  split
  case h_1 s' hs =>
    rw [hs] at hconnect
    exact hconnect
  case h_2 s' hs =>
    rw [hs] at hconnect
    have hreset := Heralds.trans hconnect s'.registry.heralds_invalidateAll
    simp only
    split <;> exact hreset

theorem heralds_onDisconnect (s : Link) : Heralds s.registry s.onDisconnect.registry := by
  rw [onDisconnect]
  split
  · exact s.registry.heralds_invalidateAll
  · exact .refl _

theorem heralds_resync (s : Link) : Heralds s.registry s.resync.2.registry :=
  s.registry.heralds_invalidateAll.trans (heralds_reconnect { s.dropStreams.invalidate with
    router := { s.dropStreams.invalidate.router with attempts := 0 } })

theorem heralds_track (s : Link) (a : Address) : Heralds s.registry (s.track a).2.registry := by
  obtain ⟨s₁, hs₁, hcases⟩ := s.track_cases a
  have hbegin : s.registry = s₁.registry := by rw [hs₁]
  rw [hbegin]
  rcases hcases with ⟨_, htrack⟩ | ⟨_, found, hfound, htrack⟩
  · rw [htrack]
    exact .refl _
  · have hfirst : Heralds s₁.registry found.2.registry := by
      rcases hfound with ⟨_, rfl | rfl⟩ | ⟨_, rfl⟩
      · exact .refl _
      · exact s₁.heralds_fetch a
      · exact s₁.heralds_openStream a
    rcases htrack with htrack | ⟨htrack, _⟩
    · rw [htrack]
      exact hfirst.trans found.2.heralds_onDisconnect
    · rw [htrack]
      exact hfirst

theorem heralds_untrack (s : Link) (a : Address) : Heralds s.registry (s.untrack a).registry := by
  rw [untrack]
  split
  · exact s.registry.heralds_remove a
  · exact .refl _

theorem heralds_onAccount (s : Link) (d : Delivery RawAccount) :
    Heralds s.registry (s.onAccount d).registry := by
  cases d with
  | item raw => exact s.registry.heralds_ingest raw
  | failure error =>
    rw [onAccount]
    split
    · exact s.heralds_onDisconnect
    · exact .refl _
  | ended => exact s.heralds_onDisconnect

theorem heralds_onSlot (s : Link) (d : Delivery Slot) :
    Heralds s.registry (s.onSlot d).registry := by
  cases d with
  | item slot => exact s.registry.heralds_confirmSlot slot
  | failure error =>
    rw [onSlot]
    split
    · exact s.heralds_onDisconnect
    · exact .refl _
  | ended => exact s.heralds_onDisconnect

theorem heralds_after {event : Event} (hs : s.after? event = some s') :
    Heralds s.registry s'.registry := by
  cases event with
  | ledger change => cases hs; exact .refl _
  | breach address breach => cases hs; exact .refl _
  | breachSlots breach => cases hs; exact .refl _
  | wait ms => cases hs; exact .refl _
  | send command =>
    cases hs
    rw [Link.send]
    split <;> exact .refl _
  | resync => cases hs; exact s.heralds_resync
  | command =>
    simp only [after?, commandStep?] at hs
    split at hs
    · cases hs
    case h_2 command commands _ =>
      cases hs
      cases command with
      | track a => exact heralds_track { s with router := { s.router with commands } } a
      | untrack a => exact heralds_untrack { s with router := { s.router with commands } } a
  | account address =>
    obtain ⟨id, _, hs⟩ := Option.bind_eq_some_iff.mp hs
    simp only [accountStep?, Option.bind_eq_bind, Option.bind_eq_some_iff] at hs
    obtain ⟨⟨d, ledger⟩, _, hs⟩ := hs
    cases hs
    exact heralds_onAccount { s with transport := { s.transport with ledger } } d
  | slot =>
    simp only [after?, slotStep?, Option.bind_eq_bind, Option.bind_eq_some_iff] at hs
    obtain ⟨_, _, ⟨d, ledger⟩, _, hs⟩ := hs
    cases hs
    exact heralds_onSlot { s with transport := { s.transport with ledger } } d
  | timer =>
    simp only [after?, timerStep?, Option.bind_eq_bind, Option.bind_eq_some_iff] at hs
    obtain ⟨_, _, hs⟩ := hs
    split at hs
    · cases hs
      exact s.heralds_reconnect
    · cases hs

end Link

end Solvency
