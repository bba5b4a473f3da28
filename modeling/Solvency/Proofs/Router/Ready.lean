import Solvency.Proofs.Registry.Events
import Solvency.Proofs.Router.Abreast
import Solvency.Proofs.Router.Requests

/-! A router that is connected and has nothing left to do. What it is asked to track is observed
before it answers, and then there is nothing left to do again. -/

namespace Solvency

namespace Registry

variable {r : Registry} {a b : Address} {raw : RawAccount} {e : Entity}

theorem isSome_get?_iff : (r.get? a).isSome = true ↔ r.Holds a := by
  simp only [Option.isSome_iff_exists, get?_eq_some_iff, Holds]
  constructor
  · rintro ⟨_, entry, hentry, hepoch, _⟩
    exact ⟨entry, hentry, hepoch⟩
  · rintro ⟨entry, hentry, hepoch⟩
    exact ⟨_, entry, hentry, hepoch, rfl⟩

theorem get?_ingest (hb : b ≠ raw.address) : (r.ingest raw).2.get? b = r.get? b := by
  rcases r.ingest_cases raw with hsame | ⟨e, hput⟩
  · rw [hsame]
  · rw [hput, get?_put hb]

theorem get?_ingest_of_none (hread : raw.read = .ok e)
    (hnone : r.entries.find? raw.address = none) :
    ∃ v, (r.ingest raw).2.get? raw.address = some v ∧ v.entity = e := by
  have hdecode : Entity.decode raw.tag raw.data = .ok e := hread
  simp only [Registry.ingest, hdecode]
  have hentry := find?_entries_put (r := r) (a := raw.address) (e := e) (s := raw.slot)
    (b := raw.address)
  rw [if_pos rfl, hnone] at hentry
  exact ⟨_, get?_eq_some_iff.mpr ⟨_, hentry, epoch_put.symm, rfl⟩, rfl⟩

/-- A first observation adds what was observed and nothing else. -/
theorem get?_first (hread : raw.read = .ok e) (hnone : r.entries.find? raw.address = none) :
    (((r.setLive raw.address true).ingest raw).2.get? raw.address).isSome = true ∧
    (∀ x v, r.get? x = some v → ((r.setLive raw.address true).ingest raw).2.get? x = some v) ∧
    ∀ x v, ((r.setLive raw.address true).ingest raw).2.get? x = some v →
      r.get? x = some v ∨ x = raw.address ∧ v.entity = e := by
  obtain ⟨v, hv, hentity⟩ := get?_ingest_of_none (r := r.setLive raw.address true) hread hnone
  have hothers : ∀ x ≠ raw.address,
      ((r.setLive raw.address true).ingest raw).2.get? x = r.get? x :=
    fun x hx => (get?_ingest hx).trans (get?_setLive hx true)
  have hunseen : r.get? raw.address = none :=
    get?_eq_none_iff.mpr fun entry hentry => by cases hnone.symm.trans hentry
  refine ⟨Option.isSome_iff_exists.mpr ⟨v, hv⟩, fun x w hw => ?_, fun x w hw => ?_⟩
  · have hx : x ≠ raw.address := by
      rintro rfl
      cases hunseen.symm.trans hw
    exact (hothers x hx).trans hw
  · by_cases hx : x = raw.address
    · subst hx
      cases hv.symm.trans hw
      exact .inr ⟨rfl, hentity⟩
    · exact .inl ((hothers x hx).symm.trans hw)

end Registry

namespace Link

variable {s s' : Link} {a : Address} {raw : RawAccount} {entity : Entity}

theorem drained_of_feeds (h : ∀ id a inbox,
    s.transport.ledger.accountFeeds.find? id = some (a, inbox) → inbox.queue = []) :
    s.Drained := by
  intro id _
  cases hnext : s.transport.ledger.nextAccount? id with
  | none => simp [accountStep?, hnext]
  | some next =>
    obtain ⟨a, inbox, queue, hfeed, hqueue, _⟩ := Ledger.nextAccount?_eq_some_iff.mp hnext
    rw [h id a inbox hfeed] at hqueue
    cases hqueue

theorem slotStep?_eq_none_iff : s.slotStep? = none ↔ ∀ id inbox, s.router.slots = some id →
    s.transport.ledger.slotFeeds.find? id = some inbox → inbox.queue = [] := by
  simp only [slotStep?, Ledger.nextSlot?, Option.bind_eq_bind, Option.bind_eq_none_iff]
  constructor
  · intro h id inbox hid hfeed
    cases hqueue : inbox.queue with
    | nil => rfl
    | cons d queue => simpa [hfeed, hqueue] using h id hid
  · intro h id hid
    cases hfeed : s.transport.ledger.slotFeeds.find? id with
    | none => simp
    | some inbox => simp [h id inbox hid hfeed]

theorem step?_eq_none_iff (hrunning : s.router.running = true) :
    s.step? = none ↔ s.router.commands = [] ∧ s.Drained ∧ s.slotStep? = none ∧
      s.timerStep? = none := by
  rw [step?, if_pos hrunning]
  simp only [Option.or_eq_none_iff, commandStep?_eq_none_iff, List.findSome?_eq_none_iff, Drained]

/-- What holds of a router until it is stopped. -/
structure Fit (s : Link) : Prop where
  manned : s.Manned
  abreast : s.Abreast
  running : s.router.running = true

theorem Fit.withCommands (h : s.Fit) (commands : List Router.Command) :
    Fit { s with router := { s.router with commands } } :=
  ⟨h.manned.withCommands commands, h.abreast.congr rfl rfl rfl, h.running⟩

/-- What one event preserves. -/
theorem Fit.after (h : s.Fit) {event : Event} (hs : s.after? event = some s') : s'.Fit := by
  refine ⟨h.manned.after hs, h.abreast.after h.manned hs, ?_⟩
  by_cases hown : ∀ command, event ≠ .send command
  · exact (carries_after hown hs).running.trans h.running
  · push Not at hown
    obtain ⟨command, rfl⟩ := hown
    cases hs
    rw [Link.send, if_pos h.running]
    exact h.running

theorem Fit.track (h : s.Fit) (a : Address) : (s.track a).2.Fit :=
  ⟨h.manned.track a, h.abreast.track h.manned.toOwned a,
    (s.carries_track a).running.trans h.running⟩

theorem fit_start (heartbeats : Bool) (changes : List Ledger.Change)
    (settings : TransportSettings) (buffer now : Nat) :
    (start { ledger := changes.foldl Ledger.change { heartbeats } } settings buffer now).Fit := by
  have hkeeps : Ledger.Keeps { heartbeats } (changes.foldl Ledger.change { heartbeats }) :=
    Ledger.keeps_foldl_change changes _
  have hdated : Ledger.Dated { heartbeats } := fun _ => Nat.le_refl _
  exact ⟨Manned.start hkeeps settings buffer now,
    Abreast.start hkeeps (Ledger.dated_foldl_change hdated changes) settings buffer now,
    (carries_reconnect _).running⟩

/-- Connected to a ledger that can be reached, with nothing left to do. -/
structure Ready (s : Link) : Prop extends s.Fit where
  connected : s.router.state = .connected
  reachable : s.transport.ledger.reachable = true
  idle : s.step? = none

theorem Ready.drained (h : s.Ready) : s.Drained := ((step?_eq_none_iff h.running).mp h.idle).2.1

theorem Ready.track_of_held (h : s.Ready) {id : Nat} (hid : s.router.streams.find? a = some id)
    (hraw : s.transport.ledger.accounts.find? a = some raw) (hread : raw.read = .ok entity) :
    s.track a = (.ok (), s) ∧ (s.registry.get? a).isSome = true := by
  have ha : a ∈ s.router.tracked := h.manned.tracked a id hid
  -- with nothing left to read, what the stream is open for has been observed
  have hholds := h.abreast.holds h.manned h.connected h.drained ha hraw hread
  have hseen := Registry.isSome_get?_iff.mpr hholds
  have hcontains : s.router.streams.contains a = true := by
    rw [Table.contains, hid]
    rfl
  refine ⟨?_, hseen⟩
  rw [Link.track, List.insert_of_mem ha]
  dsimp only
  rw [if_pos h.connected, if_pos hcontains, if_pos hseen]

theorem Ready.track_of_new (h : s.Ready) (hnew : s.router.streams.find? a = none)
    (hraw : s.transport.ledger.accounts.find? a = some raw) :
    s.track a = (.ok (), (opened { s with router :=
      { s.router with tracked := s.router.tracked.insert a } } a).ingest raw) := by
  have hopen := openStream_eq (s := { s with router :=
    { s.router with tracked := s.router.tracked.insert a } }) h.abreast.reliable a
  rw [if_pos h.reachable, hraw] at hopen
  exact track_of_opened h.connected hnew hopen

theorem Ready.entries_eq_none (h : s.Ready) (hnew : s.router.streams.find? a = none) :
    s.registry.entries.find? a = none := by
  cases hentry : s.registry.entries.find? a with
  | none => rfl
  | some entry =>
    have hheld := h.manned.complete h.connected a (h.manned.entries a entry hentry).1
    rw [hnew] at hheld
    cases hheld

theorem Ready.idle_opened (h : s.Ready) (tracked : List Address) (raw : RawAccount) :
    ((opened { s with router := { s.router with tracked } } a).ingest raw).step? = none := by
  obtain ⟨hcommands, hdrained, hslots, _⟩ := (step?_eq_none_iff h.running).mp h.idle
  have hempty := slotStep?_eq_none_iff.mp hslots
  refine (step?_eq_none_iff ?_).mpr ⟨hcommands, ?_, slotStep?_eq_none_iff.mpr hempty, ?_⟩
  · exact h.running
  -- the new stream is empty, and the others have been read to their ends
  · refine drained_of_feeds fun id b inbox hfeed => ?_
    simp only [Link.ingest, opened, Table.find?_insert] at hfeed
    split at hfeed
    · cases hfeed
      rfl
    · exact hdrained.queue (h.manned.owner id b inbox hfeed) hfeed
  · have htimer := h.manned.timer h.connected
    simp [timerStep?, Link.ingest, opened, htimer]

/-- Tracking what is on the ledger succeeds and leaves nothing to be done. -/
theorem Ready.track (h : s.Ready) (hraw : s.transport.ledger.accounts.find? a = some raw)
    (hread : raw.read = .ok entity) :
    ∃ s', s.track a = (.ok (), s') ∧ s'.Ready ∧
      s'.transport.ledger.accounts = s.transport.ledger.accounts ∧
      (s'.registry.get? a).isSome = true ∧
      (∀ x v, s.registry.get? x = some v → s'.registry.get? x = some v) ∧
      ∀ x v, s'.registry.get? x = some v →
        s.registry.get? x = some v ∨ x = a ∧ v.entity = entity := by
  -- either a stream is open and nothing is left to do, or nothing of `a` was ever observed
  cases hstream : s.router.streams.find? a with
  | some id =>
    obtain ⟨htrack, hseen⟩ := h.track_of_held hstream hraw hread
    exact ⟨s, htrack, h, rfl, hseen, fun _ _ hv => hv, fun _ _ => .inl⟩
  | none =>
    have htrack := h.track_of_new hstream hraw
    have hfit := h.toFit.track a
    rw [htrack] at hfit
    obtain rfl : raw.address = a := h.abreast.addressed.accounts a raw hraw
    exact ⟨_, htrack, ⟨hfit, h.connected, h.reachable, h.idle_opened _ raw⟩, rfl,
      Registry.get?_first hread (h.entries_eq_none hstream)⟩

end Link

end Solvency
