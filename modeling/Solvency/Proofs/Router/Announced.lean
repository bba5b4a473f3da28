import Solvency.Proofs.Registry.Events
import Solvency.Proofs.Router.Settled

/-! How listeners learn of changes. What a router stores in its registry, or makes stale, is
announced by an event, and an address on the ledger is without a stream only until it is
tracked. -/

namespace Solvency.Link

variable {s s' s'' : Link} {writes : List RawAccount} {a : Address}

structure Unopened (writes : List RawAccount) (s : Link) (a : Address) : Prop where
  connected : s.router.state = .connected
  unread : s.router.streams.find? a = none
  written : ∃ w ∈ writes, w.address = a

/-- Whatever has changed is announced, and whatever has no stream has none still. -/
structure Announces (writes : List RawAccount) (s s' : Link) : Prop where
  commands : s'.router.commands = s.router.commands
  changes : ∃ new : List RegistryEvent,
    s'.registry.events = new.foldl EventLog.push s.registry.events ∧
    ∀ a, (∃ event ∈ new, event.Touches a) ∨
      s'.registry.get? a = s.registry.get? a ∧ (s.Unopened writes a → s'.Unopened writes a)

theorem Announces.congr (hcommands : s'.router.commands = s.router.commands)
    (hregistry : s'.registry = s.registry)
    (hunopened : ∀ a, s.Unopened writes a → s'.Unopened writes a) : s.Announces writes s' :=
  ⟨hcommands, [], by rw [hregistry]; rfl, fun a => .inr ⟨by rw [hregistry], hunopened a⟩⟩

theorem Announces.refl (writes : List RawAccount) (s : Link) : s.Announces writes s :=
  .congr rfl rfl fun _ => id

theorem Announces.trans (h : s.Announces writes s') (h' : s'.Announces writes s'') :
    s.Announces writes s'' := by
  obtain ⟨hcommands, new, hevents, hchanges⟩ := h
  obtain ⟨hcommands', new', hevents', hchanges'⟩ := h'
  refine ⟨hcommands'.trans hcommands, new ++ new', ?_, fun a => ?_⟩
  · rw [List.foldl_append, ← hevents, hevents']
  · rcases hchanges a with ⟨event, hmem, htouches⟩ | ⟨hget, hunopened⟩
    · exact .inl ⟨event, List.mem_append_left _ hmem, htouches⟩
    · rcases hchanges' a with ⟨event, hmem, htouches⟩ | ⟨hget', hunopened'⟩
      · exact .inl ⟨event, List.mem_append_right _ hmem, htouches⟩
      · exact .inr ⟨hget'.trans hget, fun h => hunopened' (hunopened h)⟩

theorem Announces.of_invalidate (hcommands : s'.router.commands = s.router.commands)
    (hregistry : s'.registry = s.registry.invalidateAll) : s.Announces writes s' :=
  ⟨hcommands, [.invalidated _], by rw [hregistry]; rfl,
    fun _ => .inl ⟨_, List.mem_singleton_self _, trivial⟩⟩

theorem Wired.get?_eq_none (h : s.Wired writes) (hstream : s.router.streams.find? a = none) :
    s.registry.get? a = none :=
  Registry.get?_eq_none_iff.mpr ((h.follows a).idle hstream)

theorem Wired.get?_of_not_live (h : s.Wired writes) (hlive : a ∉ s.registry.live) :
    s.registry.get? a = none := by
  refine h.get?_eq_none (Option.not_isSome_iff_eq_none.mp fun hstream => ?_)
  exact hlive ((h.follows a).live.mpr hstream)

theorem Announces.ingest {w : RawAccount} {e : Entity} (hread : w.read = .ok e) :
    s.Announces writes (s.ingest w) := by
  rw [ingest_of_read hread]
  rcases s.registry.put_cases w.address e w.slot with hevents | ⟨hsame, _⟩
  · refine ⟨rfl, [.updated w.address w.slot], hevents, fun b => ?_⟩
    by_cases hb : b = w.address
    · exact .inl ⟨_, List.mem_singleton_self _, hb.symm⟩
    · exact .inr ⟨Registry.get?_put hb, fun h => ⟨h.connected, h.unread, h.written⟩⟩
  · exact .congr rfl hsame fun _ h => ⟨h.connected, h.unread, h.written⟩

theorem Wired.get?_opened (h : s.Wired writes) (a b : Address) :
    (s.opened a).registry.get? b = s.registry.get? b := by
  by_cases hb : b = a
  · subst hb
    by_cases hlive : b ∈ s.registry.live
    · exact Registry.get?_congr rfl rfl
        (by simp [Link.opened, Registry.setLive, hlive]) rfl
    · have hnone := h.get?_of_not_live hlive
      rw [hnone]
      rw [Registry.get?_eq_none_iff] at hnone ⊢
      exact hnone
  · have hagrees := h.agrees_opened hb
    exact Registry.get?_congr hagrees.entry rfl hagrees.live rfl

theorem unopened_opened {b : Address} (hb : b ≠ a) (h : s.Unopened writes b) :
    (s.opened a).Unopened writes b :=
  ⟨h.connected, by simp [opened, Table.find?_insert, hb, h.unread], h.written⟩

theorem Wired.announces_opened (h : s.Wired writes)
    (hnone : writes.find? (·.address = a) = none) : s.Announces writes (s.opened a) := by
  refine ⟨rfl, [], rfl, fun b => .inr ⟨h.get?_opened a b, fun hunopened => ?_⟩⟩
  refine unopened_opened ?_ hunopened
  rintro rfl
  obtain ⟨w, hw, rfl⟩ := hunopened.written
  simpa using List.find?_eq_none.mp hnone w hw

/-- What is fetched for the first time is announced: nothing stored is newer. -/
theorem Wired.announces_opened_ingest (h : s.Wired writes) {w : RawAccount} {e : Entity}
    (hw : writes.find? (·.address = a) = some w) (hread : w.read = .ok e) :
    s.Announces writes ((s.opened a).ingest w) := by
  obtain ⟨hmem, rfl, hnewest⟩ := h.ledger.newest hw
  have hothers : ∀ b, b ≠ w.address →
      ((s.opened w.address).ingest w).registry.get? b = s.registry.get? b := by
    intro b hb
    rw [ingest_of_read hread]
    exact (Registry.get?_put hb).trans (h.get?_opened w.address b)
  have hopened : ∀ b, b ≠ w.address → s.Unopened writes b →
      ((s.opened w.address).ingest w).Unopened writes b := by
    intro b hb hunopened
    have hnext := unopened_opened hb hunopened
    rw [ingest_of_read hread]
    exact ⟨hnext.connected, hnext.unread, hnext.written⟩
  rcases (s.opened w.address).registry.put_cases w.address e w.slot with
    hevents | ⟨hsame, entry, hentry, hheld⟩
  · refine ⟨rfl, [.updated w.address w.slot], ?_, fun b => ?_⟩
    · rw [ingest_of_read hread]
      exact hevents
    · by_cases hb : b = w.address
      · exact .inl ⟨_, List.mem_singleton_self _, hb.symm⟩
      · exact .inr ⟨hothers b hb, hopened b hb⟩
  · have hregistry : ((s.opened w.address).ingest w).registry =
        (s.opened w.address).registry := by
      rw [ingest_of_read hread]
      exact hsame
    refine ⟨rfl, [], by rw [hregistry]; rfl, fun b => .inr ⟨?_, fun hunopened => ?_⟩⟩
    · rw [hregistry]
      exact h.get?_opened w.address b
    · refine hopened b ?_ hunopened
      rintro rfl
      -- without a stream the entry is stale, and then it is not newer than the last write
      rcases hheld with hfresh | hlater
      · exact (h.follows _).idle hunopened.unread entry hentry hfresh
      · obtain ⟨_, older, holder, haddress, hslot, _⟩ := h.stores _ entry hentry
        exact Nat.not_le.mpr hlater (hslot ▸ hnewest older holder haddress)

theorem Wired.announces_openStream (h : s.Wired writes) (hreads : Readable writes) (a : Address) :
    s.Announces writes (s.openStream a).2 := by
  rw [h.openStream_eq a]
  split
  · split
    case h_1 w hw =>
      obtain ⟨e, hread⟩ := hreads w (h.ledger.newest hw).1
      exact h.announces_opened_ingest hw hread
    case h_2 hnone => exact h.announces_opened hnone
  · exact .refl writes s

theorem Wired.announces_openAll (h : s.Wired writes) (hreads : Readable writes)
    (addresses : List Address) : s.Announces writes (s.openAll addresses).2 := by
  induction addresses generalizing s with
  | nil => exact .refl writes s
  | cons a rest ih =>
    have hwired := h.openStream hreads a
    have hfirst := h.announces_openStream hreads a
    rw [Link.openAll]
    split
    case h_1 s' hopen =>
      rw [hopen] at hwired hfirst
      exact hfirst.trans (ih hwired)
    case h_2 s' hopen =>
      rw [hopen] at hwired hfirst
      exact hfirst.trans (ih hwired)
    case h_3 s' hopen =>
      rw [hopen] at hfirst
      exact hfirst

theorem Wired.announces_connect (h : s.Wired writes) (hreads : Readable writes) :
    s.Announces writes s.connect.2 := by
  rw [Link.connect]
  split
  · exact .refl writes s
  case h_2 slots transport hslots =>
    have hbegin : s.Announces writes { s with transport, router := { s.router with slots } } :=
      .congr rfl rfl fun _ h => ⟨h.connected, h.unread, h.written⟩
    exact hbegin.trans ((h.subscribeSlots hslots).announces_openAll hreads s.router.tracked)

theorem Wired.announces_reconnect (h : s.Wired writes) (hreads : Readable writes)
    (hstate : s.router.state ≠ .connected) : s.Announces writes s.reconnect := by
  have hbegin : Wired writes ({ s with router := { s.router with
      reconnectAt := none, attempts := s.router.attempts + 1 } }.announce .resyncing) :=
    h.congr rfl rfl rfl rfl
  have hconnect := hbegin.announces_connect hreads
  have hfirst : ∀ {s' : Link}, Announces writes ({ s with router := { s.router with
      reconnectAt := none, attempts := s.router.attempts + 1 } }.announce .resyncing) s' →
      s.Announces writes s' := by
    intro s' hnext
    refine .trans ?_ hnext
    exact .congr rfl rfl fun _ hunopened => absurd hunopened.connected hstate
  rw [Link.reconnect]
  split
  case h_1 s' hs' =>
    rw [hs'] at hconnect
    obtain ⟨hcommands, new, hevents, hchanges⟩ := hfirst hconnect
    refine ⟨hcommands, new, hevents, fun a => (hchanges a).imp_right fun hsame => ⟨hsame.1, ?_⟩⟩
    exact fun hunopened => absurd hunopened.connected hstate
  case h_2 s' hs' =>
    rw [hs'] at hconnect
    simp only
    split
    · exact (hfirst hconnect).trans (.of_invalidate rfl rfl)
    · exact (hfirst hconnect).trans (.of_invalidate rfl rfl)

theorem announces_onDisconnect (writes : List RawAccount) (s : Link) :
    s.Announces writes s.onDisconnect := by
  rw [onDisconnect]
  split
  · exact .of_invalidate rfl rfl
  · exact .refl writes s

theorem not_unopened_onDisconnect : ¬ s.onDisconnect.Unopened writes a := by
  intro hunopened
  have hstate := hunopened.connected
  rw [onDisconnect] at hstate
  split at hstate
  · cases hstate
  case isFalse hlost => exact hlost hstate

theorem Based.announces_resync (h : s.Based writes) (hreads : Readable writes) :
    s.Announces writes s.resync.2 := by
  obtain ⟨hreset, _⟩ := h.reset
  have hwired : Wired writes { s.dropStreams.invalidate with
      router := { s.dropStreams.router with attempts := 0, state := .disconnected } } :=
    hreset.congr rfl rfl rfl rfl
  have hbegin : s.Announces writes { s.dropStreams.invalidate with
      router := { s.dropStreams.router with attempts := 0, state := .disconnected } } :=
    .of_invalidate rfl rfl
  -- the state that a resync finds is overwritten before anything looks at it
  exact hbegin.trans (hwired.announces_reconnect hreads nofun)

theorem Settled.announces_fetch (h : s.Settled writes) (hreads : Readable writes) (a : Address) :
    s.Announces writes (s.fetch a).2 ∧ (s.fetch a).2.router.streams = s.router.streams := by
  rw [h.fetch_eq a]
  split
  · split
    case h_1 w hw =>
      obtain ⟨e, hread⟩ := hreads w (h.ledger.newest hw).1
      exact ⟨.ingest hread, rfl⟩
    case h_2 => exact ⟨.refl writes s, rfl⟩
  · exact ⟨.refl writes s, rfl⟩

/-- An address on the ledger has a stream unless the ledger cannot be reached. -/
theorem Wired.opened_of_openStream (h : s.Wired writes)
    (hkept : ∀ error, (s.openStream a).1 = .error error → error.isDisconnect = false) :
    ¬ (s.openStream a).2.Unopened writes a := by
  intro hunopened
  rw [h.openStream_eq a] at hkept hunopened
  split at hunopened
  case isTrue =>
    split at hunopened
    · have hunread := hunopened.unread
      simp [Link.ingest, Link.opened, Table.find?_insert] at hunread
    case h_2 hnone =>
      obtain ⟨w, hw, rfl⟩ := hunopened.written
      simpa using List.find?_eq_none.mp hnone w hw
  case isFalse hunreachable =>
    rw [if_neg hunreachable] at hkept
    cases hkept _ rfl

/-- Whatever comes of tracking an address, a connected router then reads it if it is on the
ledger. -/
theorem Settled.announces_track (h : s.Settled writes) (hreads : Readable writes) (a : Address) :
    s.Announces writes (s.track a).2 ∧ ¬ (s.track a).2.Unopened writes a := by
  obtain ⟨s₁, hs₁, hcases⟩ := s.track_cases a
  have hbegin : s₁.Settled writes := by
    rw [hs₁]
    exact h.congr (h.toWired.congr rfl rfl rfl rfl) rfl rfl fun _ => rfl
  have hfirst : s.Announces writes s₁ := by
    rw [hs₁]
    exact .congr rfl rfl fun _ h => ⟨h.connected, h.unread, h.written⟩
  rcases hcases with ⟨hstate, htrack⟩ | ⟨hstate, found, hfound, htrack⟩
  · rw [htrack]
    exact ⟨hfirst, fun hunopened => hstate hunopened.connected⟩
  · have hannounces : s.Announces writes found.2 := by
      rcases hfound with ⟨_, rfl | rfl⟩ | ⟨_, rfl⟩
      · exact hfirst
      · exact hfirst.trans (hbegin.announces_fetch hreads a).1
      · exact hfirst.trans (hbegin.announces_openStream hreads a)
    rcases htrack with htrack | ⟨htrack, hkept⟩
    · rw [htrack]
      exact ⟨hannounces.trans (announces_onDisconnect writes _), not_unopened_onDisconnect⟩
    · rw [htrack]
      refine ⟨hannounces, fun hunopened => ?_⟩
      rcases hfound with ⟨⟨id, hid⟩, rfl | rfl⟩ | ⟨hnew, rfl⟩
      · cases hid.symm.trans hunopened.unread
      · have hunread := hunopened.unread
        rw [(hbegin.announces_fetch hreads a).2, hid] at hunread
        cases hunread
      · exact hbegin.opened_of_openStream hkept hunopened

end Solvency.Link
