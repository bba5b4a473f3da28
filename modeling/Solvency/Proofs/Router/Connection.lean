import Solvency.Proofs.Router.Owned

/-! The states of a connection over every run of a router on a ledger. What is open, what is
live and when it is tried again follow from the state alone. -/

namespace Solvency.Link

/-- What may happen to a router on a ledger, in any order. A stream may go wrong at any time. -/
inductive Event where
  | ledger (change : Ledger.Change)
  | breach (address : Address) (breach : Breach)
  | breachSlots (breach : Breach)
  | wait (ms : Nat)
  | send (command : Router.Command)
  | resync
  | command
  | account (address : Address)
  | slot
  | timer

/-- The state after an event, if there is anything to be done about it. -/
def after? (s : Link) : Event → Option Link
  | .ledger change =>
    some { s with transport := { s.transport with ledger := s.transport.ledger.change change } }
  | .breach address breach =>
    some { s with transport := (s.transport.inject address breach.delivery).2 }
  | .breachSlots breach => some { s with transport := (s.transport.injectSlot breach.delivery).2 }
  | .wait ms => some { s with now := s.now + ms }
  | .send command => some (s.send command).2
  | .resync => some s.resync.2
  | .command => s.commandStep?
  | .account address => (s.router.streams.find? address).bind s.accountStep?
  | .slot => s.slotStep?
  | .timer => s.timerStep?

/-- A router between two steps, by the state of its connection. -/
def Rests (s : Link) : Prop :=
  match s.router.state with
  | .connected => s.Complete ∧ s.router.reconnectAt = none ∧ s.router.attempts = 0
  | .disconnected => s.Lost ∧ s.router.reconnectAt.isSome ∧
      s.router.attempts < s.router.settings.maxReconnectAttempts
  | .failed => s.Lost ∧ s.router.reconnectAt = none ∧
      s.router.attempts = s.router.settings.maxReconnectAttempts
  | .resyncing => False

structure Steady (settings : TransportSettings) (s : Link) : Prop extends s.Owned where
  settings : s.router.settings = settings
  rests : s.Rests

variable {s s' : Link} {settings : TransportSettings} {a : Address} {raw : RawAccount}

theorem rests_connected_iff (h : s.router.state = .connected) :
    s.Rests ↔ s.Complete ∧ s.router.reconnectAt = none ∧ s.router.attempts = 0 := by
  rw [Rests, h]

theorem Rests.lost (h : s.Rests) (hstate : s.router.state ≠ .connected) : s.Lost := by
  rw [Rests] at h
  split at h
  · exact absurd ‹_› hstate
  · exact h.1
  · exact h.1
  · cases h

/-- What is done while the state stays the same needs to keep what that state asks for. -/
theorem Rests.congr (h : s.Rests) (hstate : s'.router.state = s.router.state)
    (htimer : s'.router.reconnectAt = s.router.reconnectAt)
    (hattempts : s'.router.attempts = s.router.attempts)
    (hsettings : s'.router.settings = s.router.settings)
    (hcomplete : s.router.state = .connected → s.Complete → s'.Complete)
    (hlost : s.router.state ≠ .connected → s.Lost → s'.Lost) : s'.Rests := by
  rw [Rests, hstate, htimer, hattempts, hsettings]
  rw [Rests] at h
  cases hs : s.router.state with
  | connected =>
    rw [hs] at h
    exact h.imp_left (hcomplete hs)
  | disconnected =>
    rw [hs] at h
    exact h.imp_left (hlost (by simp [hs]))
  | failed =>
    rw [hs] at h
    exact h.imp_left (hlost (by simp [hs]))
  | resyncing =>
    rw [hs] at h
    exact h

theorem Steady.withTransport (h : s.Steady settings) {transport : Transport}
    (hreliable : transport.Reliable) (hkeeps : s.transport.ledger.Keeps transport.ledger) :
    Steady settings { s with transport } :=
  ⟨h.toOwned.withTransport hreliable hkeeps, h.settings, h.rests⟩

theorem Steady.withLedger (h : s.Steady settings) {ledger : Ledger}
    (hkeeps : s.transport.ledger.Keeps ledger) :
    Steady settings { s with transport := { s.transport with ledger } } :=
  ⟨h.toOwned.withLedger hkeeps, h.settings, h.rests⟩

theorem Steady.withCommands (h : s.Steady settings) (commands : List Router.Command) :
    Steady settings { s with router := { s.router with commands } } :=
  ⟨h.toOwned.congr rfl rfl rfl rfl rfl, h.settings, h.rests⟩

/-- Losing the connection is remembered and leaves the first attempt to the timer. -/
theorem Owned.onDisconnect (h : s.Owned) (hstate : s.router.state = .connected)
    (hmax : 1 ≤ s.router.settings.maxReconnectAttempts) : s.onDisconnect.Owned ∧
      s.onDisconnect.Rests ∧ s.onDisconnect.router.settings = s.router.settings := by
  obtain ⟨howned, hlost⟩ := h.reset
  rw [Link.onDisconnect, if_pos hstate]
  exact ⟨howned.congr rfl rfl rfl rfl rfl, ⟨hlost, rfl, hmax⟩, rfl⟩

theorem Steady.onDisconnect (h : s.Steady settings) (hmax : 1 ≤ settings.maxReconnectAttempts) :
    s.onDisconnect.Steady settings := by
  by_cases hstate : s.router.state = .connected
  · obtain ⟨howned, hrests, hsettings⟩ :=
      h.toOwned.onDisconnect hstate (h.settings.symm ▸ hmax)
    exact ⟨howned, hsettings.trans h.settings, hrests⟩
  · rw [Link.onDisconnect, if_neg hstate]
    exact h

theorem Owned.reconnect (h : s.Owned) (hstreams : s.router.streams = {})
    (hslots : s.router.slots = none)
    (hattempts : s.router.attempts < s.router.settings.maxReconnectAttempts) :
    s.reconnect.Steady s.router.settings := by
  obtain ⟨howned, hsettings, hconnected | ⟨hlost, htried, houtcome⟩⟩ :=
    h.reconnect_outcome hstreams hslots
  · exact ⟨howned, hsettings, (rests_connected_iff hconnected.1).mpr hconnected.2⟩
  · refine ⟨howned, hsettings, ?_⟩
    rcases houtcome with ⟨hstate, htimer, hlast⟩ | ⟨hstate, htimer, hmore⟩
    · rw [Rests, hstate, hsettings, htried]
      exact ⟨hlost, htimer, Nat.le_antisymm hattempts hlast⟩
    · rw [Rests, hstate, hsettings, htried]
      exact ⟨hlost, htimer, hmore⟩

theorem Owned.resync (h : s.Owned) (hmax : 1 ≤ s.router.settings.maxReconnectAttempts) :
    s.resync.2.Steady s.router.settings := by
  obtain ⟨howned, hstreams, hslots, _⟩ := h.reset
  have hbegin : Owned { s.dropStreams.invalidate with
      router := { s.dropStreams.invalidate.router with attempts := 0 } } :=
    howned.congr rfl rfl rfl rfl rfl
  exact hbegin.reconnect hstreams hslots hmax

theorem Steady.ingest (h : s.Steady settings) (hstate : s.router.state = .connected)
    (ha : raw.address ∈ s.router.tracked) : (s.ingest raw).Steady settings :=
  ⟨h.toOwned.ingest ha, h.settings, h.rests.congr rfl rfl rfl rfl (fun _ hcomplete => hcomplete)
    fun hs => absurd hstate hs⟩

theorem Steady.track (h : s.Steady settings) (hmax : 1 ≤ settings.maxReconnectAttempts)
    (a : Address) : (s.track a).2.Steady settings := by
  by_cases hstate : s.router.state = .connected
  · obtain ⟨hcomplete, htimer, hattempts⟩ := (rests_connected_iff hstate).mp h.rests
    obtain ⟨s₁, s₂, rfl, _, howned, ⟨streams, tally, hrouter⟩, houtcome⟩ :=
      h.toOwned.track_outcome hstate hcomplete a
    have hstate₂ : s₂.router.state = .connected := by rw [hrouter, hstate]
    have hsettings : s₂.router.settings = settings := by rw [hrouter, h.settings]
    rcases houtcome with htrack | ⟨htrack, hheld⟩
    · obtain ⟨hlost, hrests, hsame⟩ := howned.onDisconnect hstate₂ (by rwa [hsettings])
      rw [htrack]
      exact ⟨hlost, hsame.trans hsettings, hrests⟩
    · rw [htrack]
      refine ⟨howned, hsettings, (rests_connected_iff hstate₂).mpr ⟨hheld, ?_, ?_⟩⟩
      · rw [hrouter, htimer]
      · rw [hrouter, hattempts]
  · rw [Link.track, if_neg hstate]
    exact ⟨h.toOwned.track a, h.settings,
      h.rests.congr rfl rfl rfl rfl (fun hs => absurd hs hstate) fun _ hlost => hlost⟩

theorem Steady.untrack (h : s.Steady settings) (a : Address) : (s.untrack a).Steady settings := by
  have howned := h.toOwned.untrack a
  rw [Link.untrack] at howned ⊢
  split at howned
  case isFalse htracked => rwa [if_neg htracked]
  case isTrue htracked =>
    rw [if_pos htracked]
    refine ⟨howned, h.settings, h.rests.congr rfl rfl rfl rfl (fun _ hcomplete b hb => ?_)
      fun _ hlost => ?_⟩
    · obtain ⟨hne, hb⟩ := h.nodup.mem_erase_iff.mp hb
      rw [Table.find?_erase, if_neg hne]
      exact hcomplete b hb
    obtain ⟨hstreams, hslots, hconfirmed, hstale⟩ := hlost
    refine ⟨?_, hslots, ?_, fun b entry hentry => ?_⟩
    · simp only [hstreams]
      rfl
    · rw [Registry.confirmedSlot_remove]
      exact hconfirmed
    · rw [Registry.find?_entries_remove] at hentry
      rw [Registry.epoch_remove]
      split at hentry
      · cases hentry
      · exact hstale b entry hentry

theorem Steady.command (h : s.Steady settings) (hmax : 1 ≤ settings.maxReconnectAttempts)
    (hs : s.commandStep? = some s') : s'.Steady settings := by
  rw [commandStep?] at hs
  split at hs
  · cases hs
  case h_2 command commands _ =>
    cases hs
    cases command with
    | track a => exact (h.withCommands commands).track hmax a
    | untrack a => exact (h.withCommands commands).untrack a

/-- A stream that is read is one of a connected router, and what is sent on it is of its own
address. -/
theorem Steady.account (h : s.Steady settings) (hmax : 1 ≤ settings.maxReconnectAttempts)
    (hs : (s.router.streams.find? a).bind s.accountStep? = some s') : s'.Steady settings := by
  obtain ⟨id, hid, hs⟩ := Option.bind_eq_some_iff.mp hs
  have hstate : s.router.state = .connected := by
    by_contra hstate
    rw [(h.rests.lost hstate).1] at hid
    cases hid
  simp only [accountStep?, Option.bind_eq_bind, Option.bind_eq_some_iff] at hs
  obtain ⟨⟨d, ledger⟩, hnext, hs⟩ := hs
  cases hs
  have hread := h.withLedger (Ledger.keeps_nextAccount hnext)
  cases d with
  | item raw => exact hread.ingest hstate (h.mem_tracked_of_next hnext)
  | failure error =>
    rw [onAccount]
    split
    · exact hread.onDisconnect hmax
    · exact hread
  | ended => exact hread.onDisconnect hmax

theorem Steady.slot (h : s.Steady settings) (hmax : 1 ≤ settings.maxReconnectAttempts)
    (hs : s.slotStep? = some s') : s'.Steady settings := by
  simp only [slotStep?, Option.bind_eq_bind, Option.bind_eq_some_iff] at hs
  obtain ⟨id, hid, ⟨d, ledger⟩, hnext, hs⟩ := hs
  cases hs
  have hstate : s.router.state = .connected := by
    by_contra hstate
    rw [(h.rests.lost hstate).2.1] at hid
    cases hid
  have hread := h.withLedger (Ledger.keeps_nextSlot hnext)
  cases d with
  | item slot =>
    exact ⟨hread.toOwned.confirmSlot slot _, h.settings, hread.rests.congr rfl rfl rfl rfl
      (fun _ hcomplete => hcomplete) fun hlost => absurd hstate hlost⟩
  | failure error =>
    rw [onSlot]
    split
    · exact hread.onDisconnect hmax
    · exact hread
  | ended => exact hread.onDisconnect hmax

theorem Steady.timer (h : s.Steady settings) (hs : s.timerStep? = some s') :
    s'.Steady settings := by
  simp only [timerStep?, Option.bind_eq_bind, Option.bind_eq_some_iff] at hs
  obtain ⟨time, htime, hs⟩ := hs
  split at hs
  case isFalse => cases hs
  case isTrue =>
    cases hs
    have hrests := h.rests
    rw [Rests] at hrests
    split at hrests
    · rw [hrests.2.1] at htime
      cases htime
    · obtain ⟨⟨hstreams, hslots, _⟩, _, hattempts⟩ := hrests
      exact h.settings ▸ h.toOwned.reconnect hstreams hslots hattempts
    · rw [hrests.2.1] at htime
      cases htime
    · cases hrests

/-- What one event preserves. -/
theorem Steady.after (h : s.Steady settings) (hmax : 1 ≤ settings.maxReconnectAttempts)
    {event : Event} (hs : s.after? event = some s') : s'.Steady settings := by
  cases event with
  | ledger change =>
    cases hs
    exact h.withLedger (s.transport.ledger.keeps_change change)
  | breach address breach =>
    cases hs
    exact h.withTransport (h.reliable.inject address _) (s.transport.keeps_inject address breach)
  | breachSlots breach =>
    cases hs
    exact h.withTransport (h.reliable.injectSlot _) (s.transport.keeps_injectSlot breach.delivery)
  | wait ms =>
    cases hs
    exact ⟨h.toOwned.congr rfl rfl rfl rfl rfl, h.settings, h.rests⟩
  | send command =>
    cases hs
    rw [Link.send]
    split
    · exact h.withCommands _
    · exact h
  | resync =>
    cases hs
    exact h.settings ▸ h.toOwned.resync (h.settings.symm ▸ hmax)
  | command => exact h.command hmax hs
  | account address => exact h.account hmax hs
  | slot => exact h.slot hmax hs
  | timer => exact h.timer hs

/-- A router that has given up does nothing more than remember what to track. -/
theorem Steady.failed_after (h : s.Steady settings) (hfailed : s.router.state = .failed)
    {event : Event} (hevent : event ≠ .resync) (hs : s.after? event = some s') :
    s'.router.state = .failed := by
  have hlost := h.rests.lost (by simp [hfailed])
  have htimer : s.router.reconnectAt = none := by
    have hrests := h.rests
    rw [Rests, hfailed] at hrests
    exact hrests.2.1
  cases event with
  | ledger change => cases hs; exact hfailed
  | breach address breach => cases hs; exact hfailed
  | breachSlots breach => cases hs; exact hfailed
  | wait ms => cases hs; exact hfailed
  | send command =>
    cases hs
    rw [Link.send]
    split <;> exact hfailed
  | resync => exact absurd rfl hevent
  | command =>
    simp only [after?, commandStep?] at hs
    split at hs
    · cases hs
    case h_2 command commands _ =>
      cases hs
      cases command with
      | track a => simp [perform, Link.track, hfailed]
      | untrack a =>
        simp only [perform, Link.untrack]
        split <;> exact hfailed
  | account address => simp [after?, hlost.1] at hs
  | slot => simp [after?, slotStep?, hlost.2.1] at hs
  | timer => simp [after?, timerStep?, htimer] at hs

/-- A ledger that nobody has subscribed to yet may have been changed in any way. -/
theorem owned_initial {heartbeats : Bool} {ledger : Ledger}
    (hkeeps : Ledger.Keeps { heartbeats } ledger) (settings : TransportSettings)
    (buffer now : Nat) : Owned {
      transport := { ledger }
      registry := .ofBuffer buffer
      router := { settings }
      now } := by
  have hfeed : ∀ id feed, ledger.accountFeeds.find? id ≠ some feed := by
    intro id feed hheld
    obtain ⟨_, hbefore, _⟩ := hkeeps.feeds id feed.1 feed.2 hheld
    cases hbefore
  have hslotFeed : ∀ id inbox, ledger.slotFeeds.find? id ≠ some inbox := by
    intro id inbox hheld
    obtain ⟨_, hbefore⟩ := hkeeps.slotFeeds id inbox hheld
    cases hbefore
  exact ⟨⟨fun _ => rfl, fun _ => rfl, rfl⟩,
    (Ledger.addressed_empty heartbeats).narrows hkeeps.toNarrows, hkeeps.nodup .nil,
    fun id feed hheld => absurd hheld (hfeed id feed),
    fun id a inbox hheld => absurd hheld (hfeed id (a, inbox)),
    fun id inbox hheld => absurd hheld (hslotFeed id inbox), nofun, .nil, .nil, nofun,
    fun _ => iff_of_false List.not_mem_nil nofun, .nil, by simp [Registry.ofBuffer]⟩

theorem Steady.start {heartbeats : Bool} {ledger : Ledger}
    (hkeeps : Ledger.Keeps { heartbeats } ledger) (hmax : 1 ≤ settings.maxReconnectAttempts)
    (buffer now : Nat) : (start { ledger } settings buffer now).Steady settings :=
  (owned_initial hkeeps settings buffer now).reconnect rfl rfl hmax

/-- Whatever happens between a ledger and its router is one of the events. -/
theorem Owned.exists_event (h : s.Owned) {written : List RawAccount}
    (hstep : s.Step written s') :
    ∃ event, (∀ command, event ≠ .send command) ∧ s.after? event = some s' := by
  cases hstep with
  | command hs => exact ⟨.command, nofun, hs⟩
  | account _ hid hs =>
    obtain ⟨a, hid⟩ := Table.exists_find?_of_mem_values h.proper hid
    exact ⟨.account a, nofun, by rw [after?, hid]; exact hs⟩
  | slot _ hs => exact ⟨.slot, nofun, hs⟩
  | timer _ _ hs => exact ⟨.timer, nofun, hs⟩
  | wait ms => exact ⟨.wait ms, nofun, rfl⟩
  | resync => exact ⟨.resync, nofun, rfl⟩
  | ledger op => exact ⟨.ledger (.op op), nofun, rfl⟩

def run? (s : Link) (events : List Event) : Option Link := events.foldlM after? s

/-- What a run preserves. -/
theorem Steady.run (h : s.Steady settings) (hmax : 1 ≤ settings.maxReconnectAttempts)
    {events : List Event} (hrun : s.run? events = some s') : s'.Steady settings :=
  foldlM_preserves (P := Steady settings) (fun h => h.after hmax) h hrun

/-- A stream of an address that the router reads and the ledger keeps for it. -/
def IsOpen (s : Link) (a : Address) : Prop :=
  ∃ id inbox, s.router.streams.find? a = some id ∧
    s.transport.ledger.accountFeeds.find? id = some (a, inbox)

/-- What the state of the connection says of all the rest. -/
structure Lawful (settings : TransportSettings) (s : Link) : Prop where
  connected : s.router.state = .connected →
    (∀ a, (a ∈ s.router.streams.keys ↔ a ∈ s.router.tracked) ∧
      (s.IsOpen a ↔ a ∈ s.router.tracked) ∧ (a ∈ s.registry.live ↔ a ∈ s.router.tracked)) ∧
    s.router.reconnectAt = none ∧ s.router.attempts = 0
  lost : s.router.state ≠ .connected →
    s.router.streams.keys = [] ∧ s.router.slots = none ∧
    s.transport.ledger.accountFeeds.keys = [] ∧ s.transport.ledger.slotFeeds.keys = [] ∧
    s.registry.live = [] ∧ s.registry.confirmedSlot = 0 ∧ ∀ a, s.registry.get? a = none
  disconnected : s.router.state = .disconnected →
    (∃ time, s.router.reconnectAt = some time) ∧
    s.router.attempts < settings.maxReconnectAttempts
  failed : s.router.state = .failed →
    s.router.reconnectAt = none ∧ s.router.attempts = settings.maxReconnectAttempts ∧
    ∀ event s', event ≠ .resync → s.after? event = some s' → s'.router.state = .failed
  settled : s.router.state ≠ .resyncing
  stored : ∀ a ∈ s.registry.entries.keys, a ∈ s.router.tracked
  subscribed : ∀ a, s.transport.ledger.subscriberCount a ≤ 1 ∧
    (a ∉ s.router.tracked → s.transport.ledger.subscriberCount a = 0)

theorem Steady.connected (h : s.Steady settings) (hstate : s.router.state = .connected)
    (a : Address) : (a ∈ s.router.streams.keys ↔ a ∈ s.router.tracked) ∧
      (s.IsOpen a ↔ a ∈ s.router.tracked) ∧ (a ∈ s.registry.live ↔ a ∈ s.router.tracked) := by
  have hstream : (s.router.streams.find? a).isSome ↔ a ∈ s.router.tracked := by
    refine ⟨fun hheld => ?_, ((rests_connected_iff hstate).mp h.rests).1 a⟩
    obtain ⟨id, hid⟩ := Option.isSome_iff_exists.mp hheld
    exact h.tracked a id hid
  have hopen : s.IsOpen a ↔ (s.router.streams.find? a).isSome := by
    refine ⟨fun ⟨id, _, hid, _⟩ => Option.isSome_iff_exists.mpr ⟨id, hid⟩, fun hheld => ?_⟩
    obtain ⟨id, hid⟩ := Option.isSome_iff_exists.mp hheld
    obtain ⟨inbox, hfeed⟩ := h.held a id hid
    exact ⟨id, inbox, hid, hfeed⟩
  exact ⟨Table.mem_keys_iff.trans hstream, hopen.trans hstream, (h.live a).trans hstream⟩

theorem Owned.lost (h : s.Owned) (hlost : s.Lost) :
    s.router.streams.keys = [] ∧ s.router.slots = none ∧
      s.transport.ledger.accountFeeds.keys = [] ∧ s.transport.ledger.slotFeeds.keys = [] ∧
      s.registry.live = [] ∧ s.registry.confirmedSlot = 0 ∧ ∀ a, s.registry.get? a = none := by
  obtain ⟨hstreams, hslots, hconfirmed, hstale⟩ := hlost
  refine ⟨by rw [hstreams]; rfl, hslots, ?_, ?_, ?_, hconfirmed, fun a => ?_⟩
  · refine Table.keys_eq_nil fun id feed hfeed => ?_
    have hid := h.owner id feed.1 feed.2 hfeed
    rw [hstreams] at hid
    cases hid
  · refine Table.keys_eq_nil fun id inbox hfeed => ?_
    have hid := h.slotOwner id inbox hfeed
    rw [hslots] at hid
    cases hid
  · refine List.eq_nil_iff_forall_not_mem.mpr fun a ha => ?_
    have hheld := (h.live a).mp ha
    rw [hstreams] at hheld
    cases hheld
  · rw [Registry.get?]
    cases hentry : s.registry.entries.find? a with
    | none => rfl
    | some entry => simp [Registry.isFresh, hstale a entry hentry]

/-- Two subscriptions of an address would be the one stream that the router has of it. -/
theorem Owned.subscribed (h : s.Owned) (a : Address) :
    s.transport.ledger.subscriberCount a ≤ 1 ∧
      (a ∉ s.router.tracked → s.transport.ledger.subscriberCount a = 0) := by
  rw [Ledger.subscriberCount]
  cases hid : s.router.streams.find? a with
  | some id =>
    refine ⟨Table.countP_values_le_one h.feeds id fun id' feed hfeed hcounted => ?_,
      fun ha => absurd (h.tracked a id hid) ha⟩
    have ha : feed.1 = a := by simpa using (Bool.and_eq_true_iff.mp hcounted).1
    have hid' := h.owner id' feed.1 feed.2 hfeed
    rw [ha, hid] at hid'
    exact (Option.some.inj hid').symm
  | none =>
    have hnone : s.transport.ledger.accountFeeds.values.countP
        (fun feed => feed.1 == a && feed.2.isFed) = 0 := by
      refine List.countP_eq_zero.mpr fun feed hfeed hcounted => ?_
      obtain ⟨id', hfeed⟩ := Table.exists_find?_of_mem_values h.feeds hfeed
      have ha : feed.1 = a := by simpa using (Bool.and_eq_true_iff.mp hcounted).1
      have hid' := h.owner id' feed.1 feed.2 hfeed
      rw [ha, hid] at hid'
      cases hid'
    exact ⟨hnone ▸ Nat.zero_le 1, fun _ => hnone⟩

theorem Steady.lawful (h : s.Steady settings) : s.Lawful settings where
  connected hstate := ⟨h.connected hstate, ((rests_connected_iff hstate).mp h.rests).2⟩
  lost hstate := h.toOwned.lost (h.rests.lost hstate)
  disconnected hstate := by
    have hrests := h.rests
    rw [Rests, hstate] at hrests
    exact ⟨Option.isSome_iff_exists.mp hrests.2.1, h.settings ▸ hrests.2.2⟩
  failed hstate := by
    have hrests := h.rests
    rw [Rests, hstate] at hrests
    exact ⟨hrests.2.1, h.settings ▸ hrests.2.2, fun _ _ hevent hs =>
      h.failed_after hstate hevent hs⟩
  settled hstate := by
    have hrests := h.rests
    rw [Rests, hstate] at hrests
    exact hrests
  stored a ha := by
    obtain ⟨entry, hentry⟩ := Option.isSome_iff_exists.mp (Table.mem_keys_iff.mp ha)
    exact (h.entries a entry hentry).1
  subscribed := h.toOwned.subscribed

/-- Every state that a router gets into on a ledger is lawful, whatever was done to the ledger
before and whatever happens then, in any order. -/
theorem run_lawful {heartbeats : Bool} {changes : List Ledger.Change} {buffer now : Nat}
    {events : List Event} (hmax : 1 ≤ settings.maxReconnectAttempts)
    (hrun : (start { ledger := changes.foldl Ledger.change { heartbeats } } settings buffer
      now).run? events = some s) : s.Lawful settings := by
  have hkeeps := Ledger.keeps_foldl_change changes { heartbeats }
  exact ((Steady.start hkeeps hmax buffer now).run hmax hrun).lawful

/-- An address is tracked, the ledger goes out of reach, and both attempts that are allowed fail. -/
def outage : List Event :=
  [.send (.track ⟨1⟩), .command, .ledger (.op (.setReachable false)), .ledger (.op .disconnect),
    .account ⟨1⟩, .wait 60000, .timer, .wait 60000, .timer]

theorem run_lawful_outage :
    let settings : TransportSettings := { maxReconnectAttempts := 2 }
    let ledger : Ledger := [.op (.setAccount ⟨1⟩ (.rootBank default))].foldl Ledger.change
      { heartbeats := true }
    1 ≤ settings.maxReconnectAttempts ∧ ∃ s, (start { ledger } settings 1 0).run? outage = some s ∧
      s.router.state = .failed ∧ s.router.tracked = [⟨1⟩] ∧ s.Lawful settings := by
  intro settings ledger
  have hran : ((start { ledger } settings 1 0).run? outage).any
      (fun s => s.router.state = .failed ∧ s.router.tracked = [⟨1⟩]) = true := by
    decide +kernel
  obtain ⟨s, hrun, hs⟩ := (Option.any_eq_true _ _).mp hran
  obtain ⟨hfailed, htracked⟩ := of_decide_eq_true hs
  exact ⟨by decide, s, hrun, hfailed, htracked, run_lawful (by decide) hrun⟩

end Solvency.Link
