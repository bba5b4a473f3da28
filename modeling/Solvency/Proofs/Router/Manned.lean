import Solvency.Proofs.Router.Connection

/-! A connected router has a stream for every address that it tracks, however many attempts it is
allowed. A subscription that the ledger no longer feeds still has the end to tell of. -/

namespace Solvency

namespace Ledger

/-- Whoever is not fed any more has the loss of the connection still to read. -/
def Warns (l : Ledger) : Prop :=
  ∀ id a inbox, l.accountFeeds.find? id = some (a, inbox) → inbox.isFed = false →
    .failure (.disconnected .dropped) ∈ inbox.queue

variable {l l' : Ledger}

theorem Warns.congr (h : l.Warns) (hfeeds : l'.accountFeeds = l.accountFeeds) : l'.Warns := by
  intro id a inbox hfeed
  rw [hfeeds] at hfeed
  exact h id a inbox hfeed

theorem Warns.change (h : l.Warns) (c : Change) : (l.change c).Warns := by
  cases c with
  | removeAccount address => exact h
  | op op =>
    intro id a inbox hfeed hcut
    change (l.perform op).accountFeeds.find? id = some (a, inbox) at hfeed
    rw [find?_accountFeeds_perform, Option.map_eq_some_iff] at hfeed
    obtain ⟨⟨b, before⟩, hbefore, heq⟩ := hfeed
    cases heq
    cases hfed : before.isFed with
    | false => exact l.subset_delivered op b before (h id b before hbefore hfed)
    | true => cases op <;> grind [delivered, Inbox.send, Inbox.cut, Inbox.push]

theorem Warns.subscribe (h : l.Warns) {a : Address} {id : Nat}
    (hs : l.subscribe a = .ok (id, l')) : l'.Warns := by
  rw [subscribe_eq] at hs
  split at hs
  case isFalse => cases hs
  case isTrue =>
    cases hs
    intro other b inbox hfeed hcut
    rw [Table.find?_insert] at hfeed
    split at hfeed
    · cases hfeed
      cases hcut
    · exact h other b inbox hfeed hcut

theorem Reaches.keeps {heartbeats : Bool} {writes : List RawAccount}
    (h : l.Reaches heartbeats writes) : Ledger.Keeps { heartbeats } l := by
  induction h with
  | start => exact .refl _
  | perform _ op ih => exact ih.trans (keeps_perform _ op)

theorem Warns.dropFeed (h : l.Warns) (id : Nat) : (l.dropFeed id).Warns := by
  intro other a inbox hfeed
  exact h other a inbox (Table.find?_erase_eq_some.mp hfeed).2

/-- Whatever is read first, the end is still to come unless that was it. -/
theorem Warns.nextAccount (h : l.Warns) {id : Nat} {d : Delivery RawAccount}
    (hnext : l.nextAccount? id = some (d, l')) (hd : d ≠ .failure (.disconnected .dropped)) :
    l'.Warns := by
  obtain ⟨b, inbox, queue, hfeed, hqueue, rfl⟩ := nextAccount?_eq_some_iff.mp hnext
  intro other a inbox' hother hcut
  rw [Table.find?_insert] at hother
  split at hother
  · cases hother
    have hlate := h id b inbox hfeed hcut
    rw [hqueue] at hlate
    exact (List.mem_cons.mp hlate).resolve_left (Ne.symm hd)
  · exact h other a inbox' hother hcut

theorem Warns.nextSlot (h : l.Warns) {id : Nat} {d : Delivery Slot}
    (hnext : l.nextSlot? id = some (d, l')) : l'.Warns := by
  simp only [nextSlot?, Option.bind_eq_bind, Option.bind_eq_some_iff] at hnext
  obtain ⟨inbox, _, hnext⟩ := hnext
  split at hnext
  · cases hnext
  · cases hnext
    exact h

end Ledger

namespace Transport

theorem warns_inject {t : Transport} (h : t.ledger.Warns) (a : Address)
    (d : Delivery RawAccount) : (t.inject a d).2.ledger.Warns := by
  rw [inject]
  split
  · exact h
  case h_2 id _ =>
    intro other b inbox hfeed hcut
    simp only [Table.find?_modify] at hfeed
    split at hfeed
    · obtain ⟨⟨c, before⟩, hbefore, heq⟩ := Option.map_eq_some_iff.mp hfeed
      cases heq
      exact List.mem_append_left _ (h _ c before hbefore hcut)
    · exact h other b inbox hfeed hcut

theorem warns_injectSlot {t : Transport} (h : t.ledger.Warns) (d : Delivery Slot) :
    (t.injectSlot d).2.ledger.Warns := by
  rw [injectSlot]
  split
  · exact h
  · exact h.congr rfl

end Transport

namespace Link

structure Manned (s : Link) : Prop extends s.Owned where
  warned : s.transport.ledger.Warns
  complete : s.router.state = .connected → s.Complete
  idle : s.router.state ≠ .connected → s.router.streams = {} ∧ s.router.slots = none
  timer : s.router.state = .connected → s.router.reconnectAt = none

variable {s s' : Link} {a : Address} {raw : RawAccount}

/-- Without streams there are no subscriptions. -/
theorem Owned.warns (h : s.Owned) (hstreams : s.router.streams = {}) :
    s.transport.ledger.Warns := by
  intro id a inbox hfeed
  have hid := h.owner id a inbox hfeed
  rw [hstreams] at hid
  cases hid

theorem Owned.unmanned (h : s.Owned) (hstreams : s.router.streams = {})
    (hslots : s.router.slots = none) (hstate : s.router.state ≠ .connected) : s.Manned where
  toOwned := h
  warned := h.warns hstreams
  complete hs := absurd hs hstate
  idle _ := ⟨hstreams, hslots⟩
  timer hs := absurd hs hstate

theorem Owned.manned_onDisconnect (h : s.Owned) (hstate : s.router.state = .connected) :
    s.onDisconnect.Manned := by
  obtain ⟨howned, hstreams, hslots, _⟩ := h.reset
  have hlost : s.onDisconnect.Owned := by
    rw [Link.onDisconnect, if_pos hstate]
    exact howned.congr rfl rfl rfl rfl rfl
  apply hlost.unmanned
  · rw [Link.onDisconnect, if_pos hstate]
    exact hstreams
  · rw [Link.onDisconnect, if_pos hstate]
    exact hslots
  · rw [Link.onDisconnect, if_pos hstate]
    intro hs
    cases hs

theorem transport_fetch (s : Link) (a : Address) : (s.fetch a).2.transport = s.transport := by
  rw [fetch]
  split <;> rfl

theorem warns_openStream (h : s.transport.ledger.Warns) (a : Address) :
    (s.openStream a).2.transport.ledger.Warns := by
  rw [openStream]
  split
  · exact h
  case h_2 id transport hsubscribe =>
    rw [transport_fetch]
    rw [Transport.subscribe] at hsubscribe
    split at hsubscribe
    · cases hsubscribe
    · obtain ⟨⟨id, ledger⟩, hledger, hs⟩ := bind_eq_ok_iff.mp hsubscribe
      cases hs
      exact h.subscribe hledger

theorem warns_openAll (h : s.transport.ledger.Warns) (addresses : List Address) :
    (s.openAll addresses).2.transport.ledger.Warns := by
  induction addresses generalizing s with
  | nil => exact h
  | cons a rest ih =>
    have hopen := warns_openStream h a
    rw [openAll]
    split
    case h_1 s' heq =>
      rw [heq] at hopen
      exact ih hopen
    case h_2 s' heq =>
      rw [heq] at hopen
      exact ih hopen
    case h_3 s' heq =>
      rw [heq] at hopen
      exact hopen

theorem warns_connect (h : s.transport.ledger.Warns) : s.connect.2.transport.ledger.Warns := by
  rw [connect]
  split
  · exact h
  case h_2 slots transport hs =>
    obtain ⟨_, _, _, rfl, _⟩ := Transport.subscribeSlots_cases hs
    apply warns_openAll
    exact h.congr rfl

/-- An attempt that succeeds leaves what was subscribed to on the way. -/
theorem warns_reconnect (h : s.transport.ledger.Warns)
    (hstate : s.reconnect.router.state = .connected) :
    s.reconnect.transport.ledger.Warns := by
  have hwarned : (connect ({ s with router := { s.router with
      reconnectAt := none, attempts := s.router.attempts + 1 } }.announce
        .resyncing)).2.transport.ledger.Warns := warns_connect h
  rw [Link.reconnect] at hstate ⊢
  split
  case h_1 s' hconnect =>
    rw [hconnect] at hwarned
    exact hwarned
  case h_2 s' hconnect =>
    simp only [hconnect] at hstate
    split at hstate <;> cases hstate

theorem Owned.manned_reconnect (h : s.Owned) (hstreams : s.router.streams = {})
    (hslots : s.router.slots = none) : s.reconnect.Manned := by
  obtain ⟨howned, _, hconnected | ⟨hlost, _, houtcome⟩⟩ := h.reconnect_outcome hstreams hslots
  · obtain ⟨hstate, hcomplete, htimer, _⟩ := hconnected
    exact ⟨howned, warns_reconnect (h.warns hstreams) hstate, fun _ => hcomplete,
      fun hs => absurd hstate hs, fun _ => htimer⟩
  · apply howned.unmanned hlost.1 hlost.2.1
    rcases houtcome with ⟨hstate, _⟩ | ⟨hstate, _⟩
    · rw [hstate]
      nofun
    · rw [hstate]
      nofun

theorem Owned.manned_resync (h : s.Owned) : s.resync.2.Manned := by
  obtain ⟨howned, hstreams, hslots, _⟩ := h.reset
  have hbegin : Owned { s.dropStreams.invalidate with
      router := { s.dropStreams.invalidate.router with attempts := 0 } } :=
    howned.congr rfl rfl rfl rfl rfl
  exact hbegin.manned_reconnect hstreams hslots

theorem Manned.congr (h : s.Manned) (hregistry : s'.Owned) (htransport : s'.transport = s.transport)
    (hstate : s'.router.state = s.router.state) (hstreams : s'.router.streams = s.router.streams)
    (hslots : s'.router.slots = s.router.slots) (htracked : s'.router.tracked = s.router.tracked)
    (htimer : s'.router.reconnectAt = s.router.reconnectAt) : s'.Manned where
  toOwned := hregistry
  warned := htransport ▸ h.warned
  complete hs := by
    rw [Complete, htracked, hstreams]
    exact h.complete (hstate ▸ hs)
  idle hs := by
    rw [hstreams, hslots]
    exact h.idle (hstate ▸ hs)
  timer hs := by
    rw [htimer]
    exact h.timer (hstate ▸ hs)

theorem Manned.withCommands (h : s.Manned) (commands : List Router.Command) :
    Manned { s with router := { s.router with commands } } :=
  h.congr (h.toOwned.congr rfl rfl rfl rfl rfl) rfl rfl rfl rfl rfl rfl

theorem Manned.withTransport (h : s.Manned) {transport : Transport}
    (hreliable : transport.Reliable) (hkeeps : s.transport.ledger.Keeps transport.ledger)
    (hwarned : transport.ledger.Warns) : Manned { s with transport } :=
  ⟨h.toOwned.withTransport hreliable hkeeps, hwarned, h.complete, h.idle, h.timer⟩

theorem Manned.track (h : s.Manned) (a : Address) : (s.track a).2.Manned := by
  by_cases hstate : s.router.state = .connected
  · obtain ⟨s₁, s₂, hs₁, hfound, howned, ⟨streams, tally, hrouter⟩, houtcome⟩ :=
      h.toOwned.track_outcome hstate (h.complete hstate) a
    have hwarned₁ : s₁.transport.ledger.Warns := by
      rw [hs₁]
      exact h.warned
    have hwarned : s₂.transport.ledger.Warns := by
      rcases hfound with rfl | rfl | rfl
      · exact hwarned₁
      · rw [transport_fetch]
        exact hwarned₁
      · exact warns_openStream hwarned₁ a
    have hstate₂ : s₂.router.state = .connected := by rw [hrouter, hs₁, hstate]
    have htimer₂ : s₂.router.reconnectAt = none := by rw [hrouter, hs₁, h.timer hstate]
    rcases houtcome with htrack | ⟨htrack, hheld⟩
    · rw [htrack]
      exact howned.manned_onDisconnect hstate₂
    · rw [htrack]
      exact ⟨howned, hwarned, fun _ => hheld, fun hs => absurd hstate₂ hs, fun _ => htimer₂⟩
  · obtain ⟨hstreams, hslots⟩ := h.idle hstate
    rw [Link.track, if_neg hstate]
    exact (h.toOwned.track a).unmanned hstreams hslots hstate

theorem Manned.untrack (h : s.Manned) (a : Address) : (s.untrack a).Manned := by
  have howned := h.toOwned.untrack a
  by_cases ha : s.router.tracked.contains a = true
  · rw [Link.untrack, if_pos ha] at howned ⊢
    refine ⟨howned, ?_, fun hs b hb => ?_, fun hs => ?_, h.timer⟩
    · cases s.router.streams.find? a with
      | none => exact h.warned
      | some id => exact h.warned.dropFeed id
    · obtain ⟨hne, hb⟩ := h.nodup.mem_erase_iff.mp hb
      rw [Table.find?_erase, if_neg hne]
      exact h.complete hs b hb
    · obtain ⟨hstreams, hslots⟩ := h.idle hs
      refine ⟨?_, hslots⟩
      simp only [hstreams]
      rfl
  · rw [Link.untrack, if_neg ha]
    exact h

theorem Manned.command (h : s.Manned) (hs : s.commandStep? = some s') : s'.Manned := by
  rw [commandStep?] at hs
  split at hs
  · cases hs
  case h_2 command commands _ =>
    cases hs
    cases command with
    | track a => exact (h.withCommands commands).track a
    | untrack a => exact (h.withCommands commands).untrack a

/-- What is read first was the first unread, and the end is acted upon when it is read. -/
theorem Manned.account (h : s.Manned)
    (hs : (s.router.streams.find? a).bind s.accountStep? = some s') : s'.Manned := by
  obtain ⟨id, hid, hs⟩ := Option.bind_eq_some_iff.mp hs
  have hstate : s.router.state = .connected := by
    by_contra hstate
    rw [(h.idle hstate).1] at hid
    cases hid
  simp only [accountStep?, Option.bind_eq_bind, Option.bind_eq_some_iff] at hs
  obtain ⟨⟨d, ledger⟩, hnext, hs⟩ := hs
  cases hs
  have howned := h.toOwned.withLedger (Ledger.keeps_nextAccount hnext)
  have hread : d ≠ .failure (.disconnected .dropped) →
      Manned { s with transport := { s.transport with ledger } } := fun hd =>
    ⟨howned, h.warned.nextAccount hnext hd, h.complete, h.idle, h.timer⟩
  cases d with
  | item raw =>
    have ha : raw.address ∈ s.router.tracked := h.mem_tracked_of_next hnext
    have hmanned := hread (by intro heq; cases heq)
    exact hmanned.congr (howned.ingest ha) rfl rfl rfl rfl rfl rfl
  | failure error =>
    rw [onAccount]
    by_cases hlost : error.isDisconnect = true
    · rw [if_pos hlost]
      exact howned.manned_onDisconnect hstate
    · rw [if_neg hlost]
      apply hread
      intro heq
      cases heq
      exact hlost rfl
  | ended => exact howned.manned_onDisconnect hstate

theorem Manned.slot (h : s.Manned) (hs : s.slotStep? = some s') : s'.Manned := by
  simp only [slotStep?, Option.bind_eq_bind, Option.bind_eq_some_iff] at hs
  obtain ⟨id, hid, ⟨d, ledger⟩, hnext, hs⟩ := hs
  cases hs
  have hstate : s.router.state = .connected := by
    by_contra hstate
    rw [(h.idle hstate).2] at hid
    cases hid
  have hread : Manned { s with transport := { s.transport with ledger } } :=
    h.withTransport (h.reliable.withLedger ledger) (Ledger.keeps_nextSlot hnext)
      (h.warned.nextSlot hnext)
  cases d with
  | item slot => exact hread.congr (hread.toOwned.confirmSlot slot _) rfl rfl rfl rfl rfl rfl
  | failure error =>
    rw [onSlot]
    split
    · exact hread.toOwned.manned_onDisconnect hstate
    · exact hread
  | ended => exact hread.toOwned.manned_onDisconnect hstate

theorem Manned.timerStep (h : s.Manned) (hs : s.timerStep? = some s') : s'.Manned := by
  simp only [timerStep?, Option.bind_eq_bind, Option.bind_eq_some_iff] at hs
  obtain ⟨time, htime, hs⟩ := hs
  have hstate : s.router.state ≠ .connected := by
    intro hstate
    rw [h.timer hstate] at htime
    cases htime
  obtain ⟨hstreams, hslots⟩ := h.idle hstate
  split at hs
  case isFalse => cases hs
  case isTrue =>
    cases hs
    exact h.toOwned.manned_reconnect hstreams hslots

/-- What one event preserves. -/
theorem Manned.after (h : s.Manned) {event : Event} (hs : s.after? event = some s') :
    s'.Manned := by
  cases event with
  | ledger change =>
    cases hs
    exact h.withTransport (h.reliable.withLedger _) (s.transport.ledger.keeps_change change)
      (h.warned.change change)
  | breach address breach =>
    cases hs
    exact h.withTransport (h.reliable.inject address _) (s.transport.keeps_inject address breach)
      (Transport.warns_inject h.warned address _)
  | breachSlots breach =>
    cases hs
    exact h.withTransport (h.reliable.injectSlot _) (s.transport.keeps_injectSlot breach.delivery)
      (Transport.warns_injectSlot h.warned _)
  | wait ms =>
    cases hs
    exact h.congr (h.toOwned.congr rfl rfl rfl rfl rfl) rfl rfl rfl rfl rfl rfl
  | send command =>
    cases hs
    rw [Link.send]
    split
    · exact h.withCommands _
    · exact h
  | resync =>
    cases hs
    exact h.toOwned.manned_resync
  | command => exact h.command hs
  | account address => exact h.account hs
  | slot => exact h.slot hs
  | timer => exact h.timerStep hs

theorem Manned.start {heartbeats : Bool} {ledger : Ledger}
    (hkeeps : Ledger.Keeps { heartbeats } ledger) (settings : TransportSettings)
    (buffer now : Nat) : (start { ledger } settings buffer now).Manned :=
  (owned_initial hkeeps settings buffer now).manned_reconnect rfl rfl

theorem Manned.send (h : s.Manned) (command : Router.Command) : (s.send command).2.Manned := by
  have hsend : s.after? (.send command) = some (s.send command).2 := rfl
  exact h.after hsend

/-- What a run preserves. -/
theorem Manned.of_reaches {writes : List RawAccount} (h : s.Reaches writes) : s.Manned := by
  induction h with
  | start h settings buffer now => exact Manned.start h.keeps settings buffer now
  | step _ hstep ih =>
    obtain ⟨event, _, hevent⟩ := ih.toOwned.exists_event hstep
    exact ih.after hevent
  | send _ command ih => exact ih.send command

/-- A stream that has been read to its end is still fed, or its end would be unread. -/
theorem Manned.isFed (h : s.Manned) (hdrained : s.Drained) {id : Nat} {inbox : Inbox RawAccount}
    (hfeed : s.transport.ledger.accountFeeds.find? id = some (a, inbox)) : inbox.isFed = true := by
  by_contra hcut
  have hlate := h.warned id a inbox hfeed (Bool.eq_false_iff.mpr hcut)
  rw [hdrained.queue (h.owner id a inbox hfeed) hfeed] at hlate
  cases hlate

/-- What is tracked is subscribed to, and nothing else is. -/
theorem Manned.subscribed_iff (h : s.Manned) (hstate : s.router.state = .connected)
    (hdrained : s.Drained) :
    0 < s.transport.ledger.subscriberCount a ↔ a ∈ s.router.tracked := by
  constructor
  · intro hopen
    by_contra ha
    have hnone := (h.subscribed a).2 ha
    omega
  · intro ha
    obtain ⟨id, hid⟩ := Option.isSome_iff_exists.mp (h.complete hstate a ha)
    obtain ⟨inbox, hfeed⟩ := h.held a id hid
    have hfed : inbox.isFed = true := h.isFed hdrained hfeed
    apply List.countP_pos_iff.mpr
    exact ⟨(a, inbox), Table.mem_values_of_find? hfeed, by simp [hfed]⟩

theorem Owned.totalSubscribers_eq_zero (h : s.Owned) (htracked : s.router.tracked = []) :
    s.transport.ledger.totalSubscribers = 0 := by
  apply List.countP_eq_zero.mpr
  intro feed hfeed
  obtain ⟨id, hid⟩ := Table.exists_find?_of_mem_values h.feeds hfeed
  have ha := h.tracked feed.1 id (h.owner id feed.1 feed.2 hid)
  rw [htracked] at ha
  cases ha

end Link

end Solvency
