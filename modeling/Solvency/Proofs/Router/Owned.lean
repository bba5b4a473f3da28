import Solvency.Proofs.Ledger.Feeds
import Solvency.Proofs.Router.Settled

/-! Every subscription at the ledger belongs to a stream of the router, and every stream to an
address it tracks. This holds in the middle of a step too, however the step goes on. -/

namespace Solvency

theorem Registry.Entry.epoch_absorb_le {stored : Option Entry} {epoch : Nat} {e : Entity} {s : Slot}
    (h : ∀ entry, stored = some entry → entry.epoch ≤ epoch) :
    (absorb stored epoch e s).epoch ≤ epoch := by
  cases stored with
  | none => exact Nat.le_refl _
  | some entry => grind [absorb]

theorem Registry.ingest_cases (r : Registry) (raw : RawAccount) :
    (r.ingest raw).2 = r ∨ ∃ e, (r.ingest raw).2 = (r.put raw.address e raw.slot).2 := by
  rw [Registry.ingest]
  split
  · exact .inl rfl
  case h_2 e _ => exact .inr ⟨e, rfl⟩

namespace Link

structure Owned (s : Link) : Prop where
  reliable : s.transport.Reliable
  addressed : s.transport.ledger.Addressed
  feeds : s.transport.ledger.accountFeeds.keys.Nodup
  id_lt : ∀ id feed, s.transport.ledger.accountFeeds.find? id = some feed →
    id < s.transport.ledger.nextFeed
  owner : ∀ id a inbox, s.transport.ledger.accountFeeds.find? id = some (a, inbox) →
    s.router.streams.find? a = some id
  slotOwner : ∀ id inbox, s.transport.ledger.slotFeeds.find? id = some inbox →
    s.router.slots = some id
  held : ∀ a id, s.router.streams.find? a = some id →
    ∃ inbox, s.transport.ledger.accountFeeds.find? id = some (a, inbox)
  proper : s.router.streams.keys.Nodup
  nodup : s.router.tracked.Nodup
  tracked : ∀ a id, s.router.streams.find? a = some id → a ∈ s.router.tracked
  live : ∀ a, a ∈ s.registry.live ↔ (s.router.streams.find? a).isSome
  live_nodup : s.registry.live.Nodup
  entries : ∀ a entry, s.registry.entries.find? a = some entry →
    a ∈ s.router.tracked ∧ entry.epoch ≤ s.registry.epoch

/-- Nothing is open and nothing that was observed counts any more. -/
def Lost (s : Link) : Prop :=
  s.router.streams = {} ∧ s.router.slots = none ∧ s.registry.confirmedSlot = 0 ∧
    ∀ a entry, s.registry.entries.find? a = some entry → entry.epoch ≠ s.registry.epoch

def Complete (s : Link) : Prop := ∀ a ∈ s.router.tracked, (s.router.streams.find? a).isSome

variable {s s' : Link} {a : Address} {raw : RawAccount}

theorem Owned.withTransport (h : s.Owned) {transport : Transport}
    (hreliable : transport.Reliable) (hkeeps : s.transport.ledger.Keeps transport.ledger) :
    Owned { s with transport } where
  reliable := hreliable
  addressed := h.addressed.narrows hkeeps.toNarrows
  feeds := hkeeps.nodup h.feeds
  id_lt id feed hfeed := by
    obtain ⟨before, hbefore, _⟩ := hkeeps.feeds id feed.1 feed.2 hfeed
    exact Nat.lt_of_lt_of_le (h.id_lt id _ hbefore) hkeeps.nextFeed
  owner id a inbox hfeed := by
    obtain ⟨before, hbefore, _⟩ := hkeeps.feeds id a inbox hfeed
    exact h.owner id a before hbefore
  slotOwner id inbox hfeed := by
    obtain ⟨before, hbefore⟩ := hkeeps.slotFeeds id inbox hfeed
    exact h.slotOwner id before hbefore
  held a id hid := by
    obtain ⟨inbox, hfeed⟩ := h.held a id hid
    exact hkeeps.held id a inbox hfeed
  proper := h.proper
  nodup := h.nodup
  tracked := h.tracked
  live := h.live
  live_nodup := h.live_nodup
  entries := h.entries

theorem Owned.withLedger (h : s.Owned) {ledger : Ledger}
    (hkeeps : s.transport.ledger.Keeps ledger) :
    Owned { s with transport := { s.transport with ledger } } :=
  h.withTransport (h.reliable.withLedger ledger) hkeeps

theorem Owned.congr (h : s.Owned) (htransport : s'.transport = s.transport)
    (hregistry : s'.registry = s.registry) (hstreams : s'.router.streams = s.router.streams)
    (hslots : s'.router.slots = s.router.slots) (htracked : s'.router.tracked = s.router.tracked) :
    s'.Owned := by
  obtain ⟨hreliable, haddressed, hfeeds, hid, howner, hslotOwner, hheld, hproper, hnodup, htracked',
    hlive, hlive', hentries⟩ := h
  constructor <;> simp only [htransport, hregistry, hstreams, hslots, htracked] <;> assumption

/-- What is read from a subscription is of its own address, and the router tracks that. -/
theorem Owned.mem_tracked_of_next (h : s.Owned) {id : Nat} {ledger : Ledger}
    (hnext : s.transport.ledger.nextAccount? id = some (.item raw, ledger)) :
    raw.address ∈ s.router.tracked := by
  obtain ⟨b, inbox, queue, hfeed, hqueue, _⟩ := Ledger.nextAccount?_eq_some_iff.mp hnext
  have hraw : raw.address = b := h.addressed.items id b inbox hfeed raw (by simp [hqueue])
  rw [hraw]
  exact h.tracked b id (h.owner id b inbox hfeed)

theorem Owned.track (h : s.Owned) (a : Address) :
    Owned { s with router := { s.router with tracked := s.router.tracked.insert a } } where
  reliable := h.reliable
  addressed := h.addressed
  feeds := h.feeds
  id_lt := h.id_lt
  owner := h.owner
  slotOwner := h.slotOwner
  held := h.held
  proper := h.proper
  nodup := h.nodup.insert
  tracked b id hid := List.mem_insert_of_mem (h.tracked b id hid)
  live := h.live
  live_nodup := h.live_nodup
  entries b entry hentry := (h.entries b entry hentry).imp_left List.mem_insert_of_mem

theorem ingest_eq (s : Link) (raw : RawAccount) :
    s.ingest raw = { s with
      registry := (s.registry.ingest raw).2
      router := { s.router with tally := s.router.tally.count (s.registry.ingest raw).1 } } := rfl

theorem Owned.ingest (h : s.Owned) (ha : raw.address ∈ s.router.tracked) :
    (s.ingest raw).Owned := by
  rw [ingest_eq]
  rcases s.registry.ingest_cases raw with hsame | ⟨e, hput⟩
  · rw [hsame]
    exact h.congr rfl rfl rfl rfl rfl
  · rw [hput]
    refine ⟨h.reliable, h.addressed, h.feeds, h.id_lt, h.owner, h.slotOwner, h.held, h.proper,
      h.nodup, h.tracked, by simpa using h.live, by simpa using h.live_nodup,
      fun b entry hentry => ?_⟩
    rw [Registry.find?_entries_put] at hentry
    rw [Registry.epoch_put]
    split at hentry
    case isTrue hb =>
      cases hentry
      exact ⟨hb ▸ ha, Registry.Entry.epoch_absorb_le fun entry hentry => (h.entries _ _ hentry).2⟩
    case isFalse => exact h.entries b entry hentry

theorem Owned.opened (h : s.Owned) (ha : a ∈ s.router.tracked)
    (hnew : s.router.streams.find? a = none) : (s.opened a).Owned where
  reliable := ⟨h.reliable.get, h.reliable.subscribe, h.reliable.slots⟩
  addressed := by
    refine ⟨h.addressed.accounts, fun id b inbox hfeed raw hraw => ?_⟩
    simp only [Link.opened, Table.find?_insert] at hfeed
    split at hfeed
    · cases hfeed
      cases hraw
    · exact h.addressed.items id b inbox hfeed raw hraw
  feeds := Table.nodup_keys_insert h.feeds _ _
  id_lt id feed hfeed := by
    simp only [Link.opened, Table.find?_insert] at hfeed ⊢
    split at hfeed
    case isTrue hid => exact hid ▸ Nat.lt_succ_self _
    case isFalse => exact Nat.lt_succ_of_lt (h.id_lt id feed hfeed)
  owner id b inbox hfeed := by
    simp only [Link.opened, Table.find?_insert] at hfeed ⊢
    split at hfeed
    case isTrue hid =>
      cases hfeed
      rw [if_pos rfl, hid]
    case isFalse =>
      have hheld := h.owner id b inbox hfeed
      have hne : b ≠ a := by
        rintro rfl
        rw [hnew] at hheld
        cases hheld
      rw [if_neg hne, hheld]
  slotOwner := h.slotOwner
  held b id hid := by
    simp only [Link.opened, Table.find?_insert] at hid ⊢
    split at hid
    case isTrue hb =>
      cases hid
      exact ⟨{}, by rw [if_pos rfl, hb]⟩
    case isFalse =>
      obtain ⟨inbox, hfeed⟩ := h.held b id hid
      exact ⟨inbox, by rw [if_neg (Nat.ne_of_lt (h.id_lt id _ hfeed)), hfeed]⟩
  proper := Table.nodup_keys_insert h.proper _ _
  nodup := h.nodup
  tracked b id hid := by
    simp only [Link.opened, Table.find?_insert] at hid
    split at hid
    case isTrue hb => exact hb ▸ ha
    case isFalse => exact h.tracked b id hid
  live b := by
    have hlive := h.live b
    by_cases hb : b = a <;> simp [Link.opened, Registry.setLive, Table.find?_insert, hb, hlive]
  live_nodup := h.live_nodup.insert
  entries := h.entries

theorem fetch_cases (h : s.Owned) (a : Address) :
    (s.fetch a).2 = s ∨ ∃ raw, raw.address = a ∧ (s.fetch a).2 = s.ingest raw := by
  rw [fetch_eq h.reliable]
  split
  · split
    case h_1 raw hraw => exact .inr ⟨raw, h.addressed.accounts a raw hraw, rfl⟩
    case h_2 => exact .inl rfl
  · exact .inl rfl

theorem Owned.fetch (h : s.Owned) (ha : a ∈ s.router.tracked) :
    (s.fetch a).2.Owned ∧ (s.fetch a).2.router.streams = s.router.streams := by
  rcases fetch_cases h a with heq | ⟨raw, rfl, heq⟩
  · rw [heq]
    exact ⟨h, rfl⟩
  · rw [heq]
    exact ⟨h.ingest ha, rfl⟩

/-- A stream is opened unless the ledger cannot be reached; whether there is something to fetch
makes no difference to it. -/
theorem Owned.openStream (h : s.Owned) (ha : a ∈ s.router.tracked)
    (hnew : s.router.streams.find? a = none) : (s.openStream a).2.Owned ∧
      ((∃ error, (s.openStream a).1 = .error error ∧ error.isDisconnect = true) ∨
        ∃ id, (s.openStream a).2.router.streams = s.router.streams.insert a id) := by
  rw [openStream_eq h.reliable]
  split
  case isFalse => exact ⟨h, .inl ⟨_, rfl, rfl⟩⟩
  case isTrue =>
    have hopened := h.opened ha hnew
    split
    case h_1 raw hraw =>
      obtain rfl := h.addressed.accounts a raw hraw
      exact ⟨hopened.ingest ha, .inr ⟨_, rfl⟩⟩
    case h_2 => exact ⟨hopened, .inr ⟨_, rfl⟩⟩

theorem router_openAll (s : Link) (addresses : List Address) :
    ∃ streams tally, (s.openAll addresses).2.router = { s.router with streams, tally } := by
  induction addresses generalizing s with
  | nil => exact ⟨_, _, rfl⟩
  | cons a rest ih =>
    obtain ⟨streams, tally, hrouter⟩ := s.router_openStream a
    have hrest : ∀ s', (s.openStream a).2 = s' →
        ∃ streams tally, (s'.openAll rest).2.router = { s.router with streams, tally } := by
      rintro s' rfl
      obtain ⟨streams', tally', hrouter'⟩ := ih (s.openStream a).2
      exact ⟨streams', tally', by rw [hrouter', hrouter]⟩
    rw [Link.openAll]
    split
    case h_1 s' hopen => exact hrest s' (by rw [hopen])
    case h_2 s' hopen => exact hrest s' (by rw [hopen])
    case h_3 s' hopen =>
      rw [hopen] at hrouter
      exact ⟨streams, tally, hrouter⟩

/-- Once all are opened, each has a stream. Only a ledger out of reach ends this early. -/
theorem Owned.openAll (h : s.Owned) {addresses : List Address} (hnodup : addresses.Nodup)
    (htracked : ∀ a ∈ addresses, a ∈ s.router.tracked)
    (hnew : ∀ a ∈ addresses, s.router.streams.find? a = none) :
    (s.openAll addresses).2.Owned ∧ ((s.openAll addresses).1 = .ok () →
      ∀ a, a ∈ addresses ∨ (s.router.streams.find? a).isSome →
        ((s.openAll addresses).2.router.streams.find? a).isSome) := by
  induction addresses generalizing s with
  | nil => exact ⟨h, fun _ a ha => ha.resolve_left List.not_mem_nil⟩
  | cons a rest ih =>
    obtain ⟨hfirst, hrest⟩ := List.nodup_cons.mp hnodup
    obtain ⟨howned, hopened⟩ :=
      h.openStream (htracked a List.mem_cons_self) (hnew a List.mem_cons_self)
    obtain ⟨streams, tally, hrouter⟩ := s.router_openStream a
    have hgo : ∀ s', (s.openStream a).2 = s' →
        (∃ id, s'.router.streams = s.router.streams.insert a id) →
        (s'.openAll rest).2.Owned ∧ ((s'.openAll rest).1 = .ok () →
          ∀ b, b ∈ a :: rest ∨ (s.router.streams.find? b).isSome →
            ((s'.openAll rest).2.router.streams.find? b).isSome) := by
      rintro s' rfl ⟨id, hstreams⟩
      have hrest' := ih howned hrest
        (fun b hb => by rw [hrouter]; exact htracked b (List.mem_cons_of_mem _ hb))
        (fun b hb => by
          have hne : b ≠ a := fun hba => hfirst (hba ▸ hb)
          rw [hstreams, Table.find?_insert, if_neg hne]
          exact hnew b (List.mem_cons_of_mem _ hb))
      refine ⟨hrest'.1, fun hok b hb => hrest'.2 hok b ?_⟩
      rw [hstreams, Table.find?_insert]
      by_cases hba : b = a
      · simp [hba]
      · simpa [hba] using hb
    rw [Link.openAll]
    split
    case h_1 s' hopen =>
      refine hgo s' (by rw [hopen]) ?_
      simpa [hopen] using hopened
    case h_2 s' hopen =>
      refine hgo s' (by rw [hopen]) ?_
      simpa [hopen, Failure.isDisconnect] using hopened
    case h_3 s' hopen =>
      rw [hopen] at howned
      exact ⟨howned, fun hok => by cases hok⟩

theorem Owned.subscribeSlots (h : s.Owned) (hslots : s.router.slots = none) {slots : Option Nat}
    {transport : Transport} (hs : s.transport.subscribeSlots = .ok (slots, transport)) :
    Owned { s with transport, router := { s.router with slots } } := by
  have hnone : ∀ id inbox, s.transport.ledger.slotFeeds.find? id ≠ some inbox := by
    intro id inbox hfeed
    have hheld := h.slotOwner id inbox hfeed
    rw [hslots] at hheld
    cases hheld
  obtain ⟨_, _, _, rfl, hle, hcases⟩ := Transport.subscribeSlots_cases hs
  refine ⟨⟨h.reliable.get, h.reliable.subscribe, h.reliable.slots⟩,
    ⟨h.addressed.accounts, h.addressed.items⟩, h.feeds,
    fun id feed hfeed => Nat.lt_of_lt_of_le (h.id_lt id feed hfeed) hle, h.owner,
    fun id inbox hfeed => ?_, h.held, h.proper, h.nodup, h.tracked, h.live, h.live_nodup, h.entries⟩
  rcases hcases id inbox hfeed with hbefore | ⟨hid, _⟩
  · exact absurd hbefore (hnone id inbox)
  · exact hid

theorem router_connect (s : Link) :
    ∃ streams slots tally, s.connect.2.router = { s.router with streams, slots, tally } := by
  rw [Link.connect]
  split
  · exact ⟨_, _, _, rfl⟩
  case h_2 slots transport _ =>
    obtain ⟨streams, tally, hrouter⟩ := router_openAll
      { s with transport, router := { s.router with slots } } s.router.tracked
    exact ⟨streams, slots, tally, hrouter⟩

theorem Owned.connect (h : s.Owned) (hstreams : s.router.streams = {})
    (hslots : s.router.slots = none) :
    s.connect.2.Owned ∧ (s.connect.1 = .ok () → s.connect.2.Complete) := by
  obtain ⟨streams, slots', tally, hrouter⟩ := s.router_connect
  rw [Complete, hrouter]
  simp only [Link.connect] at hrouter ⊢
  split
  case h_1 => exact ⟨h, fun hok => by cases hok⟩
  case h_2 slots transport hs =>
    simp only [hs] at hrouter
    obtain ⟨howned, hopened⟩ := (h.subscribeSlots hslots hs).openAll h.nodup (fun _ ha => ha)
      fun _ _ => by rw [hstreams]; rfl
    refine ⟨howned, fun hok a ha => ?_⟩
    have hopen := hopened hok a (.inl ha)
    rwa [hrouter] at hopen

theorem Owned.untrack (h : s.Owned) (a : Address) : (s.untrack a).Owned := by
  rw [Link.untrack]
  split
  case isFalse => exact h
  case isTrue =>
    have hnarrows : s.transport.ledger.Narrows
        ((s.router.streams.find? a).elim s.transport s.transport.dropFeed).ledger := by
      cases s.router.streams.find? a with
      | none => exact .refl _
      | some id => exact Ledger.narrows_dropFeed _ id
    have hreliable :
        ((s.router.streams.find? a).elim s.transport s.transport.dropFeed).Reliable := by
      cases s.router.streams.find? a with
      | none => exact h.reliable
      | some id => exact ⟨h.reliable.get, h.reliable.subscribe, h.reliable.slots⟩
    refine ⟨hreliable, h.addressed.narrows hnarrows, hnarrows.nodup h.feeds,
      fun id feed hfeed => ?_, fun id b inbox hfeed => ?_, fun id inbox hfeed => ?_,
      fun b id hid => ?_, Table.nodup_keys_erase h.proper a, h.nodup.erase a, fun b id hid => ?_,
      fun b => ?_, h.live_nodup.erase a, fun b entry hentry => ?_⟩
    · obtain ⟨before, hbefore, _⟩ := hnarrows.feeds id feed.1 feed.2 hfeed
      exact Nat.lt_of_lt_of_le (h.id_lt id _ hbefore) hnarrows.nextFeed
    · obtain ⟨before, hbefore, _⟩ := hnarrows.feeds id b inbox hfeed
      have hid := h.owner id b before hbefore
      have hne : b ≠ a := by
        rintro rfl
        simp [hid, Transport.dropFeed, Ledger.dropFeed, Table.find?_erase] at hfeed
      rw [Table.find?_erase, if_neg hne]
      exact hid
    · obtain ⟨before, hbefore⟩ := hnarrows.slotFeeds id inbox hfeed
      exact h.slotOwner id before hbefore
    · obtain ⟨hne, hid⟩ := Table.find?_erase_eq_some.mp hid
      obtain ⟨inbox, hfeed⟩ := h.held b id hid
      refine ⟨inbox, ?_⟩
      cases hdropped : s.router.streams.find? a with
      | none => exact hfeed
      | some dropped =>
        obtain ⟨_, hfeed'⟩ := h.held a dropped hdropped
        have hid' : id ≠ dropped := by
          rintro rfl
          cases hfeed.symm.trans hfeed'
          exact hne rfl
        exact Table.find?_erase_eq_some.mpr ⟨hid', hfeed⟩
    · obtain ⟨hne, hid⟩ := Table.find?_erase_eq_some.mp hid
      exact (List.mem_erase_of_ne hne).mpr (h.tracked b id hid)
    · rw [Registry.live_remove, h.live_nodup.mem_erase_iff, h.live b, Table.find?_erase]
      split <;> simp_all
    · rw [Registry.find?_entries_remove] at hentry
      rw [Registry.epoch_remove]
      split at hentry
      case isTrue => cases hentry
      case isFalse hne =>
        exact (h.entries b entry hentry).imp_left (List.mem_erase_of_ne hne).mpr

theorem Owned.confirmSlot (h : s.Owned) (slot : Slot) (tally : Tally) :
    Owned { s with
      registry := s.registry.confirmSlot slot
      router := { s.router with tally } } where
  reliable := h.reliable
  addressed := h.addressed
  feeds := h.feeds
  id_lt := h.id_lt
  owner := h.owner
  slotOwner := h.slotOwner
  held := h.held
  proper := h.proper
  nodup := h.nodup
  tracked := h.tracked
  live := by simpa using h.live
  live_nodup := by simpa using h.live_nodup
  entries := by simpa using h.entries

/-- Dropping every stream gives up every subscription, and in the new epoch nothing is fresh. -/
theorem Owned.reset (h : s.Owned) :
    s.dropStreams.invalidate.Owned ∧ s.dropStreams.invalidate.Lost := by
  obtain ⟨hnarrows, haccounts, hslots⟩ := Ledger.feeds_foldl_dropFeed
    (s.router.streams.values ++ s.router.slots.toList) s.transport.ledger
  have htransport : s.dropStreams.transport = { s.transport with
      ledger := (s.router.streams.values ++ s.router.slots.toList).foldl Ledger.dropFeed
        s.transport.ledger } := by
    rw [Link.dropStreams, foldl_dropFeed]
  have hfeed : ∀ id feed, s.dropStreams.transport.ledger.accountFeeds.find? id ≠ some feed := by
    intro id feed hfeed
    rw [htransport] at hfeed
    obtain ⟨before, hbefore, _⟩ := hnarrows.feeds id feed.1 feed.2 hfeed
    have hheld := Table.mem_values_of_find? (h.owner id feed.1 before hbefore)
    exact haccounts id feed hfeed (List.mem_append_left _ hheld)
  have hslotFeed : ∀ id inbox, s.dropStreams.transport.ledger.slotFeeds.find? id ≠ some inbox := by
    intro id inbox hfeed
    rw [htransport] at hfeed
    obtain ⟨before, hbefore⟩ := hnarrows.slotFeeds id inbox hfeed
    refine hslots id inbox hfeed (List.mem_append_right _ ?_)
    simp [h.slotOwner id before hbefore]
  have hreliable : s.dropStreams.transport.Reliable := by
    rw [htransport]
    exact h.reliable.withLedger _
  have haddressed : s.dropStreams.transport.ledger.Addressed := by
    rw [htransport]
    exact h.addressed.narrows hnarrows
  refine ⟨⟨hreliable, haddressed, ?_, fun id feed hheld => absurd hheld (hfeed id feed),
    fun id a inbox hheld => absurd hheld (hfeed id (a, inbox)),
    fun id inbox hheld => absurd hheld (hslotFeed id inbox), fun a id hid => ?_, .nil, h.nodup,
    fun a id hid => ?_, fun a => iff_of_false List.not_mem_nil Bool.false_ne_true, .nil,
    fun a entry hentry => ?_⟩,
    rfl, rfl, rfl, fun a entry hentry => ?_⟩
  · change s.dropStreams.transport.ledger.accountFeeds.keys.Nodup
    rw [Table.keys_eq_nil hfeed]
    exact .nil
  · cases hid
  · cases hid
  · exact (h.entries a entry hentry).imp_right Nat.le_succ_of_le
  · exact Nat.ne_of_lt (Nat.lt_succ_of_le (h.entries a entry hentry).2)

/-- An attempt opens everything or nothing, and only the last one that is allowed gives up. -/
theorem Owned.reconnect_outcome (h : s.Owned) (hstreams : s.router.streams = {})
    (hslots : s.router.slots = none) :
    s.reconnect.Owned ∧ s.reconnect.router.settings = s.router.settings ∧
      (s.reconnect.router.state = .connected ∧ s.reconnect.Complete ∧
          s.reconnect.router.reconnectAt = none ∧ s.reconnect.router.attempts = 0 ∨
        s.reconnect.Lost ∧ s.reconnect.router.attempts = s.router.attempts + 1 ∧
          (s.reconnect.router.state = .failed ∧ s.reconnect.router.reconnectAt = none ∧
              s.router.settings.maxReconnectAttempts ≤ s.router.attempts + 1 ∨
            s.reconnect.router.state = .disconnected ∧
              s.reconnect.router.reconnectAt.isSome ∧
              s.router.attempts + 1 < s.router.settings.maxReconnectAttempts)) := by
  have hbegin : Owned ({ s with router := { s.router with
      reconnectAt := none, attempts := s.router.attempts + 1 } }.announce .resyncing) :=
    h.congr rfl rfl rfl rfl rfl
  obtain ⟨howned, hcomplete⟩ := hbegin.connect hstreams hslots
  obtain ⟨streams, slots, tally, hrouter⟩ := router_connect ({ s with router := { s.router with
      reconnectAt := none, attempts := s.router.attempts + 1 } }.announce .resyncing)
  rw [Link.reconnect]
  split
  case h_1 s' hconnect =>
    rw [hconnect] at howned hcomplete hrouter
    change s'.router = _ at hrouter
    have hsettings : s'.router.settings = s.router.settings := by rw [hrouter]; rfl
    have htimer : s'.router.reconnectAt = none := by rw [hrouter]; rfl
    exact ⟨howned.congr rfl rfl rfl rfl rfl, hsettings, .inl ⟨rfl, hcomplete rfl, htimer, rfl⟩⟩
  case h_2 s' hconnect =>
    rw [hconnect] at howned hrouter
    change s'.router = _ at hrouter
    obtain ⟨hreset, hlost⟩ := howned.reset
    have hsettings : s'.router.settings = s.router.settings := by rw [hrouter]; rfl
    have htried : s'.router.attempts = s.router.attempts + 1 := by rw [hrouter]; rfl
    have htimer : s'.router.reconnectAt = none := by rw [hrouter]; rfl
    simp only
    split
    case isTrue hlast =>
      change s'.router.settings.maxReconnectAttempts ≤ s'.router.attempts at hlast
      rw [hsettings, htried] at hlast
      exact ⟨hreset.congr rfl rfl rfl rfl rfl, hsettings,
        .inr ⟨hlost, htried, .inl ⟨rfl, htimer, hlast⟩⟩⟩
    case isFalse hmore =>
      change ¬ s'.router.settings.maxReconnectAttempts ≤ s'.router.attempts at hmore
      rw [hsettings, htried] at hmore
      exact ⟨hreset.congr rfl rfl rfl rfl rfl, hsettings,
        .inr ⟨hlost, htried, .inr ⟨rfl, rfl, Nat.lt_of_not_le hmore⟩⟩⟩

/-- Where one address was missing, a stream that stays open makes up for it. -/
theorem Owned.complete_openStream (h : s.Owned)
    (hothers : ∀ b ∈ s.router.tracked, b = a ∨ (s.router.streams.find? b).isSome)
    (ha : a ∈ s.router.tracked) (hnew : s.router.streams.find? a = none)
    (hkept : ∀ error, (s.openStream a).1 = .error error → error.isDisconnect = false) :
    (s.openStream a).2.Complete := by
  obtain ⟨_, ⟨error, herror, hlost⟩ | ⟨id, hstreams⟩⟩ := h.openStream ha hnew
  · rw [hkept error herror] at hlost
    cases hlost
  · obtain ⟨streams, tally, hrouter⟩ := s.router_openStream a
    intro b hb
    rw [hrouter] at hb
    rw [hstreams, Table.find?_insert]
    by_cases hba : b = a
    · simp [hba]
    · rw [if_neg hba]
      exact (hothers b hb).resolve_left hba

/-- Tracking an address gives a connected router the stream that it lacks, or ends the
connection. -/
theorem Owned.track_outcome (h : s.Owned) (hstate : s.router.state = .connected)
    (hcomplete : s.Complete) (a : Address) :
    ∃ s₁ s₂ : Link, s₁ = { s with router := { s.router with
        tracked := s.router.tracked.insert a } } ∧
      (s₂ = s₁ ∨ s₂ = (s₁.fetch a).2 ∨ s₂ = (s₁.openStream a).2) ∧
      s₂.Owned ∧ (∃ streams tally, s₂.router = { s₁.router with streams, tally }) ∧
      ((s.track a).2 = s₂.onDisconnect ∨ (s.track a).2 = s₂ ∧ s₂.Complete) := by
  obtain ⟨s₁, hs₁, ⟨hother, _⟩ | ⟨_, found, hfound, htrack⟩⟩ := s.track_cases a
  · rw [hs₁] at hother
    exact absurd hstate hother
  have howned : s₁.Owned := hs₁ ▸ h.track a
  have ha : a ∈ s₁.router.tracked := by
    rw [hs₁]
    exact List.mem_insert_self
  have hothers : ∀ b ∈ s₁.router.tracked, b = a ∨ (s₁.router.streams.find? b).isSome := by
    rw [hs₁]
    exact fun b hb => (List.mem_insert_iff.mp hb).imp_right (hcomplete b)
  refine ⟨s₁, found.2, hs₁, ?_⟩
  rcases hfound with ⟨⟨id, hid⟩, hfound⟩ | ⟨hnew, rfl⟩
  · have hheld : s₁.Complete := by
      intro b hb
      rcases hothers b hb with rfl | hheld
      · rw [hid]
        rfl
      · exact hheld
    rcases hfound with rfl | rfl
    · exact ⟨.inl rfl, howned, ⟨_, _, rfl⟩, htrack.imp_right fun hkept => ⟨hkept.1, hheld⟩⟩
    · have hrouter : ∃ tally, (s₁.fetch a).2.router = { s₁.router with tally } := by
        rcases fetch_cases howned a with heq | ⟨raw, _, heq⟩
        · exact ⟨_, by rw [heq]⟩
        · exact ⟨_, by rw [heq]; rfl⟩
      obtain ⟨tally, hrouter⟩ := hrouter
      have hstill : (s₁.fetch a).2.Complete := by
        rw [Complete, hrouter]
        exact hheld
      exact ⟨.inr (.inl rfl), (howned.fetch ha).1, ⟨_, _, hrouter⟩,
        htrack.imp_right fun hkept => ⟨hkept.1, hstill⟩⟩
  · obtain ⟨hopen, _⟩ := howned.openStream ha hnew
    obtain ⟨streams, tally, hrouter⟩ := s₁.router_openStream a
    exact ⟨.inr (.inr rfl), hopen, ⟨_, _, hrouter⟩, htrack.imp_right fun hkept =>
      ⟨hkept.1, howned.complete_openStream hothers ha hnew hkept.2⟩⟩

end Link

end Solvency
