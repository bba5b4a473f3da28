import Solvency.Proofs.Registry.Fields
import Solvency.Proofs.Router.Steps

/-! What holds between a ledger, the streams of a router and its registry. A write that the
registry has not seen is still to be read, or its stream is about to end. -/

namespace Solvency

/-- No request fails before it gets to the ledger. -/
structure Transport.Reliable (t : Transport) : Prop where
  get : ∀ a, t.getFaults.find? a = none
  subscribe : ∀ a, t.subscribeFaults.find? a = none
  slots : t.slotsFault = none

/-- A subscription to the slots that has been made is empty, and nothing else is new. -/
theorem Transport.subscribeSlots_cases {t t' : Transport} {slots : Option Nat}
    (h : t.subscribeSlots = .ok (slots, t')) :
    ∃ slotFeeds nextFeed latestSlotFeed,
      t' = { t with ledger := { t.ledger with slotFeeds, nextFeed }, latestSlotFeed } ∧
      t.ledger.nextFeed ≤ nextFeed ∧
      ∀ id inbox, slotFeeds.find? id = some inbox →
        t.ledger.slotFeeds.find? id = some inbox ∨ slots = some id ∧ inbox.queue = [] := by
  rw [Transport.subscribeSlots] at h
  split at h
  case isFalse =>
    cases h
    exact ⟨_, _, _, rfl, Nat.le_refl _, fun _ _ => .inl⟩
  case isTrue =>
    split at h
    · cases h
    · obtain ⟨⟨id, ledger⟩, hledger, h⟩ := bind_eq_ok_iff.mp h
      cases h
      rw [Ledger.subscribeSlots, bind_eq_ok_iff] at hledger
      obtain ⟨_, _, hledger⟩ := hledger
      split at hledger
      · cases hledger
        refine ⟨_, _, _, rfl, Nat.le_succ _, fun other inbox hfeed => ?_⟩
        rw [Table.find?_insert] at hfeed
        split at hfeed
        case isTrue hid =>
          cases hfeed
          exact .inr ⟨by rw [hid], rfl⟩
        case isFalse => exact .inl hfeed
      · cases hledger
        exact ⟨_, _, _, rfl, Nat.le_refl _, fun _ _ => .inl⟩

theorem Transport.Reliable.withLedger {t : Transport} (h : t.Reliable) (ledger : Ledger) :
    Reliable { t with ledger } :=
  ⟨h.get, h.subscribe, h.slots⟩

theorem Transport.Reliable.inject {t : Transport} (h : t.Reliable) (a : Address)
    (d : Delivery RawAccount) : (t.inject a d).2.Reliable := by
  rw [Transport.inject]
  split
  · exact h
  · exact h.withLedger _

theorem Transport.Reliable.injectSlot {t : Transport} (h : t.Reliable) (d : Delivery Slot) :
    (t.injectSlot d).2.Reliable := by
  rw [Transport.injectSlot]
  split
  · exact h
  · exact h.withLedger _

/-- What is unread of a stream makes up for what the registry lacks of its address. -/
structure Inbox.Completes (writes : List RawAccount) (r : Registry) (a : Address)
    (inbox : Inbox RawAccount) : Prop where
  fresh : ∀ entry, r.entries.find? a = some entry → entry.epoch = r.epoch
  cut : inbox.isFed = false → .failure (.disconnected .dropped) ∈ inbox.queue
  seen : ∀ w ∈ writes, w.address = a →
    (∃ entry, r.entries.find? a = some entry ∧ w.slot ≤ entry.slot) ∨
      r.confirmedSlot < w.slot ∧ (.item w ∈ inbox.queue ∨ inbox.isFed = false)

/-- Everything stored was written, and nothing is of an epoch to come. -/
def Registry.Stores (r : Registry) (writes : List RawAccount) : Prop :=
  ∀ a entry, r.entries.find? a = some entry → entry.epoch ≤ r.epoch ∧
    ∃ w ∈ writes, w.address = a ∧ w.slot = entry.slot ∧ w.read = .ok entry.entity

theorem Registry.Stores.put {r : Registry} {writes : List RawAccount} (h : r.Stores writes)
    {w : RawAccount} (hw : w ∈ writes) {e : Entity} (hread : w.read = .ok e) :
    (r.put w.address e w.slot).2.Stores writes := by
  intro a entry hentry
  rw [find?_entries_put] at hentry
  rw [epoch_put]
  split at hentry
  case isTrue ha =>
    subst ha
    cases hentry
    cases hstored : r.entries.find? w.address with
    | none => exact ⟨Nat.le_refl _, w, hw, rfl, rfl, hread⟩
    | some stored =>
      obtain ⟨hepoch, older, holder, haddress, hslot, hentity⟩ := h w.address stored hstored
      rw [Entry.absorb]
      split
      · exact ⟨Nat.le_refl _, w, hw, rfl, rfl, hread⟩
      · split
        · exact ⟨Nat.le_refl _, older, holder, haddress, hslot, hentity⟩
        · exact ⟨hepoch, older, holder, haddress, hslot, hentity⟩
  case isFalse => exact h a entry hentry

namespace Inbox

variable {writes : List RawAccount} {r : Registry} {a : Address} {inbox : Inbox RawAccount}

theorem Completes.delivered (h : inbox.Completes writes r a) {l : Ledger}
    (hconfirmed : r.confirmedSlot < l.slot) (op : Ledger.Op) :
    (l.delivered a inbox op).Completes (l.written op ++ writes) r a where
  fresh := h.fresh
  cut hcut := by
    cases hfed : inbox.isFed with
    | false => exact l.subset_delivered op a inbox (h.cut hfed)
    | true => cases op <;> grind [Ledger.delivered, Inbox.send, Inbox.cut, Inbox.push]
  seen w hw ha := by
    rcases List.mem_append.mp hw with hw | hw
    · cases op with
      | setRaw address tag data =>
        cases List.mem_singleton.mp hw
        refine .inr ⟨hconfirmed, ?_⟩
        subst ha
        cases hfed : inbox.isFed with
        | false => exact .inr (Ledger.isFed_delivered hfed)
        | true => exact .inl (by simp [Ledger.delivered, Inbox.send, hfed, Inbox.push])
      | advanceSlot => cases hw
      | disconnect => cases hw
      | setReachable => cases hw
    · refine (h.seen w hw ha).imp_right (And.imp_right fun hunread => ?_)
      exact hunread.imp (fun hd => l.subset_delivered op a inbox hd) Ledger.isFed_delivered

theorem Completes.put (h : inbox.Completes writes r a) (e : Entity) (slot : Slot) :
    inbox.Completes writes (r.put a e slot).2 a where
  fresh entry hentry := by
    rw [Registry.find?_entries_put, if_pos rfl] at hentry
    cases hentry
    rw [Registry.epoch_put]
    exact Registry.Entry.epoch_absorb fun entry hentry => .inl (h.fresh entry hentry)
  cut := h.cut
  seen w hw ha := by
    rw [Registry.confirmedSlot_put, Registry.find?_entries_put, if_pos rfl]
    refine (h.seen w hw ha).imp_left ?_
    rintro ⟨entry, hentry, hslot⟩
    exact ⟨_, rfl, Nat.le_trans hslot ((Registry.Entry.le_slot_absorb _ _).2 entry hentry)⟩

/-- A stream that has been read to its end, and goes on, leaves nothing to see. -/
theorem Completes.seen_of_read (h : inbox.Completes writes r a) (hempty : inbox.queue = [])
    {w : RawAccount} (hw : w ∈ writes) (ha : w.address = a) :
    ∃ entry, r.entries.find? a = some entry ∧ w.slot ≤ entry.slot := by
  have hfed : inbox.isFed = true := by
    by_contra hcut
    have hlate := h.cut (Bool.eq_false_iff.mpr hcut)
    rw [hempty] at hlate
    cases hlate
  rcases h.seen w hw ha with hseen | ⟨_, hunread | hcut⟩
  · exact hseen
  · rw [hempty] at hunread
    cases hunread
  · rw [hfed] at hcut
    cases hcut

end Inbox

namespace Link

/-- What holds even while streams are being lost. -/
structure Based (writes : List RawAccount) (s : Link) : Prop where
  ledger : s.transport.ledger.Records writes
  reliable : s.transport.Reliable
  stores : s.registry.Stores writes
  running : s.router.running = true

/-- An address is live while a stream of it is held, and only then its entry is fresh. -/
structure Follows (writes : List RawAccount) (s : Link) (a : Address) : Prop where
  live : a ∈ s.registry.live ↔ (s.router.streams.find? a).isSome
  idle : s.router.streams.find? a = none →
    ∀ entry, s.registry.entries.find? a = some entry → entry.epoch ≠ s.registry.epoch
  held : ∀ id, s.router.streams.find? a = some id →
    ∃ inbox, s.transport.ledger.accountFeeds.find? id = some (a, inbox) ∧
      inbox.Completes writes s.registry a

structure Wired (writes : List RawAccount) (s : Link) : Prop extends s.Based writes where
  proper : s.router.streams.keys.Nodup
  nodup : s.registry.live.Nodup
  confirmed_lt : s.registry.confirmedSlot < s.transport.ledger.slot
  follows : ∀ a, s.Follows writes a

/-- Between steps, streams are held by a connected router only. -/
structure Settled (writes : List RawAccount) (s : Link) : Prop extends s.Wired writes where
  idle : s.router.state ≠ .connected → ∀ a, s.router.streams.find? a = none
  timer : s.router.state = .connected → s.router.reconnectAt = none

variable {s s' : Link} {writes : List RawAccount} {a : Address}

theorem Based.congr (h : s.Based writes) (htransport : s'.transport = s.transport)
    (hregistry : s'.registry = s.registry) (hrunning : s'.router.running = s.router.running) :
    s'.Based writes where
  ledger := htransport ▸ h.ledger
  reliable := htransport ▸ h.reliable
  stores := hregistry ▸ h.stores
  running := hrunning ▸ h.running

theorem Based.withLedger (h : s.Based writes) {ledger : Ledger} (hledger : ledger.Records writes) :
    Based writes { s with transport := { s.transport with ledger } } :=
  ⟨hledger, h.reliable.withLedger ledger, h.stores, h.running⟩

theorem Wired.congr (h : s.Wired writes) (htransport : s'.transport = s.transport)
    (hregistry : s'.registry = s.registry) (hstreams : s'.router.streams = s.router.streams)
    (hrunning : s'.router.running = s.router.running) : s'.Wired writes where
  toBased := h.toBased.congr htransport hregistry hrunning
  proper := hstreams ▸ h.proper
  nodup := hregistry ▸ h.nodup
  confirmed_lt := by rw [htransport, hregistry]; exact h.confirmed_lt
  follows a := by
    obtain ⟨hlive, hidle, hheld⟩ := h.follows a
    constructor <;> rw [hregistry, hstreams]
    · exact hlive
    · exact hidle
    · rw [htransport]
      exact hheld

structure Agrees (s s' : Link) (a : Address) : Prop where
  entry : s'.registry.entries.find? a = s.registry.entries.find? a
  live : a ∈ s'.registry.live ↔ a ∈ s.registry.live
  stream : s'.router.streams.find? a = s.router.streams.find? a
  feed : ∀ id, s.router.streams.find? a = some id →
    s'.transport.ledger.accountFeeds.find? id = s.transport.ledger.accountFeeds.find? id

theorem Follows.congr (h : s.Follows writes a) (hagrees : s.Agrees s' a)
    (hepoch : s'.registry.epoch = s.registry.epoch)
    (hconfirmed : s'.registry.confirmedSlot = s.registry.confirmedSlot) : s'.Follows writes a where
  live := by rw [hagrees.live, hagrees.stream, h.live]
  idle hstream := by
    rw [hagrees.entry, hepoch]
    exact h.idle (hagrees.stream ▸ hstream)
  held id hid := by
    rw [hagrees.stream] at hid
    obtain ⟨inbox, hfeed, hcompletes⟩ := h.held id hid
    refine ⟨inbox, (hagrees.feed id hid).trans hfeed, ?_, hcompletes.cut, ?_⟩
    · rw [hagrees.entry, hepoch]
      exact hcompletes.fresh
    · rw [hagrees.entry, hconfirmed]
      exact hcompletes.seen

/-- A change that concerns one address needs to be looked at for that address only. -/
theorem Wired.change (h : s.Wired writes) (hbased : s'.Based writes)
    (hproper : s'.router.streams.keys.Nodup) (hnodup : s'.registry.live.Nodup)
    (hepoch : s'.registry.epoch = s.registry.epoch)
    (hconfirmed : s'.registry.confirmedSlot = s.registry.confirmedSlot)
    (hslot : s'.transport.ledger.slot = s.transport.ledger.slot)
    (hothers : ∀ b, b ≠ a → s.Agrees s' b) (hself : s'.Follows writes a) : s'.Wired writes where
  toBased := hbased
  proper := hproper
  nodup := hnodup
  confirmed_lt := by rw [hconfirmed, hslot]; exact h.confirmed_lt
  follows b := by
    by_cases hb : b = a
    · exact hb ▸ hself
    · exact (h.follows b).congr (hothers b hb) hepoch hconfirmed

theorem Wired.performLedger (h : s.Wired writes) (op : Ledger.Op) :
    (s.performLedger op).Wired (s.transport.ledger.written op ++ writes) where
  ledger := h.ledger.perform op
  reliable := h.reliable.withLedger _
  stores a entry hentry := by
    obtain ⟨hepoch, w, hw, hwrite⟩ := h.stores a entry hentry
    exact ⟨hepoch, w, List.mem_append_right _ hw, hwrite⟩
  running := h.running
  proper := h.proper
  nodup := h.nodup
  confirmed_lt := Nat.lt_of_lt_of_le h.confirmed_lt (Ledger.slot_le_perform op)
  follows a := by
    refine ⟨(h.follows a).live, (h.follows a).idle, fun id hid => ?_⟩
    obtain ⟨inbox, hfeed, hcompletes⟩ := (h.follows a).held id hid
    refine ⟨_, ?_, hcompletes.delivered h.confirmed_lt op⟩
    simp only [Link.performLedger, Ledger.find?_accountFeeds_perform, hfeed, Option.map_some]

theorem ingest_of_read {w : RawAccount} {e : Entity} (hread : w.read = .ok e) :
    s.ingest w = { s with
      registry := (s.registry.put w.address e w.slot).2
      router := { s.router with
        tally := s.router.tally.count (.stored (s.registry.put w.address e w.slot).1) } } := by
  have hdecode : Entity.decode w.tag w.data = .ok e := hread
  simp only [ingest, Registry.ingest, hdecode]

theorem Wired.ingest (h : s.Wired writes) {w : RawAccount} (hw : w ∈ writes) {e : Entity}
    (hread : w.read = .ok e) {id : Nat} (hid : s.router.streams.find? w.address = some id) :
    (s.ingest w).Wired writes := by
  rw [ingest_of_read hread]
  refine h.change (a := w.address) ⟨h.ledger, h.reliable, h.stores.put hw hread, h.running⟩
    h.proper ?_ ?_ ?_ rfl ?_ ?_
  · simpa using h.nodup
  · exact Registry.epoch_put
  · exact Registry.confirmedSlot_put
  · intro b hb
    exact ⟨by simp [Registry.find?_entries_put, hb], by simp, rfl, fun _ _ => rfl⟩
  · refine ⟨by simpa using (h.follows _).live, ?_, ?_⟩
    · intro hnone
      rw [hid] at hnone
      cases hnone
    · intro id' hid'
      obtain ⟨inbox, hfeed, hcompletes⟩ := (h.follows _).held id' hid'
      exact ⟨inbox, hfeed, hcompletes.put e w.slot⟩

theorem Wired.agree (h : s.Wired writes) (hbased : s'.Based writes)
    (hregistry : s'.registry = s.registry) (hstreams : s'.router.streams = s.router.streams)
    (hslot : s'.transport.ledger.slot = s.transport.ledger.slot)
    (hfeeds : ∀ a id, s.router.streams.find? a = some id →
      s'.transport.ledger.accountFeeds.find? id = s.transport.ledger.accountFeeds.find? id) :
    s'.Wired writes := by
  have hagrees : ∀ a, s.Agrees s' a := fun a =>
    ⟨by rw [hregistry], by rw [hregistry], by rw [hstreams], hfeeds a⟩
  exact h.change (a := .zero) hbased (hstreams ▸ h.proper) (hregistry ▸ h.nodup)
    (by rw [hregistry]) (by rw [hregistry])
    hslot (fun b _ => hagrees b)
    ((h.follows _).congr (hagrees _) (by rw [hregistry]) (by rw [hregistry]))

/-- What is read from a stream is no longer unread; by then it has been seen. -/
theorem Wired.read (h : s.Wired writes) {id : Nat} (hid : s.router.streams.find? a = some id)
    {raw : RawAccount} {ledger : Ledger}
    (hnext : s.transport.ledger.nextAccount? id = some (.item raw, ledger))
    (hseen : ∃ entry, s.registry.entries.find? a = some entry ∧ raw.slot ≤ entry.slot) :
    Wired writes { s with transport := { s.transport with ledger } } := by
  obtain ⟨inbox, hfeed, hcompletes⟩ := (h.follows a).held id hid
  obtain ⟨b, _, queue, hfeed', hqueue, rfl⟩ := Ledger.nextAccount?_eq_some_iff.mp hnext
  cases hfeed.symm.trans hfeed'
  refine h.change (a := a) (h.withLedger (h.ledger.nextAccount hnext)) h.proper h.nodup
    rfl rfl rfl ?_ ⟨(h.follows a).live, (h.follows a).idle, ?_⟩
  · intro b hb
    refine ⟨rfl, .rfl, rfl, fun id' hid' => ?_⟩
    rw [Table.find?_insert, if_neg]
    rintro rfl
    obtain ⟨_, hother, _⟩ := (h.follows b).held id' hid'
    cases hfeed.symm.trans hother
    exact hb rfl
  · intro id' hid'
    cases hid.symm.trans hid'
    refine ⟨_, by rw [Table.find?_insert, if_pos rfl], hcompletes.fresh, ?_, ?_⟩
    · intro hcut
      simpa [hqueue] using hcompletes.cut hcut
    · intro w hw ha
      rcases hcompletes.seen w hw ha with hseen' | ⟨hslot, hunread⟩
      · exact .inl hseen'
      · rcases hunread with hunread | hcut
        · rw [hqueue] at hunread
          rcases List.mem_cons.mp hunread with hfirst | hunread
          · cases hfirst
            exact .inl hseen
          · exact .inr ⟨hslot, .inl hunread⟩
        · exact .inr ⟨hslot, .inr hcut⟩

/-- A heartbeat vouches for nothing that is still unread: every stream has been read to its
end and goes on. -/
theorem Wired.confirmSlot (h : s.Wired writes) {slot : Slot}
    (hslot : slot < s.transport.ledger.slot)
    (hread : ∀ a id inbox, s.router.streams.find? a = some id →
      s.transport.ledger.accountFeeds.find? id = some (a, inbox) → inbox.queue = []) :
    Wired writes { s with registry := s.registry.confirmSlot slot } where
  ledger := h.ledger
  reliable := h.reliable
  stores := by
    simpa only [Registry.Stores, Registry.entries_confirmSlot, Registry.epoch_confirmSlot]
      using h.stores
  running := h.running
  proper := h.proper
  nodup := by simpa using h.nodup
  confirmed_lt := by
    simpa using ⟨h.confirmed_lt, hslot⟩
  follows a := by
    refine ⟨by simpa using (h.follows a).live, by simpa using (h.follows a).idle, ?_⟩
    intro id hid
    obtain ⟨inbox, hfeed, hcompletes⟩ := (h.follows a).held id hid
    have hempty : inbox.queue = [] := hread a id inbox hid hfeed
    refine ⟨inbox, hfeed, by simpa using hcompletes.fresh, hcompletes.cut, fun w hw ha => .inl ?_⟩
    rw [Registry.entries_confirmSlot]
    exact hcompletes.seen_of_read hempty hw ha

theorem Wired.untrack (h : s.Wired writes) (a : Address) : (s.untrack a).Wired writes := by
  rw [Link.untrack]
  split
  case isFalse => exact h
  case isTrue =>
    have hstores : (s.registry.remove a).2.Stores writes := by
      intro b entry hentry
      rw [Registry.find?_entries_remove] at hentry
      rw [Registry.epoch_remove]
      split at hentry
      · cases hentry
      · exact h.stores b entry hentry
    have hbased : Based writes { s with
        transport := (s.router.streams.find? a).elim s.transport s.transport.dropFeed } := by
      cases s.router.streams.find? a with
      | none => exact h.toBased
      | some id => exact h.withLedger (h.ledger.dropFeed id)
    refine h.change (a := a) ⟨hbased.ledger, hbased.reliable, hstores, h.running⟩
      (Table.nodup_keys_erase h.proper a) (h.nodup.erase a) Registry.epoch_remove
      Registry.confirmedSlot_remove ?_ ?_ ?_
    · cases s.router.streams.find? a <;> rfl
    · intro b hb
      refine ⟨by simp [Registry.find?_entries_remove, hb], List.mem_erase_of_ne hb,
        by simp [Table.find?_erase, hb], fun id hid => ?_⟩
      cases ha : s.router.streams.find? a with
      | none => rfl
      | some held =>
        have hne : id ≠ held := by
          rintro rfl
          obtain ⟨_, hfeed, _⟩ := (h.follows b).held id hid
          obtain ⟨_, hfeed', _⟩ := (h.follows a).held id ha
          cases hfeed.symm.trans hfeed'
          exact hb rfl
        simp [Transport.dropFeed, Ledger.dropFeed, Table.find?_erase, hne]
    · refine ⟨?_, ?_, ?_⟩
      · simp [Table.find?_erase, h.nodup.mem_erase_iff]
      · simp [Registry.find?_entries_remove]
      · simp [Table.find?_erase]

theorem foldl_dropFeed (t : Transport) (ids : List Nat) :
    ids.foldl Transport.dropFeed t = { t with ledger := ids.foldl Ledger.dropFeed t.ledger } := by
  induction ids generalizing t with
  | nil => rfl
  | cons id rest ih => exact ih (t.dropFeed id)

theorem Based.dropStreams (h : s.Based writes) : s.dropStreams.Based writes := by
  have hledger : ∀ (ids : List Nat) (l : Ledger), l.Records writes →
      (ids.foldl Ledger.dropFeed l).Records writes := by
    intro ids
    induction ids with
    | nil => exact fun _ hl => hl
    | cons id rest ih => exact fun l hl => ih _ (hl.dropFeed id)
  have h' := h.withLedger (hledger (s.router.streams.values ++ s.router.slots.toList) _ h.ledger)
  refine ⟨?_, ?_, h.stores, h.running⟩ <;> rw [Link.dropStreams, foldl_dropFeed]
  · exact h'.ledger
  · exact h'.reliable

/-- Whatever was going on, dropping every stream and starting a new epoch puts it right. -/
theorem Based.reset (h : s.Based writes) :
    s.dropStreams.invalidate.Wired writes ∧
      ∀ a, s.dropStreams.invalidate.router.streams.find? a = none := by
  have h' := h.dropStreams
  refine ⟨⟨⟨h'.ledger, h'.reliable, ?_, h.running⟩, .nil, .nil, h'.ledger.slot_pos, fun a => ?_⟩,
    fun _ => rfl⟩
  · intro a entry hentry
    obtain ⟨hepoch, hwrite⟩ := h.stores a entry hentry
    exact ⟨Nat.le_succ_of_le hepoch, hwrite⟩
  · refine ⟨iff_of_false List.not_mem_nil nofun, fun _ entry hentry => ?_, nofun⟩
    exact Nat.ne_of_lt (Nat.lt_succ_of_le (h.stores a entry hentry).1)

end Link

end Solvency
