import Solvency.Proofs.Router.Manned

/-! How far a registry may be behind its ledger. A record that can be read has been observed in
this epoch, or it is still unread in the stream of its address, or that stream has ended. -/

namespace Solvency

namespace Ledger

variable {l l' : Ledger} {a : Address}

/-- No record of an address has been newer than this: the slot of its record, or that of the
ledger while there is none. -/
def newest (l : Ledger) (a : Address) : Slot := ((l.accounts.find? a).map (·.slot)).getD l.slot

def Dated (l : Ledger) : Prop := ∀ a, l.newest a ≤ l.slot

/-- `l` has become `l'` and nothing was read in between: what was unread still is, and what is
unread since is no newer than the record. -/
structure Leads (l l' : Ledger) : Prop where
  dated : l'.Dated
  newest_le : ∀ a, l.newest a ≤ l'.newest a
  feeds : ∀ id a inbox, l'.accountFeeds.find? id = some (a, inbox) →
    ∃ before, l.accountFeeds.find? id = some (a, before) ∧
      before.queue ⊆ inbox.queue ∧ (before.isFed = false → inbox.isFed = false) ∧
      (∀ raw, .item raw ∈ inbox.queue → .item raw ∈ before.queue ∨ raw.slot ≤ l'.newest a) ∧
      ∀ raw, l'.accounts.find? a = some raw →
        l.accounts.find? a = some raw ∨ .item raw ∈ inbox.queue ∨ inbox.isFed = false

theorem newest_eq {raw : RawAccount} (h : l.accounts.find? a = some raw) :
    l.newest a = raw.slot := by
  rw [newest, h]
  rfl

theorem newest_setRaw (l : Ledger) (a b : Address) (tag : UInt8) (data : Bytes) :
    (l.setRaw a tag data).newest b = if b = a then l.slot else l.newest b := by
  simp only [newest, setRaw, publish, mapAccountFeeds, Table.find?_insert]
  split <;> rfl

theorem newest_perform (h : l.Dated) (op : Op) (a : Address) :
    l.newest a ≤ (l.perform op).newest a ∧ (l.perform op).newest a ≤ (l.perform op).slot := by
  cases op with
  | setRaw b tag data =>
    rw [perform, newest_setRaw]
    split
    · exact ⟨h a, Nat.le_refl _⟩
    · exact ⟨Nat.le_refl _, h a⟩
  | advanceSlot =>
    have ha := h a
    simp only [newest, perform, advanceSlot, mapSlotFeeds] at ha ⊢
    cases hraw : l.accounts.find? a with
    | none => exact ⟨Nat.le_succ _, Nat.le_refl _⟩
    | some raw =>
      rw [hraw] at ha
      exact ⟨Nat.le_refl _, Nat.le_succ_of_le ha⟩
  | disconnect => exact ⟨Nat.le_refl _, h a⟩
  | setReachable reachable => exact ⟨Nat.le_refl _, h a⟩

theorem written_le_newest (op : Op) {w : RawAccount} (hw : w ∈ l.written op) :
    w.slot ≤ (l.perform op).newest w.address := by
  cases op with
  | setRaw b tag data =>
    cases List.mem_singleton.mp hw
    rw [perform, newest_setRaw, if_pos rfl]
  | advanceSlot => cases hw
  | disconnect => cases hw
  | setReachable reachable => cases hw

/-- A new record is sent to every subscription of its address that is still fed. -/
theorem record_delivered (op : Op) (inbox : Inbox RawAccount) {raw : RawAccount}
    (hraw : (l.perform op).accounts.find? a = some raw) :
    l.accounts.find? a = some raw ∨ .item raw ∈ (l.delivered a inbox op).queue ∨
      (l.delivered a inbox op).isFed = false := by
  cases op with
  | setRaw b tag data =>
    have hraw : (l.accounts.insert b ⟨b, l.slot, tag, data⟩).find? a = some raw := hraw
    rw [Table.find?_insert] at hraw
    split at hraw
    case isTrue ha =>
      cases hraw
      cases hfed : inbox.isFed with
      | false => exact .inr (.inr (isFed_delivered hfed))
      | true => exact .inr (.inl (by simp [delivered, ha, Inbox.send, hfed, Inbox.push]))
    case isFalse => exact .inl hraw
  | advanceSlot => exact .inl hraw
  | disconnect => exact .inl hraw
  | setReachable reachable => exact .inl hraw

theorem leads_change (h : l.Dated) (c : Change) : l.Leads (l.change c) := by
  cases c with
  | op op =>
    refine ⟨fun a => (newest_perform h op a).2, fun a => (newest_perform h op a).1, ?_⟩
    intro id a inbox hfeed
    change (l.perform op).accountFeeds.find? id = some (a, inbox) at hfeed
    rw [find?_accountFeeds_perform, Option.map_eq_some_iff] at hfeed
    obtain ⟨⟨b, before⟩, hbefore, heq⟩ := hfeed
    cases heq
    refine ⟨before, hbefore, l.subset_delivered op b before, isFed_delivered, fun raw hraw => ?_,
      fun raw hraw => record_delivered op before hraw⟩
    rcases mem_delivered hraw with hraw | ⟨w, hw, hwa, heq⟩ | heq
    · exact .inl hraw
    · cases heq
      exact .inr (hwa ▸ written_le_newest op hw)
    · cases heq
  | removeAccount b =>
    have hnewest : ∀ a, (l.removeAccount b).newest a = if a = b then l.slot else l.newest a := by
      intro a
      simp only [newest, removeAccount, Table.find?_erase]
      split <;> rfl
    refine ⟨fun a => ?_, fun a => ?_, fun id a inbox hfeed => ⟨inbox, hfeed, .refl _,
      fun hfed => hfed, fun _ => .inl, fun raw hraw => .inl (Table.find?_erase_eq_some.mp hraw).2⟩⟩
    · change (l.removeAccount b).newest a ≤ l.slot
      rw [hnewest]
      split
      · exact Nat.le_refl _
      · exact h a
    · change l.newest a ≤ (l.removeAccount b).newest a
      rw [hnewest]
      split
      · exact h a
      · exact Nat.le_refl _

/-- What is left of the subscriptions, or put into one of them by another than the ledger. -/
theorem Leads.of_feeds (h : l.Dated) (hslot : l'.slot = l.slot)
    (haccounts : l'.accounts = l.accounts)
    (hfeeds : ∀ id a inbox, l'.accountFeeds.find? id = some (a, inbox) →
      ∃ before, l.accountFeeds.find? id = some (a, before) ∧ before.queue ⊆ inbox.queue ∧
        inbox.isFed = before.isFed ∧
        ∀ raw, .item raw ∈ inbox.queue → .item raw ∈ before.queue) : l.Leads l' := by
  have hnewest : ∀ a, l'.newest a = l.newest a := fun a => by rw [newest, newest, haccounts, hslot]
  refine ⟨fun a => ?_, fun a => Nat.le_of_eq (hnewest a).symm, fun id a inbox hfeed => ?_⟩
  · rw [hnewest, hslot]
    exact h a
  · obtain ⟨before, hbefore, hqueue, hfed, hitems⟩ := hfeeds id a inbox hfeed
    exact ⟨before, hbefore, hqueue, fun hcut => hfed.trans hcut,
      fun raw hraw => .inl (hitems raw hraw), fun raw hraw => .inl (haccounts ▸ hraw)⟩

theorem leads_foldl_dropFeed (h : l.Dated) (ids : List Nat) : l.Leads (ids.foldl dropFeed l) := by
  have hkept : (ids.foldl dropFeed l).slot = l.slot ∧
      (ids.foldl dropFeed l).accounts = l.accounts ∧
      ∀ id feed, (ids.foldl dropFeed l).accountFeeds.find? id = some feed →
        l.accountFeeds.find? id = some feed := by
    clear h
    induction ids generalizing l with
    | nil => exact ⟨rfl, rfl, fun _ _ hfeed => hfeed⟩
    | cons first rest ih =>
      obtain ⟨hslot, haccounts, hfeeds⟩ := ih (l := l.dropFeed first)
      exact ⟨hslot, haccounts, fun id feed hfeed =>
        (Table.find?_erase_eq_some.mp (hfeeds id feed hfeed)).2⟩
  obtain ⟨hslot, haccounts, hfeeds⟩ := hkept
  exact .of_feeds h hslot haccounts fun id a inbox hfeed =>
    ⟨inbox, hfeeds id _ hfeed, .refl _, rfl, fun _ hraw => hraw⟩

theorem nextSlot?_eq {id : Nat} {d : Delivery Slot} (h : l.nextSlot? id = some (d, l')) :
    ∃ slotFeeds, l' = { l with slotFeeds } := by
  simp only [nextSlot?, Option.bind_eq_bind, Option.bind_eq_some_iff] at h
  obtain ⟨inbox, _, h⟩ := h
  split at h
  · cases h
  · cases h
    exact ⟨_, rfl⟩

theorem dated_foldl_change (h : l.Dated) (changes : List Change) :
    (changes.foldl change l).Dated := by
  induction changes generalizing l with
  | nil => exact h
  | cons c rest ih => exact ih (leads_change h c).dated

end Ledger

namespace Transport

theorem leads_inject {t : Transport} (h : t.ledger.Dated) (a : Address) (breach : Breach) :
    t.ledger.Leads (t.inject a breach.delivery).2.ledger := by
  rw [inject]
  split
  · exact .of_feeds h rfl rfl fun _ _ inbox hfeed =>
      ⟨inbox, hfeed, .refl _, rfl, fun _ hraw => hraw⟩
  case h_2 id _ =>
    refine .of_feeds h rfl rfl fun other b inbox hfeed => ?_
    simp only [Table.find?_modify] at hfeed
    split at hfeed
    · obtain ⟨⟨c, before⟩, hbefore, heq⟩ := Option.map_eq_some_iff.mp hfeed
      cases heq
      refine ⟨before, hbefore, List.subset_append_left _ _, rfl, fun raw hraw => ?_⟩
      refine (List.mem_append.mp hraw).resolve_right fun hraw => ?_
      exact breach.delivery_ne_item raw (List.mem_singleton.mp hraw).symm
    · exact ⟨inbox, hfeed, .refl _, rfl, fun _ hraw => hraw⟩

theorem leads_injectSlot {t : Transport} (h : t.ledger.Dated) (d : Delivery Slot) :
    t.ledger.Leads (t.injectSlot d).2.ledger := by
  rw [injectSlot]
  split <;>
    exact .of_feeds h rfl rfl fun _ _ inbox hfeed =>
      ⟨inbox, hfeed, .refl _, rfl, fun _ hraw => hraw⟩

end Transport

namespace Registry

/-- The address has been observed in this epoch. -/
def Holds (r : Registry) (a : Address) : Prop :=
  ∃ entry, r.entries.find? a = some entry ∧ entry.epoch = r.epoch

variable {r : Registry} {a : Address} {raw : RawAccount}

theorem Holds.ingest (h : r.Holds a) (raw : RawAccount) : (r.ingest raw).2.Holds a := by
  obtain ⟨entry, hentry, hepoch⟩ := h
  rcases r.ingest_cases raw with hsame | ⟨e, hput⟩
  · rw [hsame]
    exact ⟨entry, hentry, hepoch⟩
  · rw [hput, Holds, find?_entries_put, epoch_put]
    by_cases ha : a = raw.address
    · rw [if_pos ha]
      refine ⟨_, rfl, Entry.epoch_absorb fun stored hstored => .inl ?_⟩
      cases hentry.symm.trans (ha ▸ hstored)
      exact hepoch
    · exact ⟨entry, by rw [if_neg ha]; exact hentry, hepoch⟩

/-- A record that is no older than what is stored counts as an observation in this epoch. -/
theorem holds_ingest {e : Entity} (hread : raw.read = .ok e)
    (hstored : ∀ entry, r.entries.find? raw.address = some entry → entry.slot ≤ raw.slot) :
    (r.ingest raw).2.Holds raw.address := by
  have hdecode : Entity.decode raw.tag raw.data = .ok e := hread
  simp only [Registry.ingest, hdecode]
  rw [Holds, find?_entries_put, epoch_put, if_pos rfl]
  exact ⟨_, rfl, Entry.epoch_absorb fun entry hentry => .inr (hstored entry hentry)⟩

theorem stored_ingest {bound : Address → Slot}
    (h : ∀ a entry, r.entries.find? a = some entry → entry.slot ≤ bound a)
    (hraw : raw.slot ≤ bound raw.address) {entry : Entry}
    (hentry : (r.ingest raw).2.entries.find? a = some entry) : entry.slot ≤ bound a := by
  rcases r.ingest_cases raw with hsame | ⟨e, hput⟩
  · exact h a entry (hsame ▸ hentry)
  · rw [hput, find?_entries_put] at hentry
    split at hentry
    case isTrue ha =>
      cases hentry
      rw [ha]
      cases hfound : r.entries.find? raw.address with
      | none => exact hraw
      | some stored => grind [Entry.absorb]
    case isFalse => exact h a entry hentry

end Registry

namespace Link

/-- Nothing observed or unread is newer than the record of its address. A record that can be read
has been observed in this epoch, is unread, or belongs to a stream that has ended. -/
structure Abreast (s : Link) : Prop where
  reliable : s.transport.Reliable
  addressed : s.transport.ledger.Addressed
  dated : s.transport.ledger.Dated
  unread : ∀ id a inbox, s.transport.ledger.accountFeeds.find? id = some (a, inbox) → ∀ raw,
    .item raw ∈ inbox.queue → raw.slot ≤ s.transport.ledger.newest a
  stored : ∀ a entry, s.registry.entries.find? a = some entry →
    entry.slot ≤ s.transport.ledger.newest a
  follows : ∀ id a inbox, s.transport.ledger.accountFeeds.find? id = some (a, inbox) →
    ∀ raw e, s.transport.ledger.accounts.find? a = some raw → raw.read = .ok e →
      s.registry.Holds a ∨ .item raw ∈ inbox.queue ∨ inbox.isFed = false

variable {s s' : Link} {a : Address} {raw : RawAccount}

theorem Abreast.congr (h : s.Abreast) (htransport : s'.transport = s.transport)
    (hentries : s'.registry.entries = s.registry.entries)
    (hepoch : s'.registry.epoch = s.registry.epoch) : s'.Abreast := by
  obtain ⟨hreliable, haddressed, hdated, hunread, hstored, hfollows⟩ := h
  constructor <;> simp only [htransport, Registry.Holds, hentries, hepoch] <;> assumption

theorem Abreast.withTransport (h : s.Abreast) {transport : Transport}
    (hreliable : transport.Reliable) (hnarrows : s.transport.ledger.Narrows transport.ledger)
    (hleads : s.transport.ledger.Leads transport.ledger) : Abreast { s with transport } where
  reliable := hreliable
  addressed := h.addressed.narrows hnarrows
  dated := hleads.dated
  unread id a inbox hfeed raw hraw := by
    obtain ⟨before, hbefore, _, _, hitems, _⟩ := hleads.feeds id a inbox hfeed
    rcases hitems raw hraw with hraw | hle
    · exact Nat.le_trans (h.unread id a before hbefore raw hraw) (hleads.newest_le a)
    · exact hle
  stored a entry hentry := Nat.le_trans (h.stored a entry hentry) (hleads.newest_le a)
  follows id a inbox hfeed raw e hraw hread := by
    obtain ⟨before, hbefore, hqueue, hcut, _, hrecord⟩ := hleads.feeds id a inbox hfeed
    rcases hrecord raw hraw with hraw | hlater
    · rcases h.follows id a before hbefore raw e hraw hread with hholds | hitem | hfed
      · exact .inl hholds
      · exact .inr (.inl (hqueue hitem))
      · exact .inr (.inr (hcut hfed))
    · exact .inr hlater

theorem Abreast.ingest (h : s.Abreast)
    (hraw : raw.slot ≤ s.transport.ledger.newest raw.address) : (s.ingest raw).Abreast where
  reliable := h.reliable
  addressed := h.addressed
  dated := h.dated
  unread := h.unread
  stored _ _ hentry := Registry.stored_ingest h.stored hraw hentry
  follows id a inbox hfeed found e hfound hread :=
    (h.follows id a inbox hfeed found e hfound hread).imp_left fun hholds => hholds.ingest raw

theorem Abreast.le_newest (h : s.Abreast) (hraw : s.transport.ledger.accounts.find? a = some raw) :
    raw.address = a ∧ raw.slot = s.transport.ledger.newest raw.address := by
  obtain rfl := h.addressed.accounts a raw hraw
  exact ⟨rfl, (Ledger.newest_eq hraw).symm⟩

theorem Abreast.fetch (h : s.Abreast) (a : Address) : (s.fetch a).2.Abreast := by
  rw [fetch_eq h.reliable]
  split
  · split
    case h_1 raw hraw => exact h.ingest (Nat.le_of_eq (h.le_newest hraw).2)
    case h_2 => exact h
  · exact h

theorem Abreast.holds_ingest (h : s.Abreast)
    (hraw : s.transport.ledger.accounts.find? a = some raw) {e : Entity} (hread : raw.read = .ok e)
    {r : Registry} (hentries : r.entries = s.registry.entries) : (r.ingest raw).2.Holds a := by
  obtain ⟨rfl, hslot⟩ := h.le_newest hraw
  refine Registry.holds_ingest hread fun entry hentry => ?_
  rw [hslot]
  exact h.stored _ entry (hentries ▸ hentry)

theorem Abreast.withFeed (h : s.Abreast) (a : Address) {registry : Registry} {router : Router}
    (hstored : ∀ b entry, registry.entries.find? b = some entry →
      entry.slot ≤ s.transport.ledger.newest b)
    (hkept : ∀ b, s.registry.Holds b → registry.Holds b)
    (hheld : ∀ raw e, s.transport.ledger.accounts.find? a = some raw → raw.read = .ok e →
      registry.Holds a) : Abreast { s.opened a with registry, router } where
  reliable := reliable_opened h.reliable a
  addressed := by
    refine ⟨h.addressed.accounts, fun id b inbox hfeed raw hraw => ?_⟩
    simp only [Link.opened, Table.find?_insert] at hfeed
    split at hfeed
    · cases hfeed
      cases hraw
    · exact h.addressed.items id b inbox hfeed raw hraw
  dated := h.dated
  unread id b inbox hfeed raw hraw := by
    simp only [Link.opened, Table.find?_insert] at hfeed
    split at hfeed
    · cases hfeed
      cases hraw
    · exact h.unread id b inbox hfeed raw hraw
  stored := hstored
  follows id b inbox hfeed raw e hraw hread := by
    simp only [Link.opened, Table.find?_insert] at hfeed
    split at hfeed
    · cases hfeed
      exact .inl (hheld raw e hraw hread)
    · exact (h.follows id b inbox hfeed raw e hraw hread).imp_left (hkept b)

/-- The record is fetched once the stream is open, and so it need not come through the stream. -/
theorem Abreast.openStream (h : s.Abreast) (a : Address) : (s.openStream a).2.Abreast := by
  rw [openStream_eq h.reliable]
  split
  case isFalse => exact h
  case isTrue =>
    split
    case h_2 hnone =>
      refine h.withFeed a h.stored (fun _ hholds => hholds) fun raw e hfound => ?_
      cases hnone.symm.trans hfound
    case h_1 raw hraw =>
      have hslot := Nat.le_of_eq (h.le_newest hraw).2
      have hstored : ∀ b entry, ((s.opened a).registry.ingest raw).2.entries.find? b = some entry →
          entry.slot ≤ s.transport.ledger.newest b := fun _ _ =>
        Registry.stored_ingest (r := (s.opened a).registry) h.stored hslot
      have hkept : ∀ b, s.registry.Holds b → ((s.opened a).registry.ingest raw).2.Holds b :=
        fun _ hholds => Registry.Holds.ingest (r := (s.opened a).registry) hholds raw
      refine h.withFeed a hstored hkept fun found e hfound hread => ?_
      cases hraw.symm.trans hfound
      exact h.holds_ingest hraw hread rfl

theorem Abreast.openAll (h : s.Abreast) (addresses : List Address) :
    (s.openAll addresses).2.Abreast := by
  induction addresses generalizing s with
  | nil => exact h
  | cons a rest ih =>
    have hopen := h.openStream a
    rw [Link.openAll]
    split
    case h_1 s' heq =>
      rw [heq] at hopen
      exact ih hopen
    case h_2 s' heq =>
      rw [heq] at hopen
      exact ih hopen
    case h_3 s' heq =>
      rw [heq] at hopen
      exact hopen

theorem Abreast.connect (h : s.Abreast) : s.connect.2.Abreast := by
  rw [Link.connect]
  split
  · exact h
  case h_2 slots transport hslots =>
    obtain ⟨_, _, _, rfl, _⟩ := Transport.subscribeSlots_cases hslots
    refine Abreast.openAll ?_ _
    exact ⟨⟨h.reliable.get, h.reliable.subscribe, h.reliable.slots⟩,
      ⟨h.addressed.accounts, h.addressed.items⟩, h.dated, h.unread, h.stored, h.follows⟩

/-- Once every stream is given up there is nothing left to read. -/
theorem Abreast.reset (h : s.Abreast) (howned : s.Owned) :
    s.dropStreams.invalidate.Abreast := by
  obtain ⟨hreset, hstreams, _⟩ := howned.reset
  have hfeed : ∀ id a inbox,
      s.dropStreams.invalidate.transport.ledger.accountFeeds.find? id ≠ some (a, inbox) := by
    intro id a inbox hfeed
    have hid := hreset.owner id a inbox hfeed
    rw [hstreams] at hid
    cases hid
  have hleads : s.transport.ledger.Leads s.dropStreams.transport.ledger := by
    rw [Link.dropStreams, foldl_dropFeed]
    exact Ledger.leads_foldl_dropFeed h.dated _
  exact ⟨hreset.reliable, hreset.addressed, hleads.dated,
    fun id a inbox hheld => absurd hheld (hfeed id a inbox),
    fun a entry hentry => Nat.le_trans (h.stored a entry hentry) (hleads.newest_le a),
    fun id a inbox hheld => absurd hheld (hfeed id a inbox)⟩

theorem Abreast.onDisconnect (h : s.Abreast) (howned : s.Owned) : s.onDisconnect.Abreast := by
  rw [Link.onDisconnect]
  split
  · exact (h.reset howned).congr rfl rfl rfl
  · exact h

theorem Abreast.reconnect (h : s.Abreast) (howned : s.Owned) (hstreams : s.router.streams = {})
    (hslots : s.router.slots = none) : s.reconnect.Abreast := by
  have hbegin : Abreast ({ s with router := { s.router with
      reconnectAt := none, attempts := s.router.attempts + 1 } }.announce .resyncing) :=
    h.congr rfl rfl rfl
  have hownedBegin : Owned ({ s with router := { s.router with
      reconnectAt := none, attempts := s.router.attempts + 1 } }.announce .resyncing) :=
    howned.congr rfl rfl rfl rfl rfl
  have hconnect := hbegin.connect
  obtain ⟨howned, _⟩ := hownedBegin.connect hstreams hslots
  rw [Link.reconnect]
  split
  case h_1 s' heq =>
    rw [heq] at hconnect
    exact hconnect.congr rfl rfl rfl
  case h_2 s' heq =>
    rw [heq] at hconnect howned
    have hreset := hconnect.reset howned
    dsimp only
    split
    · exact hreset.congr rfl rfl rfl
    · exact hreset.congr rfl rfl rfl

theorem Abreast.resync (h : s.Abreast) (howned : s.Owned) : s.resync.2.Abreast := by
  obtain ⟨hreset, hstreams, hslots, _⟩ := howned.reset
  exact Abreast.reconnect ((h.reset howned).congr rfl rfl rfl) (hreset.congr rfl rfl rfl rfl rfl)
    hstreams hslots

theorem Abreast.track (h : s.Abreast) (howned : s.Owned) (a : Address) :
    (s.track a).2.Abreast := by
  obtain ⟨s₁, hs₁, hcases⟩ := s.track_cases a
  have hbegin : s₁.Abreast := hs₁ ▸ h.congr rfl rfl rfl
  rcases hcases with ⟨_, htrack⟩ | ⟨_, found, hfound, htrack⟩
  · exact htrack ▸ hbegin
  have howned₁ : s₁.Owned := hs₁ ▸ howned.track a
  have ha : a ∈ s₁.router.tracked := by
    rw [hs₁]
    exact List.mem_insert_self
  have hfound : found.2.Abreast ∧ found.2.Owned := by
    rcases hfound with ⟨_, rfl | rfl⟩ | ⟨hnew, rfl⟩
    · exact ⟨hbegin, howned₁⟩
    · exact ⟨hbegin.fetch a, (howned₁.fetch ha).1⟩
    · exact ⟨hbegin.openStream a, (howned₁.openStream ha hnew).1⟩
  rcases htrack with htrack | ⟨htrack, _⟩
  · exact htrack ▸ hfound.1.onDisconnect hfound.2
  · exact htrack ▸ hfound.1

theorem Abreast.untrack (h : s.Abreast) (howned : s.Owned) (a : Address) :
    (s.untrack a).Abreast := by
  have huntracked := howned.untrack a
  rw [Link.untrack] at huntracked ⊢
  split
  case isFalse => exact h
  case isTrue htracked =>
    rw [if_pos htracked] at huntracked
    have hdropped : s.transport.ledger.Leads
        ((s.router.streams.find? a).elim s.transport s.transport.dropFeed).ledger ∧
        s.transport.ledger.Narrows
          ((s.router.streams.find? a).elim s.transport s.transport.dropFeed).ledger := by
      cases s.router.streams.find? a with
      | none => exact ⟨Ledger.leads_foldl_dropFeed h.dated [], .refl _⟩
      | some id =>
        exact ⟨Ledger.leads_foldl_dropFeed h.dated [id], Ledger.narrows_dropFeed _ id⟩
    have hread := h.withTransport huntracked.reliable hdropped.2 hdropped.1
    refine ⟨hread.reliable, hread.addressed, hread.dated, hread.unread, fun b entry hentry => ?_,
      fun id b inbox hfeed raw e hraw hdecoded => ?_⟩
    · rw [Registry.find?_entries_remove] at hentry
      split at hentry
      · cases hentry
      · exact hread.stored b entry hentry
    · have hne : b ≠ a := (Table.find?_erase_eq_some.mp (huntracked.owner id b inbox hfeed)).1
      refine (hread.follows id b inbox hfeed raw e hraw hdecoded).imp_left ?_
      rintro ⟨entry, hentry, hepoch⟩
      refine ⟨entry, ?_, ?_⟩
      · rw [Registry.find?_entries_remove, if_neg hne]
        exact hentry
      · rw [Registry.epoch_remove]
        exact hepoch

/-- What is read is taken out of its stream. If it is the record of its address it has to have
been observed. -/
theorem Abreast.withRead (h : s.Abreast) {id : Nat} {d : Delivery RawAccount} {ledger : Ledger}
    (hnext : s.transport.ledger.nextAccount? id = some (d, ledger)) {registry : Registry}
    {router : Router}
    (hkept : ∀ b, s.registry.Holds b → registry.Holds b)
    (hstored : ∀ b entry, registry.entries.find? b = some entry →
      entry.slot ≤ s.transport.ledger.newest b)
    (hobserved : ∀ raw e, d = .item raw → s.transport.ledger.accounts.find? raw.address = some raw →
      raw.read = .ok e → registry.Holds raw.address) :
    Abreast { s with transport := { s.transport with ledger }, registry, router } := by
  have haddressed := h.addressed.narrows (Ledger.keeps_nextAccount hnext).toNarrows
  obtain ⟨a, inbox, queue, hfeed, hqueue, rfl⟩ := Ledger.nextAccount?_eq_some_iff.mp hnext
  refine ⟨h.reliable.withLedger _, haddressed, h.dated, fun other b left hleft raw hraw => ?_,
    hstored, fun other b left hleft raw e hraw hread => ?_⟩
  · rw [Table.find?_insert] at hleft
    split at hleft
    · cases hleft
      exact h.unread id a inbox hfeed raw (hqueue ▸ List.mem_cons_of_mem _ hraw)
    · exact h.unread other b left hleft raw hraw
  · rw [Table.find?_insert] at hleft
    split at hleft
    case isFalse => exact (h.follows other b left hleft raw e hraw hread).imp_left (hkept b)
    case isTrue =>
      cases hleft
      -- the record was unread: it is the first that was, or it is unread still
      rcases h.follows id a inbox hfeed raw e hraw hread with hholds | hitem | hcut
      · exact .inl (hkept a hholds)
      · rw [hqueue] at hitem
        rcases List.mem_cons.mp hitem with hfirst | hlater
        · obtain rfl := h.addressed.accounts a raw hraw
          exact .inl (hobserved raw e hfirst.symm hraw hread)
        · exact .inr (.inl hlater)
      · exact .inr (.inr hcut)

theorem Abreast.account (h : s.Abreast) (howned : s.Owned) {id : Nat}
    (hs : s.accountStep? id = some s') : s'.Abreast := by
  simp only [accountStep?, Option.bind_eq_bind, Option.bind_eq_some_iff] at hs
  obtain ⟨⟨d, ledger⟩, hnext, hs⟩ := hs
  cases hs
  have hownedRead := howned.withLedger (Ledger.keeps_nextAccount hnext)
  have hread : (∀ raw, d ≠ .item raw) →
      Abreast { s with transport := { s.transport with ledger } } := fun hd =>
    h.withRead hnext (fun _ hholds => hholds) h.stored fun raw e heq => absurd heq (hd raw)
  cases d with
  | item raw =>
    obtain ⟨a, inbox, queue, hfeed, hqueue, _⟩ := Ledger.nextAccount?_eq_some_iff.mp hnext
    have hitem : .item raw ∈ inbox.queue := hqueue ▸ List.mem_cons_self
    have hraw := h.unread id a inbox hfeed raw hitem
    rw [← h.addressed.items id a inbox hfeed raw hitem] at hraw
    refine h.withRead hnext (fun _ hholds => hholds.ingest raw)
      (fun _ _ => Registry.stored_ingest h.stored hraw) fun found e heq hfound hdecoded => ?_
    cases heq
    exact h.holds_ingest hfound hdecoded rfl
  | failure error =>
    have hlost := hread (by simp)
    rw [onAccount]
    split
    · exact hlost.onDisconnect hownedRead
    · exact hlost
  | ended => exact (hread (by simp)).onDisconnect hownedRead

theorem Abreast.slot (h : s.Abreast) (howned : s.Owned) (hs : s.slotStep? = some s') :
    s'.Abreast := by
  simp only [slotStep?, Option.bind_eq_bind, Option.bind_eq_some_iff] at hs
  obtain ⟨id, hid, ⟨d, ledger⟩, hnext, hs⟩ := hs
  cases hs
  have hkeeps := Ledger.keeps_nextSlot hnext
  have hownedRead := howned.withLedger hkeeps
  have hread : Abreast { s with transport := { s.transport with ledger } } := by
    refine h.withTransport (h.reliable.withLedger ledger) hkeeps.toNarrows ?_
    obtain ⟨slotFeeds, rfl⟩ := Ledger.nextSlot?_eq hnext
    exact .of_feeds h.dated rfl rfl fun _ _ inbox hfeed =>
      ⟨inbox, hfeed, .refl _, rfl, fun _ hraw => hraw⟩
  cases d with
  | item slot =>
    exact hread.congr rfl Registry.entries_confirmSlot Registry.epoch_confirmSlot
  | failure error =>
    rw [onSlot]
    split
    · exact hread.onDisconnect hownedRead
    · exact hread
  | ended => exact hread.onDisconnect hownedRead

/-- What one event preserves. -/
theorem Abreast.after (h : s.Abreast) (hmanned : s.Manned) {event : Event}
    (hs : s.after? event = some s') : s'.Abreast := by
  have howned := hmanned.toOwned
  cases event with
  | ledger change =>
    cases hs
    exact h.withTransport (h.reliable.withLedger _)
      (s.transport.ledger.keeps_change change).toNarrows (Ledger.leads_change h.dated change)
  | breach address breach =>
    cases hs
    exact h.withTransport (h.reliable.inject address _)
      (s.transport.keeps_inject address breach).toNarrows
      (Transport.leads_inject h.dated address breach)
  | breachSlots breach =>
    cases hs
    exact h.withTransport (h.reliable.injectSlot _)
      (s.transport.keeps_injectSlot breach.delivery).toNarrows
      (Transport.leads_injectSlot h.dated _)
  | wait ms =>
    cases hs
    exact h.congr rfl rfl rfl
  | send command =>
    cases hs
    rw [Link.send]
    split
    · exact h.congr rfl rfl rfl
    · exact h
  | resync =>
    cases hs
    exact h.resync howned
  | command =>
    change s.commandStep? = some s' at hs
    rw [commandStep?] at hs
    split at hs
    · cases hs
    case h_2 command commands _ =>
      cases hs
      have hrest : Abreast { s with router := { s.router with commands } } := h.congr rfl rfl rfl
      have hownedRest := (hmanned.withCommands commands).toOwned
      cases command with
      | track a => exact hrest.track hownedRest a
      | untrack a => exact hrest.untrack hownedRest a
  | account address =>
    obtain ⟨id, _, hs⟩ := Option.bind_eq_some_iff.mp hs
    exact h.account howned hs
  | slot => exact h.slot howned hs
  | timer =>
    simp only [after?, timerStep?, Option.bind_eq_bind, Option.bind_eq_some_iff] at hs
    obtain ⟨time, htime, hs⟩ := hs
    split at hs
    case isFalse => cases hs
    case isTrue =>
      cases hs
      have hstate : s.router.state ≠ .connected := by
        intro hstate
        rw [hmanned.timer hstate] at htime
        cases htime
      obtain ⟨hstreams, hslots⟩ := hmanned.idle hstate
      exact h.reconnect howned hstreams hslots

theorem Abreast.start {heartbeats : Bool} {ledger : Ledger}
    (hkeeps : Ledger.Keeps { heartbeats } ledger) (hdated : ledger.Dated)
    (settings : TransportSettings) (buffer now : Nat) :
    (start { ledger } settings buffer now).Abreast := by
  have hfeed : ∀ id a inbox, ledger.accountFeeds.find? id ≠ some (a, inbox) := by
    intro id a inbox hheld
    obtain ⟨_, hbefore, _⟩ := hkeeps.feeds id a inbox hheld
    cases hbefore
  have howned := owned_initial hkeeps settings buffer now
  refine Abreast.reconnect ?_ howned rfl rfl
  exact ⟨howned.reliable, howned.addressed, hdated,
    fun id a inbox hheld => absurd hheld (hfeed id a inbox), by simp [Registry.ofBuffer],
    fun id a inbox hheld => absurd hheld (hfeed id a inbox)⟩

/-- Connected and with nothing left to read, a router has observed every record that can be read
of the addresses that it tracks. -/
theorem Abreast.holds (h : s.Abreast) (hmanned : s.Manned) (hstate : s.router.state = .connected)
    (hdrained : s.Drained) (ha : a ∈ s.router.tracked)
    (hraw : s.transport.ledger.accounts.find? a = some raw) {e : Entity}
    (hread : raw.read = .ok e) : s.registry.Holds a := by
  obtain ⟨id, hid⟩ := Option.isSome_iff_exists.mp (hmanned.complete hstate a ha)
  obtain ⟨inbox, hfeed⟩ := hmanned.held a id hid
  rcases h.follows id a inbox hfeed raw e hraw hread with hholds | hitem | hcut
  · exact hholds
  · rw [hdrained.queue hid hfeed] at hitem
    cases hitem
  · cases hcut.symm.trans (hmanned.isFed hdrained hfeed)

end Link

end Solvency
