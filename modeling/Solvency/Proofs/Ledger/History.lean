import Mathlib.Data.List.Basic
import Solvency.Ledger.Basic
import Solvency.Proofs.Account.RoundTrip
import Solvency.Proofs.Collections

/-! A ledger beside the history of its writes. The history is the authority on what an
account was at a slot; the ledger keeps the newest record and what is unread. -/

namespace Solvency

namespace RawAccount

def read (raw : RawAccount) : Except LayoutError Entity := Entity.decode raw.tag raw.data

theorem read_ofEntity {entity : Entity} (h : entity.Canonical) (address : Address) (slot : Slot) :
    (ofEntity address slot entity).read = .ok entity :=
  Entity.decode_encode h

end RawAccount

namespace Ledger

/-- The write to an address that stands at a slot. The newest write comes first. -/
def lastWrite? (writes : List RawAccount) (address : Address) (slot : Slot) : Option RawAccount :=
  writes.find? fun w => w.address = address ∧ w.slot ≤ slot

inductive Op where
  | setRaw (address : Address) (tag : UInt8) (data : Bytes)
  | advanceSlot
  | disconnect
  | setReachable (reachable : Bool)

/-- An entity is written as the bytes that it encodes to. -/
def Op.setAccount (address : Address) (entity : Entity) : Op :=
  .setRaw address entity.tag entity.encode

def perform (l : Ledger) : Op → Ledger
  | .setRaw address tag data => l.setRaw address tag data
  | .advanceSlot => l.advanceSlot
  | .disconnect => l.disconnect
  | .setReachable reachable => l.setReachable reachable

def written (l : Ledger) : Op → List RawAccount
  | .setRaw address tag data => [⟨address, l.slot, tag, data⟩]
  | _ => []

def delivered (l : Ledger) (address : Address) (inbox : Inbox RawAccount) : Op → Inbox RawAccount
  | .setRaw other tag data =>
    if address = other then inbox.send ⟨other, l.slot, tag, data⟩ else inbox
  | .disconnect => inbox.cut
  | _ => inbox

/-- A ledger that has been through the writes: it holds the newest of each address, and what is
unread of a subscription are writes to its address or the loss of the connection. -/
structure Records (writes : List RawAccount) (l : Ledger) : Prop where
  slot_pos : 0 < l.slot
  slot_le : ∀ w ∈ writes, w.slot ≤ l.slot
  sorted : writes.Pairwise fun w earlier => earlier.slot ≤ w.slot
  accounts : ∀ a, l.accounts.find? a = (writes.find? (·.address = a))
  id_lt : ∀ id feed, l.accountFeeds.find? id = some feed → id < l.nextFeed
  deliveries : ∀ id a inbox, l.accountFeeds.find? id = some (a, inbox) → ∀ d ∈ inbox.queue,
    (∃ w ∈ writes, w.address = a ∧ d = .item w) ∨ d = .failure (.disconnected .dropped)
  heartbeats : ∀ id inbox, l.slotFeeds.find? id = some inbox → ∀ slot,
    .item slot ∈ inbox.queue → slot < l.slot

variable {l : Ledger} {writes : List RawAccount}

theorem find?_mapAccountFeeds (f : Address → Inbox RawAccount → Inbox RawAccount) (id : Nat) :
    (l.mapAccountFeeds f).accountFeeds.find? id =
      (l.accountFeeds.find? id).map fun feed => (feed.1, f feed.1 feed.2) :=
  l.accountFeeds.find?_map (fun feed => (feed.1, f feed.1 feed.2)) id

theorem find?_mapSlotFeeds (f : Inbox Slot → Inbox Slot) (id : Nat) :
    (l.mapSlotFeeds f).slotFeeds.find? id = (l.slotFeeds.find? id).map f :=
  l.slotFeeds.find?_map f id

theorem find?_accountFeeds_perform (op : Op) (id : Nat) :
    (l.perform op).accountFeeds.find? id =
      (l.accountFeeds.find? id).map fun feed => (feed.1, l.delivered feed.1 feed.2 op) := by
  cases op with
  | setRaw address tag data =>
    exact find?_mapAccountFeeds _ id
  | advanceSlot => simp [perform, advanceSlot, mapSlotFeeds, delivered]
  | disconnect => exact find?_mapAccountFeeds (l := l) (fun _ => Inbox.cut) id
  | setReachable reachable => simp [perform, setReachable, delivered]

theorem slot_le_perform (op : Op) : l.slot ≤ (l.perform op).slot := by
  cases op with
  | advanceSlot => exact Nat.le_succ _
  | setRaw => exact Nat.le_refl _
  | disconnect => exact Nat.le_refl _
  | setReachable => exact Nat.le_refl _

theorem subset_delivered (op : Op) (address : Address) (inbox : Inbox RawAccount) :
    inbox.queue ⊆ (l.delivered address inbox op).queue := by
  intro d hd
  cases op <;> grind [delivered, Inbox.send, Inbox.cut, Inbox.push]

theorem isFed_delivered {op : Op} {address : Address} {inbox : Inbox RawAccount}
    (h : inbox.isFed = false) : (l.delivered address inbox op).isFed = false := by
  cases op <;> simp [delivered, Inbox.send, Inbox.cut, h]

theorem mem_delivered {op : Op} {address : Address} {inbox : Inbox RawAccount}
    {d : Delivery RawAccount} (h : d ∈ (l.delivered address inbox op).queue) :
    d ∈ inbox.queue ∨ (∃ w ∈ l.written op, w.address = address ∧ d = .item w) ∨
      d = .failure (.disconnected .dropped) := by
  cases op with
  | setRaw other tag data =>
    by_cases ha : address = other
    · cases hfed : inbox.isFed with
      | false => simp [delivered, ha, Inbox.send, hfed] at h; exact .inl h
      | true =>
        simp only [delivered, ha, Inbox.send, hfed, Inbox.push, if_true, List.mem_append,
          List.mem_singleton] at h
        exact h.imp_right fun h => .inl ⟨_, List.mem_singleton_self _, ha.symm, h⟩
    · simp only [delivered, ha, if_false] at h
      exact .inl h
  | advanceSlot => exact .inl h
  | disconnect =>
    cases hfed : inbox.isFed with
    | false => simp [delivered, Inbox.cut, hfed] at h; exact .inl h
    | true =>
      simp only [delivered, Inbox.cut, hfed, Inbox.push, if_true, List.mem_append,
        List.mem_singleton] at h
      exact h.imp_right .inr
  | setReachable reachable => exact .inl h

theorem Records.id_lt_perform (h : l.Records writes) (op : Op) {id : Nat}
    {feed : Address × Inbox RawAccount}
    (hfeed : (l.perform op).accountFeeds.find? id = some feed) : id < (l.perform op).nextFeed := by
  rw [find?_accountFeeds_perform, Option.map_eq_some_iff] at hfeed
  obtain ⟨before, hbefore, _⟩ := hfeed
  cases op <;> exact h.id_lt id before hbefore

theorem Records.deliveries_perform (h : l.Records writes) (op : Op) {id : Nat} {a : Address}
    {inbox : Inbox RawAccount}
    (hfeed : (l.perform op).accountFeeds.find? id = some (a, inbox)) {d : Delivery RawAccount}
    (hd : d ∈ inbox.queue) : (∃ w ∈ l.written op ++ writes, w.address = a ∧ d = .item w) ∨
      d = .failure (.disconnected .dropped) := by
  rw [find?_accountFeeds_perform, Option.map_eq_some_iff] at hfeed
  obtain ⟨⟨b, before⟩, hbefore, heq⟩ := hfeed
  cases heq
  rcases mem_delivered hd with hd | ⟨w, hw, hd⟩ | hd
  · refine (h.deliveries id b before hbefore d hd).imp_left ?_
    rintro ⟨w, hw, hd⟩
    exact ⟨w, List.mem_append_right _ hw, hd⟩
  · exact .inl ⟨w, List.mem_append_left _ hw, hd⟩
  · exact .inr hd

/-- A heartbeat is sent when its slot is left, so it is never for the slot to come. -/
theorem Records.heartbeats_perform (h : l.Records writes) (op : Op) {id : Nat}
    {inbox : Inbox Slot} (hfeed : (l.perform op).slotFeeds.find? id = some inbox) {slot : Slot}
    (hslot : .item slot ∈ inbox.queue) : slot < (l.perform op).slot := by
  cases op with
  | setRaw address tag data => exact h.heartbeats id inbox hfeed slot hslot
  | advanceSlot =>
    have hfeed : (l.slotFeeds.find? id).map (·.send l.slot) = some inbox := by
      rw [← find?_mapSlotFeeds]
      exact hfeed
    obtain ⟨before, hbefore, rfl⟩ := Option.map_eq_some_iff.mp hfeed
    rw [Inbox.send] at hslot
    split at hslot
    · rcases List.mem_append.mp hslot with hslot | hslot
      · exact Nat.lt_succ_of_lt (h.heartbeats id before hbefore slot hslot)
      · cases List.mem_singleton.mp hslot
        exact Nat.lt_succ_self _
    · exact Nat.lt_succ_of_lt (h.heartbeats id before hbefore slot hslot)
  | disconnect =>
    have hfeed : (l.slotFeeds.find? id).map Inbox.cut = some inbox := by
      rw [← find?_mapSlotFeeds]
      exact hfeed
    obtain ⟨before, hbefore, rfl⟩ := Option.map_eq_some_iff.mp hfeed
    rw [Inbox.cut] at hslot
    split at hslot
    · rcases List.mem_append.mp hslot with hslot | hslot
      · exact h.heartbeats id before hbefore slot hslot
      · cases List.mem_singleton.mp hslot
    · exact h.heartbeats id before hbefore slot hslot
  | setReachable reachable => exact h.heartbeats id inbox hfeed slot hslot

theorem Records.perform (h : l.Records writes) (op : Op) :
    (l.perform op).Records (l.written op ++ writes) := by
  have hid : ∀ id feed, (l.perform op).accountFeeds.find? id = some feed →
      id < (l.perform op).nextFeed := fun _ _ => h.id_lt_perform op
  have hdeliveries : ∀ id a inbox, (l.perform op).accountFeeds.find? id = some (a, inbox) →
      ∀ d ∈ inbox.queue, (∃ w ∈ l.written op ++ writes, w.address = a ∧ d = .item w) ∨
        d = .failure (.disconnected .dropped) :=
    fun _ _ _ hfeed _ => h.deliveries_perform op hfeed
  have hheartbeats : ∀ id inbox, (l.perform op).slotFeeds.find? id = some inbox → ∀ slot,
      .item slot ∈ inbox.queue → slot < (l.perform op).slot :=
    fun _ _ hfeed _ => h.heartbeats_perform op hfeed
  cases op with
  | setRaw address tag data =>
    refine ⟨h.slot_pos, ?_, ?_, fun a => ?_, hid, hdeliveries, hheartbeats⟩
    · simpa [written] using ⟨Nat.le_refl _, h.slot_le⟩
    · simpa [written] using ⟨h.slot_le, h.sorted⟩
    · by_cases ha : a = address
      · simp [Ledger.perform, setRaw, publish, mapAccountFeeds, Table.find?_insert, written, ha]
      · simp [Ledger.perform, setRaw, publish, mapAccountFeeds, Table.find?_insert, written, ha,
          Ne.symm ha, h.accounts a]
  | advanceSlot =>
    exact ⟨Nat.succ_pos _, fun w hw => Nat.le_succ_of_le (h.slot_le w hw), h.sorted, h.accounts,
      hid, hdeliveries, hheartbeats⟩
  | disconnect =>
    exact ⟨h.slot_pos, h.slot_le, h.sorted, h.accounts, hid, hdeliveries, hheartbeats⟩
  | setReachable reachable =>
    exact ⟨h.slot_pos, h.slot_le, h.sorted, h.accounts, hid, hdeliveries, hheartbeats⟩

theorem Records.congr (h : l.Records writes) {l' : Ledger} (hslot : l'.slot = l.slot)
    (haccounts : l'.accounts = l.accounts)
    (hfeeds : ∀ id a inbox, l'.accountFeeds.find? id = some (a, inbox) → id < l'.nextFeed ∧
      ∀ d ∈ inbox.queue, ∃ before, l.accountFeeds.find? id = some (a, before) ∧ d ∈ before.queue)
    (hslots : ∀ id inbox, l'.slotFeeds.find? id = some inbox →
      ∀ d ∈ inbox.queue, ∃ before, l.slotFeeds.find? id = some before ∧ d ∈ before.queue) :
    l'.Records writes where
  slot_pos := hslot ▸ h.slot_pos
  slot_le := hslot ▸ h.slot_le
  sorted := h.sorted
  accounts := haccounts ▸ h.accounts
  id_lt id feed hfeed := (hfeeds id feed.1 feed.2 hfeed).1
  deliveries id a inbox hfeed d hd := by
    obtain ⟨before, hbefore, hd⟩ := (hfeeds id a inbox hfeed).2 d hd
    exact h.deliveries id a before hbefore d hd
  heartbeats id inbox hfeed slot hd := by
    obtain ⟨before, hbefore, hd⟩ := hslots id inbox hfeed _ hd
    rw [hslot]
    exact h.heartbeats id before hbefore slot hd

theorem Records.newest (h : l.Records writes) {a : Address} {w : RawAccount}
    (hw : writes.find? (·.address = a) = some w) :
    w ∈ writes ∧ w.address = a ∧ ∀ other ∈ writes, other.address = a → other.slot ≤ w.slot := by
  obtain ⟨ha, later, earlier, hwrites, hlater⟩ := List.find?_eq_some_iff_append.mp hw
  subst hwrites
  refine ⟨by simp, by simpa using ha, fun other hother haddress => ?_⟩
  have hsorted := (List.pairwise_append.mp h.sorted).2.1
  rcases List.mem_append.mp hother with hother | hother
  · simpa [haddress] using hlater other hother
  · rcases List.mem_cons.mp hother with rfl | hother
    · exact Nat.le_refl _
    · exact List.rel_of_pairwise_cons hsorted hother

theorem subscribe_eq (l : Ledger) (a : Address) :
    l.subscribe a = if l.reachable then .ok (l.nextFeed, { l with
        accountFeeds := l.accountFeeds.insert l.nextFeed (a, {}), nextFeed := l.nextFeed + 1 })
      else .error (.disconnected .unreachable) := by
  rw [subscribe, ensureReachable]
  split <;> rfl

theorem Records.subscribe (h : l.Records writes) (a : Address) :
    Records writes { l with
      accountFeeds := l.accountFeeds.insert l.nextFeed (a, {}), nextFeed := l.nextFeed + 1 } := by
  refine h.congr rfl rfl ?_ fun id inbox hfeed d hd => ⟨inbox, hfeed, hd⟩
  intro id b inbox hfeed
  rw [Table.find?_insert] at hfeed
  split at hfeed
  case isTrue hid =>
    cases hfeed
    exact ⟨hid ▸ Nat.lt_succ_self _, fun d hd => by cases hd⟩
  case isFalse =>
    exact ⟨Nat.lt_succ_of_lt (h.id_lt id _ hfeed), fun d hd => ⟨inbox, hfeed, hd⟩⟩

theorem Records.dropFeed (h : l.Records writes) (id : Nat) : (l.dropFeed id).Records writes := by
  refine h.congr rfl rfl ?_ ?_
  · intro other a inbox hfeed
    have hfeed := (Table.find?_erase_eq_some.mp hfeed).2
    exact ⟨h.id_lt other _ hfeed, fun d hd => ⟨inbox, hfeed, hd⟩⟩
  · intro other inbox hfeed d hd
    exact ⟨inbox, (Table.find?_erase_eq_some.mp hfeed).2, hd⟩

theorem nextAccount?_eq_some_iff {id : Nat} {d : Delivery RawAccount} {l' : Ledger} :
    l.nextAccount? id = some (d, l') ↔ ∃ a inbox queue,
      l.accountFeeds.find? id = some (a, inbox) ∧ inbox.queue = d :: queue ∧
        l' = { l with accountFeeds := l.accountFeeds.insert id (a, { inbox with queue }) } := by
  simp only [nextAccount?, Option.bind_eq_bind, Option.bind_eq_some_iff, Prod.exists]
  refine exists_congr fun a => exists_congr fun inbox => ?_
  cases hqueue : inbox.queue <;> simp [eq_comm]

theorem Records.nextAccount (h : l.Records writes) {id : Nat} {d : Delivery RawAccount}
    {l' : Ledger} (hl : l.nextAccount? id = some (d, l')) : l'.Records writes := by
  obtain ⟨a, inbox, queue, hfeed, hqueue, rfl⟩ := nextAccount?_eq_some_iff.mp hl
  refine h.congr rfl rfl ?_ fun id inbox hfeed d hd => ⟨inbox, hfeed, hd⟩
  intro other b inbox' hother
  rw [Table.find?_insert] at hother
  split at hother
  case isTrue hid =>
    cases hother
    subst hid
    exact ⟨h.id_lt _ _ hfeed, fun d hd => ⟨inbox, hfeed, hqueue ▸ List.mem_cons_of_mem _ hd⟩⟩
  case isFalse => exact ⟨h.id_lt other _ hother, fun d hd => ⟨inbox', hother, hd⟩⟩

theorem Records.nextSlot (h : l.Records writes) {id : Nat} {d : Delivery Slot} {l' : Ledger}
    (hl : l.nextSlot? id = some (d, l')) :
    l'.Records writes ∧ l'.accountFeeds = l.accountFeeds ∧ l'.slot = l.slot ∧
      ∀ slot, d = .item slot → slot < l.slot := by
  simp only [nextSlot?, Option.bind_eq_bind, Option.bind_eq_some_iff] at hl
  obtain ⟨inbox, hfeed, hl⟩ := hl
  cases hqueue : inbox.queue with
  | nil => simp [hqueue] at hl
  | cons first queue =>
    simp only [hqueue, Option.some.injEq, Prod.mk.injEq] at hl
    obtain ⟨rfl, rfl⟩ := hl
    refine ⟨h.congr rfl rfl ?_ ?_, rfl, rfl, ?_⟩
    · intro id a inbox hfeed
      exact ⟨h.id_lt id _ hfeed, fun d hd => ⟨inbox, hfeed, hd⟩⟩
    · intro other inbox' hother d hd
      rw [Table.find?_insert] at hother
      split at hother
      case isTrue hid =>
        cases hother
        subst hid
        exact ⟨inbox, hfeed, hqueue ▸ List.mem_cons_of_mem _ hd⟩
      case isFalse => exact ⟨inbox', hother, hd⟩
    · rintro slot rfl
      exact h.heartbeats id inbox hfeed slot (hqueue ▸ List.mem_cons_self)

inductive Reaches (heartbeats : Bool) : Ledger → List RawAccount → Prop
  | start : Reaches heartbeats { heartbeats } []
  | perform {l : Ledger} {writes : List RawAccount} (h : Reaches heartbeats l writes) (op : Op) :
      Reaches heartbeats (l.perform op) (l.written op ++ writes)

theorem Reaches.records {heartbeats : Bool} (h : l.Reaches heartbeats writes) :
    l.Records writes := by
  induction h with
  | start => constructor <;> simp
  | perform _ op ih => exact ih.perform op

end Ledger

end Solvency
