import Solvency.Proofs.Ledger.History
import Solvency.Ledger.Transport

/-! What a ledger keeps apart however it is changed. No change opens a subscription, and
no address is sent the record of another. -/

namespace Solvency

namespace Ledger

/-- What may be done to a ledger. Taking an account away tells nobody. -/
inductive Change where
  | op (op : Op)
  | removeAccount (address : Address)

def change (l : Ledger) : Change → Ledger
  | .op op => l.perform op
  | .removeAccount address => l.removeAccount address

/-- Records are kept and sent under their own address. -/
structure Addressed (l : Ledger) : Prop where
  accounts : ∀ a raw, l.accounts.find? a = some raw → raw.address = a
  items : ∀ id a inbox, l.accountFeeds.find? id = some (a, inbox) → ∀ raw,
    .item raw ∈ inbox.queue → raw.address = a

/-- The subscriptions of `l'` are some of those of `l`, with nothing put under a wrong address. -/
structure Narrows (l l' : Ledger) : Prop where
  accounts : ∀ a raw, l'.accounts.find? a = some raw →
    l.accounts.find? a = some raw ∨ raw.address = a
  nodup : l.accountFeeds.keys.Nodup → l'.accountFeeds.keys.Nodup
  nextFeed : l.nextFeed ≤ l'.nextFeed
  feeds : ∀ id a inbox, l'.accountFeeds.find? id = some (a, inbox) →
    ∃ before, l.accountFeeds.find? id = some (a, before) ∧ ∀ raw,
      .item raw ∈ inbox.queue → .item raw ∈ before.queue ∨ raw.address = a
  slotFeeds : ∀ id inbox, l'.slotFeeds.find? id = some inbox →
    ∃ before, l.slotFeeds.find? id = some before

structure Keeps (l l' : Ledger) : Prop extends l.Narrows l' where
  held : ∀ id a inbox, l.accountFeeds.find? id = some (a, inbox) →
    ∃ after, l'.accountFeeds.find? id = some (a, after)

variable {l l' : Ledger}

theorem addressed_empty (heartbeats : Bool) : Addressed { heartbeats } := ⟨nofun, nofun⟩

theorem Addressed.narrows (h : l.Addressed) (hnarrows : l.Narrows l') : l'.Addressed where
  accounts a raw hraw := (hnarrows.accounts a raw hraw).elim (h.accounts a raw) id
  items id a inbox hfeed raw hraw := by
    obtain ⟨before, hbefore, hitems⟩ := hnarrows.feeds id a inbox hfeed
    exact (hitems raw hraw).elim (h.items id a before hbefore raw) fun ha => ha

theorem Narrows.refl (l : Ledger) : l.Narrows l :=
  ⟨fun _ _ => .inl, id, Nat.le_refl _, fun _ _ inbox hfeed => ⟨inbox, hfeed, fun _ => .inl⟩,
    fun _ inbox hfeed => ⟨inbox, hfeed⟩⟩

theorem Keeps.refl (l : Ledger) : l.Keeps l := ⟨.refl l, fun _ _ inbox hfeed => ⟨inbox, hfeed⟩⟩

theorem Narrows.trans {l'' : Ledger} (h : l.Narrows l') (h' : l'.Narrows l'') : l.Narrows l'' where
  accounts a raw hraw := (h'.accounts a raw hraw).elim (h.accounts a raw) .inr
  nodup hnodup := h'.nodup (h.nodup hnodup)
  nextFeed := Nat.le_trans h.nextFeed h'.nextFeed
  feeds id a inbox hfeed := by
    obtain ⟨between, hbetween, hitems'⟩ := h'.feeds id a inbox hfeed
    obtain ⟨before, hbefore, hitems⟩ := h.feeds id a between hbetween
    exact ⟨before, hbefore, fun raw hraw => (hitems' raw hraw).elim (hitems raw) .inr⟩
  slotFeeds id inbox hfeed := by
    obtain ⟨between, hbetween⟩ := h'.slotFeeds id inbox hfeed
    exact h.slotFeeds id between hbetween

theorem Keeps.trans {l'' : Ledger} (h : l.Keeps l') (h' : l'.Keeps l'') : l.Keeps l'' where
  toNarrows := h.toNarrows.trans h'.toNarrows
  held id a inbox hfeed := by
    obtain ⟨between, hbetween⟩ := h.held id a inbox hfeed
    exact h'.held id a between hbetween

theorem keys_mapAccountFeeds (f : Address → Inbox RawAccount → Inbox RawAccount) :
    (l.mapAccountFeeds f).accountFeeds.keys = l.accountFeeds.keys := by
  simp [mapAccountFeeds, Table.keys]

theorem keys_accountFeeds_perform (op : Op) :
    (l.perform op).accountFeeds.keys = l.accountFeeds.keys := by
  cases op with
  | setRaw address tag data => exact keys_mapAccountFeeds _
  | advanceSlot => rfl
  | disconnect => exact keys_mapAccountFeeds (l := l) fun _ => Inbox.cut
  | setReachable reachable => rfl

theorem exists_slotFeed_of_map {f : Inbox Slot → Inbox Slot} {id : Nat} {inbox : Inbox Slot}
    (h : (l.mapSlotFeeds f).slotFeeds.find? id = some inbox) :
    ∃ before, l.slotFeeds.find? id = some before := by
  rw [find?_mapSlotFeeds, Option.map_eq_some_iff] at h
  obtain ⟨before, hbefore, _⟩ := h
  exact ⟨before, hbefore⟩

theorem keeps_perform (l : Ledger) (op : Op) : l.Keeps (l.perform op) where
  accounts a raw hraw := by
    cases op with
    | setRaw address tag data =>
      have hraw : (l.accounts.insert address ⟨address, l.slot, tag, data⟩).find? a = some raw :=
        hraw
      rw [Table.find?_insert] at hraw
      split at hraw
      · cases hraw
        exact .inr (Eq.symm ‹_›)
      · exact .inl hraw
    | advanceSlot => exact .inl hraw
    | disconnect => exact .inl hraw
    | setReachable reachable => exact .inl hraw
  nodup h := by rwa [keys_accountFeeds_perform]
  nextFeed := by cases op <;> exact Nat.le_refl _
  feeds id a inbox hfeed := by
    rw [find?_accountFeeds_perform, Option.map_eq_some_iff] at hfeed
    obtain ⟨⟨b, before⟩, hbefore, heq⟩ := hfeed
    cases heq
    refine ⟨before, hbefore, fun raw hraw => ?_⟩
    rcases mem_delivered hraw with hraw | ⟨w, _, hw, heq⟩ | heq
    · exact .inl hraw
    · cases heq
      exact .inr hw
    · cases heq
  slotFeeds id inbox hfeed := by
    cases op with
    | setRaw address tag data => exact ⟨inbox, hfeed⟩
    | advanceSlot => exact exists_slotFeed_of_map (f := (·.send l.slot)) hfeed
    | disconnect => exact exists_slotFeed_of_map (l := l) (f := Inbox.cut) hfeed
    | setReachable reachable => exact ⟨inbox, hfeed⟩
  held id a inbox hfeed := ⟨_, by rw [find?_accountFeeds_perform, hfeed]; rfl⟩

theorem keeps_change (l : Ledger) (c : Change) : l.Keeps (l.change c) := by
  cases c with
  | op op => exact l.keeps_perform op
  | removeAccount address =>
    have h := Keeps.refl l
    exact ⟨⟨fun a raw hraw => .inl (Table.find?_erase_eq_some.mp hraw).2, h.nodup, h.nextFeed,
      h.feeds, h.slotFeeds⟩, h.held⟩

theorem keeps_foldl_change (changes : List Change) (l : Ledger) :
    l.Keeps (changes.foldl change l) := by
  induction changes generalizing l with
  | nil => exact .refl l
  | cons c rest ih => exact (l.keeps_change c).trans (ih (l.change c))

theorem narrows_dropFeed (l : Ledger) (id : Nat) : l.Narrows (l.dropFeed id) where
  accounts _ _ := .inl
  nodup h := Table.nodup_keys_erase h id
  nextFeed := Nat.le_refl _
  feeds _ _ inbox hfeed := ⟨inbox, (Table.find?_erase_eq_some.mp hfeed).2, fun _ => .inl⟩
  slotFeeds _ inbox hfeed := ⟨inbox, (Table.find?_erase_eq_some.mp hfeed).2⟩

/-- Dropping subscriptions leaves those alone that are not among them. -/
theorem feeds_foldl_dropFeed (ids : List Nat) (l : Ledger) :
    l.Narrows (ids.foldl dropFeed l) ∧
      (∀ id feed, (ids.foldl dropFeed l).accountFeeds.find? id = some feed → id ∉ ids) ∧
      ∀ id inbox, (ids.foldl dropFeed l).slotFeeds.find? id = some inbox → id ∉ ids := by
  induction ids generalizing l with
  | nil => exact ⟨.refl l, fun _ _ _ => List.not_mem_nil, fun _ _ _ => List.not_mem_nil⟩
  | cons first rest ih =>
    obtain ⟨hnarrows, haccounts, hslots⟩ := ih (l.dropFeed first)
    refine ⟨(l.narrows_dropFeed first).trans hnarrows, fun id feed hfeed hid => ?_,
      fun id inbox hfeed hid => ?_⟩
    · rcases List.mem_cons.mp hid with rfl | hid
      · obtain ⟨before, hbefore, _⟩ := hnarrows.feeds id feed.1 feed.2 hfeed
        exact (Table.find?_erase_eq_some.mp hbefore).1 rfl
      · exact haccounts id feed hfeed hid
    · rcases List.mem_cons.mp hid with rfl | hid
      · obtain ⟨before, hbefore⟩ := hnarrows.slotFeeds id inbox hfeed
        exact (Table.find?_erase_eq_some.mp hbefore).1 rfl
      · exact hslots id inbox hfeed hid

/-- What is read next was the first thing unread. -/
theorem keeps_nextAccount {id : Nat} {d : Delivery RawAccount}
    (h : l.nextAccount? id = some (d, l')) : l.Keeps l' := by
  obtain ⟨a, inbox, queue, hfeed, hqueue, rfl⟩ := nextAccount?_eq_some_iff.mp h
  refine ⟨⟨fun _ _ => .inl, fun hnodup => Table.nodup_keys_insert hnodup _ _, Nat.le_refl _, ?_,
    fun _ inbox hslot => ⟨inbox, hslot⟩⟩, ?_⟩
  · intro other b inbox' hother
    rw [Table.find?_insert] at hother
    split at hother
    case isTrue hid =>
      cases hother
      exact ⟨inbox, hid ▸ hfeed, fun raw hraw => .inl (hqueue ▸ List.mem_cons_of_mem _ hraw)⟩
    case isFalse => exact ⟨inbox', hother, fun _ => .inl⟩
  · intro other b inbox' hother
    rw [Table.find?_insert]
    split
    case isTrue hid =>
      cases (hid ▸ hfeed).symm.trans hother
      exact ⟨_, rfl⟩
    case isFalse => exact ⟨inbox', hother⟩

theorem keeps_nextSlot {id : Nat} {d : Delivery Slot} (h : l.nextSlot? id = some (d, l')) :
    l.Keeps l' := by
  simp only [nextSlot?, Option.bind_eq_bind, Option.bind_eq_some_iff] at h
  obtain ⟨inbox, hfeed, h⟩ := h
  cases hqueue : inbox.queue with
  | nil => simp [hqueue] at h
  | cons first queue =>
    simp only [hqueue, Option.some.injEq, Prod.mk.injEq] at h
    obtain ⟨rfl, rfl⟩ := h
    have h := Keeps.refl l
    refine ⟨⟨h.accounts, h.nodup, h.nextFeed, h.feeds, ?_⟩, h.held⟩
    intro other inbox' hother
    rw [Table.find?_insert] at hother
    split at hother
    case isTrue hid => exact ⟨inbox, hid ▸ hfeed⟩
    case isFalse => exact ⟨inbox', hother⟩

end Ledger

/-- The ways in which a stream goes wrong under its reader. -/
inductive Breach where
  | failure (error : Failure)
  | ended

def Breach.delivery {α : Type} : Breach → Delivery α
  | failure error => .failure error
  | ended => .ended

theorem Breach.delivery_ne_item {α : Type} (breach : Breach) (value : α) :
    breach.delivery ≠ .item value := by
  cases breach <;> nofun

namespace Transport

theorem keeps_inject (t : Transport) (a : Address) (breach : Breach) :
    t.ledger.Keeps (t.inject a breach.delivery).2.ledger := by
  rw [inject]
  split
  · exact .refl _
  case h_2 id _ =>
    refine ⟨⟨fun _ _ => .inl, fun h => ?_, Nat.le_refl _, ?_, fun _ inbox hslot => ⟨inbox, hslot⟩⟩,
      ?_⟩
    · simpa only [Table.keys_modify] using h
    · intro other b inbox hother
      simp only [Table.find?_modify] at hother
      split at hother
      case isTrue =>
        obtain ⟨⟨b, before⟩, hbefore, heq⟩ := Option.map_eq_some_iff.mp hother
        cases heq
        refine ⟨before, hbefore, fun raw hraw => .inl ?_⟩
        refine (List.mem_append.mp hraw).elim (fun hraw => hraw) fun hraw => ?_
        exact absurd (List.mem_singleton.mp hraw).symm (breach.delivery_ne_item raw)
      case isFalse => exact ⟨inbox, hother, fun _ => .inl⟩
    · intro other b inbox hother
      simp only [Table.find?_modify, hother]
      split <;> exact ⟨_, rfl⟩

theorem keeps_injectSlot (t : Transport) (d : Delivery Slot) :
    t.ledger.Keeps (t.injectSlot d).2.ledger := by
  rw [injectSlot]
  split
  · exact .refl _
  case h_2 id _ =>
    have h := Ledger.Keeps.refl t.ledger
    refine ⟨⟨h.accounts, h.nodup, h.nextFeed, h.feeds, ?_⟩, h.held⟩
    intro other inbox hother
    simp only [Table.find?_modify] at hother
    split at hother
    · obtain ⟨before, hbefore, _⟩ := Option.map_eq_some_iff.mp hother
      exact ⟨before, hbefore⟩
    · exact ⟨inbox, hother⟩

end Transport

end Solvency
