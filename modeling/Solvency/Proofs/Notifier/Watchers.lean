import Mathlib.Data.Finset.Card
import Solvency.Proofs.Notifier.History

/-! The notifier keeps count of its watchers. The receivers of the channel that an address has
are its open streams, and an address is released as often as their number falls from one to
zero. -/

namespace Solvency.Notifier

namespace History

/-- The streams of an address that are open. -/
def openStreams (h : History) (a : Address) : Finset Nat :=
  {id ∈ Finset.range h.opened | h.watching? id = some a}

def watchers (h : History) (a : Address) : Nat := (h.openStreams a).card

/-- How often the number of open streams of an address went from one to zero. -/
def closings : History → Address → Nat
  | [], _ => 0
  | op :: h, a => closings h a + if watchers h a = 1 ∧ watchers (op :: h) a = 0 then 1 else 0

variable {h : History} {a b : Address} {id : Nat}

theorem mem_openStreams : id ∈ h.openStreams a ↔ h.watching? id = some a := by
  simp only [openStreams, Finset.mem_filter, Finset.mem_range, and_iff_right_iff_imp]
  exact lt_opened

theorem watchers_pos_iff : 0 < h.watchers a ↔ ∃ id, h.watching? id = some a := by
  simp only [watchers, Finset.card_pos, Finset.Nonempty, mem_openStreams]

theorem openStreams_subscribe :
    openStreams (.subscribe b :: h) a =
      if b = a then insert h.opened (h.openStreams a) else h.openStreams a := by
  have hnew : h.watching? h.opened ≠ some a := fun hid => Nat.lt_irrefl _ (lt_opened hid)
  ext id
  by_cases hid : id = h.opened <;> by_cases hb : b = a <;>
    simp [mem_openStreams, watching?, hid, hb, hnew]

theorem openStreams_drop : openStreams (.drop id :: h) a = (h.openStreams a).erase id := by
  ext other
  by_cases hother : other = id <;> simp [mem_openStreams, watching?, hother]

theorem watchers_le_subscribe : watchers h a ≤ watchers (.subscribe b :: h) a := by
  refine Finset.card_le_card ?_
  rw [openStreams_subscribe]
  split
  · exact Finset.subset_insert _ _
  · exact Finset.Subset.refl _

theorem watchers_le_cons {op : Op} (hop : ∀ id, op ≠ .drop id) :
    watchers h a ≤ watchers (op :: h) a := by
  cases op with
  | subscribe b => exact watchers_le_subscribe
  | drop id => exact absurd rfl (hop id)
  | poll id => exact Nat.le_refl _
  | publish b s => exact Nat.le_refl _
  | invalidate => exact Nat.le_refl _
  | withdraw b => exact Nat.le_refl _

theorem watchers_drop (hid : h.watching? id = some a) :
    watchers (.drop id :: h) a + 1 = watchers h a := by
  rw [watchers, watchers, openStreams_drop]
  exact Finset.card_erase_add_one (mem_openStreams.mpr hid)

theorem watchers_drop_of_ne (hid : h.watching? id ≠ some a) :
    watchers (.drop id :: h) a = watchers h a := by
  rw [watchers, watchers, openStreams_drop, Finset.erase_eq_of_notMem]
  exact fun hmem => hid (mem_openStreams.mp hmem)

end History

variable {h : History} {n : Notifier} {a : Address} {id : Nat} {stream : Stream}

/-- The streams that read from the channel of an address are those of the address. -/
theorem Tracks.receiverCount_eq (ht : Tracks h n) {channel : Nat}
    (ha : n.senders.find? a = some channel) : n.receiverCount channel = h.watchers a := by
  refine Table.countP_values_eq_card ht.proper.nodup fun id => ?_
  rw [History.mem_openStreams, ← ht.streams, Option.map_eq_some_iff]
  refine exists_congr fun stream => and_congr_right fun hid => ?_
  rw [beq_iff_eq, ht.proper.address_eq_iff ha hid]

theorem Tracks.isWatched_iff_pos (ht : Tracks h n) (a : Address) :
    n.isWatched a = true ↔ 0 < h.watchers a := by
  rw [ht.isWatched_eq, History.isWatched_iff, History.watchers_pos_iff]

theorem Tracks.watcherCount_eq (ht : Tracks h n) (a : Address) :
    n.watcherCount a = h.watchers a := by
  cases ha : n.senders.find? a with
  | none =>
    have hclosed : ¬ 0 < h.watchers a := by
      rw [← ht.isWatched_iff_pos, ← ht.proper.sender_isSome_iff, ha]
      exact Bool.false_ne_true
    rw [watcherCount, ha, Nat.eq_zero_of_not_pos hclosed]
    rfl
  | some channel =>
    rw [watcherCount, ha]
    exact ht.receiverCount_eq ha

theorem Tracks.isWatched_forget_iff (ht : Tracks h n) (hid : n.streams.find? id = some stream)
    (a : Address) :
    (n.forget id).isWatched a = true ↔ 0 < History.watchers (.drop id :: h) a := by
  have hdropped := (ht.proper.keeps_drop id).proper.toAttached
  have hstreams : (n.forget id).streams = (n.drop id).streams :=
    (streams_drop ht.proper.toAttached hid).1.symm
  rw [← (ht.drop id).isWatched_iff_pos, (ht.proper.toAttached.forget id).isWatched_iff,
    hdropped.isWatched_iff, hstreams]

/-- Closing a stream releases its address exactly if no other stream of it is open. -/
theorem Tracks.count_released_drop (ht : Tracks h n) (id : Nat) (a : Address) :
    (n.drop id).released.count a = n.released.count a +
      if h.watchers a = 1 ∧ History.watchers (.drop id :: h) a = 0 then 1 else 0 := by
  have hid := ht.streams id
  cases hstream : n.streams.find? id with
  | none =>
    have hsame : History.watchers (.drop id :: h) a = h.watchers a := by
      apply History.watchers_drop_of_ne
      simp [← hid, hstream]
    rw [drop_of_closed hstream, hsame, if_neg (by omega), Nat.add_zero]
  | some stream =>
    have hafter := ht.isWatched_forget_iff hstream stream.address
    rw [hstream, Option.map_some] at hid
    rw [drop_of_open ht.proper.toAttached hstream]
    by_cases hmine : stream.address = a
    · rw [hmine] at hid hafter ⊢
      have hone := History.watchers_drop hid.symm
      by_cases hlast : (n.forget id).isWatched a = true
      · have hpos := hafter.mp hlast
        rw [if_pos hlast, if_neg (by omega)]
        rfl
      · have hzero : History.watchers (.drop id :: h) a = 0 :=
          Nat.eq_zero_of_not_pos fun hpos => hlast (hafter.mpr hpos)
        rw [if_neg hlast, if_pos (by omega)]
        simp [retire, forget]
    · have hsame : History.watchers (.drop id :: h) a = h.watchers a := by
        apply History.watchers_drop_of_ne
        simp [← hid, hmine]
      have hnone : ¬ (h.watchers a = 1 ∧ h.watchers a = 0) := by omega
      rw [hsame, if_neg hnone, Nat.add_zero]
      split
      case isTrue => rfl
      case isFalse => simp [retire, forget, hmine]

theorem released_perform {op : Op} (hop : ∀ id, op ≠ .drop id) :
    (n.perform op).released = n.released := by
  cases op with
  | drop id => exact absurd rfl (hop id)
  | poll id =>
    rw [perform, Notifier.poll]
    split
    · rfl
    · split <;> rfl
  | subscribe b => exact n.released_channelOf b
  | publish b s => exact n.released_alter b _
  | invalidate => rfl
  | withdraw b => exact n.released_alter b _

theorem Tracks.count_released (ht : Tracks h n) (op : Op) (a : Address) :
    (n.perform op).released.count a = n.released.count a +
      if h.watchers a = 1 ∧ History.watchers (op :: h) a = 0 then 1 else 0 := by
  by_cases hop : ∀ id, op ≠ .drop id
  · have hle := History.watchers_le_cons (h := h) (a := a) hop
    rw [released_perform hop, if_neg (by omega), Nat.add_zero]
  · push Not at hop
    obtain ⟨id, rfl⟩ := hop
    exact ht.count_released_drop id a

theorem count_released_notifier (h : History) (a : Address) :
    h.notifier.released.count a = h.closings a := by
  induction h with
  | nil => rfl
  | cons op h ih =>
    have ht := (History.refines h).toTracks
    rw [History.notifier, ht.count_released op a, ih, History.closings]

theorem Proper.mem_watched_iff (hn : n.Proper) : a ∈ n.watched ↔ n.isWatched a = true := by
  simp only [watched, List.mem_map, List.mem_filter, decide_eq_true_eq]
  constructor
  · rintro ⟨entry, ⟨hentry, hread⟩, rfl⟩
    exact (isWatched_of_sender (Table.find?_of_mem_entries hn.nodupSenders hentry)).mpr hread
  · intro ha
    obtain ⟨channel, _, hsender, _⟩ := hn.exists_channel ha
    exact ⟨(a, channel), ⟨Table.mem_entries_of_find? hsender, hn.read a channel hsender⟩, rfl⟩

theorem Proper.nodup_watched (hn : n.Proper) : n.watched.Nodup :=
  hn.nodupSenders.sublist (List.filter_sublist.map _)

/-- The receivers of the channel of an address are counted by the streams of it that are open.
There is a channel, publishing finds someone and the address is listed exactly while one is, and
the address has been released as often as their number fell from one to zero. All of them read
from the channel that snapshots of the address are sent to, which is open. -/
theorem watchers_accounted (h : History) (a : Address) :
    h.notifier.watcherCount a = h.watchers a ∧
      (h.notifier.senders.contains a = true ↔ 0 < h.watchers a) ∧
      (∀ s, (h.notifier.publish a s).1 = true ↔ 0 < h.watchers a) ∧
      (a ∈ h.notifier.watched ↔ 0 < h.watchers a) ∧ h.notifier.watched.Nodup ∧
      h.notifier.released.count a = h.closings a ∧
      ∀ id, h.watching? id = some a → ∃ stream channel,
        h.notifier.streams.find? id = some stream ∧ stream.address = a ∧
        h.notifier.senders.find? a = some stream.channel ∧
        h.notifier.channels.find? stream.channel = some channel ∧ channel.isOpen = true := by
  have ht := h.refines.toTracks
  have hwatched := ht.isWatched_iff_pos a
  refine ⟨ht.watcherCount_eq a, (ht.proper.sender_isSome_iff a).trans hwatched, fun _ => hwatched,
    ht.proper.mem_watched_iff.trans hwatched, ht.proper.nodup_watched,
    count_released_notifier h a, fun id hid => ?_⟩
  rw [← ht.streams] at hid
  obtain ⟨stream, hstream, rfl⟩ := Option.map_eq_some_iff.mp hid
  obtain ⟨channel, hchannel, hopen, _⟩ := ht.proper.channel_of_stream hstream
  exact ⟨stream, channel, hstream, rfl, ht.proper.hangs id stream hstream, hchannel, hopen⟩

end Solvency.Notifier
