import Solvency.Notifier
import Solvency.Proofs.Collections

/-! Who watches what. Every open stream reads from the channel that its address has, and an
address keeps its channel as long as a stream of it is open. What the channel holds changes
only when something is offered to it or taken back. -/

namespace Solvency

/-- What one snapshot says the other says at its own time. -/
def Snapshot.Agrees (s t : Snapshot) : Prop := { s with computedAt := t.computedAt } = t

instance (s t : Snapshot) : Decidable (s.Agrees t) := inferInstanceAs (Decidable (_ = t))

theorem Snapshot.agrees_self (s : Snapshot) : s.Agrees s := rfl

theorem Snapshot.sameState_iff {s t : Snapshot} : s.sameState t = true ↔ s.Agrees t := by
  cases s
  cases t
  simp [sameState, Agrees, and_assoc]

namespace Notifier

variable {n : Notifier} {a b : Address} {id channel : Nat} {stream : Stream}

/-- Streams and addresses agree on their channels. The channel of an address is its own, and
it is open. -/
structure Attached (n : Notifier) : Prop where
  nodup : n.streams.keys.Nodup
  nodupSenders : n.senders.keys.Nodup
  nodupChannels : n.channels.keys.Nodup
  id_lt : ∀ id stream, n.streams.find? id = some stream → id < n.nextStream
  hangs : ∀ id stream, n.streams.find? id = some stream →
    n.senders.find? stream.address = some stream.channel
  apart : ∀ a b channel, n.senders.find? a = some channel →
    n.senders.find? b = some channel → a = b
  channel_lt : ∀ a channel, n.senders.find? a = some channel → channel < n.nextChannel
  carried : ∀ a channel, n.senders.find? a = some channel →
    ∃ held, n.channels.find? channel = some held ∧ held.isOpen = true

structure Proper (n : Notifier) : Prop extends Attached n where
  read : ∀ a channel, n.senders.find? a = some channel → 0 < n.receiverCount channel

theorem proper_empty : ({} : Notifier).Proper where
  nodup := .nil
  nodupSenders := .nil
  nodupChannels := .nil
  id_lt _ _ := nofun
  hangs _ _ := nofun
  apart _ _ _ := nofun
  channel_lt _ _ := nofun
  carried _ _ := nofun
  read _ _ := nofun

theorem Proper.withReleased (h : n.Proper) (released : List Address) :
    Proper { n with released } :=
  ⟨⟨h.nodup, h.nodupSenders, h.nodupChannels, h.id_lt, h.hangs, h.apart, h.channel_lt, h.carried⟩,
    h.read⟩

theorem receiverCount_pos_iff (h : n.streams.keys.Nodup) : 0 < n.receiverCount channel ↔
    ∃ id stream, n.streams.find? id = some stream ∧ stream.channel = channel := by
  simp only [receiverCount, List.countP_pos_iff, beq_iff_eq]
  constructor
  · rintro ⟨stream, hmem, hchannel⟩
    obtain ⟨id, hid⟩ := Table.exists_find?_of_mem_values h hmem
    exact ⟨id, stream, hid, hchannel⟩
  · rintro ⟨id, stream, hid, hchannel⟩
    exact ⟨stream, Table.mem_values_of_find? hid, hchannel⟩

theorem isWatched_of_sender (ha : n.senders.find? a = some channel) :
    n.isWatched a = true ↔ 0 < n.receiverCount channel := by
  simp [isWatched, ha]

/-- The streams of the channel that an address has are the streams of the address. -/
theorem Attached.address_eq_iff (h : n.Attached) (ha : n.senders.find? a = some channel)
    (hid : n.streams.find? id = some stream) : stream.address = a ↔ stream.channel = channel := by
  have hhangs := h.hangs id stream hid
  constructor
  · rintro rfl
    exact Option.some.inj (hhangs.symm.trans ha)
  · rintro rfl
    exact h.apart _ _ _ hhangs ha

theorem Attached.isWatched_iff (h : n.Attached) : n.isWatched a = true ↔
    ∃ id stream, n.streams.find? id = some stream ∧ stream.address = a := by
  cases ha : n.senders.find? a with
  | none =>
    refine iff_of_false (by simp [isWatched, ha]) ?_
    rintro ⟨id, stream, hid, rfl⟩
    cases ha.symm.trans (h.hangs id stream hid)
  | some channel =>
    rw [isWatched_of_sender ha, receiverCount_pos_iff h.nodup]
    refine exists_congr fun id => exists_congr fun stream => and_congr_right fun hid => ?_
    exact (h.address_eq_iff ha hid).symm

theorem Proper.sender_isSome_iff (h : n.Proper) (a : Address) :
    (n.senders.find? a).isSome = true ↔ n.isWatched a = true := by
  cases ha : n.senders.find? a with
  | none => simp [isWatched, ha]
  | some channel => exact iff_of_true rfl ((isWatched_of_sender ha).mpr (h.read a channel ha))

theorem Proper.exists_channel (h : n.Proper) (ha : n.isWatched a = true) :
    ∃ channel held, n.senders.find? a = some channel ∧ n.channels.find? channel = some held := by
  obtain ⟨channel, hsender⟩ := Option.isSome_iff_exists.mp ((h.sender_isSome_iff a).mpr ha)
  obtain ⟨held, hheld, _⟩ := h.carried a channel hsender
  exact ⟨channel, held, hsender, hheld⟩

theorem latest?_eq_of_sender (ha : n.senders.find? a = some channel) :
    n.latest? a = (n.channels.find? channel).bind (·.value) := by
  simp [latest?, ha]

theorem latest?_of_not_sender (ha : n.senders.find? a = none) : n.latest? a = none := by
  simp [latest?, ha]

theorem Proper.latest?_of_not_watched (h : n.Proper) (ha : n.isWatched a = false) :
    n.latest? a = none := by
  refine latest?_of_not_sender (Option.not_isSome_iff_eq_none.mp fun hsome => ?_)
  rw [(h.sender_isSome_iff a).mp hsome] at ha
  cases ha

section Subscribe

theorem channelOf_of_sender (ha : n.senders.find? a = some channel) :
    n.channelOf a = (channel, n) := by
  rw [channelOf, ha]

theorem channelOf_of_none (ha : n.senders.find? a = none) :
    n.channelOf a = (n.nextChannel, { n with
      senders := n.senders.insert a n.nextChannel
      channels := n.channels.insert n.nextChannel {}
      nextChannel := n.nextChannel + 1 }) := by
  rw [channelOf, ha]

theorem find?_senders_channelOf (n : Notifier) (a b : Address) :
    (n.channelOf a).2.senders.find? b =
      if b = a then some (n.channelOf a).1 else n.senders.find? b := by
  cases ha : n.senders.find? a with
  | none =>
    rw [channelOf_of_none ha]
    exact n.senders.find?_insert a b n.nextChannel
  | some channel =>
    rw [channelOf_of_sender ha]
    by_cases hb : b = a <;> simp [hb, ha]

theorem streams_channelOf (n : Notifier) (a : Address) :
    (n.channelOf a).2.streams = n.streams ∧ (n.channelOf a).2.nextStream = n.nextStream := by
  rw [channelOf]
  split <;> exact ⟨rfl, rfl⟩

theorem released_channelOf (n : Notifier) (a : Address) :
    (n.channelOf a).2.released = n.released := by
  rw [channelOf]
  split <;> rfl

theorem Attached.channelOf (h : n.Attached) (a : Address) : (n.channelOf a).2.Attached := by
  cases ha : n.senders.find? a with
  | some channel =>
    rw [channelOf_of_sender ha]
    exact h
  | none =>
    have hfind := n.find?_senders_channelOf a
    rw [channelOf_of_none ha] at hfind ⊢
    have hfresh : ∀ {b channel}, n.senders.find? b = some channel → channel ≠ n.nextChannel :=
      fun hb => Nat.ne_of_lt (h.channel_lt _ _ hb)
    refine ⟨h.nodup, Table.nodup_keys_insert h.nodupSenders a _,
      Table.nodup_keys_insert h.nodupChannels _ _, h.id_lt, fun id stream hid => ?_,
      fun b c channel hb hc => ?_, fun b channel hb => ?_, fun b channel hb => ?_⟩
    · have hhangs := h.hangs id stream hid
      rw [hfind, if_neg (by rintro rfl; cases ha.symm.trans hhangs)]
      exact hhangs
    · rw [hfind] at hb hc
      split at hb <;> split at hc
      case isTrue.isTrue hb' hc' => exact hb'.trans hc'.symm
      case isTrue.isFalse =>
        cases hb
        exact absurd rfl (hfresh hc)
      case isFalse.isTrue =>
        cases hc
        exact absurd rfl (hfresh hb)
      case isFalse.isFalse => exact h.apart b c channel hb hc
    · rw [hfind] at hb
      split at hb
      case isTrue =>
        cases hb
        exact Nat.lt_succ_self _
      case isFalse => exact Nat.lt_succ_of_lt (h.channel_lt b channel hb)
    · rw [hfind] at hb
      split at hb
      case isTrue =>
        cases hb
        exact ⟨{}, by simp [Table.find?_insert], rfl⟩
      case isFalse =>
        obtain ⟨held, hheld, hopen⟩ := h.carried b channel hb
        exact ⟨held, by simpa [Table.find?_insert, hfresh hb] using hheld, hopen⟩

theorem find?_streams_subscribe (n : Notifier) (a : Address) (id : Nat) :
    (n.subscribe a).2.streams.find? id =
      if id = n.nextStream then some ⟨a, (n.channelOf a).1, none⟩ else n.streams.find? id := by
  obtain ⟨hstreams, hnext⟩ := n.streams_channelOf a
  rw [subscribe]
  dsimp only
  rw [Table.find?_insert, hstreams, hnext]

theorem find?_senders_subscribe (n : Notifier) (a b : Address) :
    (n.subscribe a).2.senders.find? b =
      if b = a then some (n.channelOf a).1 else n.senders.find? b :=
  n.find?_senders_channelOf a b

theorem Attached.subscribe (h : n.Attached) (a : Address) : (n.subscribe a).2.Attached := by
  have hbefore := h.channelOf a
  refine ⟨Table.nodup_keys_insert hbefore.nodup _ _, hbefore.nodupSenders, hbefore.nodupChannels,
    fun id stream hid => ?_, fun id stream hid => ?_, hbefore.apart, hbefore.channel_lt,
    hbefore.carried⟩
  · have hnext : (n.subscribe a).2.nextStream = n.nextStream + 1 :=
      congrArg (· + 1) (n.streams_channelOf a).2
    rw [find?_streams_subscribe] at hid
    rw [hnext]
    split at hid
    case isTrue heq => exact heq ▸ Nat.lt_succ_self _
    case isFalse => exact Nat.lt_succ_of_lt (h.id_lt id stream hid)
  · rw [find?_streams_subscribe] at hid
    split at hid
    case isTrue =>
      cases hid
      rw [find?_senders_subscribe, if_pos rfl]
    case isFalse =>
      refine hbefore.hangs id stream ?_
      rwa [(n.streams_channelOf a).1]

theorem find?_channels_subscribe (hlt : channel < n.nextChannel) :
    (n.subscribe a).2.channels.find? channel = n.channels.find? channel := by
  change (n.channelOf a).2.channels.find? channel = n.channels.find? channel
  cases ha : n.senders.find? a with
  | some own => rw [channelOf_of_sender ha]
  | none =>
    rw [channelOf_of_none ha, Table.find?_insert, if_neg (Nat.ne_of_lt hlt)]

theorem isWatched_subscribe (h : n.Proper) :
    (n.subscribe a).2.isWatched b = true ↔ b = a ∨ n.isWatched b = true := by
  rw [(h.toAttached.subscribe a).isWatched_iff, h.toAttached.isWatched_iff]
  simp only [find?_streams_subscribe]
  constructor
  · rintro ⟨id, stream, hid, hb⟩
    split at hid
    · cases hid
      exact .inl hb.symm
    · exact .inr ⟨id, stream, hid, hb⟩
  · rintro (rfl | ⟨id, stream, hid, hb⟩)
    · exact ⟨n.nextStream, _, if_pos rfl, rfl⟩
    · have hne : id ≠ n.nextStream := Nat.ne_of_lt (h.id_lt id stream hid)
      exact ⟨id, stream, by rw [if_neg hne, hid], hb⟩

theorem Proper.subscribe (h : n.Proper) (a : Address) : (n.subscribe a).2.Proper where
  toAttached := h.toAttached.subscribe a
  read b channel hb := by
    rw [← isWatched_of_sender hb, isWatched_subscribe h, ← h.sender_isSome_iff]
    rw [find?_senders_subscribe] at hb
    by_cases heq : b = a
    · exact .inl heq
    · rw [if_neg heq] at hb
      exact .inr (by rw [hb]; rfl)

/-- A channel that is new holds nothing, as its address did before. -/
theorem latest?_subscribe (h : n.Proper) (a b : Address) :
    (n.subscribe a).2.latest? b = n.latest? b := by
  change (n.channelOf a).2.latest? b = n.latest? b
  cases ha : n.senders.find? a with
  | some channel => rw [channelOf_of_sender ha]
  | none =>
    have hfind := n.find?_senders_channelOf a b
    by_cases hb : b = a
    · rw [hb] at hfind ⊢
      rw [if_pos rfl] at hfind
      rw [latest?_eq_of_sender hfind, latest?_of_not_sender ha, channelOf_of_none ha]
      simp [Table.find?_insert]
    · rw [if_neg hb] at hfind
      cases hsender : n.senders.find? b with
      | none => rw [latest?_of_not_sender (hfind.trans hsender), latest?_of_not_sender hsender]
      | some channel =>
        have hfresh : channel ≠ n.nextChannel := Nat.ne_of_lt (h.channel_lt b channel hsender)
        rw [latest?_eq_of_sender (hfind.trans hsender), latest?_eq_of_sender hsender,
          channelOf_of_none ha]
        simp [Table.find?_insert, hfresh]

end Subscribe

def forget (n : Notifier) (id : Nat) : Notifier := { n with streams := n.streams.erase id }

theorem Attached.forget (h : n.Attached) (id : Nat) : (n.forget id).Attached where
  nodup := Table.nodup_keys_erase h.nodup id
  nodupSenders := h.nodupSenders
  nodupChannels := h.nodupChannels
  id_lt other found hother := h.id_lt other found (Table.find?_erase_eq_some.mp hother).2
  hangs other found hother := h.hangs other found (Table.find?_erase_eq_some.mp hother).2
  apart := h.apart
  channel_lt := h.channel_lt
  carried := h.carried

theorem isWatched_of_forget (h : n.Attached) (hb : (n.forget id).isWatched b = true) :
    n.isWatched b = true := by
  obtain ⟨other, found, hother, haddress⟩ := (h.forget id).isWatched_iff.mp hb
  exact h.isWatched_iff.mpr ⟨other, found, (Table.find?_erase_eq_some.mp hother).2, haddress⟩

theorem isWatched_forget (h : n.Attached) (hid : n.streams.find? id = some stream)
    (hb : n.isWatched b = true) : b = stream.address ∨ (n.forget id).isWatched b = true := by
  obtain ⟨other, found, hother, rfl⟩ := h.isWatched_iff.mp hb
  by_cases heq : other = id
  · subst heq
    cases hid.symm.trans hother
    exact .inl rfl
  · refine .inr ((h.forget id).isWatched_iff.mpr ⟨other, found, ?_, rfl⟩)
    exact Table.find?_erase_eq_some.mpr ⟨heq, hother⟩

/-- One notifier after another, for those that still watch: what they hold is as it was, and
whoever is no longer watched was released. -/
structure Keeps (n n' : Notifier) : Prop where
  proper : n'.Proper
  watched : ∀ b, n'.isWatched b = true → n.isWatched b = true ∧ n'.latest? b = n.latest? b
  closed : ∀ b, n.isWatched b = true → n'.isWatched b = true ∨ b ∈ n'.released
  released : n.released ⊆ n'.released

theorem Proper.keeps_self (h : n.Proper) : n.Keeps n :=
  ⟨h, fun _ hb => ⟨hb, rfl⟩, fun _ hb => .inl hb, List.Subset.refl _⟩

theorem Proper.keeps_forget (h : n.Proper) (hid : n.streams.find? id = some stream)
    (hwatched : (n.forget id).isWatched stream.address = true) : n.Keeps (n.forget id) := by
  have hsame : ∀ b, n.isWatched b = true → (n.forget id).isWatched b = true := by
    intro b hb
    rcases isWatched_forget h.toAttached hid hb with rfl | hb
    · exact hwatched
    · exact hb
  have hread : ∀ b channel, n.senders.find? b = some channel →
      0 < (n.forget id).receiverCount channel := by
    intro b channel hb
    have hopen : n.isWatched b = true := (isWatched_of_sender hb).mpr (h.read b channel hb)
    have hsender : (n.forget id).senders.find? b = some channel := hb
    exact (isWatched_of_sender hsender).mp (hsame b hopen)
  exact ⟨⟨h.toAttached.forget id, hread⟩,
    fun b hb => ⟨isWatched_of_forget h.toAttached hb, rfl⟩, fun b hb => .inl (hsame b hb),
    List.Subset.refl _⟩

/-- What is left when nobody reads from the channel of an address any more. -/
def retire (n : Notifier) (address : Address) (channel : Nat) : Notifier :=
  { n with
    senders := n.senders.erase address
    channels := n.channels.modify channel .close
    released := n.released ++ [address] }

theorem Attached.retire (h : n.Attached) (ha : n.senders.find? a = some channel)
    (hclosed : n.receiverCount channel = 0) : (n.retire a channel).Attached where
  nodup := h.nodup
  nodupSenders := Table.nodup_keys_erase h.nodupSenders a
  nodupChannels := by
    change (n.channels.modify channel .close).keys.Nodup
    rw [Table.keys_modify]
    exact h.nodupChannels
  id_lt := h.id_lt
  hangs id stream hid := by
    refine Table.find?_erase_eq_some.mpr ⟨fun haddress => ?_, h.hangs id stream hid⟩
    have hsame := (h.address_eq_iff ha hid).mp haddress
    have hpos := (receiverCount_pos_iff h.nodup).mpr ⟨id, stream, hid, hsame⟩
    exact Nat.lt_irrefl 0 (hclosed ▸ hpos)
  apart b c held hb hc :=
    h.apart b c held (Table.find?_erase_eq_some.mp hb).2 (Table.find?_erase_eq_some.mp hc).2
  channel_lt b held hb := h.channel_lt b held (Table.find?_erase_eq_some.mp hb).2
  carried b own hb := by
    obtain ⟨hne, hsender⟩ := Table.find?_erase_eq_some.mp hb
    have hother : own ≠ channel := by
      rintro rfl
      exact hne (h.apart b a own hsender ha)
    obtain ⟨held, hheld, hopen⟩ := h.carried b own hsender
    exact ⟨held, by simpa [Notifier.retire, Table.find?_modify, hother] using hheld, hopen⟩

theorem latest?_retire (n : Notifier) {b : Address} (hne : b ≠ a) :
    (n.retire a channel).latest? b = n.latest? b := by
  have hsender : (n.retire a channel).senders.find? b = n.senders.find? b := by
    rw [retire, Table.find?_erase, if_neg hne]
  cases hb : n.senders.find? b with
  | none => rw [latest?_of_not_sender (hsender.trans hb), latest?_of_not_sender hb]
  | some own =>
    rw [latest?_eq_of_sender (hsender.trans hb), latest?_eq_of_sender hb, retire,
      Table.find?_modify]
    split
    case isTrue => cases n.channels.find? own <;> rfl
    case isFalse => rfl

theorem Proper.keeps_retire (h : n.Proper) (hid : n.streams.find? id = some stream)
    (hclosed : ¬ (n.forget id).isWatched stream.address = true) :
    n.Keeps ((n.forget id).retire stream.address stream.channel) := by
  have hattached := h.toAttached.forget id
  have hsender : (n.forget id).senders.find? stream.address = some stream.channel :=
    h.hangs id stream hid
  have hnone : (n.forget id).receiverCount stream.channel = 0 := by
    rw [isWatched_of_sender hsender] at hclosed
    exact Nat.eq_zero_of_not_pos hclosed
  have hretired := hattached.retire hsender hnone
  have hwatched : ∀ b, ((n.forget id).retire stream.address stream.channel).isWatched b = true ↔
      (n.forget id).isWatched b = true := fun b =>
    hretired.isWatched_iff.trans hattached.isWatched_iff.symm
  have hne : ∀ b, (n.forget id).isWatched b = true → b ≠ stream.address := by
    rintro b hb rfl
    exact hclosed hb
  refine ⟨⟨hretired, fun b channel hb => ?_⟩, fun b hb => ?_, fun b hb => ?_,
    List.subset_append_left _ _⟩
  · obtain ⟨hother, hsender⟩ : b ≠ stream.address ∧ n.senders.find? b = some channel :=
      Table.find?_erase_eq_some.mp hb
    have hopen : n.isWatched b = true :=
      (isWatched_of_sender hsender).mpr (h.read b channel hsender)
    rw [← isWatched_of_sender hb, hwatched]
    exact (isWatched_forget h.toAttached hid hopen).resolve_left hother
  · have hopen := (hwatched b).mp hb
    exact ⟨isWatched_of_forget h.toAttached hopen, latest?_retire _ (hne b hopen)⟩
  · rcases isWatched_forget h.toAttached hid hb with rfl | hb
    · exact .inr (List.mem_append_right _ List.mem_cons_self)
    · exact .inl ((hwatched b).mpr hb)

theorem drop_of_closed (hid : n.streams.find? id = none) : n.drop id = n := by
  rw [drop, hid]

theorem drop_of_open (h : n.Attached) (hid : n.streams.find? id = some stream) :
    n.drop id = if (n.forget id).isWatched stream.address then n.forget id
      else (n.forget id).retire stream.address stream.channel := by
  have hsender : (n.forget id).senders.find? stream.address = some stream.channel :=
    h.hangs id stream hid
  have hdrop : n.drop id = (n.forget id).release stream.address := by
    rw [drop, hid]
    rfl
  rw [hdrop, release, hsender]
  dsimp only
  by_cases hnone : (n.forget id).receiverCount stream.channel = 0
  · rw [if_pos hnone, if_neg (by simp [isWatched_of_sender hsender, hnone])]
    rfl
  · rw [if_neg hnone, if_pos ((isWatched_of_sender hsender).mpr (Nat.pos_of_ne_zero hnone))]

/-- Closing a stream may release its address. -/
theorem Proper.keeps_drop (h : n.Proper) (id : Nat) : n.Keeps (n.drop id) := by
  cases hid : n.streams.find? id with
  | none =>
    rw [drop_of_closed hid]
    exact h.keeps_self
  | some stream =>
    rw [drop_of_open h.toAttached hid]
    by_cases hwatched : (n.forget id).isWatched stream.address = true
    · rw [if_pos hwatched]
      exact h.keeps_forget hid hwatched
    · rw [if_neg hwatched]
      exact h.keeps_retire hid hwatched

theorem Proper.keeps_look (h : n.Proper) (id : Nat) (seen : Option Nat) :
    n.Keeps { n with streams := n.streams.modify id ({ · with seen }) } := by
  let looked : Notifier := { n with streams := n.streams.modify id ({ · with seen }) }
  have hcount : ∀ channel, looked.receiverCount channel = n.receiverCount channel := fun channel =>
    n.streams.countP_values_modify id fun _ => rfl
  have hwatched : ∀ b, looked.isWatched b = n.isWatched b := fun b => by
    simp only [isWatched, hcount]
    rfl
  have hfound : ∀ other found, looked.streams.find? other = some found →
      ∃ before, n.streams.find? other = some before ∧ found.address = before.address ∧
        found.channel = before.channel := by
    intro other found hother
    simp only [looked, Table.find?_modify] at hother
    split at hother
    · obtain ⟨before, hbefore, rfl⟩ := Option.map_eq_some_iff.mp hother
      exact ⟨before, hbefore, rfl, rfl⟩
    · exact ⟨found, hother, rfl, rfl⟩
  have hproper : looked.Proper := by
    refine ⟨⟨?_, h.nodupSenders, h.nodupChannels, fun other found hother => ?_,
      fun other found hother => ?_, h.apart, h.channel_lt, h.carried⟩, fun b channel hb => ?_⟩
    · simp only [looked, Table.keys_modify]
      exact h.nodup
    · obtain ⟨before, hbefore, _⟩ := hfound other found hother
      exact h.id_lt other before hbefore
    · obtain ⟨before, hbefore, haddress, hchannel⟩ := hfound other found hother
      rw [haddress, hchannel]
      exact h.hangs other before hbefore
    · rw [hcount]
      exact h.read b channel hb
  exact ⟨hproper, fun b hb => ⟨hwatched b ▸ hb, rfl⟩, fun b hb => .inl ((hwatched b).trans hb),
    List.Subset.refl _⟩

theorem Proper.keeps_poll (h : n.Proper) (id : Nat) : n.Keeps (n.poll id).2 := by
  rw [poll]
  split
  · exact h.keeps_self
  · split
    · exact h.keeps_self
    · exact h.keeps_look id _

theorem alter_of_sender (ha : n.senders.find? a = some channel)
    (f : Latest Snapshot → Latest Snapshot) :
    n.alter a f = { n with channels := n.channels.modify channel f } := by
  rw [alter, ha]

theorem alter_of_none (ha : n.senders.find? a = none) (f : Latest Snapshot → Latest Snapshot) :
    n.alter a f = n := by
  rw [alter, ha]

/-- Nothing but what channels hold is altered. -/
theorem alter_eq (n : Notifier) (a : Address) (f : Latest Snapshot → Latest Snapshot) :
    n.alter a f = { n with channels := (n.alter a f).channels } := by
  rw [alter]
  split <;> rfl

theorem Proper.withChannels (h : n.Proper) {channels : Table Nat (Latest Snapshot)}
    (hkeys : channels.keys = n.channels.keys)
    (hopen : ∀ channel held, n.channels.find? channel = some held →
      ∃ held', channels.find? channel = some held' ∧ held'.isOpen = held.isOpen) :
    Proper { n with channels } where
  nodup := h.nodup
  nodupSenders := h.nodupSenders
  nodupChannels := hkeys ▸ h.nodupChannels
  id_lt := h.id_lt
  hangs := h.hangs
  apart := h.apart
  channel_lt := h.channel_lt
  carried a channel ha := by
    obtain ⟨held, hheld, hisOpen⟩ := h.carried a channel ha
    obtain ⟨held', hheld', hsame⟩ := hopen channel held hheld
    exact ⟨held', hheld', hsame.trans hisOpen⟩
  read := h.read

theorem keys_channels_alter (n : Notifier) (a : Address) (f : Latest Snapshot → Latest Snapshot) :
    (n.alter a f).channels.keys = n.channels.keys := by
  rw [alter]
  split
  · rfl
  · exact n.channels.keys_modify _ f

/-- Only the channel that an address has is altered. -/
theorem find?_channels_alter (n : Notifier) (a : Address) (f : Latest Snapshot → Latest Snapshot)
    (channel : Nat) : (n.alter a f).channels.find? channel =
      if n.senders.find? a = some channel then (n.channels.find? channel).map f
      else n.channels.find? channel := by
  cases ha : n.senders.find? a with
  | none => rw [alter_of_none ha, if_neg nofun]
  | some own =>
    rw [alter_of_sender ha, Table.find?_modify]
    by_cases heq : channel = own
    · rw [if_pos heq, if_pos (congrArg some heq.symm)]
    · rw [if_neg heq, if_neg fun hsame => heq (Option.some.inj hsame).symm]

theorem Proper.alter (h : n.Proper) (a : Address) {f : Latest Snapshot → Latest Snapshot}
    (hopen : ∀ held, (f held).isOpen = held.isOpen) : (n.alter a f).Proper := by
  rw [n.alter_eq]
  refine h.withChannels (n.keys_channels_alter a f) fun channel held hheld => ?_
  rw [find?_channels_alter, hheld]
  split
  case isTrue => exact ⟨f held, rfl, hopen held⟩
  case isFalse => exact ⟨held, rfl, rfl⟩

theorem isWatched_alter (n : Notifier) (a : Address) (f : Latest Snapshot → Latest Snapshot)
    (b : Address) : (n.alter a f).isWatched b = n.isWatched b := by
  rw [alter]
  split <;> rfl

theorem streams_alter (n : Notifier) (a : Address) (f : Latest Snapshot → Latest Snapshot) :
    (n.alter a f).streams = n.streams := by
  rw [n.alter_eq]

theorem nextStream_alter (n : Notifier) (a : Address) (f : Latest Snapshot → Latest Snapshot) :
    (n.alter a f).nextStream = n.nextStream := by
  rw [n.alter_eq]

theorem released_alter (n : Notifier) (a : Address) (f : Latest Snapshot → Latest Snapshot) :
    (n.alter a f).released = n.released := by
  rw [alter]
  split <;> rfl

/-- What one address holds is altered, and the others are left alone. -/
theorem latest?_alter_of_ne (h : n.Proper) (f : Latest Snapshot → Latest Snapshot) (hb : b ≠ a) :
    (n.alter a f).latest? b = n.latest? b := by
  have hsender : (n.alter a f).senders.find? b = n.senders.find? b := by
    rw [n.alter_eq]
  cases hown : n.senders.find? b with
  | none => rw [latest?_of_not_sender (hsender.trans hown), latest?_of_not_sender hown]
  | some own =>
    rw [latest?_eq_of_sender (hsender.trans hown), latest?_eq_of_sender hown,
      find?_channels_alter, if_neg fun ha => hb (h.apart b a own hown ha)]

theorem latest?_alter (h : n.Proper) (ha : n.isWatched a = true)
    (f : Latest Snapshot → Latest Snapshot) :
    ∃ held, n.latest? a = held.value ∧ (n.alter a f).latest? a = (f held).value := by
  obtain ⟨channel, held, hsender, hheld⟩ := h.exists_channel ha
  have hsender' : (n.alter a f).senders.find? a = some channel := by
    rw [n.alter_eq]
    exact hsender
  refine ⟨held, ?_, ?_⟩
  · rw [latest?_eq_of_sender hsender, hheld]
    rfl
  · rw [latest?_eq_of_sender hsender', find?_channels_alter, if_pos hsender, hheld]
    rfl

/-- What is held after a snapshot was offered: an older one that says the same stays. -/
def retained (held : Option Snapshot) (snapshot : Snapshot) : Snapshot :=
  (held.filter (·.Agrees snapshot)).getD snapshot

theorem retained_same {held snapshot : Snapshot} (h : held.Agrees snapshot) :
    retained (some held) snapshot = held := by
  simp [retained, Option.filter, h]

theorem retained_new {held : Option Snapshot} {snapshot : Snapshot}
    (h : ∀ old ∈ held, ¬ old.Agrees snapshot) : retained held snapshot = snapshot := by
  cases held with
  | none => rfl
  | some old => simp [retained, Option.filter, h old rfl]

/-- An offer finds something that says the same, or nothing that does. -/
theorem same_or_new (held : Option Snapshot) (snapshot : Snapshot) :
    (∃ old, held = some old ∧ old.Agrees snapshot) ∨ ∀ old ∈ held, ¬ old.Agrees snapshot := by
  cases held with
  | none => exact .inr (by simp)
  | some old =>
    by_cases hsame : old.Agrees snapshot
    · exact .inl ⟨old, rfl, hsame⟩
    · exact .inr fun _ hold => Option.some.inj hold ▸ hsame

theorem agrees_retained (held : Option Snapshot) (snapshot : Snapshot) :
    (retained held snapshot).Agrees snapshot := by
  rcases same_or_new held snapshot with ⟨old, rfl, hsame⟩ | hnew
  · rw [retained_same hsame]
    exact hsame
  · rw [retained_new hnew]
    exact snapshot.agrees_self

theorem offer_same {old snapshot : Snapshot} {held : Latest Snapshot} (hvalue : held.value = some old)
    (h : old.Agrees snapshot) : offer snapshot held = held := by
  rw [offer, hvalue]
  exact if_pos (Snapshot.sameState_iff.mpr h)

theorem offer_new {snapshot : Snapshot} {held : Latest Snapshot}
    (h : ∀ old ∈ held.value, ¬ old.Agrees snapshot) : offer snapshot held = held.send snapshot := by
  refine if_neg fun hany => ?_
  obtain ⟨old, hold, hsame⟩ := (Option.any_eq_true _ _).mp hany
  exact h old hold (Snapshot.sameState_iff.mp hsame)

theorem value_offer (snapshot : Snapshot) (held : Latest Snapshot) :
    (offer snapshot held).value = some (retained held.value snapshot) := by
  rcases same_or_new held.value snapshot with ⟨old, hvalue, hsame⟩ | hnew
  · rw [offer_same hvalue hsame, hvalue, retained_same hsame]
  · rw [offer_new hnew, retained_new hnew]
    rfl

theorem isOpen_offer (snapshot : Snapshot) (held : Latest Snapshot) :
    (offer snapshot held).isOpen = held.isOpen := by
  rw [offer]
  split <;> rfl

theorem latest?_publish (h : n.Proper) (ha : n.isWatched a = true) (snapshot : Snapshot) :
    (n.publish a snapshot).2.latest? a = some (retained (n.latest? a) snapshot) := by
  obtain ⟨held, hbefore, hafter⟩ := latest?_alter h ha (offer snapshot)
  rw [hbefore]
  exact hafter.trans (value_offer snapshot held)

/-- After a publication the older snapshot is held, which says the same, or the one published. -/
theorem Proper.publish_cases (h : n.Proper) {snapshot held : Snapshot}
    (hlatest : (n.publish a snapshot).2.latest? a = some held) :
    n.latest? a = some held ∧ held.Agrees snapshot ∨ held = snapshot := by
  have hwatched : n.isWatched a = true := by
    by_contra hclosed
    have hsame : (n.publish a snapshot).2.isWatched a = n.isWatched a := n.isWatched_alter a _ a
    have hproper : (n.publish a snapshot).2.Proper := h.alter a (isOpen_offer snapshot)
    rw [hproper.latest?_of_not_watched (hsame.trans (Bool.eq_false_iff.mpr hclosed))] at hlatest
    cases hlatest
  rw [latest?_publish h hwatched] at hlatest
  rcases same_or_new (n.latest? a) snapshot with ⟨old, hold, hsame⟩ | hnew
  · rw [hold, retained_same hsame] at hlatest
    cases hlatest
    exact .inl ⟨hold, hsame⟩
  · rw [retained_new hnew] at hlatest
    exact .inr (Option.some.inj hlatest).symm

theorem latest?_withdraw (h : n.Proper) (a : Address) : (n.withdraw a).latest? a = none := by
  by_cases ha : n.isWatched a = true
  · obtain ⟨held, _, hafter⟩ := latest?_alter h ha .clear
    exact hafter
  · refine Proper.latest?_of_not_watched (h.alter a fun _ => rfl) ?_
    exact (n.isWatched_alter a _ a).trans (Bool.eq_false_iff.mpr ha)

theorem find?_channels_invalidate (n : Notifier) (channel : Nat) :
    n.invalidate.channels.find? channel =
      if channel ∈ n.senders.values then (n.channels.find? channel).map .clear
      else n.channels.find? channel :=
  n.channels.find?_foldl_modify n.senders.values (f := Latest.clear) (fun _ => rfl) channel

theorem Proper.invalidate (h : n.Proper) : n.invalidate.Proper := by
  refine h.withChannels (n.channels.keys_foldl_modify _ _) fun channel held hheld => ?_
  have hfind := n.find?_channels_invalidate channel
  rw [hheld] at hfind
  split at hfind
  case isTrue => exact ⟨held.clear, hfind, rfl⟩
  case isFalse => exact ⟨held, hfind, rfl⟩

theorem latest?_invalidate (n : Notifier) (a : Address) : n.invalidate.latest? a = none := by
  have hsenders : n.invalidate.senders = n.senders := rfl
  cases ha : n.senders.find? a with
  | none => exact latest?_of_not_sender (hsenders ▸ ha)
  | some channel =>
    rw [latest?_eq_of_sender (hsenders ▸ ha), find?_channels_invalidate,
      if_pos (Table.mem_values_of_find? ha)]
    cases n.channels.find? channel <;> rfl

end Notifier

end Solvency
