import Solvency.Proofs.Channel.Latest
import Solvency.Proofs.Notifier

/-! A stream delivers what the history of its notifier says. A look finds the held snapshot
if it is the first one, or if what is held has changed since the look before. A snapshot that
differs from the held one in nothing but its time changes nothing. -/

namespace Solvency

namespace Notifier

inductive Op where
  | subscribe (address : Address)
  | poll (id : Nat)
  | drop (id : Nat)
  | publish (address : Address) (snapshot : Snapshot)
  | invalidate
  | withdraw (address : Address)
deriving DecidableEq

def perform (n : Notifier) : Op → Notifier
  | .subscribe address => (n.subscribe address).2
  | .poll id => (n.poll id).2
  | .drop id => n.drop id
  | .publish address snapshot => (n.publish address snapshot).2
  | .invalidate => n.invalidate
  | .withdraw address => n.withdraw address

/-- Operations, newest first. -/
abbrev History := List Op

/-- What an operation leaves an address with, by what was held for it before. -/
def Op.leaves (a : Address) (held : Option Snapshot) : Op → Option Snapshot
  | .publish other snapshot => if other = a then some (retained held snapshot) else held
  | .withdraw other => if other = a then none else held
  | .invalidate => none
  | _ => held

namespace History

def notifier : History → Notifier
  | [] => {}
  | op :: h => (notifier h).perform op

/-- How many streams were opened; they are numbered in this order. -/
def opened : History → Nat
  | [] => 0
  | .subscribe _ :: h => opened h + 1
  | _ :: h => opened h

/-- The address of a stream that is open. -/
def watching? : History → Nat → Option Address
  | [], _ => none
  | .subscribe a :: h, id => if id = opened h then some a else watching? h id
  | .drop other :: h, id => if id = other then none else watching? h id
  | _ :: h, id => watching? h id

def isWatched (h : History) (a : Address) : Bool :=
  (List.range h.opened).any fun id => h.watching? id == some a

/-- What was published last, unless it was taken back or the last stream was closed since. -/
def held? : History → Address → Option Snapshot
  | [], _ => none
  | op :: h, a => if isWatched (op :: h) a then op.leaves a (held? h a) else none

/-- The stream was polled while it was open. -/
def HasLooked (h : History) (id : Nat) : Prop :=
  ∃ after before, h = after ++ .poll id :: before ∧ (watching? before id).isSome

/-- Since the last poll of the stream something else than was held has been published. -/
def ChangedSince (h : History) (id : Nat) (a : Address) : Prop :=
  ∃ after s before, h = after ++ .publish a s :: before ∧ .poll id ∉ after ∧
    ∀ old ∈ held? before a, ¬ old.Agrees s

variable {h : History} {id : Nat} {a : Address} {op : Op}

theorem hasLooked_cons :
    HasLooked (op :: h) id ↔ (op = .poll id ∧ (h.watching? id).isSome) ∨ h.HasLooked id := by
  constructor
  · rintro ⟨after, before, heq, hopen⟩
    rcases List.cons_eq_append_iff.mp heq with ⟨rfl, hbefore⟩ | ⟨after, rfl, rfl⟩
    · cases hbefore
      exact .inl ⟨rfl, hopen⟩
    · exact .inr ⟨after, before, rfl, hopen⟩
  · rintro (⟨rfl, hopen⟩ | ⟨after, before, rfl, hopen⟩)
    · exact ⟨[], h, rfl, hopen⟩
    · exact ⟨op :: after, before, rfl, hopen⟩

theorem changedSince_cons :
    ChangedSince (op :: h) id a ↔
      (∃ s, op = .publish a s ∧ ∀ old ∈ h.held? a, ¬ old.Agrees s) ∨
        (op ≠ .poll id ∧ h.ChangedSince id a) := by
  constructor
  · rintro ⟨after, s, before, heq, hunseen, hnew⟩
    rcases List.cons_eq_append_iff.mp heq with ⟨rfl, hbefore⟩ | ⟨after, rfl, rfl⟩
    · cases hbefore
      exact .inl ⟨s, rfl, hnew⟩
    · have hop : op ≠ .poll id := fun hop => hunseen (hop ▸ List.mem_cons_self)
      exact .inr ⟨hop, after, s, before, rfl, fun hmem => hunseen (.tail _ hmem), hnew⟩
  · rintro (⟨s, rfl, hnew⟩ | ⟨hop, after, s, before, rfl, hunseen, hnew⟩)
    · exact ⟨[], s, h, rfl, nofun, hnew⟩
    · refine ⟨op :: after, s, before, rfl, fun hmem => ?_, hnew⟩
      rcases List.mem_cons.mp hmem with heq | hmem
      · exact hop heq.symm
      · exact hunseen hmem

theorem opened_le_cons : h.opened ≤ opened (op :: h) := by
  cases op <;> simp [opened]

theorem lt_opened (hid : h.watching? id = some a) : id < h.opened := by
  induction h with
  | nil => cases hid
  | cons op h ih =>
    cases op with
    | subscribe b =>
      by_cases heq : id = opened h
      · simp [opened, heq]
      · rw [watching?, if_neg heq] at hid
        have hlt := ih hid
        rw [opened]
        omega
    | drop other =>
      by_cases heq : id = other
      · simp [watching?, heq] at hid
      · rw [watching?, if_neg heq] at hid
        exact ih hid
    | poll other => exact ih hid
    | publish b s => exact ih hid
    | invalidate => exact ih hid
    | withdraw b => exact ih hid

theorem isWatched_iff : h.isWatched a = true ↔ ∃ id, h.watching? id = some a := by
  simp only [isWatched, List.any_eq_true, List.mem_range, beq_iff_eq]
  constructor
  · rintro ⟨id, _, hid⟩
    exact ⟨id, hid⟩
  · rintro ⟨id, hid⟩
    exact ⟨id, lt_opened hid, hid⟩

theorem hasLooked_lt (hlooked : h.HasLooked id) : id < h.opened := by
  induction h with
  | nil =>
    obtain ⟨after, before, heq, _⟩ := hlooked
    simp at heq
  | cons op h ih =>
    refine Nat.lt_of_lt_of_le ?_ opened_le_cons
    rcases hasLooked_cons.mp hlooked with ⟨_, hopen⟩ | hlooked
    · obtain ⟨b, hb⟩ := Option.isSome_iff_exists.mp hopen
      exact lt_opened hb
    · exact ih hlooked

theorem isWatched_of_held (hheld : h.held? a ≠ none) : h.isWatched a = true := by
  cases h with
  | nil => exact absurd rfl hheld
  | cons op h =>
    by_contra hnot
    simp [held?, hnot] at hheld

/-- What is held was published after everything that takes it back. -/
theorem published_of_held {s : Snapshot} (hheld : h.held? a = some s) :
    ∃ after before, h = after ++ .publish a s :: before ∧ .invalidate ∉ after ∧
      .withdraw a ∉ after := by
  induction h with
  | nil => cases hheld
  | cons op h ih =>
    have hwatched : isWatched (op :: h) a = true := isWatched_of_held (by simp [hheld])
    rw [held?, if_pos hwatched] at hheld
    have hlift : held? h a = some s → op ≠ .invalidate → op ≠ .withdraw a →
        ∃ after before, op :: h = after ++ .publish a s :: before ∧ .invalidate ∉ after ∧
          .withdraw a ∉ after := by
      intro hbefore hinvalidate hwithdraw
      obtain ⟨after, before, rfl, hnone, hkept⟩ := ih hbefore
      refine ⟨op :: after, before, rfl, ?_, ?_⟩
      · simpa [Ne.symm hinvalidate] using hnone
      · simpa [Ne.symm hwithdraw] using hkept
    cases op with
    | publish b published =>
      by_cases hb : b = a
      · rw [Op.leaves, if_pos hb] at hheld
        rcases same_or_new (held? h a) published with ⟨old, hold, hsame⟩ | hnew
        · rw [hold, retained_same hsame] at hheld
          exact hlift (hold.trans hheld) nofun nofun
        · rw [retained_new hnew] at hheld
          cases hheld
          exact ⟨[], h, by rw [hb, List.nil_append], nofun, nofun⟩
      · rw [Op.leaves, if_neg hb] at hheld
        exact hlift hheld nofun nofun
    | withdraw b =>
      by_cases hb : b = a
      · simp [Op.leaves, hb] at hheld
      · rw [Op.leaves, if_neg hb] at hheld
        exact hlift hheld nofun fun heq => hb (Op.withdraw.inj heq)
    | invalidate => cases hheld
    | subscribe b => exact hlift hheld nofun nofun
    | poll other => exact hlift hheld nofun nofun
    | drop other => exact hlift hheld nofun nofun

end History

/-- A stream that looked before has seen the version that its channel has now unless what is
held has changed since. -/
def Looked (h : History) (id version : Nat) (stream : Stream) : Prop :=
  match stream.seen with
  | none => ¬ h.HasLooked id
  | some seen => h.HasLooked id ∧ seen ≤ version ∧
      (seen = version ↔ ¬ h.ChangedSince id stream.address)

/-- The streams of a notifier are those that the history leaves open. -/
structure Tracks (h : History) (n : Notifier) : Prop where
  proper : n.Proper
  next : n.nextStream = h.opened
  streams : ∀ id, (n.streams.find? id).map (·.address) = h.watching? id

structure Refines (h : History) (n : Notifier) : Prop extends Tracks h n where
  latest : ∀ a, n.latest? a = h.held? a
  looks : ∀ id stream channel, n.streams.find? id = some stream →
    n.channels.find? stream.channel = some channel → Looked h id channel.version stream

variable {h : History} {n n' : Notifier} {a : Address} {id version : Nat} {op : Op}
  {channel : Latest Snapshot} {stream : Stream}

theorem Tracks.isWatched_eq (ht : Tracks h n) (a : Address) : n.isWatched a = h.isWatched a := by
  rw [Bool.eq_iff_iff, ht.proper.toAttached.isWatched_iff, History.isWatched_iff]
  simp only [← ht.streams, Option.map_eq_some_iff]

/-- An address that nobody watches holds nothing, so only those that are watched matter. -/
theorem Tracks.latest_of_watched (ht : Tracks (op :: h) n)
    (hlatest : ∀ a, n.isWatched a = true → n.latest? a = op.leaves a (h.held? a)) (a : Address) :
    n.latest? a = History.held? (op :: h) a := by
  have hsame := ht.isWatched_eq a
  by_cases hwatched : n.isWatched a = true
  · rw [History.held?, if_pos (hsame ▸ hwatched), hlatest a hwatched]
  · rw [History.held?, if_neg (hsame ▸ hwatched),
      ht.proper.latest?_of_not_watched (Bool.eq_false_iff.mpr hwatched)]

theorem Proper.channel_of_stream (hn : n.Proper) (hid : n.streams.find? id = some stream) :
    ∃ channel, n.channels.find? stream.channel = some channel ∧ channel.isOpen = true ∧
      n.latest? stream.address = channel.value := by
  have hsender := hn.hangs id stream hid
  obtain ⟨channel, hchannel, hopen⟩ := hn.carried _ _ hsender
  refine ⟨channel, hchannel, hopen, ?_⟩
  rw [latest?_eq_of_sender hsender, hchannel]
  rfl

theorem Looked.cons (hl : Looked h id version stream) (hpoll : op ≠ .poll id)
    (hpublish : ∀ s, op ≠ .publish stream.address s) : Looked (op :: h) id version stream := by
  have hlooked : History.HasLooked (op :: h) id ↔ h.HasLooked id := by
    simp [History.hasLooked_cons, hpoll]
  have hchanged : History.ChangedSince (op :: h) id stream.address ↔
      h.ChangedSince id stream.address := by
    simp [History.changedSince_cons, hpoll, hpublish]
  simpa only [Looked, hlooked, hchanged] using hl

theorem Refines.start : Refines [] {} where
  proper := proper_empty
  next := rfl
  streams _ := rfl
  latest _ := rfl
  looks _ _ _ := nofun

theorem Tracks.subscribe (ht : Tracks h n) (a : Address) :
    Tracks (.subscribe a :: h) (n.subscribe a).2 where
  proper := ht.proper.subscribe a
  next := by
    have hnext : (n.subscribe a).2.nextStream = n.nextStream + 1 :=
      congrArg (· + 1) (n.streams_channelOf a).2
    rw [hnext, History.opened, ht.next]
  streams id := by
    rw [find?_streams_subscribe, History.watching?, ← ht.next]
    by_cases hid : id = n.nextStream
    · rw [if_pos hid, if_pos hid]
      rfl
    · rw [if_neg hid, if_neg hid, ht.streams id]

theorem Refines.subscribe (hr : Refines h n) (a : Address) :
    Refines (.subscribe a :: h) (n.subscribe a).2 where
  toTracks := hr.toTracks.subscribe a
  latest := (hr.toTracks.subscribe a).latest_of_watched fun b _ =>
    (latest?_subscribe hr.proper a b).trans (hr.latest b)
  looks id stream channel hid hchannel := by
    rw [find?_streams_subscribe] at hid
    by_cases hnew : id = n.nextStream
    · rw [if_pos hnew] at hid
      cases hid
      have hfresh : ¬ History.HasLooked (.subscribe a :: h) id := by
        intro hlooked
        have hlt : id < h.opened := by
          apply History.hasLooked_lt
          simpa [History.hasLooked_cons] using hlooked
        exact absurd (hnew.trans hr.next) (Nat.ne_of_lt hlt)
      exact hfresh
    · rw [if_neg hnew] at hid
      have hlt := hr.proper.channel_lt _ _ (hr.proper.hangs id stream hid)
      rw [find?_channels_subscribe hlt] at hchannel
      exact (hr.looks id stream channel hid hchannel).cons (by simp) (by simp)

/-- A look leaves the stream with the version that its channel has. -/
theorem poll_snd (hid : n.streams.find? id = some stream)
    (hchannel : n.channels.find? stream.channel = some channel) :
    (n.poll id).2 =
      { n with streams := n.streams.modify id ({ · with seen := some channel.version }) } := by
  rw [poll, hid]
  simp only [hchannel, Latest.poll_snd]

theorem Tracks.poll (ht : Tracks h n) (id : Nat) : Tracks (.poll id :: h) (n.poll id).2 := by
  have hproper := (ht.proper.keeps_poll id).proper
  cases hid : n.streams.find? id with
  | none =>
    have hsame : (n.poll id).2 = n := by rw [Notifier.poll, hid]
    rw [hsame]
    exact ⟨ht.proper, ht.next, ht.streams⟩
  | some stream =>
    obtain ⟨channel, hchannel, _⟩ := ht.proper.channel_of_stream hid
    rw [poll_snd hid hchannel] at hproper ⊢
    refine ⟨hproper, ht.next, fun other => ?_⟩
    change _ = h.watching? other
    rw [← ht.streams other, Table.find?_modify]
    by_cases hother : other = id
    · simp [hother, hid]
    · simp [hother]

theorem Refines.poll (hr : Refines h n) (id : Nat) : Refines (.poll id :: h) (n.poll id).2 where
  toTracks := hr.toTracks.poll id
  latest := (hr.toTracks.poll id).latest_of_watched fun b hb =>
    ((hr.proper.keeps_poll id).watched b hb).2.trans (hr.latest b)
  looks other stream channel hother hchannel := by
    cases hid : n.streams.find? id with
    | none =>
      have hsame : (n.poll id).2 = n := by rw [Notifier.poll, hid]
      rw [hsame] at hother hchannel
      have hne : other ≠ id := by
        rintro rfl
        cases hid.symm.trans hother
      exact (hr.looks other stream channel hother hchannel).cons (by simp [Ne.symm hne]) (by simp)
    | some polled =>
      obtain ⟨found, hfound, _⟩ := hr.proper.channel_of_stream hid
      rw [poll_snd hid hfound] at hother hchannel
      rw [Table.find?_modify] at hother
      by_cases hne : other = id
      · have hlooked : History.HasLooked (.poll id :: h) id := by
          have hopen : (h.watching? id).isSome := by simp [← hr.streams, hid]
          exact History.hasLooked_cons.mpr (.inl ⟨rfl, hopen⟩)
        have hunchanged : ¬ History.ChangedSince (.poll id :: h) id polled.address := by
          simp [History.changedSince_cons]
        subst hne
        rw [if_pos rfl, hid] at hother
        cases hother
        cases hfound.symm.trans hchannel
        exact ⟨hlooked, Nat.le_refl _, iff_of_true rfl hunchanged⟩
      · rw [if_neg hne] at hother
        exact (hr.looks other stream channel hother hchannel).cons (by simp [Ne.symm hne]) (by simp)

theorem streams_drop (hn : n.Attached) (hid : n.streams.find? id = some stream) :
    (n.drop id).streams = n.streams.erase id ∧ (n.drop id).nextStream = n.nextStream := by
  rw [drop_of_open hn hid]
  split <;> exact ⟨rfl, rfl⟩

theorem find?_streams_drop (hn : n.Attached) (id other : Nat) :
    (n.drop id).streams.find? other = if other = id then none else n.streams.find? other := by
  cases hid : n.streams.find? id with
  | none =>
    rw [drop_of_closed hid]
    split
    case isTrue heq => rw [heq, hid]
    case isFalse => rfl
  | some stream => rw [(streams_drop hn hid).1, Table.find?_erase]

/-- A channel that is closed keeps its version. -/
theorem find?_channels_of_drop (hn : n.Attached) {key : Nat}
    (hchannel : (n.drop id).channels.find? key = some channel) :
    ∃ before, n.channels.find? key = some before ∧ before.version = channel.version := by
  cases hid : n.streams.find? id with
  | none =>
    rw [drop_of_closed hid] at hchannel
    exact ⟨channel, hchannel, rfl⟩
  | some stream =>
    rw [drop_of_open hn hid] at hchannel
    split at hchannel
    case isTrue => exact ⟨channel, hchannel, rfl⟩
    case isFalse =>
      rw [retire, Table.find?_modify] at hchannel
      split at hchannel
      case isTrue =>
        obtain ⟨before, hbefore, rfl⟩ := Option.map_eq_some_iff.mp hchannel
        exact ⟨before, hbefore, rfl⟩
      case isFalse => exact ⟨channel, hchannel, rfl⟩

theorem Tracks.drop (ht : Tracks h n) (id : Nat) : Tracks (.drop id :: h) (n.drop id) where
  proper := (ht.proper.keeps_drop id).proper
  next := by
    refine Eq.trans ?_ ht.next
    cases hid : n.streams.find? id with
    | none => rw [drop_of_closed hid]
    | some stream => exact (streams_drop ht.proper.toAttached hid).2
  streams other := by
    rw [find?_streams_drop ht.proper.toAttached, History.watching?]
    by_cases heq : other = id
    · simp [heq]
    · simpa [heq] using ht.streams other

theorem Refines.drop (hr : Refines h n) (id : Nat) : Refines (.drop id :: h) (n.drop id) where
  toTracks := hr.toTracks.drop id
  latest := (hr.toTracks.drop id).latest_of_watched fun b hb =>
    ((hr.proper.keeps_drop id).watched b hb).2.trans (hr.latest b)
  looks other stream channel hother hchannel := by
    rw [find?_streams_drop hr.proper.toAttached] at hother
    obtain ⟨before, hbefore, hversion⟩ := find?_channels_of_drop hr.proper.toAttached hchannel
    by_cases heq : other = id
    · simp [heq] at hother
    · rw [if_neg heq] at hother
      exact hversion ▸ (hr.looks other stream before hother hbefore).cons (by simp) (by simp)

/-- What channels hold changes and streams do not. -/
theorem Tracks.withChannels (ht : Tracks h n) (hproper : n'.Proper)
    (hstreams : n'.streams = n.streams) (hnext : n'.nextStream = n.nextStream)
    (hopened : History.opened (op :: h) = h.opened)
    (hwatching : History.watching? (op :: h) = h.watching?) : Tracks (op :: h) n' where
  proper := hproper
  next := hnext.trans (ht.next.trans hopened.symm)
  streams id := by rw [hstreams, hwatching, ht.streams id]

theorem Tracks.publish (ht : Tracks h n) (a : Address) (s : Snapshot) :
    Tracks (.publish a s :: h) (n.publish a s).2 :=
  ht.withChannels (ht.proper.alter a (isOpen_offer s)) (streams_alter n a _) (nextStream_alter n a _)
    rfl rfl

theorem Tracks.withdraw (ht : Tracks h n) (a : Address) :
    Tracks (.withdraw a :: h) (n.withdraw a) :=
  ht.withChannels (ht.proper.alter a fun _ => rfl) (streams_alter n a _) (nextStream_alter n a _)
    rfl rfl

theorem Tracks.invalidate (ht : Tracks h n) : Tracks (.invalidate :: h) n.invalidate :=
  ht.withChannels ht.proper.invalidate rfl rfl rfl rfl

/-- The version moves exactly when something else than was held is published. -/
theorem Looked.offer (hl : Looked h id channel.version stream)
    (hvalue : h.held? stream.address = channel.value) (s : Snapshot) :
    Looked (.publish stream.address s :: h) id (offer s channel).version stream := by
  have hlooked : History.HasLooked (.publish stream.address s :: h) id ↔ h.HasLooked id := by
    simp [History.hasLooked_cons]
  have hchanged : History.ChangedSince (.publish stream.address s :: h) id stream.address ↔
      (∀ old ∈ channel.value, ¬ old.Agrees s) ∨ h.ChangedSince id stream.address := by
    simp [History.changedSince_cons, hvalue]
  rcases same_or_new channel.value s with ⟨old, hold, hsame⟩ | hnew
  · have hkept : ¬ ∀ old ∈ channel.value, ¬ old.Agrees s := fun hnone => hnone old hold hsame
    rw [offer_same hold hsame]
    simpa only [Looked, hlooked, hchanged, hkept, false_or] using hl
  · rw [offer_new hnew]
    rw [Looked] at hl ⊢
    cases hseen : stream.seen with
    | none =>
      rw [hseen] at hl
      exact fun hlooked' => hl (hlooked.mp hlooked')
    | some seen =>
      rw [hseen] at hl
      obtain ⟨hbefore, hle, _⟩ := hl
      have hlt : seen < channel.version + 1 := Nat.lt_succ_of_le hle
      have hmoved : ¬ seen = (channel.send s).version := Nat.ne_of_lt hlt
      exact ⟨hlooked.mpr hbefore, Nat.le_of_lt hlt, iff_of_false hmoved
        (not_not.mpr (hchanged.mpr (.inl hnew)))⟩

theorem Refines.publish (hr : Refines h n) (a : Address) (s : Snapshot) :
    Refines (.publish a s :: h) (n.publish a s).2 where
  toTracks := hr.toTracks.publish a s
  latest := (hr.toTracks.publish a s).latest_of_watched fun b hb => by
    have hopen : n.isWatched b = true := (n.isWatched_alter a _ b).symm.trans hb
    by_cases hmine : b = a
    · subst hmine
      rw [Op.leaves, if_pos rfl, latest?_publish hr.proper hopen, hr.latest b]
    · rw [Op.leaves, if_neg (Ne.symm hmine), ← hr.latest b]
      exact latest?_alter_of_ne hr.proper _ hmine
  looks id stream channel hid hchannel := by
    have hid : n.streams.find? id = some stream := (n.streams_alter a (offer s)) ▸ hid
    have hhangs := hr.proper.hangs id stream hid
    change (n.alter a (offer s)).channels.find? stream.channel = some channel at hchannel
    rw [find?_channels_alter] at hchannel
    split at hchannel
    case isTrue hsender =>
      have hmine : stream.address = a := hr.proper.apart _ _ _ hhangs hsender
      obtain ⟨before, hbefore, rfl⟩ := Option.map_eq_some_iff.mp hchannel
      obtain ⟨found, hfound, _, hvalue⟩ := hr.proper.channel_of_stream hid
      cases hfound.symm.trans hbefore
      rw [hr.latest] at hvalue
      exact hmine ▸ (hr.looks id stream before hid hbefore).offer hvalue s
    case isFalse hsender =>
      have hother : a ≠ stream.address := fun heq => hsender (heq ▸ hhangs)
      exact (hr.looks id stream channel hid hchannel).cons (by simp) (by simp [hother])

/-- Taking a value back leaves every version as it is. -/
theorem find?_channels_of_withdraw {key : Nat}
    (hchannel : (n.withdraw a).channels.find? key = some channel) :
    ∃ before, n.channels.find? key = some before ∧ before.version = channel.version := by
  rw [Notifier.withdraw, find?_channels_alter] at hchannel
  split at hchannel
  case isTrue =>
    obtain ⟨before, hbefore, rfl⟩ := Option.map_eq_some_iff.mp hchannel
    exact ⟨before, hbefore, rfl⟩
  case isFalse => exact ⟨channel, hchannel, rfl⟩

theorem find?_channels_of_invalidate {key : Nat}
    (hchannel : n.invalidate.channels.find? key = some channel) :
    ∃ before, n.channels.find? key = some before ∧ before.version = channel.version := by
  rw [find?_channels_invalidate] at hchannel
  split at hchannel
  case isTrue =>
    obtain ⟨before, hbefore, rfl⟩ := Option.map_eq_some_iff.mp hchannel
    exact ⟨before, hbefore, rfl⟩
  case isFalse => exact ⟨channel, hchannel, rfl⟩

theorem Refines.withdraw (hr : Refines h n) (a : Address) :
    Refines (.withdraw a :: h) (n.withdraw a) where
  toTracks := hr.toTracks.withdraw a
  latest := (hr.toTracks.withdraw a).latest_of_watched fun b _ => by
    by_cases hmine : b = a
    · rw [Op.leaves, if_pos hmine.symm, hmine, latest?_withdraw hr.proper]
    · rw [Op.leaves, if_neg (Ne.symm hmine), ← hr.latest b]
      exact latest?_alter_of_ne hr.proper _ hmine
  looks id stream channel hid hchannel := by
    have hid : n.streams.find? id = some stream := (n.streams_alter a .clear) ▸ hid
    obtain ⟨before, hbefore, hversion⟩ := find?_channels_of_withdraw hchannel
    exact hversion ▸ (hr.looks id stream before hid hbefore).cons (by simp) (by simp)

theorem Refines.invalidate (hr : Refines h n) : Refines (.invalidate :: h) n.invalidate where
  toTracks := hr.toTracks.invalidate
  latest := hr.toTracks.invalidate.latest_of_watched fun b _ => n.latest?_invalidate b
  looks id stream channel hid hchannel := by
    obtain ⟨before, hbefore, hversion⟩ := find?_channels_of_invalidate hchannel
    exact hversion ▸ (hr.looks id stream before hid hbefore).cons (by simp) (by simp)

theorem Refines.perform (hr : Refines h n) (op : Op) : Refines (op :: h) (n.perform op) := by
  cases op with
  | subscribe a => exact hr.subscribe a
  | poll id => exact hr.poll id
  | drop id => exact hr.drop id
  | publish a s => exact hr.publish a s
  | invalidate => exact hr.invalidate
  | withdraw a => exact hr.withdraw a

theorem History.refines (h : History) : Refines h h.notifier := by
  induction h with
  | nil => exact Refines.start
  | cons op h ih => exact ih.perform op

theorem Refines.poll_fst (hr : Refines h n) (hid : n.streams.find? id = some stream) :
    ∃ channel, n.channels.find? stream.channel = some channel ∧
      (n.poll id).1 = if stream.seen = some channel.version then .pending
        else (h.held? stream.address).elim .pending .item := by
  obtain ⟨channel, hchannel, hopen, hvalue⟩ := hr.proper.channel_of_stream hid
  have hpoll : (n.poll id).1 = (channel.poll stream.seen).1 := by
    rw [Notifier.poll, hid]
    simp only [hchannel]
  refine ⟨channel, hchannel, ?_⟩
  rw [hpoll, channel.poll_fst, Latest.idle_of_open hopen, ← hvalue, hr.latest]

/-- The next look of a stream finds something unless it saw what is held already. -/
theorem Looked.seen_iff (hl : Looked h id version stream) :
    stream.seen = some version ↔ h.HasLooked id ∧ ¬ h.ChangedSince id stream.address := by
  rw [Looked] at hl
  cases hseen : stream.seen with
  | none =>
    rw [hseen] at hl
    simp [hl]
  | some seen =>
    rw [hseen] at hl
    obtain ⟨hlooked, _, hversion⟩ := hl
    simp [hlooked, hversion]

/-- Publishing what is held already changes nothing, whatever its time. -/
theorem Refines.publish_held (hr : Refines h n) {s t : Snapshot} (hheld : h.held? a = some s)
    (hsame : s.Agrees t) : n.publish a t = (true, n) := by
  have hwatched : n.isWatched a = true := by
    rw [hr.isWatched_eq]
    exact History.isWatched_of_held (by simp [hheld])
  obtain ⟨key, channel, hsender, hchannel⟩ := hr.proper.exists_channel hwatched
  have hvalue : channel.value = some s := by
    rw [← hheld, ← hr.latest a, latest?_eq_of_sender hsender, hchannel]
    rfl
  have hchannels : n.channels.modify key (offer t) = n.channels := by
    apply Table.modify_eq_self hr.proper.nodupChannels
    intro found hfound
    cases hchannel.symm.trans hfound
    exact offer_same hvalue hsame
  rw [Notifier.publish, hwatched, alter_of_sender hsender, hchannels]

/-- An open stream is given what is held if it never looked or if what is held has changed
since it did, and waits otherwise. What it is given was published after everything that takes
it back, and publishing what says the same at another time changes nothing. -/
theorem delivery_follows_history (h : History) (id : Nat) (a : Address)
    (hopen : h.watching? id = some a) :
    (h.notifier.streams.find? id).map (·.address) = some a ∧
      h.notifier.latest? a = h.held? a ∧
      (∀ s, (h.notifier.poll id).1 = .item s ↔
        h.held? a = some s ∧ (¬ h.HasLooked id ∨ h.ChangedSince id a)) ∧
      (h.notifier.poll id).1 ≠ .ended ∧
      (∀ s, (h.notifier.poll id).1 = .item s → ∃ after before,
        h = after ++ .publish a s :: before ∧ .invalidate ∉ after ∧ .withdraw a ∉ after) ∧
      ∀ s t, h.held? a = some s → s.Agrees t →
        h.notifier.publish a t = (true, h.notifier) := by
  have hr := h.refines
  have hstream := (hr.streams id).trans hopen
  obtain ⟨stream, hid, haddress⟩ := Option.map_eq_some_iff.mp hstream
  obtain ⟨channel, hchannel, hpoll⟩ := hr.poll_fst hid
  have hseen := (hr.looks id stream channel hid hchannel).seen_iff
  rw [haddress] at hpoll hseen
  have hitem : ∀ s, (h.notifier.poll id).1 = .item s ↔
      h.held? a = some s ∧ (¬ h.HasLooked id ∨ h.ChangedSince id a) := by
    intro s
    rw [hpoll]
    by_cases hsaw : stream.seen = some channel.version
    · obtain ⟨hlooked, hunchanged⟩ := hseen.mp hsaw
      simp [hsaw, hlooked, hunchanged]
    · have hnews : ¬ h.HasLooked id ∨ h.ChangedSince id a := by
        by_contra hnot
        exact hsaw (hseen.mpr (by simpa using hnot))
      rw [if_neg hsaw]
      cases h.held? a <;> simp [hnews]
  refine ⟨hstream, hr.latest a, hitem, ?_, ?_, fun s t hheld => hr.publish_held hheld⟩
  · rw [hpoll]
    split
    · simp
    · cases h.held? a <;> simp
  · intro s hs
    exact History.published_of_held ((hitem s).mp hs).1

/-- A snapshot of an empty account. -/
def emptyAt (slot : Slot) (time : Nat) : Snapshot where
  marginAccount := ⟨1⟩
  slotRange := .ofSlot slot
  healthType := .maintenance
  collateral := 0
  liabilities := 0
  health := 0
  leverage := .defined 0
  verdict := .safe 0
  positions := []
  computedAt := time

/-- Published, seen, withdrawn and published anew, for a stream that was open all along. The
last one says what the one before it says. -/
def renewed : History :=
  [.publish ⟨1⟩ (emptyAt 5 3), .publish ⟨1⟩ (emptyAt 5 2), .withdraw ⟨1⟩, .poll 0,
    .publish ⟨1⟩ (emptyAt 5 1), .subscribe ⟨1⟩]

theorem delivery_follows_history_renewed :
    renewed.watching? 0 = some ⟨1⟩ ∧ renewed.HasLooked 0 ∧
      (renewed.notifier.poll 0).1 = .item (emptyAt 5 2) := by
  have hopen : renewed.watching? 0 = some ⟨1⟩ := rfl
  have hlooked : renewed.HasLooked 0 := ⟨[_, _, _], [_, _], rfl, rfl⟩
  have hchanged : renewed.ChangedSince 0 ⟨1⟩ := ⟨[_], _, _, rfl, by decide, by decide⟩
  have hheld : renewed.held? ⟨1⟩ = some (emptyAt 5 2) := by decide
  obtain ⟨_, _, hitem, _⟩ := delivery_follows_history renewed 0 ⟨1⟩ hopen
  exact ⟨hopen, hlooked, (hitem (emptyAt 5 2)).mpr ⟨hheld, .inr hchanged⟩⟩

end Notifier

end Solvency
