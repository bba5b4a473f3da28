import Solvency.Proofs.Registry.Streams

/-! What the streams of a registry deliver. A stream never goes back to an older slot and ends up
with what can be looked up; but a new one may be given what was fresh before the last gap. -/

namespace Solvency.Registry.Session

variable {buffer : Nat} {s : Session} {act : Act} {op : Op} {a : Address} {id : Nat}
  {reader : Reader} {channel : Latest Versioned}

theorem isHeard_imp_isOpen (h : s.isHeard buffer a = true) : s.isOpen a = true := by
  cases s with
  | nil => cases h
  | cons act s => exact (Bool.and_eq_true_iff.mp h).1

/-- An address has a channel as long as a stream of it is open. -/
theorem isSome_watcher (buffer : Nat) (s : Session) (a : Address) :
    ((s.registry buffer).watchers.find? a).isSome = s.isOpen a := by
  induction s with
  | nil => rfl
  | cons act s ih =>
    cases act with
    | poll id =>
      have hsame : isOpen (.poll id :: s) a = isOpen s a := by simp [isOpen, Act.closes]
      exact ih.trans hsame.symm
    | call op =>
      have hclosing : (Act.call op).closes a = op.closes a := rfl
      rw [registry_call, find?_watchers_perform, isOpen, ← ih, hclosing]
      cases hcloses : op.closes a with
      | true => rfl
      | false => by_cases hop : op = .subscribe a <;> simp [hop]

/-- The channel of an address holds something if the address was fresh since it was opened. -/
theorem isSome_value (buffer : Nat) (s : Session) {own : Nat}
    (hown : (s.registry buffer).watchers.find? a = some own)
    (hchannel : (s.registry buffer).channels.find? own = some channel) :
    channel.value.isSome = s.isHeard buffer a := by
  induction s generalizing own channel with
  | nil => cases hown
  | cons act s ih =>
    have hopen : isOpen (act :: s) a = true := by
      rw [← isSome_watcher buffer, hown]
      rfl
    have hfresh : ((registry buffer (act :: s)).get? a).isSome = true →
        channel.value.isSome = true := by
      obtain ⟨found, hfound, hairs⟩ := (tuned_registry buffer (act :: s)).airs a own hown
      cases hchannel.symm.trans hfound
      exact hairs.isSome_value
    -- a channel holds something from the first time that its address is fresh, gap or no gap
    have hheard : channel.value.isSome = true ↔
        isHeard buffer s a = true ∨ ((registry buffer (act :: s)).get? a).isSome = true := by
      cases act with
      | poll id =>
        rw [← ih hown hchannel]
        exact (or_iff_left_of_imp hfresh).symm
      | call op =>
        rw [registry_call] at hown hchannel hfresh ⊢
        obtain ⟨hcloses, hold | ⟨rfl, hnone, rfl⟩⟩ := watched_of_perform hown
        · obtain ⟨before, hbefore, _⟩ := (tuned_registry buffer s).airs a own hold
          have hafter := (tuned_registry buffer s).channel_watched op hold hbefore
          rw [hcloses, hchannel] at hafter
          rw [← ih hold hbefore]
          cases hsends : op.sends? (registry buffer s) a with
          | none =>
            rw [hsends] at hafter
            cases hafter
            exact (or_iff_left_of_imp hfresh).symm
          | some v =>
            obtain ⟨e, slot, rfl, _, hv, _⟩ := sends?_eq_some hsends
            rw [hsends] at hafter
            cases hafter
            exact iff_of_true rfl (.inr (Option.isSome_of_mem hv))
        · have hunheard : ¬ isHeard buffer s a = true := by
            intro hheard
            have hwatched := isSome_watcher buffer s a
            rw [isHeard_imp_isOpen hheard, hnone] at hwatched
            cases hwatched
          rw [(find?_channels_subscribe hnone).2] at hchannel
          cases hchannel
          rw [perform, get?_subscribe]
          exact (or_iff_right hunheard).symm
    rw [isHeard, hopen, Bool.true_and, Bool.eq_iff_iff, Bool.or_eq_true]
    exact hheard

theorem answer_new (buffer : Nat) (s : Session) (a : Address) :
    ∃ value : Option Versioned,
      answer buffer (.call (.subscribe a) :: s) s.opened.length = value.elim .pending .item ∧
      value.isSome = (s.isHeard buffer a || ((s.registry buffer).get? a).isSome) ∧
      ∀ w, value = some w → ∃ entry, (s.registry buffer).entries.find? a = some entry ∧
        w.entity = entry.entity ∧ w.slot = entry.slot := by
  obtain ⟨own, channel, hattends⟩ := attends_subscribe buffer s a
  have hairs := hattends.airs (isClosed_new s a)
  have hsame : (registry buffer (.call (.subscribe a) :: s)).entries = (s.registry buffer).entries ∧
      (registry buffer (.call (.subscribe a) :: s)).get? a = (s.registry buffer).get? a := by
    rw [registry_call]
    exact ⟨entries_subscribe, get?_subscribe⟩
  refine ⟨channel.value, ?_, ?_, ?_⟩
  · rw [hattends.answer_eq, Latest.poll_fst, Latest.idle_of_open hairs.isOpen]
    rfl
  · have hvalue := isSome_value buffer _ (hattends.attached (isClosed_new s a)) hattends.found
    rw [hvalue, isHeard, hsame.2]
    simp [isOpen, Act.closes, Op.closes]
  · intro w hw
    rw [← hsame.1]
    exact hairs.held w hw

/-- A new stream is given what can be looked up; where nothing can, it waits unless the address was
fresh since the oldest of its open streams was opened, and is given what was then stored if so. -/
theorem first_look_finds_held (buffer : Nat) (s : Session) (a : Address) :
    let first := answer buffer (.call (.subscribe a) :: s) s.opened.length
    (∀ v, (s.registry buffer).get? a = some v →
      ∃ w, first = .item w ∧ w.slot = v.slot ∧ w.entity = v.entity) ∧
    ((s.registry buffer).get? a = none → s.isHeard buffer a = false → first = .pending) ∧
    ((s.registry buffer).get? a = none → s.isHeard buffer a = true →
      ∃ v w, (s.registry buffer).peek? a = some (v, false) ∧ first = .item w ∧
        w.slot = v.slot ∧ w.entity = v.entity) := by
  intro first
  obtain ⟨value, hfirst, hsome, hheld⟩ := answer_new buffer s a
  refine ⟨fun v hv => ?_, fun hnone hunheard => ?_, fun hnone hheard => ?_⟩
  · rw [hv, Option.isSome_some, Bool.or_true] at hsome
    obtain ⟨w, hw⟩ := Option.isSome_iff_exists.mp hsome
    obtain ⟨entry, hentry, hentity, hslot⟩ := hheld w hw
    obtain ⟨entry', hentry', _, rfl⟩ := get?_eq_some_iff.mp hv
    cases hentry.symm.trans hentry'
    exact ⟨w, by rw [hw] at hfirst; exact hfirst, hslot, hentity⟩
  · rw [hnone, hunheard] at hsome
    have hvalue : value = none := by simpa using hsome
    rw [hvalue] at hfirst
    exact hfirst
  · rw [hheard, Bool.true_or] at hsome
    obtain ⟨w, hw⟩ := Option.isSome_iff_exists.mp hsome
    obtain ⟨entry, hentry, hentity, hslot⟩ := hheld w hw
    have hstale : (s.registry buffer).isFresh entry = false := by
      have hepoch := get?_eq_none_iff.mp hnone entry hentry
      simpa [isFresh] using hepoch
    refine ⟨(s.registry buffer).versioned a entry, w, ?_, by rw [hw] at hfirst; exact hfirst,
      hslot, hentity⟩
    rw [peek?, hentry, Option.map_some, hstale]

/-- A value was put and its stream stays open over the gap. -/
def outlasting : Session :=
  [.call .invalidateAll, .call (.subscribe ⟨1⟩), .call (.put ⟨1⟩ (.rootBank default) 5)]

/-- What was not observed again cannot be looked up, and yet a new stream starts from it. -/
theorem first_look_outlived :
    (outlasting.registry 16).get? ⟨1⟩ = none ∧
      answer 16 (.call (.subscribe ⟨1⟩) :: outlasting) outlasting.opened.length =
        .item ⟨.rootBank default, 5, 5⟩ := by
  decide

theorem first_look_finds_held_outlasting :
    outlasting.isHeard 16 ⟨1⟩ = true ∧
      ∃ v w, (outlasting.registry 16).peek? ⟨1⟩ = some (v, false) ∧
        answer 16 (.call (.subscribe ⟨1⟩) :: outlasting) outlasting.opened.length = .item w ∧
        w.slot = v.slot ∧ w.entity = v.entity := by
  have hnone : (outlasting.registry 16).get? ⟨1⟩ = none := by decide
  have hheard : outlasting.isHeard 16 ⟨1⟩ = true := by decide
  obtain ⟨_, _, hstale⟩ := first_look_finds_held 16 outlasting ⟨1⟩
  exact ⟨hheard, hstale hnone hheard⟩

section Order

/-- The slot was put to the address between the two and found to be that of a stale entry. -/
def Revalidated (buffer : Nat) (between before : Session) (a : Address) (slot : Slot) : Prop :=
  ∃ later e earlier, between = later ++ .call (.put a e slot) :: earlier ∧
    ((registry buffer (earlier ++ before)).put a e slot).1 = .revalidated

variable {between before : Session} {v : Versioned} {slot : Slot}

theorem Revalidated.cons (h : Revalidated buffer between before a slot) (act : Act) :
    Revalidated buffer (act :: between) before a slot := by
  obtain ⟨later, e, earlier, rfl, houtcome⟩ := h
  exact ⟨act :: later, e, earlier, rfl, houtcome⟩

/-- A stream and its channel since a value was delivered with this version. -/
structure Past (buffer : Nat) (between before : Session) (reader : Reader)
    (channel : Latest Versioned) (version : Nat) (slot : Slot) : Prop where
  seen : ∃ seen, reader.subscription.seen = some seen ∧ version ≤ seen
  newer : ∃ held, channel.value = some held ∧ slot ≤ held.slot ∧
    (version < channel.version → held.slot = slot →
      Revalidated buffer between before reader.address slot)

theorem Past.cons {version : Nat}
    (h : Past buffer between before reader channel version slot) (act : Act) :
    Past buffer (act :: between) before reader channel version slot := by
  obtain ⟨held, hheld, hle, hrenewed⟩ := h.newer
  exact ⟨h.seen, held, hheld, hle, fun hlt heq => (hrenewed hlt heq).cons act⟩

/-- What an operation sends is newer than what is held, or renews it. -/
theorem Past.sent {version : Nat} (h : Past buffer between before reader channel version slot)
    (hairs : ((between ++ before).registry buffer).Airs reader.address channel)
    (hsends : op.sends? ((between ++ before).registry buffer) reader.address = some v) :
    Past buffer (.call op :: between) before reader (channel.send v) version slot := by
  obtain ⟨e, put, rfl, hobserved, _, rfl⟩ := sends?_eq_some hsends
  obtain ⟨held, hheld, hle, _⟩ := h.newer
  obtain ⟨stored, hstored, _, hslot⟩ := hairs.held held hheld
  rw [hslot] at hle
  refine ⟨h.seen, v, rfl, ?_⟩
  rcases observed_cases hobserved hstored with hlt | ⟨hsame, hrenewed⟩
  · have hnewer : slot < v.slot := Nat.lt_of_le_of_lt hle hlt
    exact ⟨Nat.le_of_lt hnewer, fun _ heq => absurd heq (Nat.ne_of_gt hnewer)⟩
  · refine ⟨hsame ▸ hle, fun _ heq => ?_⟩
    subst heq
    exact ⟨[], e, between, rfl, hrenewed⟩

theorem Past.perform {version : Nat}
    (h : Past buffer between before reader channel version slot)
    (hattends : Attends buffer (between ++ before) id reader channel) (act : Act) :
    ∃ reader' channel', Attends buffer (act :: between ++ before) id reader' channel' ∧
      Past buffer (act :: between) before reader' channel' version slot := by
  cases act with
  | poll other =>
    by_cases hother : other = id
    · subst hother
      obtain ⟨seen, hseen, hle⟩ := h.seen
      have hversion := Nat.le_trans hle (hattends.seen_le seen hseen)
      exact ⟨_, _, hattends.poll_self, ⟨_, rfl, hversion⟩, (h.cons _).newer⟩
    · exact ⟨reader, channel, hattends.poll_other hother, h.cons _⟩
  | call op =>
    cases hclosed : isClosed (between ++ before) id with
    | true => exact ⟨reader, channel, hattends.call_closed hclosed op, h.cons _⟩
    | false =>
      refine ⟨reader, _, hattends.call_open hclosed op, ?_⟩
      cases hcloses : op.closes reader.address with
      | true => exact ⟨h.seen, (h.cons _).newer⟩
      | false =>
        cases hsends : op.sends? ((between ++ before).registry buffer) reader.address with
        | none => exact h.cons _
        | some v => exact h.sent (hattends.airs hclosed) hsends

theorem exists_attends_of_item (hitem : answer buffer before id = .item v) :
    ∃ reader channel, Attends buffer before id reader channel := by
  refine exists_attends buffer before ?_
  by_contra hid
  rw [answer, List.getElem?_eq_none (by rw [length_readers]; exact Nat.le_of_not_lt hid)] at hitem
  cases hitem

theorem past_of_item (hattends : Attends buffer before id reader channel)
    (hitem : answer buffer before id = .item v) (between : Session) :
    ∃ reader' channel', Attends buffer (between ++ .poll id :: before) id reader' channel' ∧
      Past buffer between (.poll id :: before) reader' channel' channel.version v.slot := by
  induction between with
  | nil =>
    rw [hattends.answer_eq] at hitem
    obtain ⟨_, hvalue⟩ := Latest.poll_eq_item_iff.mp hitem
    refine ⟨_, _, hattends.poll_self, ⟨_, rfl, Nat.le_refl _⟩, v, hvalue, Nat.le_refl _, ?_⟩
    exact fun hlt => absurd hlt (Nat.lt_irrefl _)
  | cons act between ih =>
    obtain ⟨reader', channel', hattends', hpast⟩ := ih
    exact hpast.perform hattends' act

theorem slots_of_items {w : Versioned}
    (hv : answer buffer before id = .item v)
    (hw : answer buffer (between ++ .poll id :: before) id = .item w)
    (hid : (opened (between ++ .poll id :: before))[id]? = some a) :
    v.slot ≤ w.slot ∧
      (v.slot = w.slot → Revalidated buffer between (.poll id :: before) a v.slot) := by
  obtain ⟨reader, channel, hattends⟩ := exists_attends_of_item hv
  obtain ⟨reader', channel', hafter, hpast⟩ := past_of_item hattends hv between
  have haddress := hafter.address_eq hid
  obtain ⟨seen, hseen, hle⟩ := hpast.seen
  obtain ⟨held, hheld, hslot, hrenewed⟩ := hpast.newer
  rw [hafter.answer_eq] at hw
  obtain ⟨hunseen, hvalue⟩ := Latest.poll_eq_item_iff.mp hw
  cases hheld.symm.trans hvalue
  -- the second item was sent after the first one was seen
  have hne : seen ≠ channel'.version := fun heq => hunseen (heq ▸ hseen)
  have hlt : channel.version < channel'.version :=
    Nat.lt_of_le_of_lt hle (Nat.lt_of_le_of_ne (hafter.seen_le seen hseen) hne)
  exact ⟨hslot, fun heq => haddress ▸ hrenewed hlt heq.symm⟩

end Order

section End

variable {before : Session}

theorem opened_append (hid : (opened before)[id]? = some a) (after : Session) :
    (opened (after ++ before))[id]? = some a := by
  induction after with
  | nil => exact hid
  | cons act after ih =>
    cases act with
    | poll other => exact ih
    | call op =>
      cases op with
      | subscribe b =>
        obtain ⟨hlt, _⟩ := List.getElem?_eq_some_iff.mp ih
        exact (List.getElem?_append_left hlt).trans ih
      | _ => exact ih

theorem exists_closing (hclosed : s.isClosed id = true) :
    ∃ after op before b, s = after ++ .call op :: before ∧ (opened before)[id]? = some b ∧
      op.closes b = true ∧ isClosed before id = false := by
  induction s with
  | nil => cases hclosed
  | cons act s ih =>
    cases hbefore : isClosed s id with
    | true =>
      obtain ⟨after, op, before, b, rfl, hrest⟩ := ih hbefore
      exact ⟨act :: after, op, before, b, rfl, hrest⟩
    | false =>
      rw [isClosed, hbefore, Bool.false_or] at hclosed
      obtain ⟨b, hb, hcloses⟩ := (Option.any_eq_true _ _).mp hclosed
      cases act with
      | poll other => cases hcloses
      | call op => exact ⟨[], op, s, b, rfl, hb, hcloses, hbefore⟩

/-- A closed stream keeps what it has not seen until it is polled once. -/
theorem Attends.after_closing (h : Attends buffer before id reader channel)
    (hopen : isClosed before id = false) (hcloses : op.closes reader.address = true)
    (after : Session) :
    ∃ reader', Attends buffer (after ++ .call op :: before) id reader' channel.close ∧
      isClosed (after ++ .call op :: before) id = true ∧
      reader'.subscription.seen =
        if .poll id ∈ after then some channel.version else reader.subscription.seen := by
  induction after with
  | nil =>
    have hclosing := h.call_open hopen op
    rw [if_pos hcloses] at hclosing
    refine ⟨reader, hclosing, ?_, rfl⟩
    rw [List.nil_append, isClosed_call (opened_of_reader h.listed), hcloses, Bool.or_true]
  | cons act after ih =>
    obtain ⟨reader', hattends, hclosed, hseen⟩ := ih
    have hstill : isClosed (act :: (after ++ .call op :: before)) id = true := by
      rw [isClosed, hclosed, Bool.true_or]
    cases act with
    | call other =>
      exact ⟨reader', hattends.call_closed hclosed other, hstill, by simpa using hseen⟩
    | poll other =>
      by_cases hother : other = id
      · subst hother
        exact ⟨_, hattends.poll_self, hstill, by simp [Latest.close]⟩
      · refine ⟨reader', hattends.poll_other hother, hstill, ?_⟩
        simpa [Ne.symm hother] using hseen

theorem answer_closed (hid : (opened before)[id]? = some a)
    (hopen : isClosed before id = false) (hcloses : op.closes a = true) (after : Session) :
    answer buffer (after ++ .call op :: before) id =
      if .poll id ∈ after then .ended
      else match answer buffer before id with
        | .item v => .item v
        | _ => .ended := by
  obtain ⟨reader, channel, hattends⟩ :=
    exists_attends buffer before (List.getElem?_eq_some_iff.mp hid).1
  have haddress := hattends.address_eq hid
  obtain ⟨reader', hafter, _, hseen⟩ :=
    hattends.after_closing hopen (haddress ▸ hcloses) after
  rw [hafter.answer_eq, hattends.answer_eq, hseen, Latest.poll_fst, Latest.poll_fst,
    Latest.idle_of_closed (c := channel.close) rfl,
    Latest.idle_of_open (hattends.airs hopen).isOpen]
  by_cases hpolled : .poll id ∈ after
  · simp [hpolled, Latest.close]
  · by_cases hsaw : reader.subscription.seen = some channel.version
    · simp [hpolled, hsaw, Latest.close]
    · cases hvalue : channel.value <;> simp [hpolled, hsaw, hvalue, Latest.close]

/-- A stream gives newer and newer values, or one anew that was found to be still right. As long
as it is open it has caught up once it is polled in vain; once it is closed it gives the value
that it has not seen yet, and ends. -/
theorem stream_ordered_to_end (buffer : Nat) (s : Session) (id : Nat) (a : Address)
    (hid : s.opened[id]? = some a) :
    (∀ between before v w, s = between ++ .poll id :: before →
      answer buffer before id = .item v → answer buffer s id = .item w →
      v.slot ≤ w.slot ∧
        (v.slot = w.slot → Revalidated buffer between (.poll id :: before) a v.slot)) ∧
    (s.isClosed id = false →
      answer buffer (.poll id :: s) id = .pending ∧ answer buffer s id ≠ .ended ∧
      ∀ v, (s.registry buffer).get? a = some v → answer buffer s id = .pending →
        ∃ w, delivered? buffer s id = some w ∧ w.slot = v.slot ∧ w.entity = v.entity) ∧
    (s.isClosed id = true →
      ∃ after op before, s = after ++ .call op :: before ∧ (opened before)[id]? = some a ∧
        op.closes a = true ∧ isClosed before id = false ∧
        answer buffer s id =
          if .poll id ∈ after then .ended
          else match answer buffer before id with
            | .item v => .item v
            | _ => .ended) := by
  refine ⟨?_, fun hopen => ?_, fun hclosed => ?_⟩
  · rintro between before v w rfl hv hw
    exact slots_of_items hv hw hid
  · obtain ⟨reader, channel, hattends⟩ :=
      exists_attends buffer s (List.getElem?_eq_some_iff.mp hid).1
    have haddress := hattends.address_eq hid
    have hairs := hattends.airs hopen
    have hidle := Latest.idle_of_open hairs.isOpen
    refine ⟨?_, ?_, ?_⟩
    · rw [hattends.poll_self.answer_eq, Latest.poll_fst, if_pos rfl, hidle]
    · rw [hattends.answer_eq, Latest.poll_fst, hidle]
      split
      · nofun
      · cases channel.value <;> nofun
    · intro v hv hpending
      obtain ⟨entry, hentry, hepoch, rfl⟩ := get?_eq_some_iff.mp hv
      rw [← haddress] at hentry
      obtain ⟨w, hw⟩ := Option.ne_none_iff_exists'.mp (hairs.fresh entry hentry hepoch)
      obtain ⟨stored, hstored, hentity, hslot⟩ := hairs.held w hw
      cases hentry.symm.trans hstored
      have hsaw : reader.subscription.seen = some channel.version := by
        by_contra hunseen
        rw [hattends.answer_eq, Latest.poll_eq_item_iff.mpr ⟨hunseen, hw⟩] at hpending
        cases hpending
      exact ⟨w, hattends.delivered hsaw w hw, hslot, hentity⟩
  · obtain ⟨after, op, before, b, rfl, hb, hcloses, hopen⟩ := exists_closing hclosed
    cases (opened_append hb (after ++ [.call op])).symm.trans (by simpa using hid)
    exact ⟨after, op, before, rfl, hb, hcloses, hopen, answer_closed hb hopen hcloses after⟩

/-- A value was seen, was put again after a gap, and its streams were closed at once. -/
def renewed : Session :=
  [.call (.unsubscribe ⟨1⟩), .call (.put ⟨1⟩ (.rootBank default) 5), .call .invalidateAll]

def looked : Session := [.poll 0, .call (.put ⟨1⟩ (.rootBank default) 5), .call (.subscribe ⟨1⟩)]

theorem stream_ordered_to_end_renewed :
    (renewed ++ looked).opened[0]? = some ⟨1⟩ ∧ (renewed ++ looked).isClosed 0 = true ∧
      answer 16 (renewed ++ looked) 0 = .item ⟨.rootBank default, 5, 5⟩ ∧
      Revalidated 16 renewed looked ⟨1⟩ 5 := by
  have hid : (renewed ++ looked).opened[0]? = some ⟨1⟩ := rfl
  have hfirst : answer 16 looked.tail 0 = .item ⟨.rootBank default, 5, 5⟩ := by decide
  have hagain : answer 16 (renewed ++ looked) 0 = .item ⟨.rootBank default, 5, 5⟩ := by decide
  obtain ⟨hordered, _, _⟩ := stream_ordered_to_end 16 (renewed ++ looked) 0 ⟨1⟩ hid
  obtain ⟨_, hrenewed⟩ := hordered renewed looked.tail _ _ rfl hfirst hagain
  exact ⟨hid, rfl, hagain, hrenewed rfl⟩

end End

end Solvency.Registry.Session
