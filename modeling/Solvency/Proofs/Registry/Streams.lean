import Solvency.Proofs.Channel.Latest
import Solvency.Proofs.Registry.Channels

/-! Streams of a registry, opened and polled while it goes on. A session is everything that was
done to a registry and to the streams of it; what a stream has seen is read off the session. -/

namespace Solvency.Registry

structure Reader where
  address : Address
  subscription : Subscription

/-- A registry and the streams that were opened on it, in this order. -/
structure Audience where
  registry : Registry
  readers : List Reader := []

inductive Act where
  | call (op : Op)
  | poll (id : Nat)
deriving DecidableEq

def look (r : Registry) (reader : Reader) : Reader :=
  { reader with subscription := (r.poll reader.subscription).2 }

namespace Audience

def perform (u : Audience) : Act → Audience
  | .call (.subscribe a) => {
      registry := (u.registry.subscribe a).2
      readers := u.readers ++ [⟨a, (u.registry.subscribe a).1⟩] }
  | .call op => { u with registry := u.registry.perform op }
  | .poll id => { u with readers := u.readers.modify id u.registry.look }

end Audience

def Act.closes : Act → Address → Bool
  | .call op, a => op.closes a
  | .poll _, _ => false

/-- What was done, newest first. -/
abbrev Session := List Act

namespace Session

def audience (buffer : Nat) : Session → Audience
  | [] => ⟨.ofBuffer buffer, []⟩
  | act :: s => (audience buffer s).perform act

def registry (buffer : Nat) (s : Session) : Registry := (s.audience buffer).registry

/-- What the next poll of a stream gives. -/
def answer (buffer : Nat) (s : Session) (id : Nat) : Poll Versioned :=
  match (s.audience buffer).readers[id]? with
  | none => .ended
  | some reader => ((s.registry buffer).poll reader.subscription).1

/-- What the polls of a stream gave last, other than that there was nothing. -/
def delivered? (buffer : Nat) : Session → Nat → Option Versioned
  | [], _ => none
  | act :: s, id =>
    if act = .poll id then
      match answer buffer s id with
      | .item v => some v
      | _ => delivered? buffer s id
    else delivered? buffer s id

/-- The addresses of the streams, in the order in which they were opened. -/
def opened : Session → List Address
  | [] => []
  | .call (.subscribe a) :: s => opened s ++ [a]
  | _ :: s => opened s

/-- The address of the stream was closed after the stream was opened. -/
def isClosed : Session → Nat → Bool
  | [], _ => false
  | act :: s, id => isClosed s id || (opened s)[id]?.any act.closes

/-- A stream of the address was opened, and none was closed since. -/
def isOpen : Session → Address → Bool
  | [], _ => false
  | act :: s, a => !act.closes a && (act = .call (.subscribe a) || isOpen s a)

/-- The address was fresh at some time since the oldest of its streams that are still open was
opened. -/
def isHeard (buffer : Nat) : Session → Address → Bool
  | [], _ => false
  | act :: s, a =>
    isOpen (act :: s) a && (isHeard buffer s a || ((registry buffer (act :: s)).get? a).isSome)

end Session

variable {buffer : Nat} {s : Session} {act : Act} {op : Op} {a : Address} {id : Nat}

theorem Audience.registry_perform (u : Audience) (op : Op) :
    (u.perform (.call op)).registry = u.registry.perform op := by
  cases op <;> rfl

namespace Session

theorem registry_call : registry buffer (.call op :: s) = (s.registry buffer).perform op :=
  Audience.registry_perform _ op

theorem tuned_registry (buffer : Nat) (s : Session) : (s.registry buffer).Tuned := by
  induction s with
  | nil => exact tuned_ofBuffer buffer
  | cons act s ih =>
    cases act with
    | call op =>
      rw [registry_call]
      exact ih.perform op
    | poll id => exact ih

theorem map_address_look (u : Audience) (id : Nat) :
    (u.perform (.poll id)).readers.map (·.address) = u.readers.map (·.address) := by
  refine List.ext_getElem? fun other => ?_
  simp only [Audience.perform, List.getElem?_map, List.getElem?_modify, Option.map_eq_map,
    Option.map_map]
  congr 1
  funext reader
  by_cases h : id = other <;> simp [h, look]

theorem map_address (buffer : Nat) (s : Session) :
    (s.audience buffer).readers.map (·.address) = s.opened := by
  induction s with
  | nil => rfl
  | cons act s ih =>
    cases act with
    | poll id => exact (map_address_look _ id).trans ih
    | call op =>
      cases op with
      | subscribe a =>
        have hnew : (audience buffer (.call (.subscribe a) :: s)).readers =
            (audience buffer s).readers ++ [⟨a, ((registry buffer s).subscribe a).1⟩] := rfl
        rw [hnew, List.map_append, ih]
        rfl
      | _ => exact ih

theorem length_readers (buffer : Nat) (s : Session) :
    (s.audience buffer).readers.length = s.opened.length := by
  rw [← map_address buffer s, List.length_map]

theorem opened_of_reader {reader : Reader} (h : (s.audience buffer).readers[id]? = some reader) :
    s.opened[id]? = some reader.address := by
  rw [← map_address buffer s, List.getElem?_map, h]
  rfl

theorem lt_of_isClosed (h : s.isClosed id = true) : id < s.opened.length := by
  induction s with
  | nil => cases h
  | cons act s ih =>
    have hlt : id < (opened s).length := by
      rcases Bool.or_eq_true_iff.mp h with hbefore | hnow
      · exact ih hbefore
      · obtain ⟨a, ha, _⟩ := (Option.any_eq_true _ _).mp hnow
        exact (List.getElem?_eq_some_iff.mp ha).1
    cases act with
    | poll other => exact hlt
    | call op =>
      cases op with
      | subscribe a =>
        rw [opened, List.length_append]
        omega
      | _ => exact hlt

theorem isClosed_new (s : Session) (a : Address) :
    isClosed (.call (.subscribe a) :: s) s.opened.length = false := by
  have hnew : s.isClosed s.opened.length = false := by
    by_contra hclosed
    exact Nat.lt_irrefl _ (lt_of_isClosed (by simpa using hclosed))
  simp [isClosed, hnew]

/-- A stream and the channel it looks at, which is that of its address until it is closed. -/
structure Attends (buffer : Nat) (s : Session) (id : Nat) (reader : Reader)
    (channel : Latest Versioned) : Prop where
  listed : (s.audience buffer).readers[id]? = some reader
  found : (s.registry buffer).channels.find? reader.subscription.channel = some channel
  attached : s.isClosed id = false →
    (s.registry buffer).watchers.find? reader.address = some reader.subscription.channel
  detached : s.isClosed id = true → channel.isOpen = false ∧
    ∀ b, (s.registry buffer).watchers.find? b ≠ some reader.subscription.channel
  seen_le : ∀ seen, reader.subscription.seen = some seen → seen ≤ channel.version
  delivered : reader.subscription.seen = some channel.version →
    ∀ v, channel.value = some v → s.delivered? buffer id = some v

variable {reader : Reader} {channel : Latest Versioned}

theorem Attends.address_eq (h : Attends buffer s id reader channel)
    (hid : s.opened[id]? = some a) : reader.address = a :=
  Option.some.inj ((opened_of_reader h.listed).symm.trans hid)

theorem Attends.answer_eq (h : Attends buffer s id reader channel) :
    s.answer buffer id = (channel.poll reader.subscription.seen).1 := by
  rw [answer, h.listed]
  simp only [Registry.poll, h.found]

theorem Attends.airs (h : Attends buffer s id reader channel) (hopen : s.isClosed id = false) :
    (s.registry buffer).Airs reader.address channel := by
  obtain ⟨own, hown, hairs⟩ := (tuned_registry buffer s).airs _ _ (h.attached hopen)
  cases h.found.symm.trans hown
  exact hairs

theorem isClosed_poll (s : Session) (id other : Nat) :
    isClosed (.poll other :: s) id = s.isClosed id := by
  rw [isClosed]
  cases s.opened[id]? <;> simp [Act.closes]

theorem isClosed_call {a : Address} (ha : s.opened[id]? = some a) :
    isClosed (.call op :: s) id = (s.isClosed id || op.closes a) := by
  rw [isClosed, ha]
  rfl

theorem Attends.poll_other (h : Attends buffer s id reader channel) {other : Nat}
    (hne : other ≠ id) : Attends buffer (.poll other :: s) id reader channel where
  listed := by
    simp [audience, Audience.perform, hne, h.listed]
  found := h.found
  attached hopen := h.attached (isClosed_poll s id other ▸ hopen)
  detached hclosed := h.detached (isClosed_poll s id other ▸ hclosed)
  seen_le := h.seen_le
  delivered hseen v hv := by
    have hact : Act.poll other ≠ .poll id := fun heq => hne (Act.poll.inj heq)
    rw [delivered?, if_neg hact]
    exact h.delivered hseen v hv

theorem Attends.poll_self (h : Attends buffer s id reader channel) :
    Attends buffer (.poll id :: s) id
      ⟨reader.address, reader.subscription.channel, some channel.version⟩ channel where
  listed := by
    have hlook : (s.registry buffer).look reader =
        ⟨reader.address, reader.subscription.channel, some channel.version⟩ := by
      simp only [look, Registry.poll, h.found, Latest.poll_snd]
    simp only [audience, Audience.perform, List.getElem?_modify, h.listed]
    exact congrArg some hlook
  found := h.found
  attached hopen := h.attached (isClosed_poll s id id ▸ hopen)
  detached hclosed := h.detached (isClosed_poll s id id ▸ hclosed)
  seen_le seen hseen := Nat.le_of_eq (Option.some.inj hseen).symm
  delivered _ v hv := by
    rw [delivered?, if_pos rfl, h.answer_eq]
    by_cases hseen : reader.subscription.seen = some channel.version
    · have hold := h.delivered hseen v hv
      rw [Latest.poll_fst, if_pos hseen, Latest.idle]
      cases channel.isOpen <;> exact hold
    · have hitem : (channel.poll reader.subscription.seen).1 = .item v :=
        Latest.poll_eq_item_iff.mpr ⟨hseen, hv⟩
      rw [hitem]

theorem reader_call (h : (s.audience buffer).readers[id]? = some reader) (op : Op) :
    (audience buffer (.call op :: s)).readers[id]? = some reader := by
  cases op with
  | subscribe a =>
    obtain ⟨hlt, _⟩ := List.getElem?_eq_some_iff.mp h
    exact (List.getElem?_append_left hlt).trans h
  | _ => exact h

theorem Attends.call_closed (h : Attends buffer s id reader channel)
    (hclosed : s.isClosed id = true) (op : Op) :
    Attends buffer (.call op :: s) id reader channel := by
  obtain ⟨hshut, hfree⟩ := h.detached hclosed
  have hafter := (tuned_registry buffer s).channel_unwatched op h.found hfree
  rw [← registry_call] at hafter
  have hstill : isClosed (.call op :: s) id = true := by
    rw [isClosed, hclosed, Bool.true_or]
  exact {
    listed := reader_call h.listed op
    found := hafter.1
    attached := fun hopen => by rw [hstill] at hopen; cases hopen
    detached := fun _ => ⟨hshut, hafter.2⟩
    seen_le := h.seen_le
    delivered := h.delivered }

/-- A stream that is open is told what is sent to its address, and that the address is closed. -/
theorem Attends.call_open (h : Attends buffer s id reader channel)
    (hopen : s.isClosed id = false) (op : Op) :
    Attends buffer (.call op :: s) id reader
      (if op.closes reader.address then channel.close
        else (op.sends? (s.registry buffer) reader.address).elim channel channel.send) := by
  have hr := tuned_registry buffer s
  have hown := h.attached hopen
  have hclosed : isClosed (.call op :: s) id = op.closes reader.address := by
    rw [isClosed_call (opened_of_reader h.listed), hopen, Bool.false_or]
  have hfound := hr.channel_watched op hown h.found
  rw [← registry_call] at hfound
  refine ⟨reader_call h.listed op, hfound, fun hcloses => ?_, fun hcloses => ?_, ?_, ?_⟩
  · rw [hclosed] at hcloses
    simp [registry_call, find?_watchers_perform, hcloses, hown]
  · rw [hclosed] at hcloses
    rw [if_pos hcloses]
    refine ⟨rfl, fun b hb => ?_⟩
    rw [registry_call] at hb
    obtain ⟨hkept, hold | ⟨rfl, _, hnew⟩⟩ := watched_of_perform hb
    · rw [hr.apart _ _ _ hold hown, hcloses] at hkept
      cases hkept
    · exact Nat.ne_of_lt (hr.lt_next _ _ h.found) hnew
  · intro seen hseen
    have hle := h.seen_le seen hseen
    split
    · exact hle
    · cases op.sends? (s.registry buffer) reader.address with
      | none => exact hle
      | some v => exact Nat.le_succ_of_le hle
  · intro hseen v hv
    have hact : Act.call op ≠ .poll id := by simp
    rw [delivered?, if_neg hact]
    split at hseen
    case isTrue hcloses =>
      rw [if_pos hcloses] at hv
      exact h.delivered hseen v hv
    case isFalse hcloses =>
      rw [if_neg hcloses] at hv
      cases hsends : op.sends? (s.registry buffer) reader.address with
      | none =>
        rw [hsends] at hseen hv
        exact h.delivered hseen v hv
      | some sent =>
        -- what was just sent is newer than anything that the stream has seen
        rw [hsends] at hseen
        have hle := h.seen_le _ hseen
        exact absurd hle (Nat.not_succ_le_self channel.version)

theorem attends_subscribe (buffer : Nat) (s : Session) (a : Address) :
    ∃ own channel, Attends buffer (.call (.subscribe a) :: s) s.opened.length ⟨a, own, none⟩
      channel := by
  have hown : ∃ own, ((s.registry buffer).subscribe a).1 = ⟨own, none⟩ ∧
      (registry buffer (.call (.subscribe a) :: s)).watchers.find? a = some own := by
    rw [registry_call, find?_watchers_perform]
    cases ha : (s.registry buffer).watchers.find? a with
    | none => exact ⟨_, by rw [subscribe, ha], by simp [Op.closes]⟩
    | some own => exact ⟨own, by rw [subscribe, ha], by simp [Op.closes]⟩
  obtain ⟨own, hsubscription, hwatched⟩ := hown
  obtain ⟨channel, hchannel, _⟩ := (tuned_registry buffer _).airs a own hwatched
  refine ⟨own, channel, ?_, hchannel, fun _ => hwatched, fun hclosed => ?_,
    by simp, by simp⟩
  · have hreaders : (audience buffer (.call (.subscribe a) :: s)).readers =
        (s.audience buffer).readers ++ [⟨a, ((s.registry buffer).subscribe a).1⟩] := rfl
    rw [hreaders, ← length_readers buffer s, List.getElem?_concat_length, hsubscription]
  · rw [isClosed_new] at hclosed
    cases hclosed

theorem exists_attends (buffer : Nat) (s : Session) {id : Nat} (hid : id < s.opened.length) :
    ∃ reader channel, Attends buffer s id reader channel := by
  induction s with
  | nil => cases hid
  | cons act s ih =>
    cases act with
    | poll other =>
      obtain ⟨reader, channel, h⟩ := ih hid
      by_cases hother : other = id
      · subst hother
        exact ⟨_, _, h.poll_self⟩
      · exact ⟨_, _, h.poll_other hother⟩
    | call op =>
      by_cases hold : id < (opened s).length
      · obtain ⟨reader, channel, h⟩ := ih hold
        cases hclosed : isClosed s id with
        | true => exact ⟨_, _, h.call_closed hclosed op⟩
        | false => exact ⟨_, _, h.call_open hclosed op⟩
      · cases op with
        | subscribe a =>
          rw [opened, List.length_append, List.length_singleton] at hid
          have hnew : id = (opened s).length := by omega
          obtain ⟨own, channel, h⟩ := attends_subscribe buffer s a
          exact ⟨_, _, hnew ▸ h⟩
        | _ => exact absurd hid hold

end Session

end Solvency.Registry
