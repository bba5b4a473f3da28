import Solvency.Proofs.Channel.EventLog
import Solvency.Proofs.Registry.Channels

/-! What the events of a registry tell. A listener that lost none of them knows the epoch, the
confirmed slot and the slot of every address that is fresh, as long as nothing is removed. -/

namespace Solvency.Registry

/-- What events can tell of a registry. -/
@[ext] structure Outline where
  epoch : Nat := 0
  confirmed : Slot := 0
  slots : Address → Option Slot := fun _ => none

def Outline.apply (o : Outline) : RegistryEvent → Outline
  | .updated a s => { o with slots := fun b => if b = a then some s else o.slots b }
  | .slotConfirmed s => { o with confirmed := s }
  | .invalidated epoch => { epoch }

def Outline.replay (events : List RegistryEvent) : Outline := events.foldl apply {}

def outline (r : Registry) : Outline where
  epoch := r.epoch
  confirmed := r.confirmedSlot
  slots a := (r.get? a).map (·.slot)

/-- The one event of an operation that changed something. -/
def Op.event? (r : Registry) : Op → Option RegistryEvent
  | .put a e s => if (r.put a e s).1.isObserved then some (.updated a s) else none
  | .confirmSlot s => if r.confirmedSlot < s then some (.slotConfirmed s) else none
  | .invalidateAll => some (.invalidated (r.epoch + 1))
  | _ => none

/-- The events of everything that was done, oldest first. -/
def History.told (buffer : Nat) : History → List RegistryEvent
  | [] => []
  | op :: h => told buffer h ++ (op.event? (registry buffer h)).toList

structure Listener where
  position : Nat := 0
  received : List (Reception RegistryEvent) := []

def Listener.hear (l : Listener) (log : EventLog RegistryEvent) : Listener :=
  match log.receive? l.position with
  | none => l
  | some (reception, position) => ⟨position, l.received ++ [reception]⟩

inductive Turn where
  | call (op : Op)
  | receive

/-- What was done to a registry, and when its listener received something; newest first. -/
abbrev Hearing := List Turn

namespace Hearing

def ops : Hearing → History
  | [] => []
  | .call op :: t => op :: ops t
  | .receive :: t => ops t

def listener (buffer : Nat) : Hearing → Listener
  | [] => {}
  | .call _ :: t => listener buffer t
  | .receive :: t => (listener buffer t).hear ((ops t).registry buffer).events

end Hearing

variable {r : Registry} {a : Address} {op : Op} {buffer : Nat}

theorem map_slot_get? (r : Registry) (a : Address) :
    (r.get? a).map (·.slot) = (r.entries.find? a).bind fun entry =>
      if entry.epoch = r.epoch then some entry.slot else none := by
  rw [get?]
  cases r.entries.find? a with
  | none => rfl
  | some entry => by_cases h : entry.epoch = r.epoch <;> simp [isFresh, h, versioned]

theorem outline_congr {r' : Registry} (hentries : r'.entries = r.entries)
    (hepoch : r'.epoch = r.epoch) :
    r'.outline = { r.outline with confirmed := r'.confirmedSlot } := by
  simp only [outline, map_slot_get?, hentries, hepoch]

theorem outline_put (a : Address) (e : Entity) (s : Slot) :
    (r.put a e s).2.outline =
      ((Op.put a e s).event? r).elim r.outline r.outline.apply := by
  rw [Op.event?]
  cases hobserved : (r.put a e s).1.isObserved with
  | false => simp [put_of_not_observed hobserved]
  | true =>
    obtain ⟨v, hv, hs⟩ := get?_put_of_observed hobserved
    apply Outline.ext
    · simp [outline, Outline.apply]
    · simp [outline, Outline.apply]
    · funext b
      by_cases hb : b = a
      · simp [outline, Outline.apply, hb, hv, hs]
      · simp [outline, Outline.apply, hb, get?_put]

theorem Tuned.outline_invalidateAll (hr : r.Tuned) :
    r.invalidateAll.outline = { epoch := r.epoch + 1 } := by
  have hstale : ∀ a, r.invalidateAll.get? a = none := by
    intro a
    refine get?_eq_none_iff.mpr fun entry hentry => ?_
    exact Nat.ne_of_lt (Nat.lt_succ_of_le (hr.epoch_le a entry hentry))
  simp only [outline, hstale]
  rfl

/-- One operation changes what its event tells, and nothing else. -/
theorem Tuned.outline_perform (hr : r.Tuned) (hop : ∀ a, op ≠ .remove a) :
    (r.perform op).outline = (op.event? r).elim r.outline r.outline.apply := by
  cases op with
  | put a e s => exact outline_put a e s
  | remove a => exact absurd rfl (hop a)
  | invalidateAll => exact hr.outline_invalidateAll
  | confirmSlot s =>
    have houtline : (r.confirmSlot s).outline = _ :=
      outline_congr entries_confirmSlot epoch_confirmSlot
    rw [Registry.perform, houtline, Op.event?, confirmedSlot_confirmSlot]
    by_cases hs : r.confirmedSlot < s
    · simp [hs, Outline.apply, Nat.max_eq_right (Nat.le_of_lt hs)]
    · simp [hs, outline, Nat.max_eq_left (Nat.le_of_not_lt hs)]
  | setLive a live => exact outline_congr rfl rfl
  | subscribe a =>
    rw [Registry.perform, outline_congr entries_subscribe epoch_subscribe, confirmedSlot_subscribe]
    rfl
  | unsubscribe a =>
    rw [Registry.perform, outline_congr entries_unsubscribe epoch_unsubscribe,
      confirmedSlot_unsubscribe]
    rfl
  | _ => rfl

theorem events_perform (r : Registry) (op : Op) :
    (r.perform op).events = (op.event? r).elim r.events r.events.push := by
  cases op with
  | put a e s =>
    rw [perform, Op.event?]
    cases hobserved : (r.put a e s).1.isObserved with
    | false => simp [put_of_not_observed hobserved]
    | true =>
      obtain ⟨entries, hput⟩ := put_of_observed hobserved
      simp [hput, emit]
  | remove a => exact events_remove r a
  | confirmSlot s =>
    rw [perform, Op.event?, confirmSlot]
    split <;> rfl
  | subscribe a =>
    rw [perform, subscribe]
    split <;> rfl
  | unsubscribe a =>
    rw [perform, unsubscribe]
    split <;> rfl
  | _ => rfl

namespace History

theorem tuned (buffer : Nat) (h : History) : (h.registry buffer).Tuned := by
  induction h with
  | nil => exact tuned_ofBuffer buffer
  | cons op h ih => exact ih.perform op

theorem records (buffer : Nat) (h : History) :
    (h.registry buffer).events.Records (h.told buffer) := by
  induction h with
  | nil => exact EventLog.records_ofBuffer buffer
  | cons op h ih =>
    rw [registry, events_perform, told]
    cases op.event? (registry buffer h) with
    | none => simpa using ih
    | some event => exact ih.push event

theorem replay_told (buffer : Nat) (h : History) (hkept : ∀ a, .remove a ∉ h) :
    Outline.replay (h.told buffer) = (h.registry buffer).outline := by
  induction h with
  | nil => rfl
  | cons op h ih =>
    have hop : ∀ a, op ≠ .remove a := fun a heq => hkept a (heq ▸ List.mem_cons_self)
    have hrest := ih fun a hmem => hkept a (List.mem_cons_of_mem op hmem)
    rw [registry, (tuned buffer h).outline_perform hop, ← hrest, told, Outline.replay,
      List.foldl_append]
    cases op.event? (registry buffer h) <;> rfl

end History

namespace Hearing

/-- A listener that was told of no loss has received the oldest events, up to its position. -/
theorem received_eq (buffer : Nat) (t : Hearing)
    (hkept : ∀ missed, .lagged missed ∉ (t.listener buffer).received) :
    (t.listener buffer).received =
      ((t.ops.told buffer).take (t.listener buffer).position).map .event ∧
    (t.listener buffer).position ≤ (t.ops.told buffer).length := by
  induction t with
  | nil => exact ⟨rfl, Nat.zero_le _⟩
  | cons turn t ih =>
    cases turn with
    | call op =>
      obtain ⟨hreceived, hposition⟩ := ih hkept
      rw [ops, History.told, listener, List.take_append_of_le_length hposition, List.length_append]
      exact ⟨hreceived, Nat.le_add_right_of_le hposition⟩
    | receive =>
      have hrecords := History.records buffer (ops t)
      rw [listener, Listener.hear] at hkept ⊢
      cases hnext : ((ops t).registry buffer).events.receive? (listener buffer t).position with
      | none =>
        rw [hnext] at hkept
        exact ih hkept
      | some next =>
        rw [hnext] at hkept
        obtain ⟨hreceived, hposition⟩ :=
          ih fun missed hmem => hkept missed (List.mem_append_left _ hmem)
        by_cases hroom : ((ops t).registry buffer).events.capacity <
            ((ops t).registry buffer).events.total - (listener buffer t).position
        · rw [EventLog.receive?, if_pos hroom] at hnext
          cases hnext
          exact absurd (List.mem_append_right _ List.mem_cons_self) (hkept _)
        · rw [hrecords.receive?_eq hroom] at hnext
          obtain ⟨event, hevent, rfl⟩ := Option.map_eq_some_iff.mp hnext
          obtain ⟨hlt, _⟩ := List.getElem?_eq_some_iff.mp hevent
          refine ⟨?_, hlt⟩
          rw [hreceived, ops, List.take_add_one, hevent, List.map_append]
          rfl

/-- The events that a listener received, having lost none and with none left, are one for each
operation that changed something. Replayed they give what can be looked up, if nothing was
removed. -/
theorem events_determine_outline (buffer : Nat) (t : Hearing)
    (hkept : ∀ missed, .lagged missed ∉ (t.listener buffer).received)
    (hdrained : (t.ops.registry buffer).events.receive? (t.listener buffer).position = none) :
    (t.listener buffer).received = (t.ops.told buffer).map .event ∧
      ((∀ a, .remove a ∉ t.ops) →
        Outline.replay (t.ops.told buffer) = (t.ops.registry buffer).outline) := by
  obtain ⟨hreceived, hposition⟩ := t.received_eq buffer hkept
  have hall : (t.listener buffer).position = (t.ops.told buffer).length := by
    have hrecords := History.records buffer t.ops
    have hroom : ¬ (t.ops.registry buffer).events.capacity <
        (t.ops.registry buffer).events.total - (t.listener buffer).position := by
      intro hlost
      rw [EventLog.receive?, if_pos hlost] at hdrained
      cases hdrained
    rw [hrecords.receive?_eq hroom, Option.map_eq_none_iff, List.getElem?_eq_none_iff] at hdrained
    exact Nat.le_antisymm hposition hdrained
  rw [hall, List.take_length] at hreceived
  exact ⟨hreceived, History.replay_told buffer t.ops⟩

/-- There is room for one event, and each is received before the next. -/
def followed : Hearing :=
  [.receive, .call (.confirmSlot 7), .receive, .call (.put ⟨1⟩ (.rootBank default) 5), .receive,
    .call .invalidateAll, .receive, .call (.put ⟨1⟩ (.rootBank default) 5)]

theorem events_determine_outline_followed :
    (followed.listener 1).received =
      [.event (.updated ⟨1⟩ 5), .event (.invalidated 1), .event (.updated ⟨1⟩ 5),
        .event (.slotConfirmed 7)] ∧
      Outline.replay (followed.ops.told 1) = (followed.ops.registry 1).outline ∧
      (followed.ops.registry 1).outline.slots ⟨1⟩ = some 5 := by
  have hreceived : (followed.listener 1).received =
      [.event (.updated ⟨1⟩ 5), .event (.invalidated 1), .event (.updated ⟨1⟩ 5),
        .event (.slotConfirmed 7)] := by decide +kernel
  have hkept : ∀ missed, .lagged missed ∉ (followed.listener 1).received := by simp [hreceived]
  have hremoves : ∀ a, .remove a ∉ followed.ops := by simp [followed, ops]
  obtain ⟨_, hreplay⟩ := events_determine_outline 1 followed hkept (by decide +kernel)
  exact ⟨hreceived, hreplay hremoves, by decide +kernel⟩

end Hearing

end Solvency.Registry
