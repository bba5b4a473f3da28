import Mathlib.Data.List.Pairwise
import Solvency.Proofs.Ledger.History

/-! What subscriptions have been sent, read off their queues. Whatever a queue holds after an
action beyond what it held before was sent to it in that action. -/

namespace Solvency

/-- What was sent to subscriptions, or heard from them, under their numbers. -/
abbrev Log (δ : Type) := List (Nat × δ)

namespace Log

variable {δ : Type} {log : Log δ} {id : Nat}

def stream (log : Log δ) (id : Nat) : List δ :=
  log.filterMap fun e => if e.1 = id then some e.2 else none

@[simp] theorem stream_nil (id : Nat) : stream ([] : Log δ) id = [] := rfl

theorem stream_append (log more : Log δ) (id : Nat) :
    stream (log ++ more) id = log.stream id ++ more.stream id :=
  List.filterMap_append

theorem mem_stream {d : δ} : d ∈ log.stream id ↔ (id, d) ∈ log := by
  simp only [stream, List.mem_filterMap, Prod.exists, Option.ite_none_right_eq_some,
    Option.some.injEq]
  constructor
  · rintro ⟨_, _, h, rfl, rfl⟩
    exact h
  · exact fun h => ⟨id, d, h, rfl, rfl⟩

theorem stream_eq_nil (h : ∀ e ∈ log, e.1 ≠ id) : log.stream id = [] :=
  List.eq_nil_iff_forall_not_mem.mpr fun _ hd => h _ (mem_stream.mp hd) rfl

theorem stream_map_pair (ds : List δ) (other id : Nat) :
    stream (ds.map (other, ·)) id = if other = id then ds else [] := by
  split
  case isTrue h => simp [stream, h, List.filterMap_map]
  case isFalse h => exact stream_eq_nil (by simp [h])

end Log

/-! The subscriptions of one kind. A subscription is opened under the next number. -/

namespace Feeds

variable {β δ : Type} {queue : β → List δ} {news? : Option δ} {next next' : Nat}
  {feeds feeds' : Table Nat β} {sent heard now : Log δ}

/-- What nobody has heard yet. There is nothing of the kind where nothing is subscribed. -/
def unheard (queue : β → List δ) (feeds : Table Nat β) (id : Nat) : List δ :=
  ((feeds.find? id).map queue).getD []

def additions (queue : β → List δ) (feeds feeds' : Table Nat β) : Log δ :=
  feeds'.entries.flatMap fun (id, feed) =>
    ((queue feed).drop (unheard queue feeds id).length).map (id, ·)

theorem unheard_of_find? {id : Nat} {feed : β} (h : feeds.find? id = some feed) :
    unheard queue feeds id = queue feed := by
  rw [unheard, h]
  rfl

theorem unheard_insert (feeds : Table Nat β) (id other : Nat) (feed : β) :
    unheard queue (feeds.insert id feed) other =
      if other = id then queue feed else unheard queue feeds other := by
  rw [unheard, Table.find?_insert]
  split <;> rfl

theorem stream_additions (hnodup : feeds'.keys.Nodup) (id : Nat) :
    (additions queue feeds feeds').stream id =
      (unheard queue feeds' id).drop (unheard queue feeds id).length := by
  obtain ⟨entries⟩ := feeds'
  induction entries with
  | nil => simp [additions, unheard, Table.find?]
  | cons entry rest ih =>
    obtain ⟨first, feed⟩ := entry
    obtain ⟨hfirst, hrest⟩ := List.nodup_cons.mp hnodup
    have ih := ih hrest
    have hsplit : additions queue feeds ⟨(first, feed) :: rest⟩ =
        ((queue feed).drop (unheard queue feeds first).length).map (first, ·) ++
          additions queue feeds ⟨rest⟩ := List.flatMap_cons
    rw [hsplit, Log.stream_append, ih, Log.stream_map_pair]
    by_cases h : first = id
    · have hnone : Table.find? ⟨rest⟩ id = none := by
        rw [← Option.not_isSome_iff_eq_none, ← Table.mem_keys_iff, ← h]
        exact hfirst
      have hfound : Table.find? ⟨(first, feed) :: rest⟩ id = some feed := by
        simp [Table.find?, h]
      have hrest : unheard queue ⟨rest⟩ id = [] := by simp [unheard, hnone]
      rw [if_pos h, hrest, unheard_of_find? hfound, List.drop_nil, List.append_nil, h]
    · have hother : unheard queue ⟨(first, feed) :: rest⟩ id = unheard queue ⟨rest⟩ id := by
        simp [unheard, Table.find?, List.lookup_cons, beq_false_of_ne (Ne.symm h)]
      rw [if_neg h, List.nil_append, hother]

theorem mem_keys_of_mem_additions {e : Nat × δ} (h : e ∈ additions queue feeds feeds') :
    e.1 ∈ feeds'.keys := by
  obtain ⟨entry, hentry, he⟩ := List.mem_flatMap.mp h
  obtain ⟨d, _, rfl⟩ := List.mem_map.mp he
  exact List.mem_map_of_mem hentry

/-- What one action does to the subscriptions of one kind, and what was heard in it. Nothing but
`news?` is sent. -/
inductive Step (queue : β → List δ) (news? : Option δ) (next : Nat) (feeds : Table Nat β) :
    Nat → Table Nat β → Log δ → Prop
  | sent {next' : Nat} {feeds' : Table Nat β} (hnext : next ≤ next')
      (hkeys : feeds'.keys.Sublist feeds.keys)
      (hqueue : ∀ id feed, feeds'.find? id = some feed → ∃ before, feeds.find? id = some before ∧
        (queue feed = queue before ∨ ∃ d ∈ news?, queue feed = queue before ++ [d])) :
      Step queue news? next feeds next' feeds' []
  | opened (feed : β) (hqueue : queue feed = []) :
      Step queue news? next feeds (next + 1) (feeds.insert next feed) []
  | heard {id : Nat} {before after : β} {d : δ} (hfeed : feeds.find? id = some before)
      (hqueue : queue before = d :: queue after) :
      Step queue news? next feeds next (feeds.insert id after) [(id, d)]

theorem Step.unchanged (hnext : next ≤ next') : Step queue news? next feeds next' feeds [] :=
  .sent hnext (List.Sublist.refl _) fun _ feed hfeed => ⟨feed, hfeed, .inl rfl⟩

theorem Step.map {f : β → β}
    (h : ∀ feed, queue (f feed) = queue feed ∨ ∃ d ∈ news?, queue (f feed) = queue feed ++ [d]) :
    Step queue news? next feeds next ⟨feeds.entries.map fun e => (e.1, f e.2)⟩ [] := by
  refine .sent (Nat.le_refl _) (by simp [Table.keys, Function.comp_def]) fun id feed hfeed => ?_
  rw [Table.find?_map] at hfeed
  obtain ⟨before, hbefore, rfl⟩ := Option.map_eq_some_iff.mp hfeed
  exact ⟨before, hbefore, h before⟩

theorem Step.erase (id : Nat) : Step queue news? next feeds next (feeds.erase id) [] :=
  .sent (Nat.le_refl _) (List.filter_sublist.map _) fun _ feed hfeed =>
    ⟨feed, (Table.find?_erase_eq_some.mp hfeed).2, .inl rfl⟩

theorem Step.nodup (h : Step queue news? next feeds next' feeds' now)
    (hnodup : feeds.keys.Nodup) : feeds'.keys.Nodup := by
  cases h with
  | sent _ hkeys _ => exact hnodup.sublist hkeys
  | opened feed _ => exact Table.nodup_keys_insert hnodup _ _
  | heard _ _ => exact Table.nodup_keys_insert hnodup _ _

/-- In one action a subscription is sent the news or nothing. -/
theorem Step.stream_additions (h : Step queue news? next feeds next' feeds' now)
    (hnodup : feeds.keys.Nodup) (id : Nat) :
    (additions queue feeds feeds').stream id = [] ∨
      ∃ d ∈ news?, (additions queue feeds feeds').stream id = [d] := by
  rw [Feeds.stream_additions (h.nodup hnodup)]
  cases h with
  | sent _ _ hqueue =>
    cases hfeed : feeds'.find? id with
    | none => simp [unheard, hfeed]
    | some feed =>
      obtain ⟨before, hbefore, hmore⟩ := hqueue id feed hfeed
      rw [unheard_of_find? hfeed, unheard_of_find? hbefore]
      obtain hsame | ⟨d, hd, hmore⟩ := hmore
      · simp [hsame]
      · exact .inr ⟨d, hd, by simp [hmore]⟩
  | opened feed hqueue =>
    rw [unheard_insert]
    split <;> simp [hqueue]
  | heard hfeed hqueue =>
    rw [unheard_insert]
    split
    case isTrue hid => simp [hid, unheard_of_find? hfeed, hqueue]
    case isFalse => simp

theorem Step.news_of_mem (h : Step queue news? next feeds next' feeds' now)
    (hnodup : feeds.keys.Nodup) {id : Nat} {d : δ} (hd : (id, d) ∈ additions queue feeds feeds') :
    d ∈ news? := by
  rw [← Log.mem_stream] at hd
  obtain hnone | ⟨news, hnews, hone⟩ := h.stream_additions hnodup id
  · rw [hnone] at hd
    cases hd
  · rw [hone, List.mem_singleton] at hd
    exact hd ▸ hnews

/-- Of every subscription, what has been heard and what is still unheard make up what it has been
sent, in this order. -/
structure Balanced (queue : β → List δ) (next : Nat) (feeds : Table Nat β) (sent heard : Log δ) :
    Prop where
  nodup : feeds.keys.Nodup
  opened : ∀ id ∈ feeds.keys, id < next
  sent_lt : ∀ e ∈ sent, e.1 < next
  heard_lt : ∀ e ∈ heard, e.1 < next
  balance : ∀ id feed, feeds.find? id = some feed → heard.stream id ++ queue feed = sent.stream id

theorem balanced_empty (queue : β → List δ) (next : Nat) : Balanced queue next {} [] [] := by
  constructor <;> simp [Table.keys]

theorem Balanced.bounds_step (hb : Balanced queue next feeds sent heard)
    (h : Step queue news? next feeds next' feeds' now) :
    next ≤ next' ∧ (∀ id ∈ feeds'.keys, id < next') ∧ ∀ e ∈ now, e.1 < next' := by
  cases h with
  | sent hnext hkeys _ =>
    exact ⟨hnext, fun id hid => Nat.lt_of_lt_of_le (hb.opened id (hkeys.subset hid)) hnext, nofun⟩
  | opened feed _ =>
    refine ⟨Nat.le_succ _, fun id hid => ?_, nofun⟩
    rw [Table.mem_keys_iff, Table.find?_insert] at hid
    split at hid
    case isTrue h => exact h ▸ Nat.lt_succ_self _
    case isFalse => exact Nat.lt_succ_of_lt (hb.opened id (Table.mem_keys_iff.mpr hid))
  | @heard id before after d hfeed _ =>
    have hid : id < next := hb.opened id (Table.mem_keys_iff.mpr (by simp [hfeed]))
    refine ⟨Nat.le_refl _, fun other hother => ?_, by simpa using hid⟩
    rw [Table.mem_keys_iff, Table.find?_insert] at hother
    split at hother
    case isTrue h => exact h ▸ hid
    case isFalse => exact hb.opened other (Table.mem_keys_iff.mpr hother)

theorem Balanced.balance_step (hb : Balanced queue next feeds sent heard)
    (h : Step queue news? next feeds next' feeds' now) {id : Nat} {feed : β}
    (hfeed : feeds'.find? id = some feed) :
    Log.stream (heard ++ now) id ++ queue feed =
      Log.stream (sent ++ additions queue feeds feeds') id := by
  rw [Log.stream_append, Log.stream_append, stream_additions (h.nodup hb.nodup),
    unheard_of_find? hfeed]
  cases h with
  | sent _ _ hqueue =>
    obtain ⟨before, hbefore, hmore⟩ := hqueue id feed hfeed
    have hprefix : queue before <+: queue feed := by
      obtain hsame | ⟨d, _, hmore⟩ := hmore
      · exact hsame ▸ List.prefix_refl _
      · exact ⟨[d], hmore.symm⟩
    rw [unheard_of_find? hbefore, ← hb.balance id before hbefore, Log.stream_nil, List.append_nil,
      List.append_assoc, List.prefix_iff_eq_append.mp hprefix]
  | opened new hqueue =>
    rw [Table.find?_insert] at hfeed
    split at hfeed
    case isTrue h =>
      cases hfeed
      have hsent : sent.stream id = [] :=
        Log.stream_eq_nil fun e he => h ▸ Nat.ne_of_lt (hb.sent_lt e he)
      have hheard : heard.stream id = [] :=
        Log.stream_eq_nil fun e he => h ▸ Nat.ne_of_lt (hb.heard_lt e he)
      simp [hsent, hheard, hqueue]
    case isFalse => simp [unheard_of_find? hfeed, hb.balance id feed hfeed]
  | @heard other before after d hbefore hqueue =>
    rw [Table.find?_insert] at hfeed
    split at hfeed
    case isTrue h =>
      cases hfeed
      subst h
      have hnow : Log.stream [(id, d)] id = [d] := by simp [Log.stream]
      rw [unheard_of_find? hbefore, ← hb.balance id before hbefore, hqueue, hnow]
      simp
    case isFalse h =>
      have hnow : Log.stream [(other, d)] id = [] := by simp [Log.stream, Ne.symm h]
      simp [unheard_of_find? hfeed, hnow, hb.balance id feed hfeed]

theorem Balanced.step (hb : Balanced queue next feeds sent heard)
    (h : Step queue news? next feeds next' feeds' now) :
    Balanced queue next' feeds' (sent ++ additions queue feeds feeds') (heard ++ now) := by
  obtain ⟨hnext, hopened, hnow⟩ := hb.bounds_step h
  refine ⟨h.nodup hb.nodup, hopened, ?_, ?_, fun id feed hfeed => hb.balance_step h hfeed⟩
  · intro e he
    rcases List.mem_append.mp he with he | he
    · exact Nat.lt_of_lt_of_le (hb.sent_lt e he) hnext
    · exact hopened e.1 (mem_keys_of_mem_additions he)
  · intro e he
    rcases List.mem_append.mp he with he | he
    · exact Nat.lt_of_lt_of_le (hb.heard_lt e he) hnext
    · exact hnow e he

end Feeds

end Solvency
