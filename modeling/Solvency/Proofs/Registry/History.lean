import Mathlib.Data.List.Nodup
import Solvency.Proofs.Registry.Fields

/-! A registry answers from what was done to it. The specification reads each answer off
the history of operations alone; the registry keeps one entry for each address. -/

namespace Solvency.Registry

inductive Op where
  | put (address : Address) (entity : Entity) (slot : Slot)
  | get (address : Address)
  | peek (address : Address)
  | remove (address : Address)
  | invalidateAll
  | confirmSlot (slot : Slot)
  | setLive (address : Address) (live : Bool)
  | subscribe (address : Address)
  | unsubscribe (address : Address)
deriving DecidableEq

def perform (r : Registry) : Op → Registry
  | .put address entity slot => (r.put address entity slot).2
  | .get _ => r
  | .peek _ => r
  | .remove address => (r.remove address).2
  | .invalidateAll => r.invalidateAll
  | .confirmSlot slot => r.confirmSlot slot
  | .setLive address live => r.setLive address live
  | .subscribe address => (r.subscribe address).2
  | .unsubscribe address => r.unsubscribe address

abbrev History := List Op

def Op.put? (address : Address) : Op → Option (Entity × Slot)
  | .put other entity slot => if other = address then some (entity, slot) else none
  | _ => none

def Op.confirmed? : Op → Option Slot
  | .confirmSlot slot => some slot
  | _ => none

def Op.settlesLive (address : Address) : Op → Bool
  | .setLive other _ => other = address
  | .remove other => other = address
  | .invalidateAll => true
  | _ => false

/-- Neither stores nor removes anything, and keeps what is fresh or live. -/
def Op.isQuiet : Op → Bool
  | .get _ => true
  | .peek _ => true
  | .confirmSlot _ => true
  | .subscribe _ => true
  | .unsubscribe _ => true
  | _ => false

namespace History

def registry (buffer : Nat) : History → Registry
  | [] => .ofBuffer buffer
  | op :: h => (registry buffer h).perform op

def puts (h : History) (a : Address) : List (Entity × Slot) :=
  (h.takeWhile (· != .remove a)).filterMap (Op.put? a)

def currentPuts (h : History) (a : Address) : List (Entity × Slot) :=
  ((h.takeWhile (· != .remove a)).takeWhile (· != .invalidateAll)).filterMap (Op.put? a)

def confirmed (h : History) : Slot :=
  ((h.takeWhile (· != .invalidateAll)).filterMap Op.confirmed?).foldr max 0

def isLive (h : History) (a : Address) : Bool :=
  h.find? (Op.settlesLive a) == some (.setLive a true)

def newest? (h : History) (a : Address) : Option Slot :=
  ((h.puts a).map (·.2)).max?

def isFresh (h : History) (a : Address) : Bool :=
  (h.currentPuts a).any fun put => some put.2 == h.newest? a

/-- The entity of the earliest put at the largest slot, and whether it is fresh. -/
def peek? (h : History) (a : Address) : Option (Versioned × Bool) := do
  let slot ← h.newest? a
  let (entity, _) ← (h.puts a).reverse.find? (·.2 == slot)
  let observed := if h.isFresh a && h.isLive a then max slot h.confirmed else slot
  return (⟨entity, slot, observed⟩, h.isFresh a)

def outcome (h : History) (a : Address) (slot : Slot) : PutOutcome :=
  match h.newest? a with
  | none => .applied none
  | some newest =>
    if newest < slot then .applied (some newest)
    else if slot = newest ∧ ¬ h.isFresh a then .revalidated
    else .stale newest

theorem puts_cons (op : Op) (h : History) (a : Address) :
    puts (op :: h) a = if op = .remove a then [] else (op.put? a).toList ++ h.puts a := by
  by_cases hop : op = .remove a
  · simp [puts, hop]
  · cases hput : op.put? a <;> simp [puts, hop, hput]

theorem currentPuts_cons (op : Op) (h : History) (a : Address) :
    currentPuts (op :: h) a =
      if op = .remove a ∨ op = .invalidateAll then []
      else (op.put? a).toList ++ h.currentPuts a := by
  by_cases hop : op = .remove a
  · simp [currentPuts, hop]
  · by_cases hop' : op = .invalidateAll
    · simp [currentPuts, hop']
    · cases hput : op.put? a <;> simp [currentPuts, hop, hop', hput]

theorem confirmed_cons (op : Op) (h : History) :
    confirmed (op :: h) =
      if op = .invalidateAll then 0 else max (op.confirmed?.getD 0) h.confirmed := by
  by_cases hop : op = .invalidateAll
  · simp [confirmed, hop]
  · cases hslot : op.confirmed? <;> simp [confirmed, hop, hslot]

theorem isLive_cons (op : Op) (h : History) (a : Address) :
    isLive (op :: h) a = if op.settlesLive a then op == .setLive a true else h.isLive a := by
  cases hop : op.settlesLive a <;> simp [isLive, hop]

end History

def Tells (h : History) (a : Address) (epoch : Nat) : Option Entry → Prop
  | none => h.puts a = []
  | some entry =>
    (∀ put ∈ h.puts a, put.2 ≤ entry.slot) ∧
    (h.puts a).reverse.find? (·.2 == entry.slot) = some (entry.entity, entry.slot) ∧
    (entry.epoch = epoch ↔ ∃ put ∈ h.currentPuts a, put.2 = entry.slot) ∧
    entry.epoch ≤ epoch

structure Refines (h : History) (r : Registry) : Prop where
  entries : ∀ a, Tells h a r.epoch (r.entries.find? a)
  live : ∀ a, a ∈ r.live ↔ h.isLive a = true
  nodup : r.live.Nodup
  confirmed : r.confirmedSlot = h.confirmed

theorem Tells.put {h : History} {a : Address} {epoch : Nat} {stored : Option Entry}
    (hs : Tells h a epoch stored) (e : Entity) (s : Slot) :
    Tells (.put a e s :: h) a epoch (some (Entry.absorb stored epoch e s)) := by
  have hputs : History.puts (.put a e s :: h) a = (e, s) :: h.puts a := by
    simp [History.puts_cons, Op.put?]
  have hcurrent : History.currentPuts (.put a e s :: h) a = (e, s) :: h.currentPuts a := by
    simp [History.currentPuts_cons, Op.put?]
  simp only [Tells, hputs, hcurrent, List.forall_mem_cons, List.exists_mem_cons_iff,
    List.reverse_cons, List.find?_append]
  cases stored with
  | none =>
    have hempty : h.puts a = [] := hs
    simp [Entry.absorb, hempty]
  | some entry =>
    obtain ⟨hmax, hfirst, hfresh, hepoch⟩ := hs
    by_cases hlt : entry.slot < s
    · have hnew : (h.puts a).reverse.find? (·.2 == s) = none := by
        refine List.find?_eq_none.mpr fun put hput hs => ?_
        have hle := hmax put (List.mem_reverse.mp hput)
        rw [beq_iff_eq.mp hs] at hle
        exact Nat.not_lt.mpr hle hlt
      have hle : ∀ put ∈ h.puts a, put.2 ≤ s := fun put hput =>
        Nat.le_of_lt (Nat.lt_of_le_of_lt (hmax put hput) hlt)
      simpa [Entry.absorb, hlt, hnew, -Prod.forall] using hle
    · have hle : s ≤ entry.slot := Nat.le_of_not_lt hlt
      by_cases hs : s = entry.slot
      · simpa [Entry.absorb, hs, hfirst, -Prod.forall] using hmax
      · simpa [Entry.absorb, hlt, hs, hfirst, hle, hfresh, hepoch, -Prod.forall] using hmax

theorem Tells.congr {h h' : History} {a : Address} {epoch : Nat} {stored : Option Entry}
    (hs : Tells h a epoch stored) (hputs : h'.puts a = h.puts a)
    (hcurrent : h'.currentPuts a = h.currentPuts a) : Tells h' a epoch stored := by
  cases stored with
  | none => exact hputs.trans hs
  | some entry => simpa only [Tells, hputs, hcurrent] using hs

/-- An operation that is no put to an address, no removal of it and no invalidation changes
nothing that is told of its puts. -/
theorem Tells.cons {h : History} {a : Address} {epoch : Nat} {stored : Option Entry}
    (hs : Tells h a epoch stored) {op : Op} (hput : op.put? a = none) (hremove : op ≠ .remove a)
    (hinvalidate : op ≠ .invalidateAll) : Tells (op :: h) a epoch stored := by
  refine hs.congr ?_ ?_
  · simp [History.puts_cons, hput, hremove]
  · simp [History.currentPuts_cons, hput, hremove, hinvalidate]

theorem Tells.invalidateAll {h : History} {a : Address} {epoch : Nat} {stored : Option Entry}
    (hs : Tells h a epoch stored) : Tells (.invalidateAll :: h) a (epoch + 1) stored := by
  have hputs : History.puts (.invalidateAll :: h) a = h.puts a := by
    simp [History.puts_cons, Op.put?]
  have hcurrent : History.currentPuts (.invalidateAll :: h) a = [] := by
    simp [History.currentPuts_cons]
  cases stored with
  | none => exact hputs.trans hs
  | some entry =>
    obtain ⟨hmax, hfirst, _, hepoch⟩ := hs
    simp only [Tells, hputs, hcurrent]
    exact ⟨hmax, hfirst, by simp; omega, by omega⟩

theorem Refines.start (buffer : Nat) : Refines [] (.ofBuffer buffer) where
  entries _ := rfl
  live a := by simp [ofBuffer, History.isLive]
  nodup := .nil
  confirmed := rfl

theorem Refines.cons {h : History} {r r' : Registry} (hr : Refines h r) {op : Op}
    (hquiet : op.isQuiet = true) (hentries : r'.entries = r.entries) (hlive : r'.live = r.live)
    (hepoch : r'.epoch = r.epoch)
    (hconfirmed : r'.confirmedSlot = max (op.confirmed?.getD 0) r.confirmedSlot) :
    Refines (op :: h) r' where
  entries a := by
    rw [hentries, hepoch]
    refine (hr.entries a).cons ?_ ?_ ?_ <;> cases op <;> simp_all [Op.isQuiet, Op.put?]
  live a := by
    have hsettles : op.settlesLive a = false := by
      cases op <;> simp_all [Op.isQuiet, Op.settlesLive]
    simp [hlive, History.isLive_cons, hsettles, hr.live a]
  nodup := hlive ▸ hr.nodup
  confirmed := by
    have hop : op ≠ .invalidateAll := by
      rintro rfl
      cases hquiet
    rw [hconfirmed, History.confirmed_cons, if_neg hop, hr.confirmed]

theorem Refines.put {h : History} {r : Registry} (hr : Refines h r) (a : Address) (e : Entity)
    (s : Slot) : Refines (.put a e s :: h) (r.put a e s).2 where
  entries b := by
    rw [find?_entries_put, epoch_put]
    by_cases hb : b = a
    · subst hb
      simp only [if_true]
      exact (hr.entries b).put e s
    · simp only [hb, if_false]
      exact (hr.entries b).cons (by simp [Op.put?, Ne.symm hb]) (by simp) (by simp)
  live b := by simp [History.isLive_cons, Op.settlesLive, hr.live b]
  nodup := by simpa using hr.nodup
  confirmed := by simp [History.confirmed_cons, Op.confirmed?, hr.confirmed]

theorem Refines.remove {h : History} {r : Registry} (hr : Refines h r) (a : Address) :
    Refines (.remove a :: h) (r.remove a).2 where
  entries b := by
    rw [find?_entries_remove, epoch_remove]
    by_cases hb : b = a
    · simp [hb, Tells, History.puts_cons]
    · simp only [hb, if_false]
      exact (hr.entries b).cons rfl (by simp [Ne.symm hb]) (by simp)
  live b := by
    rw [live_remove, hr.nodup.mem_erase_iff, hr.live b, History.isLive_cons]
    by_cases hb : b = a
    · simp [hb, Op.settlesLive]
    · simp [hb, Ne.symm hb, Op.settlesLive]
  nodup := hr.nodup.erase a
  confirmed := by simp [History.confirmed_cons, Op.confirmed?, hr.confirmed]

theorem Refines.invalidateAll {h : History} {r : Registry} (hr : Refines h r) :
    Refines (.invalidateAll :: h) r.invalidateAll where
  entries a := (hr.entries a).invalidateAll
  live a := by simp [Registry.invalidateAll, History.isLive_cons, Op.settlesLive]
  nodup := .nil
  confirmed := by simp [Registry.invalidateAll, History.confirmed_cons]

theorem Refines.setLive {h : History} {r : Registry} (hr : Refines h r) (a : Address)
    (live : Bool) : Refines (.setLive a live :: h) (r.setLive a live) where
  entries b := (hr.entries b).cons rfl (by simp) (by simp)
  live b := by
    rw [History.isLive_cons, Registry.setLive]
    by_cases hb : b = a
    · cases live <;> simp [hb, Op.settlesLive, hr.nodup.mem_erase_iff]
    · cases live <;> simp [hb, Ne.symm hb, Op.settlesLive, hr.nodup.mem_erase_iff, hr.live b]
  nodup := by
    cases live
    · exact hr.nodup.erase a
    · exact List.Nodup.insert hr.nodup
  confirmed := by simp [Registry.setLive, History.confirmed_cons, Op.confirmed?, hr.confirmed]

theorem Refines.perform {h : History} {r : Registry} (hr : Refines h r) (op : Op) :
    Refines (op :: h) (r.perform op) := by
  cases op with
  | put a e s => exact hr.put a e s
  | get a => exact hr.cons rfl rfl rfl rfl (Nat.zero_max _).symm
  | peek a => exact hr.cons rfl rfl rfl rfl (Nat.zero_max _).symm
  | remove a => exact hr.remove a
  | invalidateAll => exact hr.invalidateAll
  | confirmSlot s =>
    exact hr.cons rfl entries_confirmSlot live_confirmSlot epoch_confirmSlot
      (confirmedSlot_confirmSlot.trans (Nat.max_comm _ _))
  | setLive a live => exact hr.setLive a live
  | subscribe a =>
    exact hr.cons rfl entries_subscribe live_subscribe epoch_subscribe
      (confirmedSlot_subscribe.trans (Nat.zero_max _).symm)
  | unsubscribe a =>
    exact hr.cons rfl entries_unsubscribe live_unsubscribe epoch_unsubscribe
      (confirmedSlot_unsubscribe.trans (Nat.zero_max _).symm)

theorem History.refines (buffer : Nat) (h : History) : Refines h (h.registry buffer) := by
  induction h with
  | nil => exact Refines.start buffer
  | cons op h ih => exact ih.perform op

theorem Tells.newest {h : History} {a : Address} {epoch : Nat} {stored : Option Entry}
    (hs : Tells h a epoch stored) : h.newest? a = stored.map (·.slot) := by
  cases stored with
  | none =>
    have hempty : h.puts a = [] := hs
    simp [History.newest?, hempty]
  | some entry =>
    obtain ⟨hmax, hfirst, _, _⟩ := hs
    have hmem : (entry.entity, entry.slot) ∈ h.puts a := by
      simpa using List.mem_of_find?_eq_some hfirst
    refine List.max?_eq_some_iff.mpr ⟨List.mem_map.mpr ⟨_, hmem, rfl⟩, ?_⟩
    intro slot hslot
    obtain ⟨put, hput, rfl⟩ := List.mem_map.mp hslot
    exact hmax put hput

theorem Refines.isFresh {h : History} {r : Registry} (hr : Refines h r) {a : Address}
    {entry : Entry} (ha : r.entries.find? a = some entry) : h.isFresh a = r.isFresh entry := by
  have hs := hr.entries a
  rw [ha] at hs
  rw [Bool.eq_iff_iff, History.isFresh, hs.newest]
  simpa [Registry.isFresh] using hs.2.2.1.symm

theorem Refines.peek {h : History} {r : Registry} (hr : Refines h r) (a : Address) :
    r.peek? a = h.peek? a := by
  have hs := hr.entries a
  rw [Registry.peek?, History.peek?, hs.newest]
  cases ha : r.entries.find? a with
  | none => rfl
  | some entry =>
    rw [ha] at hs
    simp [hs.2.1, hr.isFresh ha, versioned, observedSlot, hr.live a, hr.confirmed]

theorem get?_eq (r : Registry) (a : Address) :
    r.get? a = ((r.peek? a).filter (·.2)).map (·.1) := by
  rw [Registry.get?, Registry.peek?]
  cases ha : r.entries.find? a with
  | none => rfl
  | some entry => cases hfresh : r.isFresh entry <;> simp [hfresh, Option.filter]

theorem put_fst (r : Registry) (a : Address) (e : Entity) (s : Slot) :
    (r.put a e s).1 = r.outcome a s := by
  rw [put]
  cases r.outcome a s <;> rfl

theorem Refines.outcome {h : History} {r : Registry} (hr : Refines h r) (a : Address) (s : Slot) :
    r.outcome a s = h.outcome a s := by
  rw [Registry.outcome, History.outcome, (hr.entries a).newest]
  cases ha : r.entries.find? a with
  | none => rfl
  | some entry => simp only [Option.map_some, hr.isFresh ha]

theorem Refines.peek_eq_none {h : History} {r : Registry} (hr : Refines h r) {a : Address} :
    r.peek? a = none ↔ h.puts a = [] := by
  have hs := hr.entries a
  rw [Registry.peek?, Option.map_eq_none_iff]
  cases ha : r.entries.find? a with
  | none =>
    rw [ha] at hs
    exact iff_of_true rfl hs
  | some entry =>
    rw [ha] at hs
    have hmem : (entry.entity, entry.slot) ∈ h.puts a := by
      simpa using List.mem_of_find?_eq_some hs.2.1
    simp [List.ne_nil_of_mem hmem]

/-- After any operations on a new registry, what it holds for an address, what it gives to
readers and what it answers to the next put are what the history says. -/
theorem registry_refines_history (buffer : Nat) (h : History) (a : Address) :
    ((h.registry buffer).peek? a = none ↔ h.puts a = []) ∧
      (h.registry buffer).peek? a = h.peek? a ∧
      (h.registry buffer).get? a = ((h.peek? a).filter (·.2)).map (·.1) ∧
      ∀ e s, ((h.registry buffer).put a e s).1 = h.outcome a s := by
  have hr := h.refines buffer
  refine ⟨hr.peek_eq_none, hr.peek a, ?_, ?_⟩
  · rw [get?_eq, hr.peek a]
  · intro e s
    rw [put_fst, hr.outcome a s]

end Solvency.Registry
