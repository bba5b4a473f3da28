import Solvency.Proofs.View.Requirements
import Solvency.Risk.Valuation

/-! What the slots of a view are for. They decide if it is composed at all, and confirming
a slot only brings them closer; its valuation does not look at them. -/

namespace Solvency

variable {α : Type}

def Versioned.raise (v : Versioned) (slot : Slot) : Versioned :=
  { v with observedSlot := max v.observedSlot slot }

def Lookup.raise (lookup : Lookup) (slot : Slot) : Lookup := fun a => (lookup a).map (·.raise slot)

namespace Observed

def raise (seen : Observed α) (slot : Slot) : Observed α :=
  { seen with slot := max seen.slot slot }

def bare (seen : Observed α) : Observed α := { seen with slot := 0 }

@[simp] theorem bare_raise (seen : Observed α) (slot : Slot) : (seen.raise slot).bare = seen.bare :=
  rfl

end Observed

theorem max_max_distrib (m n k : Nat) : max (max m n) k = max (max m k) (max n k) := by
  omega

namespace SlotRange

def raise (range : SlotRange) (slot : Slot) : SlotRange :=
  ⟨Nat.max range.min slot, Nat.max range.max slot⟩

theorem raise_extend (range : SlotRange) (slot other : Slot) :
    (range.extend other).raise slot = (range.raise slot).extend (Nat.max other slot) := by
  simp only [raise, extend, SlotRange.mk.injEq]
  exact ⟨Nat.max_min_distrib_right _ _ _, max_max_distrib _ _ _⟩

theorem spread_raise (range : SlotRange) (slot : Slot) :
    (range.raise slot).spread ≤ range.spread := by
  obtain ⟨low, high⟩ := range
  have hslot : Nat.max high slot - Nat.max low slot ≤ high - low := by
    simp only [Nat.max_def]
    split <;> split <;> omega
  exact hslot

end SlotRange

namespace View

/-- The parts of a view without the slots at which they were observed. -/
def bare (v : View) : View where
  account := v.account.bare
  group := v.group.bare
  rootBanks := v.rootBanks.map (Option.map Observed.bare)
  oracles := v.oracles.map (Option.map Observed.bare)
  openOrders := v.openOrders.map (Option.map Observed.bare)
  perpMarkets := v.perpMarkets.map (Option.map Observed.bare)
  slots := .ofSlot 0

theorem get_map {β : Type} {n : Nat} (f : α → β) (xs : Vector α n) (i : Fin n) :
    (xs.map f).get i = f (xs.get i) := by
  simp [Vector.get]

theorem price_bare (v : View) (i : Fin marketSlots) : v.bare.price i = v.price i := by
  simp only [price, bare, get_map]
  cases v.oracles.get i <;> rfl

theorem netBalance_bare (v : View) (i : Fin tokenSlots) (decimals : UInt8) :
    v.bare.netBalance i decimals = v.netBalance i decimals := by
  simp only [netBalance, bare, get_map]
  cases v.rootBanks.get i <;> rfl

theorem valueMarket_bare (v : View) (health : HealthType) :
    v.bare.valueMarket health = v.valueMarket health := by
  funext ⟨valuation, pool⟩ i
  simp only [valueMarket, price_bare, netBalance_bare]
  simp only [bare, get_map]
  cases v.openOrders.get i <;> cases v.perpMarkets.get i <;> rfl

theorem value_bare (v : View) (health : HealthType) : v.bare.value health = v.value health := by
  simp only [value, valueMarket_bare, netBalance_bare]
  rfl

end View

/-- A snapshot tells the slots of its view apart from everything else. -/
theorem Calculator.evaluate_bare (c : Calculator) (time : Nat) (v : View) :
    c.evaluate time v.bare = { c.evaluate time v with slotRange := .ofSlot 0 } := by
  simp only [evaluate, View.value_bare]
  rfl

/-- A snapshot says when it was computed, and nothing else in it depends on that. -/
theorem Calculator.evaluate_at (c : Calculator) (time before : Nat) (v : View) :
    c.evaluate time v = { c.evaluate before v with computedAt := time } := rfl

namespace Lookup

variable {lookup : Lookup} {tolerance : Nat} {a : Address} {slot : Slot}

def Parts.raise (parts : Parts) (slot : Slot) : Parts :=
  parts.map fun part => (part.1, part.2.raise slot)

theorem sees_raise {seen : Observed Entity} (h : lookup.Sees seen) :
    (lookup.raise slot).Sees (seen.raise slot) := by
  obtain ⟨v, hv, hvalue, hslot⟩ := h
  refine ⟨v.raise slot, ?_, hvalue, ?_⟩
  · have haddress : (seen.raise slot).address = seen.address := rfl
    rw [raise, haddress, hv]
    rfl
  · simp only [Versioned.raise, Observed.raise, hslot]

theorem resolve_raise {r : Requirement} {seen : Observed Entity}
    (h : lookup.resolve r = .ok seen) :
    (lookup.raise slot).resolve r = .ok (seen.raise slot) := by
  obtain ⟨hset, haddress, hkind, hsees⟩ := resolve_eq_ok_iff.mp h
  exact resolve_eq_ok_iff.mpr ⟨hset, haddress, hkind, sees_raise hsees⟩

theorem account_raise {seen : Observed MarginAccount} (h : lookup.account a = .ok seen)
    (slot : Slot) :
    (lookup.raise slot).account a = .ok (seen.raise slot) := by
  have hresolve : (lookup.raise slot).resolve ⟨a, .marginAccount⟩ =
      .ok ((seen.map Entity.marginAccount).raise slot) := resolve_raise (account_eq_ok_iff.mp h)
  exact account_eq_ok_iff.mpr hresolve

theorem group_raise {seen : Observed Group} (h : lookup.group a = .ok seen) (slot : Slot) :
    (lookup.raise slot).group a = .ok (seen.raise slot) := by
  have hresolve : (lookup.raise slot).resolve ⟨a, .group⟩ =
      .ok ((seen.map Entity.group).raise slot) := resolve_raise (group_eq_ok_iff.mp h)
  exact group_eq_ok_iff.mpr hresolve

theorem Resolves.raise {requirements : List Requirement} {parts : Parts}
    (h : lookup.Resolves requirements parts) (slot : Slot) :
    (lookup.raise slot).Resolves requirements (parts.raise slot) := by
  refine List.forall₂_map_right_iff.mpr (h.imp ?_)
  rintro r part ⟨hresolve, hrole⟩
  exact ⟨resolve_raise hresolve, hrole⟩

theorem Parts.slots_raise (parts : Parts) (slot account group : Slot) :
    (parts.raise slot).slots (Nat.max account slot) (Nat.max group slot) =
      (parts.slots account group).raise slot := by
  have hfold : ∀ range : SlotRange,
      (parts.raise slot).foldl (fun range part => range.extend part.2.slot) (range.raise slot) =
        (parts.foldl (fun range part => range.extend part.2.slot) range).raise slot := by
    induction parts with
    | nil => exact fun _ => rfl
    | cons part rest ih =>
      intro range
      refine Eq.trans ?_ (ih (range.extend part.2.slot))
      rw [SlotRange.raise_extend]
      rfl
  have hstart : (SlotRange.ofSlot (Nat.max account slot)).extend (Nat.max group slot) =
      ((SlotRange.ofSlot account).extend group).raise slot := by
    rw [SlotRange.raise_extend]
    rfl
  rw [Parts.slots, Parts.slots, hstart]
  exact hfold _

theorem Parts.find?_raise {as? : Entity → Option α} (parts : Parts) (role : Role) :
    (parts.raise slot).find? role as? = (parts.find? role as?).map (·.raise slot) := by
  have hlookup : (parts.raise slot).lookup role = (parts.lookup role).map (·.raise slot) :=
    Table.find?_map ⟨parts⟩ (·.raise slot) role
  simp only [Parts.find?, hlookup]
  cases parts.lookup role with
  | none => rfl
  | some seen =>
    simp only [Option.map_some, Option.bind_eq_bind, Option.bind_some, Observed.raise]
    cases as? seen.value <;> rfl

theorem bare_ofParts_raise (account : Observed MarginAccount) (group : Observed Group)
    (parts : Parts) :
    (View.ofParts (account.raise slot) (group.raise slot) (parts.raise slot)).bare =
      (View.ofParts account group parts).bare := by
  simp only [View.bare, View.ofParts, Parts.find?_raise, Vector.map_ofFn, Function.comp_def,
    Option.map_map, Observed.bare_raise]

/-- Confirming a slot for everything composes the same view, only later. -/
theorem build_raise {view : View} (h : lookup.build tolerance a = .ok view) (slot : Slot) :
    ∃ view', (lookup.raise slot).build tolerance a = .ok view' ∧ view'.bare = view.bare := by
  obtain ⟨account, group, parts, haccount, hgroup, hparts, hspread, rfl⟩ := build_eq_ok_iff.mp h
  refine ⟨_, build_eq_ok_iff.mpr ⟨account.raise slot, group.raise slot, parts.raise slot,
    account_raise haccount slot, group_raise hgroup slot, hparts.raise slot, ?_, rfl⟩,
    bare_ofParts_raise account group parts⟩
  have hslots := parts.slots_raise slot account.slot group.slot
  exact Nat.le_trans (hslots ▸ SlotRange.spread_raise _ _) hspread

theorem requirements_raise_of_build {view : View} (h : lookup.build tolerance a = .ok view)
    (slot : Slot) :
    (lookup.raise slot).requirements a = lookup.requirements a := by
  obtain ⟨account, group, parts, haccount, hgroup, _⟩ := build_eq_ok_iff.mp h
  rw [requirements_eq haccount hgroup,
    requirements_eq (account_raise haccount slot) (group_raise hgroup slot)]
  rfl

end Lookup

end Solvency
