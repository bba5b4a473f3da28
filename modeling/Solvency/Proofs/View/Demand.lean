import Solvency.Proofs.Registry.Events
import Solvency.Proofs.Registry.History
import Solvency.Proofs.View.Exact

/-! What the requirements of an account are for. They name whatever stands in the way of its
composition, and nothing at any other address has a bearing on it. -/

namespace Solvency

namespace Lookup

variable {lookup : Lookup} {a : Address} {error : Failure}

/-- A composition stops at one of the requirements, or at an address that is not set. -/
theorem Stops.exists_lacking (h : lookup.Stops a error) :
    ∃ r, lookup.Lacks r error ∧ (r.address ≠ .zero → r ∈ lookup.requirements a) := by
  cases h with
  | account hlacks => exact ⟨_, hlacks, fun _ => account_mem_requirements⟩
  | group haccount hlacks =>
    exact ⟨_, hlacks, fun _ => group_mem_requirements haccount.account_eq⟩
  | plan haccount hgroup hplan _ hlacks =>
    refine ⟨_, hlacks, fun hset => ?_⟩
    refine plan_mem_requirements haccount.account_eq hgroup.group_eq ?_ hset
    simp [hplan]

/-- The requirements of an account are what a view of it depends on, and what keeps it from being
composed is among them: either nothing is seen there or something of another kind. -/
theorem requirements_name_needs (lookup : Lookup) (tolerance : Nat) (a : Address) :
    (∀ view, lookup.build tolerance a = .ok view →
      ((lookup.requirements a).map (·.address)).Perm view.dependencies) ∧
    (∀ x role, lookup.build tolerance a = .error (.missing x role) → x ≠ .zero →
      ⟨x, role⟩ ∈ lookup.requirements a ∧ lookup x = none) ∧
    ∀ x expected found, lookup.build tolerance a = .error (.wrongKind x expected found) →
      ∃ role v, ⟨x, role⟩ ∈ lookup.requirements a ∧ role.kind = expected ∧
        lookup x = some v ∧ v.entity.kind = found ∧ found ≠ expected := by
  refine ⟨fun view => requirements_perm_of_build, fun x role hbuild hset => ?_,
    fun x expected found hbuild => ?_⟩
  · rcases build_eq_error_iff.mp hbuild with hstops | ⟨_, _, _, _, _, hstale⟩
    · obtain ⟨r, hlacks, hmem⟩ := hstops.exists_lacking
      cases hlacks with
      | unset hzero => exact absurd hzero hset
      | unobserved hnone => exact ⟨hmem hset, hnone⟩
    · cases hstale
  · rcases build_eq_error_iff.mp hbuild with hstops | ⟨_, _, _, _, _, hstale⟩
    · obtain ⟨r, hlacks, hmem⟩ := hstops.exists_lacking
      cases hlacks with
      | otherKind hset hsome hkind => exact ⟨r.role, _, hmem hset, rfl, hsome, rfl, hkind⟩
    · cases hstale

/-- An account with a deposit and an order for more of it, where its orders are as given. -/
def ordering (orders : Option Entity) : Lookup := fun x =>
  (List.lookup x [
    (⟨1⟩, some (Entity.marginAccount { (default : MarginAccount) with
      group := ⟨2⟩
      deposits := .ofFn fun i => if i.val = 0 then 1 else 0
      inMarginBasket := .ofFn (·.val == 0)
      spotOpenOrders := .ofFn fun i => if i.val = 0 then ⟨6⟩ else .zero })),
    (⟨2⟩, some (.group { (default : Group) with
      numOracles := 1
      oracles := .ofFn fun i => if i.val = 0 then ⟨4⟩ else .zero
      tokens := .ofFn fun _ => { (default : TokenInfo) with rootBank := ⟨3⟩ } })),
    (⟨3⟩, some (.rootBank default)), (⟨4⟩, some (.oraclePrice default)),
    (⟨6⟩, orders)]).join.map (⟨·, 9, 9⟩)

theorem requirements_name_needs_ordering :
    (∃ view, (ordering (some (.openOrders default))).build 0 ⟨1⟩ = .ok view ∧
      view.dependencies.Perm [⟨1⟩, ⟨2⟩, ⟨3⟩, ⟨4⟩, ⟨6⟩]) ∧
    ((ordering none).build 0 ⟨1⟩ = .error (.missing ⟨6⟩ (.openOrders 0)) ∧
      ⟨⟨6⟩, .openOrders 0⟩ ∈ (ordering none).requirements ⟨1⟩) ∧
    (ordering (some (.group default))).build 0 ⟨1⟩ =
        .error (.wrongKind ⟨6⟩ .openOrders .group) ∧
      ∃ role, ⟨⟨6⟩, role⟩ ∈ (ordering (some (.group default))).requirements ⟨1⟩ ∧
        role.kind = .openOrders := by
  have hbuild : ((ordering (some (.openOrders default))).build 0 ⟨1⟩).isOk = true := by
    decide +kernel
  have haddresses : ((ordering (some (.openOrders default))).requirements ⟨1⟩).map (·.address) =
      [⟨1⟩, ⟨2⟩, ⟨3⟩, ⟨4⟩, ⟨6⟩] := by decide +kernel
  have hmissing : (ordering none).build 0 ⟨1⟩ = .error (.missing ⟨6⟩ (.openOrders 0)) := by
    decide +kernel
  have hother : (ordering (some (.group default))).build 0 ⟨1⟩ =
      .error (.wrongKind ⟨6⟩ .openOrders .group) := by decide +kernel
  obtain ⟨view, hview⟩ := exists_of_isOk hbuild
  have hneeds := (requirements_name_needs _ 0 ⟨1⟩).1 view hview
  rw [haddresses] at hneeds
  have hunseen := (requirements_name_needs _ 0 ⟨1⟩).2.1 _ _ hmissing (by decide)
  obtain ⟨role, _, hmem, hkind, _⟩ := (requirements_name_needs _ 0 ⟨1⟩).2.2 _ _ _ hother
  exact ⟨⟨view, hview, hneeds.symm⟩, ⟨hmissing, hunseen.1⟩, hother, role, hmem, hkind⟩

end Lookup

namespace Registry

/-- The address that an operation is about, unless it is about all of them. -/
def Op.address? : Op → Option Address
  | .put address _ _ | .get address | .peek address | .remove address | .setLive address _
  | .subscribe address | .unsubscribe address => some address
  | .invalidateAll | .confirmSlot _ => none

theorem get?_perform {registry : Registry} {op : Op} {a b : Address} (hop : op.address? = some b)
    (hne : a ≠ b) : (registry.perform op).get? a = registry.get? a := by
  cases op <;> cases hop
  case put entity slot => exact get?_put hne
  case get => rfl
  case peek => rfl
  case remove =>
    refine get?_congr ?_ epoch_remove ?_ confirmedSlot_remove
    · exact find?_entries_remove.trans (if_neg hne)
    · exact (live_remove (r := registry) ▸ List.mem_erase_of_ne hne)
  case setLive live => exact get?_setLive hne live
  case subscribe =>
    exact get?_congr (by rw [perform, entries_subscribe]) epoch_subscribe
      (by rw [perform, live_subscribe]) confirmedSlot_subscribe
  case unsubscribe =>
    exact get?_congr (by rw [perform, entries_unsubscribe]) epoch_unsubscribe
      (by rw [perform, live_unsubscribe]) confirmedSlot_unsubscribe

/-- Two registries that show the same at the requirements of an account compose it to the same
view or the same failure, and so an operation on any other address leaves the outcome alone. -/
theorem only_requirements_matter (registry : Registry) (a : Address) :
    (∀ registry' : Registry,
      (∀ r ∈ Lookup.requirements registry.get? a,
        Lookup.shown registry'.get? r.address = Lookup.shown registry.get? r.address) →
      Lookup.requirements registry'.get? a = Lookup.requirements registry.get? a ∧
        ∀ tolerance, Lookup.build registry'.get? tolerance a =
          Lookup.build registry.get? tolerance a) ∧
    ∀ op b, op.address? = some b →
      b ∉ (Lookup.requirements registry.get? a).map (·.address) →
      Lookup.requirements (registry.perform op).get? a = Lookup.requirements registry.get? a ∧
        ∀ tolerance, Lookup.build (registry.perform op).get? tolerance a =
          Lookup.build registry.get? tolerance a := by
  refine ⟨fun registry' h => ⟨Lookup.requirements_congr h, Lookup.build_congr h⟩,
    fun op b hop hb => ?_⟩
  have hsame : ∀ r ∈ Lookup.requirements registry.get? a,
      Lookup.shown (registry.perform op).get? r.address =
        Lookup.shown registry.get? r.address := by
    intro r hr
    have hne : r.address ≠ b := fun heq => hb (heq ▸ List.mem_map_of_mem hr)
    exact Lookup.shown_congr (get?_perform hop hne)
  exact ⟨Lookup.requirements_congr hsame, Lookup.build_congr hsame⟩

/-- An account whose group has not been observed. -/
def groupless : Registry :=
  ((ofBuffer 4).put ⟨1⟩ (.marginAccount { (default : MarginAccount) with group := ⟨2⟩ }) 5).2

theorem only_requirements_matter_groupless :
    Lookup.build (groupless.perform (.put ⟨3⟩ (.group default) 6)).get? 0 ⟨1⟩ =
        .error (.missing ⟨2⟩ .group) ∧
      Lookup.requirements (groupless.perform (.put ⟨3⟩ (.group default) 6)).get? ⟨1⟩ =
        [⟨⟨1⟩, .marginAccount⟩, ⟨⟨2⟩, .group⟩] := by
  have hbuild : Lookup.build groupless.get? 0 ⟨1⟩ = .error (.missing ⟨2⟩ .group) := by
    decide +kernel
  have hrequirements : Lookup.requirements groupless.get? ⟨1⟩ =
      [⟨⟨1⟩, .marginAccount⟩, ⟨⟨2⟩, .group⟩] := by decide +kernel
  have helsewhere : (⟨3⟩ : Address) ∉
      (Lookup.requirements groupless.get? ⟨1⟩).map (·.address) := by
    rw [hrequirements]
    decide
  obtain ⟨hsame, hunchanged⟩ := (only_requirements_matter groupless ⟨1⟩).2
    (.put ⟨3⟩ (.group default) 6) ⟨3⟩ rfl helsewhere
  exact ⟨(hunchanged 0).trans hbuild, hsame.trans hrequirements⟩

end Registry

end Solvency
