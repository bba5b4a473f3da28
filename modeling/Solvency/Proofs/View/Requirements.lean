import Mathlib.Data.List.FinRange
import Solvency.Proofs.View.Build

/-! What a composition reads. It looks at the addresses it requires and at no others, and a
view that was composed depends on all of them. -/

namespace Solvency

/-- The roles that a plan gives out. -/
def Role.InRange : Role → Prop
  | marginAccount | group => False
  | rootBank token => token < tokenSlots
  | oracle market | openOrders market | perpMarket market => market < marketSlots

theorem MarginAccount.hasBalance_iff {a : MarginAccount} {i : Fin tokenSlots} :
    a.hasBalance i = true ↔ a.deposits.get i ≠ 0 ∨ a.borrows.get i ≠ 0 := by
  simp [hasBalance, Vector.get]

namespace Requirement

variable {account : MarginAccount} {group : Group} {r r' : Requirement}

section Slots

variable (account : MarginAccount) (group : Group) (i : Fin tokenSlots) (m : Fin marketSlots)

def rootBank? : Option Requirement :=
  if account.hasBalance i then some ⟨(group.tokens.get i).rootBank, .rootBank i⟩ else none

def oracle? : Option Requirement :=
  if account.participates m then some ⟨(group.oracle? m).getD .zero, .oracle m⟩ else none

def openOrders? : Option Requirement :=
  (account.basketOpenOrders? m).map (⟨·, .openOrders m⟩)

def perpMarket? : Option Requirement :=
  (account.perpAccount? m).map fun _ => ⟨(group.perpMarkets.get m).perpMarket, .perpMarket m⟩

theorem ofToken_eq : ofToken account group i = (rootBank? account group i).toList := by
  by_cases hi : account.hasBalance i <;> simp [ofToken, rootBank?, hi]

theorem ofMarket_eq :
    ofMarket account group m = (oracle? account group m).toList ++
      ((openOrders? account m).toList ++ (perpMarket? account group m).toList) := by
  cases horders : account.basketOpenOrders? m <;> cases hperp : account.perpAccount? m <;>
    cases hbalance : account.hasBalance m <;>
    simp [ofMarket, oracle?, openOrders?, perpMarket?, MarginAccount.participates, horders, hperp,
      hbalance]

/-- The plan goes market by market and a view holds part by part, so the same requirements come in
another order. -/
theorem plan_perm :
    (plan account group).Perm
      ((List.finRange tokenSlots).filterMap (rootBank? account group) ++
        ((List.finRange marketSlots).filterMap (oracle? account group) ++
          ((List.finRange marketSlots).filterMap (openOrders? account) ++
            (List.finRange marketSlots).filterMap (perpMarket? account group)))) := by
  simp only [plan, funext (ofToken_eq account group), funext (ofMarket_eq account group),
    List.filterMap_eq_flatMap_toList]
  refine List.Perm.append_left _ ?_
  exact (List.flatMap_append_perm _ _ _).symm.trans
    (List.Perm.append_left _ (List.flatMap_append_perm _ _ _).symm)

end Slots

section Members

variable {i : Fin tokenSlots} {m : Fin marketSlots}

theorem rootBank?_eq_some : rootBank? account group i = some r ↔
    account.hasBalance i = true ∧ r = ⟨(group.tokens.get i).rootBank, .rootBank i⟩ := by
  simp [rootBank?, eq_comm (a := r)]

theorem oracle?_eq_some : oracle? account group m = some r ↔
    account.participates m = true ∧ r = ⟨(group.oracle? m).getD .zero, .oracle m⟩ := by
  simp [oracle?, eq_comm (a := r)]

theorem openOrders?_eq_some : openOrders? account m = some r ↔
    ∃ x, account.basketOpenOrders? m = some x ∧ r = ⟨x, .openOrders m⟩ := by
  simp [openOrders?, eq_comm (a := r)]

theorem perpMarket?_eq_some : perpMarket? account group m = some r ↔
    (account.perpAccount? m).isSome = true ∧
      r = ⟨(group.perpMarkets.get m).perpMarket, .perpMarket m⟩ := by
  simp [perpMarket?, Option.isSome_iff_exists, eq_comm (a := r)]

theorem mem_plan_iff :
    r ∈ plan account group ↔
      (∃ i : Fin tokenSlots, account.hasBalance i = true ∧
        r = ⟨(group.tokens.get i).rootBank, .rootBank i⟩) ∨
      ∃ i : Fin marketSlots,
        (account.participates i = true ∧ r = ⟨(group.oracle? i).getD .zero, .oracle i⟩) ∨
        (∃ x, account.basketOpenOrders? i = some x ∧ r = ⟨x, .openOrders i⟩) ∨
        ((account.perpAccount? i).isSome = true ∧
          r = ⟨(group.perpMarkets.get i).perpMarket, .perpMarket i⟩) := by
  simp only [(plan_perm account group).mem_iff, List.mem_append, List.mem_filterMap,
    List.mem_finRange, true_and, rootBank?_eq_some, oracle?_eq_some, openOrders?_eq_some,
    perpMarket?_eq_some, exists_or]

theorem eq_of_role_eq (h : r ∈ plan account group) (h' : r' ∈ plan account group)
    (hrole : r.role = r'.role) : r = r' := by
  rw [mem_plan_iff] at h h'
  grind

theorem inRange_of_mem_plan (h : r ∈ plan account group) : r.role.InRange := by
  rcases mem_plan_iff.mp h with ⟨i, _, rfl⟩ | ⟨i, ⟨_, rfl⟩ | ⟨_, _, rfl⟩ | ⟨_, rfl⟩⟩ <;>
    exact i.isLt

theorem rootBank?_iff :
    rootBank? account group i = some r ↔ r ∈ plan account group ∧ r.role = .rootBank i := by
  rw [rootBank?_eq_some, mem_plan_iff]
  grind

theorem oracle?_iff :
    oracle? account group m = some r ↔ r ∈ plan account group ∧ r.role = .oracle m := by
  rw [oracle?_eq_some, mem_plan_iff]
  grind

theorem openOrders?_iff :
    openOrders? account m = some r ↔ r ∈ plan account group ∧ r.role = .openOrders m := by
  rw [openOrders?_eq_some, mem_plan_iff]
  grind

theorem perpMarket?_iff :
    perpMarket? account group m = some r ↔ r ∈ plan account group ∧ r.role = .perpMarket m := by
  rw [perpMarket?_eq_some, mem_plan_iff]
  grind

end Members

end Requirement

namespace Lookup

variable {lookup lookup' : Lookup} {tolerance : Nat} {a : Address}

/-- What a composition reads at an address. The slot at which the account was written is not part
of it. -/
def shown (lookup : Lookup) (x : Address) : Option (Entity × Slot) :=
  (lookup x).map fun v => (v.entity, v.observedSlot)

theorem shown_congr {x : Address} (h : lookup' x = lookup x) :
    lookup'.shown x = lookup.shown x := by
  rw [shown, shown, h]

theorem resolve_congr {r : Requirement} (h : lookup'.shown r.address = lookup.shown r.address) :
    lookup'.resolve r = lookup.resolve r := by
  simp only [shown] at h
  cases hfound : lookup r.address <;> cases hfound' : lookup' r.address <;>
    simp_all [resolve]

theorem resolve_zero {r : Requirement} (h : r.address = .zero) :
    lookup.resolve r = .error (.missing r.address r.role) := by
  rw [resolve, if_pos h]

theorem account_congr (h : lookup'.shown a = lookup.shown a) :
    lookup'.account a = lookup.account a := by
  simp only [account, resolveAs, resolve_congr (r := ⟨a, .marginAccount⟩) h]

theorem group_congr (h : lookup'.shown a = lookup.shown a) :
    lookup'.group a = lookup.group a := by
  simp only [group, resolveAs, resolve_congr (r := ⟨a, .group⟩) h]

theorem requirements_eq {account : Observed MarginAccount} {group : Observed Group}
    (haccount : lookup.account a = .ok account)
    (hgroup : lookup.group account.value.group = .ok group) :
    lookup.requirements a = ⟨a, .marginAccount⟩ :: ⟨account.value.group, .group⟩ ::
      (Requirement.plan account.value group.value).filter (·.address.isSet) := by
  rw [requirements, haccount]
  simp only [hgroup]

theorem account_mem_requirements : ⟨a, .marginAccount⟩ ∈ lookup.requirements a :=
  List.mem_cons_self

theorem group_mem_requirements {account : Observed MarginAccount}
    (haccount : lookup.account a = .ok account) :
    ⟨account.value.group, .group⟩ ∈ lookup.requirements a := by
  simp [requirements, haccount]

theorem plan_mem_requirements {account : Observed MarginAccount} {group : Observed Group}
    (haccount : lookup.account a = .ok account)
    (hgroup : lookup.group account.value.group = .ok group) {r : Requirement}
    (hr : r ∈ Requirement.plan account.value group.value) (hset : r.address ≠ .zero) :
    r ∈ lookup.requirements a := by
  have hset : r.address.isSet = true := by simpa [Address.isSet] using hset
  rw [requirements_eq haccount hgroup]
  exact .tail _ (.tail _ (List.mem_filter.mpr ⟨hr, hset⟩))

section Agreement

variable (h : ∀ r ∈ lookup.requirements a, lookup'.shown r.address = lookup.shown r.address)

include h

theorem requirements_congr : lookup'.requirements a = lookup.requirements a := by
  have haccount : lookup'.account a = lookup.account a :=
    account_congr (h _ account_mem_requirements)
  cases hfound : lookup.account a with
  | error error => simp only [requirements, haccount, hfound]
  | ok account =>
    have hgroup : lookup'.group account.value.group = lookup.group account.value.group :=
      group_congr (h _ (group_mem_requirements hfound))
    simp only [requirements, haccount, hfound, hgroup]

/-- A planned address that is not set is not looked at. -/
theorem resolve_planned_congr {account : Observed MarginAccount} {group : Observed Group}
    (haccount : lookup.account a = .ok account)
    (hgroup : lookup.group account.value.group = .ok group) {r : Requirement}
    (hr : r ∈ Requirement.plan account.value group.value) :
    lookup'.resolve r = lookup.resolve r := by
  by_cases hzero : r.address = .zero
  · rw [resolve_zero hzero, resolve_zero hzero]
  · exact resolve_congr (h r (plan_mem_requirements haccount hgroup hr hzero))

theorem build_congr (tolerance : Nat) : lookup'.build tolerance a = lookup.build tolerance a := by
  have haccount : lookup'.account a = lookup.account a :=
    account_congr (h _ account_mem_requirements)
  simp only [build, haccount]
  cases hfound : lookup.account a with
  | error error => rfl
  | ok account =>
    have hgroup : lookup'.group account.value.group = lookup.group account.value.group :=
      group_congr (h _ (group_mem_requirements hfound))
    simp only [ok_bind, hgroup]
    cases hfoundGroup : lookup.group account.value.group with
    | error error => rfl
    | ok group =>
      simp only [ok_bind]
      rw [mapM_congr fun r hr => by rw [resolve_planned_congr h hfound hfoundGroup hr]]

end Agreement

section Parts

variable {account : MarginAccount} {group : Group} {parts : Parts}
  (hparts : lookup.Resolves (Requirement.plan account group) parts)

theorem Resolves.lookup_eq_some_iff {requirements : List Requirement} {parts : Parts}
    (hparts : lookup.Resolves requirements parts)
    (hroles : ∀ r ∈ requirements, ∀ r' ∈ requirements, r.role = r'.role → r = r')
    {role : Role} {seen : Observed Entity} :
    parts.lookup role = some seen ↔
      ∃ r ∈ requirements, r.role = role ∧ lookup.resolve r = .ok seen := by
  induction hparts with
  | nil => simp
  | @cons first part rest parts hpart _ ih =>
    obtain ⟨partRole, found⟩ := part
    obtain ⟨hresolve, rfl⟩ := hpart
    have hroles' : ∀ r ∈ rest, ∀ r' ∈ rest, r.role = r'.role → r = r' :=
      fun r hr r' hr' => hroles r (.tail _ hr) r' (.tail _ hr')
    by_cases hrole : role = first.role
    · subst hrole
      simp only [List.lookup_cons, BEq.rfl, Option.some.injEq]
      constructor
      · rintro rfl
        exact ⟨first, List.mem_cons_self, rfl, hresolve⟩
      · rintro ⟨r, hr, hrole, hfound⟩
        cases hroles r hr first List.mem_cons_self hrole
        exact Except.ok.inj (hresolve.symm.trans hfound)
    · have hne : (role == first.role) = false := beq_eq_false_iff_ne.mpr hrole
      simp [List.lookup_cons, hne, ih hroles', Ne.symm hrole]

include hparts

theorem Resolves.planned {role : Role} {seen : Observed Entity} :
    parts.lookup role = some seen ↔
      ∃ r ∈ Requirement.plan account group, r.role = role ∧ lookup.resolve r = .ok seen :=
  hparts.lookup_eq_some_iff fun _ hr _ hr' => Requirement.eq_of_role_eq hr hr'

theorem Resolves.exists_resolved {r : Requirement} (hr : r ∈ Requirement.plan account group) :
    ∃ seen, lookup.resolve r = .ok seen := by
  obtain ⟨part, _, hpart, _⟩ := exists_of_forall₂ hparts hr
  exact ⟨part.2, hpart⟩

variable {α : Type} {as? : Entity → Option α} {inject : α → Entity} {n : Nat}
  {role : Fin n → Role} {need? : Fin n → Option Requirement}

theorem Resolves.find?_eq_some_iff {kind : AccountKind} (hreads : Entity.Reads as? inject kind)
    {role : Role} {seen : Observed α} :
    parts.find? role as? = some seen ↔ ∃ r ∈ Requirement.plan account group, r.role = role ∧
      lookup.resolve r = .ok (seen.map inject) := by
  rw [← hparts.planned]
  simp only [Parts.find?, Option.bind_eq_bind, Option.bind_eq_some_iff, hreads.eq_some_iff]
  constructor
  · rintro ⟨found, hfound, value, hvalue, hseen⟩
    cases hseen
    rw [hfound, Observed.map, ← hvalue]
  · intro hfound
    exact ⟨_, hfound, seen.value, rfl, rfl⟩

theorem Resolves.map_address_find? {role : Role} (hreads : Entity.Reads as? inject role.kind)
    {need : Option Requirement}
    (hneed : ∀ r, need = some r ↔ r ∈ Requirement.plan account group ∧ r.role = role) :
    (parts.find? role as?).map (·.address) = need.map (·.address) := by
  ext x
  simp only [Option.map_eq_some_iff, hneed, hparts.find?_eq_some_iff hreads]
  constructor
  · rintro ⟨seen, ⟨r, hr, hrole, hresolve⟩, rfl⟩
    exact ⟨r, ⟨hr, hrole⟩, (resolve_eq_ok_iff.mp hresolve).address.symm⟩
  · rintro ⟨r, ⟨hr, rfl⟩, rfl⟩
    obtain ⟨⟨address, slot, value⟩, hresolve⟩ := hparts.exists_resolved hr
    obtain ⟨_, haddress, hkind, _⟩ := resolve_eq_ok_iff.mp hresolve
    obtain ⟨value, rfl⟩ := hreads.kind_iff.mp hkind
    exact ⟨⟨address, slot, value⟩, ⟨r, hr, rfl, hresolve⟩, haddress⟩

theorem Resolves.addresses_eq (hreads : ∀ i, Entity.Reads as? inject (role i).kind)
    (hneed : ∀ i r, need? i = some r ↔ r ∈ Requirement.plan account group ∧ r.role = role i) :
    (Vector.ofFn fun i => parts.find? (role i) as?).toList.reduceOption.map (·.address) =
      ((List.finRange n).filterMap need?).map (·.address) := by
  have hfind : ∀ i, (parts.find? (role i) as?).map (·.address) = (need? i).map (·.address) :=
    fun i => hparts.map_address_find? (hreads i) (hneed i)
  simp [Vector.toList_ofFn, List.reduceOption, List.ofFn_eq_map, List.map_filterMap,
    List.filterMap_map, hfind]

theorem Resolves.dependencies_perm {seenAccount : Observed MarginAccount}
    {seenGroup : Observed Group} :
    (View.ofParts seenAccount seenGroup parts).dependencies.Perm
      (seenAccount.address :: seenGroup.address ::
        (Requirement.plan account group).map (·.address)) := by
  have hplan := (Requirement.plan_perm account group).map (·.address)
  have hopen : ∀ i r, Requirement.openOrders? account i = some r ↔
      r ∈ Requirement.plan account group ∧ r.role = .openOrders i :=
    fun _ _ => Requirement.openOrders?_iff
  simp only [List.map_append] at hplan
  simp only [View.dependencies, View.ofParts, List.append_assoc, List.cons_append, List.nil_append,
    hparts.addresses_eq (fun _ => Entity.reads_rootBank) fun _ _ => Requirement.rootBank?_iff,
    hparts.addresses_eq (fun _ => Entity.reads_oraclePrice) fun _ _ => Requirement.oracle?_iff,
    hparts.addresses_eq (fun _ => Entity.reads_openOrders) hopen,
    hparts.addresses_eq (fun _ => Entity.reads_perpMarket) fun _ _ => Requirement.perpMarket?_iff]
  exact (hplan.symm.cons _).cons _

theorem Resolves.find?_isSome_iff {role : Role} (hreads : Entity.Reads as? inject role.kind) :
    (parts.find? role as?).isSome ↔ ∃ r ∈ Requirement.plan account group, r.role = role := by
  rw [Option.isSome_iff_exists]
  simp only [hparts.find?_eq_some_iff hreads]
  constructor
  · rintro ⟨seen, r, hr, hrole, _⟩
    exact ⟨r, hr, hrole⟩
  · rintro ⟨r, hr, rfl⟩
    obtain ⟨⟨address, slot, value⟩, hresolve⟩ := hparts.exists_resolved hr
    obtain ⟨value, rfl⟩ := hreads.kind_iff.mp (resolve_eq_ok_iff.mp hresolve).kind
    exact ⟨⟨address, slot, value⟩, r, hr, rfl, hresolve⟩

end Parts

/-- A composed view depends on exactly what it required, each as often as it is required. -/
theorem requirements_perm_of_build {view : View} (hbuild : lookup.build tolerance a = .ok view) :
    ((lookup.requirements a).map (·.address)).Perm view.dependencies := by
  obtain ⟨account, group, parts, haccount, hgroup, hparts, _, rfl⟩ := build_eq_ok_iff.mp hbuild
  have hset : (Requirement.plan account.value group.value).filter (·.address.isSet) =
      Requirement.plan account.value group.value := by
    refine List.filter_eq_self.mpr fun r hr => ?_
    obtain ⟨seen, hseen⟩ := hparts.exists_resolved hr
    simpa [Address.isSet] using (resolve_eq_ok_iff.mp hseen).set
  have haddress : account.address = a :=
    (resolve_eq_ok_iff.mp (account_eq_ok_iff.mp haccount)).address
  have hgroupAddress : group.address = account.value.group :=
    (resolve_eq_ok_iff.mp (group_eq_ok_iff.mp hgroup)).address
  rw [requirements_eq haccount hgroup, hset, List.map_cons, List.map_cons, ← haddress,
    ← hgroupAddress]
  exact hparts.dependencies_perm.symm

theorem mem_dependencies_of_build {view : View} (hbuild : lookup.build tolerance a = .ok view)
    {r : Requirement} (hr : r ∈ lookup.requirements a) : r.address ∈ view.dependencies :=
  (requirements_perm_of_build hbuild).mem_iff.mp (List.mem_map_of_mem hr)

end Lookup

end Solvency
