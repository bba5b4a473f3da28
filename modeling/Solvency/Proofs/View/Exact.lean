import Solvency.Proofs.View.Requirements

/-! Exactly when an account can be composed and what the view of it holds. The conditions are on
what can be seen at each address; the order of looking matters only for which failure is first. -/

namespace Solvency

/-- The account, its group and whatever the two refer to. -/
def Requirement.closure (a : Address) (account : MarginAccount) (group : Group) :
    List Requirement :=
  ⟨a, .marginAccount⟩ :: ⟨account.group, .group⟩ :: plan account group

/-- The part of a view that plays a role. -/
def View.part? (v : View) : Role → Option (Observed Entity)
  | .marginAccount => some (v.account.map .marginAccount)
  | .group => some (v.group.map .group)
  | .rootBank token => v.rootBanks[token]?.join.map (·.map .rootBank)
  | .oracle market => v.oracles[market]?.join.map (·.map .oraclePrice)
  | .openOrders market => v.openOrders[market]?.join.map (·.map .openOrders)
  | .perpMarket market => v.perpMarkets[market]?.join.map (·.map .perpMarket)

namespace Lookup

variable {lookup : Lookup} {tolerance : Nat} {a : Address} {r : Requirement} {error : Failure}

/-- Why a requirement is not met. -/
inductive Lacks (lookup : Lookup) (r : Requirement) : Failure → Prop
  | unset : r.address = .zero → Lacks lookup r (.missing r.address r.role)
  | unobserved : lookup r.address = none → Lacks lookup r (.missing r.address r.role)
  | otherKind {v : Versioned} : r.address ≠ .zero → lookup r.address = some v →
      v.entity.kind ≠ r.role.kind →
      Lacks lookup r (.wrongKind r.address r.role.kind v.entity.kind)

/-- Everything in the closure of an account is there, and the closure is that of the account and
the group that are there. -/
structure Complete (lookup : Lookup) (a : Address) (account : MarginAccount) (group : Group) :
    Prop where
  meetsAccount : ∃ slot, lookup.Meets ⟨a, .marginAccount⟩ ⟨a, slot, .marginAccount account⟩
  meetsGroup : ∃ slot, lookup.Meets ⟨account.group, .group⟩ ⟨account.group, slot, .group group⟩
  meetsPlan : ∀ r ∈ Requirement.plan account group, ∃ seen, lookup.Meets r seen

/-- The first lack, looking at the account, then at its group and then along the plan. -/
inductive Stops (lookup : Lookup) (a : Address) : Failure → Prop
  | account {error : Failure} : lookup.Lacks ⟨a, .marginAccount⟩ error → Stops lookup a error
  | group {account : MarginAccount} {slot : Slot} {error : Failure} :
      lookup.Meets ⟨a, .marginAccount⟩ ⟨a, slot, .marginAccount account⟩ →
      lookup.Lacks ⟨account.group, .group⟩ error → Stops lookup a error
  | plan {account : MarginAccount} {group : Group} {slot groupSlot : Slot}
      {before after : List Requirement} {r : Requirement} {error : Failure} :
      lookup.Meets ⟨a, .marginAccount⟩ ⟨a, slot, .marginAccount account⟩ →
      lookup.Meets ⟨account.group, .group⟩ ⟨account.group, groupSlot, .group group⟩ →
      Requirement.plan account group = before ++ r :: after →
      (∀ earlier ∈ before, ∃ seen, lookup.Meets earlier seen) →
      lookup.Lacks r error → Stops lookup a error

/-- The slots through which the requirements are observed. -/
def slotsOf (lookup : Lookup) (requirements : List Requirement) : Set Slot :=
  {slot | ∃ r ∈ requirements, ∃ seen, lookup.Meets r seen ∧ seen.slot = slot}

theorem Meets.unique {seen seen' : Observed Entity} (h : lookup.Meets r seen)
    (h' : lookup.Meets r seen') : seen = seen' :=
  Except.ok.inj ((resolve_eq_ok_iff.mpr h).symm.trans (resolve_eq_ok_iff.mpr h'))

theorem resolve_eq_error_iff : lookup.resolve r = .error error ↔ lookup.Lacks r error := by
  constructor
  · intro h
    rw [resolve] at h
    split at h
    case isTrue hzero =>
      cases h
      exact .unset hzero
    case isFalse hset =>
      split at h
      case h_1 hnone =>
        cases h
        exact .unobserved hnone
      case h_2 v hsome =>
        split at h
        case isTrue => cases h
        case isFalse hkind =>
          cases h
          exact .otherKind hset hsome hkind
  · rintro (hzero | hnone | ⟨hset, hsome, hkind⟩)
    · exact resolve_zero hzero
    · simp [resolve, hnone]
    · simp [resolve, hset, hsome, hkind]

theorem Meets.account_eq {slot : Slot} {account : MarginAccount}
    (h : lookup.Meets ⟨a, .marginAccount⟩ ⟨a, slot, .marginAccount account⟩) :
    lookup.account a = .ok ⟨a, slot, account⟩ :=
  account_eq_ok_iff.mpr (resolve_eq_ok_iff.mpr h)

theorem Meets.group_eq {slot : Slot} {group : Group}
    (h : lookup.Meets ⟨a, .group⟩ ⟨a, slot, .group group⟩) :
    lookup.group a = .ok ⟨a, slot, group⟩ :=
  group_eq_ok_iff.mpr (resolve_eq_ok_iff.mpr h)

theorem meets_of_account {account : Observed MarginAccount} (h : lookup.account a = .ok account) :
    lookup.Meets ⟨a, .marginAccount⟩ ⟨a, account.slot, .marginAccount account.value⟩ := by
  have hmeets := resolve_eq_ok_iff.mp (account_eq_ok_iff.mp h)
  have haddress : account.address = a := hmeets.address
  exact haddress ▸ hmeets

theorem meets_of_group {group : Observed Group} (h : lookup.group a = .ok group) :
    lookup.Meets ⟨a, .group⟩ ⟨a, group.slot, .group group.value⟩ := by
  have hmeets := resolve_eq_ok_iff.mp (group_eq_ok_iff.mp h)
  have haddress : group.address = a := hmeets.address
  exact haddress ▸ hmeets

theorem account_eq_error_iff :
    lookup.account a = .error error ↔ lookup.Lacks ⟨a, .marginAccount⟩ error :=
  (resolveAs_eq_error_iff Entity.reads_marginAccount).trans resolve_eq_error_iff

theorem group_eq_error_iff :
    lookup.group a = .error error ↔ lookup.Lacks ⟨a, .group⟩ error :=
  (resolveAs_eq_error_iff Entity.reads_group).trans resolve_eq_error_iff

theorem lacks_iff_mapM {requirements : List Requirement} :
    (requirements.mapM fun r => return (r.role, ← lookup.resolve r)) = .error error ↔
      ∃ before r after, requirements = before ++ r :: after ∧
        (∀ earlier ∈ before, ∃ seen, lookup.Meets earlier seen) ∧ lookup.Lacks r error := by
  have hok : ∀ r : Requirement, (∃ part, (do return (r.role, ← lookup.resolve r)) =
      Except.ok (ε := Failure) part) ↔ ∃ seen, lookup.Meets r seen := by
    simp [bind_eq_ok_iff, pure, Except.pure, ← resolve_eq_ok_iff]
  have herror : ∀ r : Requirement, (do return (r.role, ← lookup.resolve r)) =
      Except.error error (α := Role × Observed Entity) ↔ lookup.Lacks r error := by
    simp [bind_eq_error_iff, pure, Except.pure, ← resolve_eq_error_iff]
  simp only [mapM_eq_error_iff, hok, herror]

/-- What a composition has in hand before it compares the slots. -/
structure Gathers (lookup : Lookup) (a : Address) (account : Observed MarginAccount)
    (group : Observed Group) (parts : Parts) : Prop where
  account_eq : lookup.account a = .ok account
  group_eq : lookup.group account.value.group = .ok group
  resolves : lookup.Resolves (Requirement.plan account.value group.value) parts

section Gathers

variable {account : Observed MarginAccount} {group : Observed Group} {parts : Parts}

theorem Complete.gathers {account : MarginAccount} {group : Group}
    (h : lookup.Complete a account group) :
    ∃ seenAccount seenGroup parts, lookup.Gathers a seenAccount seenGroup parts ∧
      seenAccount.value = account ∧ seenGroup.value = group := by
  obtain ⟨slot, haccount⟩ := h.meetsAccount
  obtain ⟨groupSlot, hgroup⟩ := h.meetsGroup
  have hplan : ∃ parts, lookup.Resolves (Requirement.plan account group) parts := by
    refine exists_forall₂ fun r hr => ?_
    obtain ⟨seen, hseen⟩ := h.meetsPlan r hr
    exact ⟨(r.role, seen), resolve_eq_ok_iff.mpr hseen, rfl⟩
  obtain ⟨parts, hparts⟩ := hplan
  exact ⟨_, _, parts, ⟨haccount.account_eq, hgroup.group_eq, hparts⟩, rfl, rfl⟩

theorem build_eq_error_iff :
    lookup.build tolerance a = .error error ↔ lookup.Stops a error ∨
      ∃ account group parts, lookup.Gathers a account group parts ∧
        tolerance < (parts.slots account.slot group.slot).spread ∧
        error = .stale (parts.slots account.slot group.slot) tolerance := by
  simp only [build, bind_eq_error_iff, resolves_iff_mapM, lacks_iff_mapM, account_eq_error_iff,
    group_eq_error_iff]
  constructor
  · rintro (hlacks | ⟨account, haccount, hlacks | ⟨group, hgroup,
      ⟨before, r, after, hplan, hbefore, hlacks⟩ | ⟨parts, hparts, hend⟩⟩⟩)
    · exact .inl (.account hlacks)
    · exact .inl (.group (meets_of_account haccount) hlacks)
    · exact .inl (.plan (meets_of_account haccount)
        (meets_of_group hgroup) hplan hbefore hlacks)
    · split at hend
      case isTrue hspread =>
        cases hend
        exact .inr ⟨account, group, parts, ⟨haccount, hgroup, hparts⟩, hspread, rfl⟩
      case isFalse => cases hend
  · rintro (hstops | ⟨account, group, parts, ⟨haccount, hgroup, hparts⟩, hspread, rfl⟩)
    · cases hstops with
      | account hlacks => exact .inl hlacks
      | group haccount hlacks => exact .inr ⟨_, haccount.account_eq, .inl hlacks⟩
      | plan haccount hgroup hplan hbefore hlacks =>
        exact .inr ⟨_, haccount.account_eq, .inr ⟨_, hgroup.group_eq,
          .inl ⟨_, _, _, hplan, hbefore, hlacks⟩⟩⟩
    · refine .inr ⟨account, haccount, .inr ⟨group, hgroup, .inr ⟨parts, hparts, ?_⟩⟩⟩
      rw [if_pos hspread]
      rfl

variable (h : lookup.Gathers a account group parts)

include h

theorem Gathers.complete : lookup.Complete a account.value group.value := by
  refine ⟨⟨_, meets_of_account h.account_eq⟩,
    ⟨_, meets_of_group h.group_eq⟩, fun r hr => ?_⟩
  obtain ⟨seen, hseen⟩ := h.resolves.exists_resolved hr
  exact ⟨seen, resolve_eq_ok_iff.mp hseen⟩

theorem Gathers.spans : (parts.slots account.slot group.slot).Spans
    (lookup.slotsOf (Requirement.closure a account.value group.value)) := by
  have hspans := parts.spans_slots account.slot group.slot
  have haccount := meets_of_account h.account_eq
  have hgroup := meets_of_group h.group_eq
  have hslots : ({group.slot, account.slot} ∪ {slot | ∃ part ∈ parts, part.2.slot = slot} :
      Set Slot) = lookup.slotsOf (Requirement.closure a account.value group.value) := by
    ext slot
    constructor
    · rintro ((rfl | rfl) | ⟨part, hpart, rfl⟩)
      · exact ⟨_, .tail _ List.mem_cons_self, _, hgroup, rfl⟩
      · exact ⟨_, List.mem_cons_self, _, haccount, rfl⟩
      · obtain ⟨r, hr, hresolve, _⟩ := exists_of_forall₂ h.resolves.flip hpart
        exact ⟨r, .tail _ (.tail _ hr), _, resolve_eq_ok_iff.mp hresolve, rfl⟩
    · rintro ⟨r, hr, seen, hseen, rfl⟩
      rcases List.mem_cons.mp hr with rfl | hr
      · exact .inl (.inr (congrArg Observed.slot (hseen.unique haccount)))
      rcases List.mem_cons.mp hr with rfl | hr
      · exact .inl (.inl (congrArg Observed.slot (hseen.unique hgroup)))
      · obtain ⟨part, hpart, hresolve, _⟩ := exists_of_forall₂ h.resolves hr
        have hfound := (resolve_eq_ok_iff.mp hresolve).unique hseen
        exact .inr ⟨part, hpart, congrArg Observed.slot hfound⟩
  exact hslots ▸ hspans

theorem Gathers.planned_part {α : Type} {as? : Entity → Option α} {inject : α → Entity} {n : Nat}
    {role : Nat → Role} {i : Nat} (hreads : Entity.Reads as? inject (role i).kind)
    (hbound : ∀ r ∈ Requirement.plan account.value group.value, r.role = role i → i < n)
    (seen : Observed Entity) :
    (Vector.ofFn fun i : Fin n => parts.find? (role i) as?)[i]?.join.map (·.map inject) =
        some seen ↔
      ∃ r ∈ Requirement.plan account.value group.value, r.role = role i ∧ lookup.Meets r seen := by
  by_cases hi : i < n
  · have hget : (Vector.ofFn fun i : Fin n => parts.find? (role i) as?)[i]?.join =
        parts.find? (role i) as? := by simp [hi]
    rw [hget, Option.map_eq_some_iff]
    simp only [h.resolves.find?_eq_some_iff hreads, resolve_eq_ok_iff]
    constructor
    · rintro ⟨found, ⟨r, hr, hrole, hmeets⟩, rfl⟩
      exact ⟨r, hr, hrole, hmeets⟩
    · rintro ⟨r, hr, hrole, hmeets⟩
      obtain ⟨value, hvalue⟩ := hreads.kind_iff.mp (hrole ▸ hmeets.kind)
      obtain ⟨address, slot, _⟩ := seen
      subst hvalue
      exact ⟨⟨address, slot, value⟩, ⟨r, hr, hrole, hmeets⟩, rfl⟩
  · have hnone : (Vector.ofFn fun i : Fin n => parts.find? (role i) as?)[i]? = none := by
      simp [hi]
    rw [hnone]
    refine iff_of_false (by simp) ?_
    rintro ⟨r, hr, hrole, _⟩
    exact hi (hbound r hr hrole)

/-- A view holds the closure of the account, each part under its role, and nothing else. -/
theorem Gathers.part?_eq_some_iff {role : Role} {seen : Observed Entity} :
    (View.ofParts account group parts).part? role = some seen ↔
      ∃ r ∈ Requirement.closure a account.value group.value, r.role = role ∧
        lookup.Meets r seen := by
  have haccount := resolve_eq_ok_iff.mp (account_eq_ok_iff.mp h.account_eq)
  have hgroup := resolve_eq_ok_iff.mp (group_eq_ok_iff.mp h.group_eq)
  have hrange : ∀ r ∈ Requirement.plan account.value group.value, ∀ role, r.role = role →
      role.InRange := by
    rintro r hr _ rfl
    exact Requirement.inRange_of_mem_plan hr
  cases role with
  | marginAccount =>
    have hmeets : account.map .marginAccount = seen ↔ lookup.Meets ⟨a, .marginAccount⟩ seen :=
      ⟨fun heq => heq ▸ haccount, haccount.unique⟩
    simpa [Requirement.closure, View.part?, View.ofParts, hmeets] using
      fun r hr hrole _ => False.elim (hrange r hr .marginAccount hrole)
  | group =>
    have hmeets : group.map .group = seen ↔ lookup.Meets ⟨account.value.group, .group⟩ seen :=
      ⟨fun heq => heq ▸ hgroup, hgroup.unique⟩
    simpa [Requirement.closure, View.part?, View.ofParts, hmeets] using
      fun r hr hrole _ => False.elim (hrange r hr .group hrole)
  | rootBank i =>
    have hpart := h.planned_part Entity.reads_rootBank
      (fun r hr => hrange r hr (.rootBank i)) seen
    simpa [Requirement.closure, View.part?, View.ofParts] using hpart
  | oracle i =>
    have hpart := h.planned_part Entity.reads_oraclePrice
      (fun r hr => hrange r hr (.oracle i)) seen
    simpa [Requirement.closure, View.part?, View.ofParts] using hpart
  | openOrders i =>
    have hpart := h.planned_part Entity.reads_openOrders
      (fun r hr => hrange r hr (.openOrders i)) seen
    simpa [Requirement.closure, View.part?, View.ofParts] using hpart
  | perpMarket i =>
    have hpart := h.planned_part Entity.reads_perpMarket
      (fun r hr => hrange r hr (.perpMarket i)) seen
    simpa [Requirement.closure, View.part?, View.ofParts] using hpart

end Gathers

/-- Composition is exact. It succeeds if and only if the closure of the account is complete and
its observed slots lie within the tolerance; the view then holds the closure and nothing else. It
fails with the first lack, and as stale only if nothing is lacking. -/
theorem build_exact (lookup : Lookup) (tolerance : Nat) (a : Address) :
    ((∃ view, lookup.build tolerance a = .ok view) ↔
      ∃ account group, ∃ range : SlotRange, lookup.Complete a account group ∧
        range.Spans (lookup.slotsOf (Requirement.closure a account group)) ∧
        range.max - range.min ≤ tolerance) ∧
    (∀ view, lookup.build tolerance a = .ok view →
      lookup.Complete a view.account.value view.group.value ∧
      view.slots.Spans
        (lookup.slotsOf (Requirement.closure a view.account.value view.group.value)) ∧
      ∀ role seen, view.part? role = some seen ↔
        ∃ r ∈ Requirement.closure a view.account.value view.group.value,
          r.role = role ∧ lookup.Meets r seen) ∧
    ∀ error, lookup.build tolerance a = .error error ↔ lookup.Stops a error ∨
      ∃ account group, ∃ range : SlotRange, lookup.Complete a account group ∧
        range.Spans (lookup.slotsOf (Requirement.closure a account group)) ∧
        tolerance < range.max - range.min ∧ error = .stale range tolerance := by
  refine ⟨⟨?_, ?_⟩, ?_, fun error => ?_⟩
  · rintro ⟨view, hbuild⟩
    obtain ⟨account, group, parts, haccount, hgroup, hparts, hspread, _⟩ :=
      build_eq_ok_iff.mp hbuild
    have hgathers : lookup.Gathers a account group parts := ⟨haccount, hgroup, hparts⟩
    exact ⟨_, _, _, hgathers.complete, hgathers.spans, hspread⟩
  · rintro ⟨_, _, range, hcomplete, hspans, hspread⟩
    obtain ⟨account, group, parts, hgathers, rfl, rfl⟩ := hcomplete.gathers
    obtain rfl := hspans.unique hgathers.spans
    exact ⟨_, build_eq_ok_iff.mpr ⟨account, group, parts, hgathers.account_eq, hgathers.group_eq,
      hgathers.resolves, hspread, rfl⟩⟩
  · intro view hbuild
    obtain ⟨account, group, parts, haccount, hgroup, hparts, _, rfl⟩ := build_eq_ok_iff.mp hbuild
    have hgathers : lookup.Gathers a account group parts := ⟨haccount, hgroup, hparts⟩
    exact ⟨hgathers.complete, hgathers.spans, fun _ _ => hgathers.part?_eq_some_iff⟩
  · rw [build_eq_error_iff]
    refine or_congr_right ⟨?_, ?_⟩
    · rintro ⟨account, group, parts, hgathers, hspread, rfl⟩
      exact ⟨_, _, _, hgathers.complete, hgathers.spans, hspread, rfl⟩
    · rintro ⟨_, _, range, hcomplete, hspans, hspread, rfl⟩
      obtain ⟨account, group, parts, hgathers, rfl, rfl⟩ := hcomplete.gathers
      obtain rfl := hspans.unique hgathers.spans
      exact ⟨account, group, parts, hgathers, hspread, rfl⟩

end Lookup

end Solvency
