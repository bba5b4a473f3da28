import Solvency.Proofs.View.Exact

/-! What can be seen of a ledger while only some of it has been observed. An account is composed
from that as from the ledger, or some part is missing; each layer of references names the next. -/

namespace Solvency

/-- How much of the closure comes to light in so many rounds of looking for what is missing. -/
def Requirement.layer (a : Address) (account : MarginAccount) (group : Group) :
    Nat → List Requirement
  | 0 => []
  | 1 => [⟨a, .marginAccount⟩]
  | 2 => [⟨a, .marginAccount⟩, ⟨account.group, .group⟩]
  | _ => closure a account group

namespace Lookup

variable {lookup ledger : Lookup} {a : Address} {account found : MarginAccount}
  {group foundGroup : Group} {r : Requirement} {seen : Observed Entity} {slot : Slot}
  {error : Failure}

/-- Whatever is seen is on the ledger, with the same content. -/
def Within (lookup ledger : Lookup) : Prop :=
  ∀ x v, lookup x = some v → ∃ record, ledger x = some record ∧ record.entity = v.entity

theorem Complete.meets (h : ledger.Complete a account group)
    (hr : r ∈ Requirement.closure a account group) : ∃ seen, ledger.Meets r seen := by
  rcases List.mem_cons.mp hr with rfl | hr
  · obtain ⟨slot, hmeets⟩ := h.meetsAccount
    exact ⟨_, hmeets⟩
  rcases List.mem_cons.mp hr with rfl | hr
  · obtain ⟨slot, hmeets⟩ := h.meetsGroup
    exact ⟨_, hmeets⟩
  · exact h.meetsPlan r hr

theorem Complete.isSome (h : ledger.Complete a account group)
    (hr : r ∈ Requirement.closure a account group) : (ledger r.address).isSome = true := by
  obtain ⟨seen, hmeets⟩ := h.meets hr
  obtain ⟨v, hv, _⟩ := hmeets.sees
  rw [← hmeets.address, hv]
  rfl

variable (hwithin : lookup.Within ledger)

include hwithin

theorem Within.meets (hmeets : ledger.Meets r seen) (hseen : (lookup r.address).isSome = true) :
    ∃ slot, lookup.Meets r ⟨r.address, slot, seen.value⟩ := by
  obtain ⟨v, hv⟩ := Option.isSome_iff_exists.mp hseen
  obtain ⟨record, hrecord, hentity⟩ := hwithin _ v hv
  obtain ⟨w, hw, hvalue, _⟩ := hmeets.sees
  rw [hmeets.address] at hw
  cases hrecord.symm.trans hw
  exact ⟨v.observedSlot, hmeets.set, rfl, hmeets.kind, v, hv, hentity.symm.trans hvalue, rfl⟩

theorem Within.record_eq (hmeets : lookup.Meets r seen) :
    (ledger r.address).map (·.entity) = some seen.value := by
  obtain ⟨v, hv, hvalue, _⟩ := hmeets.sees
  obtain ⟨record, hrecord, hentity⟩ := hwithin _ v hv
  rw [← hmeets.address, hrecord]
  exact congrArg some (hentity.trans hvalue)

theorem Within.lacks (hmeets : ledger.Meets r seen) (hlacks : lookup.Lacks r error) :
    lookup r.address = none ∧ error = .missing r.address r.role := by
  cases hlacks with
  | unset hzero => exact absurd hzero hmeets.set
  | unobserved hnone => exact ⟨hnone, rfl⟩
  | otherKind _ hsome hkind =>
    obtain ⟨slot, hfound⟩ := hwithin.meets hmeets (Option.isSome_iff_exists.mpr ⟨_, hsome⟩)
    obtain ⟨v, hv, hvalue, _⟩ := hfound.sees
    cases hsome.symm.trans hv
    exact absurd (hvalue ▸ hmeets.kind) hkind

theorem Within.value_eq {seen' : Observed Entity} (hmeets : ledger.Meets r seen)
    (hmeets' : lookup.Meets r seen') : seen'.value = seen.value := by
  obtain ⟨v, hv, hvalue', _⟩ := hmeets'.sees
  rw [hmeets'.address] at hv
  have hseen : (lookup r.address).isSome = true := Option.isSome_iff_exists.mpr ⟨v, hv⟩
  obtain ⟨slot, hmeets⟩ := hwithin.meets hmeets hseen
  rw [hmeets'.unique hmeets]

variable (hcomplete : ledger.Complete a account group)

include hcomplete

theorem Within.account_eq
    (hmeets : lookup.Meets ⟨a, .marginAccount⟩ ⟨a, slot, .marginAccount found⟩) :
    found = account := by
  obtain ⟨_, hrecord⟩ := hcomplete.meetsAccount
  exact Entity.marginAccount.inj (hwithin.value_eq hrecord hmeets)

theorem Within.group_eq
    (hmeets : lookup.Meets ⟨account.group, .group⟩ ⟨account.group, slot, .group foundGroup⟩) :
    foundGroup = group := by
  obtain ⟨_, hrecord⟩ := hcomplete.meetsGroup
  exact Entity.group.inj (hwithin.value_eq hrecord hmeets)

theorem Within.requirements_subset :
    lookup.requirements a ⊆ Requirement.closure a account group := by
  intro r hr
  rw [requirements] at hr
  rcases List.mem_cons.mp hr with rfl | hr
  · exact List.mem_cons_self
  cases haccount : lookup.account a with
  | error error => simp [haccount] at hr
  | ok seenAccount =>
    rw [haccount] at hr
    have heq := hwithin.account_eq hcomplete (meets_of_account haccount)
    subst heq
    rcases List.mem_cons.mp hr with rfl | hr
    · exact .tail _ List.mem_cons_self
    cases hgroup : lookup.group seenAccount.value.group with
    | error error => simp [hgroup] at hr
    | ok seenGroup =>
      rw [hgroup] at hr
      have heq := hwithin.group_eq hcomplete (meets_of_group hgroup)
      subst heq
      exact .tail _ (.tail _ (List.mem_filter.mp hr).1)

/-- If all of the closure is on the ledger, there is nothing to stop at but what is not seen. -/
theorem Within.unobserved (hstops : lookup.Stops a error) :
    ∃ r ∈ lookup.requirements a, lookup r.address = none ∧ error = .missing r.address r.role := by
  cases hstops with
  | account hlacks =>
    obtain ⟨_, hmeets⟩ := hcomplete.meetsAccount
    exact ⟨_, account_mem_requirements, hwithin.lacks hmeets hlacks⟩
  | group haccount hlacks =>
    have heq := hwithin.account_eq hcomplete haccount
    subst heq
    obtain ⟨_, hmeets⟩ := hcomplete.meetsGroup
    exact ⟨_, group_mem_requirements haccount.account_eq, hwithin.lacks hmeets hlacks⟩
  | plan haccount hgroup hplan _ hlacks =>
    have heq := hwithin.account_eq hcomplete haccount
    subst heq
    have heq := hwithin.group_eq hcomplete hgroup
    subst heq
    have hr := hplan ▸ List.mem_append_right _ List.mem_cons_self
    obtain ⟨_, hmeets⟩ := hcomplete.meetsPlan _ hr
    exact ⟨_, plan_mem_requirements haccount.account_eq hgroup.group_eq hr hmeets.set,
      hwithin.lacks hmeets hlacks⟩

/-- What is missing can be seen from the failure, however far apart the slots may be. -/
theorem Within.complete_or_missing :
    lookup.Complete a account group ∨ ∃ r ∈ lookup.requirements a, lookup r.address = none ∧
      ∀ tolerance, lookup.build tolerance a = .error (.missing r.address r.role) := by
  by_cases hseen : lookup.Complete a account group
  · exact .inl hseen
  refine .inr ?_
  have hgathers : ∀ account group parts, ¬ lookup.Gathers a account group parts := by
    intro account group parts hgathers
    have hfound := hgathers.complete
    obtain ⟨_, haccount⟩ := hfound.meetsAccount
    obtain ⟨_, hgroup⟩ := hfound.meetsGroup
    have heq := hwithin.account_eq hcomplete haccount
    rw [heq] at hfound hgroup
    have heq := hwithin.group_eq hcomplete hgroup
    exact hseen (heq ▸ hfound)
  have hstops : ∃ error, lookup.Stops a error := by
    cases hbuild : lookup.build 0 a with
    | ok view =>
      obtain ⟨account, group, parts, haccount, hgroup, hparts, _⟩ := build_eq_ok_iff.mp hbuild
      exact absurd ⟨haccount, hgroup, hparts⟩ (hgathers account group parts)
    | error error =>
      rcases build_eq_error_iff.mp hbuild with hstops | ⟨account, group, parts, hfound, _⟩
      · exact ⟨error, hstops⟩
      · exact absurd hfound (hgathers account group parts)
  obtain ⟨error, hstops⟩ := hstops
  obtain ⟨r, hr, hnone, rfl⟩ := hwithin.unobserved hcomplete hstops
  exact ⟨r, hr, hnone, fun tolerance => build_eq_error_iff.mpr (.inl hstops)⟩

/-- Each layer names the next. -/
theorem Within.layer_succ {k : Nat}
    (hseen : ∀ r ∈ Requirement.layer a account group k, (lookup r.address).isSome = true) :
    Requirement.layer a account group (k + 1) ⊆ lookup.requirements a := by
  have haccount : (lookup a).isSome = true →
      ∃ slot, lookup.Meets ⟨a, .marginAccount⟩ ⟨a, slot, .marginAccount account⟩ := by
    obtain ⟨_, hmeets⟩ := hcomplete.meetsAccount
    exact hwithin.meets hmeets
  have hgroup : (lookup account.group).isSome = true →
      ∃ slot, lookup.Meets ⟨account.group, .group⟩ ⟨account.group, slot, .group group⟩ := by
    obtain ⟨_, hmeets⟩ := hcomplete.meetsGroup
    exact hwithin.meets hmeets
  intro r hr
  match k, hseen, hr with
  | 0, _, hr =>
    cases List.mem_singleton.mp hr
    exact account_mem_requirements
  | 1, hseen, hr =>
    obtain ⟨_, haccount⟩ := haccount (hseen _ List.mem_cons_self)
    rcases List.mem_pair.mp hr with rfl | rfl
    · exact account_mem_requirements
    · exact group_mem_requirements haccount.account_eq
  | k + 2, hseen, hr =>
    have hlayer : ⟨a, .marginAccount⟩ ∈ Requirement.layer a account group (k + 2) ∧
        ⟨account.group, .group⟩ ∈ Requirement.layer a account group (k + 2) := by
      cases k <;> simp [Requirement.layer, Requirement.closure]
    obtain ⟨_, haccount⟩ := haccount (hseen _ hlayer.1)
    obtain ⟨_, hgroup⟩ := hgroup (hseen _ hlayer.2)
    rcases List.mem_cons.mp hr with rfl | hr
    · exact account_mem_requirements
    rcases List.mem_cons.mp hr with rfl | hr
    · exact group_mem_requirements haccount.account_eq
    · obtain ⟨_, hmeets⟩ := hcomplete.meetsPlan r hr
      exact plan_mem_requirements haccount.account_eq hgroup.group_eq hr hmeets.set

end Lookup

end Solvency
