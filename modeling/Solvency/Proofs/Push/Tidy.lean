import Solvency.Proofs.Push.Books

/-! What waits to be given up, and what is given up. An address waits only while no account needs
it; only one that is not pinned is given up, and when it is, it is tracked no longer. -/

namespace Solvency.Engine

open Router.Command (Renewed)

variable {e e' e'' : Engine} {needs needs' : Address → Address → Prop} {account address : Address}

/-- Books without blank pages: who is needed by nobody has no entry, and nothing waits to be given
up that has one. -/
structure Tidy (needs : Address → Address → Prop) (e : Engine) : Prop extends Books needs e where
  filled : ∀ x, e.scheduler.dependents.find? x ≠ some []
  waiting : ∀ x deadline, e.scheduler.idle.find? x = some deadline →
    e.scheduler.dependents.find? x = none
  nodup_idle : e.scheduler.idle.keys.Nodup

theorem Tidy.imp (h : Tidy needs e) (hneeds : ∀ a x, needs' a x ↔ needs a x) : Tidy needs' e :=
  ⟨h.toBooks.imp hneeds, h.filled, h.waiting, h.nodup_idle⟩

theorem Tidy.congr (h : Tidy needs e)
    (hdependents : e'.scheduler.dependents = e.scheduler.dependents)
    (htracked : e'.scheduler.tracked = e.scheduler.tracked)
    (hidle : e'.scheduler.idle = e.scheduler.idle)
    (hrunning : e'.link.router.running = true)
    (hrenewed : ∀ x, Renewed x e.link.router.commands → Renewed x e'.link.router.commands) :
    Tidy needs e' where
  toBooks := h.toBooks.carry hdependents htracked hrunning hrenewed
  filled := hdependents ▸ h.filled
  waiting := by
    rw [hdependents, hidle]
    exact h.waiting
  nodup_idle := hidle ▸ h.nodup_idle

theorem Tidy.free (h : Tidy needs e) (hnone : e.scheduler.dependents.find? address = none)
    (a : Address) : ¬ needs a address := by
  intro hneeds
  have hdependent := (h.dependents a address).mpr hneeds
  rw [Scheduler.dependentsOf, hnone] at hdependent
  cases hdependent

theorem Tidy.untrack (h : Tidy needs e) (hnone : e.scheduler.dependents.find? address = none) :
    Tidy needs (e.untrack address) :=
  ⟨h.toBooks.untrack (h.free hnone), h.filled, h.waiting, h.nodup_idle⟩

theorem Tidy.release (h : Tidy needs e) (hnone : e.scheduler.dependents.find? address = none) :
    Tidy needs (e.release address) := by
  have hbooks := h.toBooks.release (h.free hnone)
  rw [Engine.release] at hbooks ⊢
  split
  case isFalse => exact h
  case isTrue hspare =>
    rw [if_pos hspare] at hbooks
    cases hpolicy : e.scheduler.idlePolicy with
    | never => exact h
    | immediate => exact h.untrack hnone
    | afterIdle secs =>
      simp only [hpolicy] at hbooks
      refine ⟨hbooks, h.filled, fun x deadline hx => ?_, Table.nodup_keys_insert h.nodup_idle _ _⟩
      change (e.scheduler.idle.insert address _).find? x = some deadline at hx
      change e.scheduler.dependents.find? x = none
      by_cases hxa : x = address
      · rw [hxa, hnone]
      · rw [Table.find?_insert, if_neg hxa] at hx
        exact h.waiting x deadline hx

theorem addDependency_spec (e : Engine) (account address : Address) :
    (addDependency account e address).scheduler.dependents = e.scheduler.dependents.insert address
      ((e.scheduler.dependentsOf address).insert account) ∧
    (addDependency account e address).scheduler.idle = e.scheduler.idle.erase address ∧
    ∃ asked : List Address, (addDependency account e address).link.router.commands =
      e.link.router.commands ++ asked.map .track := by
  rw [addDependency, Link.send]
  by_cases htracked : e.scheduler.tracked.contains address = true
  · rw [if_pos htracked]
    exact ⟨rfl, rfl, [], (List.append_nil _).symm⟩
  · rw [if_neg htracked]
    by_cases hrunning : e.link.router.running = true
    · rw [if_pos hrunning]
      exact ⟨rfl, rfl, [address], rfl⟩
    · rw [if_neg hrunning]
      exact ⟨rfl, rfl, [], (List.append_nil _).symm⟩

theorem Tidy.addDependency (h : Tidy needs e) (account address : Address) :
    Tidy (fun a x => needs a x ∨ a = account ∧ x = address)
      (addDependency account e address) := by
  have hbooks := h.toBooks.addDependency account address
  obtain ⟨hdependents, hidle, _⟩ := addDependency_spec e account address
  refine ⟨hbooks, fun x => ?_, fun x deadline hx => ?_, ?_⟩
  · rw [hdependents, Table.find?_insert]
    split
    · intro hempty
      have hmem : account ∈ (e.scheduler.dependentsOf address).insert account :=
        List.mem_insert_self
      rw [Option.some.inj hempty] at hmem
      cases hmem
    · exact h.filled x
  · rw [hidle] at hx
    obtain ⟨hne, hx⟩ := Table.find?_erase_eq_some.mp hx
    rw [hdependents, Table.find?_insert, if_neg hne]
    exact h.waiting x deadline hx
  · rw [hidle]
    exact Table.nodup_keys_erase h.nodup_idle address

theorem Tidy.removeDependency (h : Tidy needs e) (account address : Address) :
    Tidy (fun a x => needs a x ∧ ¬ (a = account ∧ x = address))
      (removeDependency account e address) := by
  have hbooks := h.toBooks.removeDependency account address
  rw [Engine.removeDependency] at hbooks ⊢
  cases hrest : ((e.scheduler.dependents.find? address).getD []).erase account with
  | nil =>
    obtain ⟨_, herased⟩ := h.toBooks.eraseDependents hrest
    have herase := e.scheduler.dependents.find?_erase address
    have htidy : Tidy (fun a x => needs a x ∧ ¬ (a = account ∧ x = address))
        (e.updateScheduler fun s => { s with dependents := s.dependents.erase address }) := by
      refine ⟨herased, fun x => ?_, fun x deadline hx => ?_, h.nodup_idle⟩
      · rw [updateScheduler, herase]
        split
        · simp
        · exact h.filled x
      · rw [updateScheduler, herase]
        split
        · rfl
        · exact h.waiting x deadline hx
    apply htidy.release
    rw [updateScheduler, herase, if_pos rfl]
  | cons first rest =>
    simp only [hrest] at hbooks
    have hinsert := fun x => e.scheduler.dependents.find?_insert address x (first :: rest)
    refine ⟨hbooks, fun x => ?_, fun x deadline hx => ?_, h.nodup_idle⟩
    · rw [hinsert]
      split
      · simp
      · exact h.filled x
    · have hnone : e.scheduler.dependents.find? x = none := h.waiting x deadline hx
      have hne : x ≠ address := by
        rintro rfl
        rw [hnone] at hrest
        cases hrest
      rw [hinsert, if_neg hne]
      exact hnone

theorem bookkeeping_tidy : Bookkeeping Tidy where
  imp h hneeds := h.imp hneeds
  dependencies h _ := h.congr rfl rfl rfl h.running fun _ => id
  add h account address := h.addDependency account address
  remove h account address := h.removeDependency account address

/-- What becomes of the addresses that nobody needs any more. One that is given up was not pinned
and is tracked no longer; one that waits has waited before, or does so from now on. -/
structure Sheds (e e' : Engine) : Prop where
  pinned : e'.pinned = e.pinned
  policy : e'.scheduler.idlePolicy = e.scheduler.idlePolicy
  now : e'.now = e.now
  waits : ∀ x deadline, e'.scheduler.idle.find? x = some deadline →
    e.scheduler.idle.find? x = some deadline ∨
      ∃ secs, e.scheduler.idlePolicy = .afterIdle secs ∧ deadline = e.now + 1000 * secs
  sent : ∃ sent, e'.link.router.commands = e.link.router.commands ++ sent ∧
    ∀ x, .untrack x ∈ sent →
      x ∉ e.pinned ∧ x ∉ e'.scheduler.tracked ∧ e.scheduler.idlePolicy = .immediate

/-- Addresses are given up or left for later, and none is asked for. -/
structure Withdraws (e e' : Engine) : Prop extends Sheds e e' where
  tracked : ∀ x ∈ e'.scheduler.tracked, x ∈ e.scheduler.tracked

theorem Sheds.of_eq (hpinned : e'.pinned = e.pinned)
    (hpolicy : e'.scheduler.idlePolicy = e.scheduler.idlePolicy)
    (hidle : e'.scheduler.idle = e.scheduler.idle) (hlink : e'.link = e.link) : e.Sheds e' where
  pinned := hpinned
  policy := hpolicy
  now := congrArg Link.now hlink
  waits x deadline hx := .inl (hidle ▸ hx)
  sent := ⟨[], by rw [hlink, List.append_nil], nofun⟩

theorem Withdraws.of_eq (hpinned : e'.pinned = e.pinned)
    (hpolicy : e'.scheduler.idlePolicy = e.scheduler.idlePolicy)
    (hidle : e'.scheduler.idle = e.scheduler.idle) (hlink : e'.link = e.link)
    (htracked : e'.scheduler.tracked = e.scheduler.tracked) : e.Withdraws e' :=
  ⟨.of_eq hpinned hpolicy hidle hlink, fun _ hx => htracked ▸ hx⟩

/-- What comes after asks for nothing that was given up before. -/
theorem Sheds.trans (h : e.Sheds e') (h' : e'.Withdraws e'') : e.Sheds e'' where
  pinned := h'.pinned.trans h.pinned
  policy := h'.policy.trans h.policy
  now := h'.now.trans h.now
  waits x deadline hx := by
    rcases h'.waits x deadline hx with hbefore | ⟨secs, hpolicy, hdeadline⟩
    · exact h.waits x deadline hbefore
    · exact .inr ⟨secs, h.policy ▸ hpolicy, h.now ▸ hdeadline⟩
  sent := by
    obtain ⟨sent, hsent, hgiven⟩ := h.sent
    obtain ⟨sent', hsent', hgiven'⟩ := h'.sent
    refine ⟨sent ++ sent', by rw [hsent', hsent, List.append_assoc], fun x hx => ?_⟩
    rcases List.mem_append.mp hx with hx | hx
    · obtain ⟨hpinned, htracked, hpolicy⟩ := hgiven x hx
      exact ⟨hpinned, fun hx => htracked (h'.tracked x hx), hpolicy⟩
    · rw [← h.pinned, ← h.policy]
      exact hgiven' x hx

theorem Withdraws.trans (h : e.Withdraws e') (h' : e'.Withdraws e'') : e.Withdraws e'' :=
  ⟨h.toSheds.trans h', fun x hx => h.tracked x (h'.tracked x hx)⟩

theorem Rebooked.frame (h : e.Rebooked e') :
    e'.pinned = e.pinned ∧ e'.scheduler.idlePolicy = e.scheduler.idlePolicy ∧ e'.now = e.now := by
  obtain ⟨_, _, _, _, rfl⟩ := h
  exact ⟨rfl, rfl, rfl⟩

theorem sent_untrack (e : Engine) (address : Address) :
    ∃ sent, (e.untrack address).link.router.commands = e.link.router.commands ++ sent ∧
      ∀ x, .untrack x ∈ sent → x = address := by
  rw [untrack, Link.send]
  split
  · exact ⟨[.untrack address], rfl, by simp⟩
  · exact ⟨[], (List.append_nil _).symm, by simp⟩

theorem not_mem_tracked_untrack (h : e.scheduler.tracked.Nodup) (address : Address) :
    address ∉ (e.untrack address).scheduler.tracked := fun hmem =>
  (h.mem_erase_iff.mp hmem).1 rfl

theorem withdraws_untrack (hnodup : e.scheduler.tracked.Nodup)
    (hpolicy : e.scheduler.idlePolicy = .immediate) (hpinned : address ∉ e.pinned) :
    e.Withdraws (e.untrack address) := by
  obtain ⟨hpins, hpolicies, hnow⟩ := (e.rebooked_untrack address).frame
  obtain ⟨sent, hcommands, hsent⟩ := e.sent_untrack address
  refine ⟨⟨hpins, hpolicies, hnow, fun _ _ => .inl, sent, hcommands, fun x hx => ?_⟩,
    fun x => List.mem_of_mem_erase⟩
  rw [hsent x hx]
  exact ⟨hpinned, not_mem_tracked_untrack hnodup address, hpolicy⟩

theorem withdraws_release (hnodup : e.scheduler.tracked.Nodup) (address : Address) :
    e.Withdraws (e.release address) := by
  rw [release]
  split
  case isFalse => exact .of_eq rfl rfl rfl rfl rfl
  case isTrue hspare =>
    cases hpolicy : e.scheduler.idlePolicy with
    | never => exact .of_eq rfl rfl rfl rfl rfl
    | immediate =>
      have hpinned : address ∉ e.pinned := by simpa using (Bool.and_eq_true_iff.mp hspare).2
      exact withdraws_untrack hnodup hpolicy hpinned
    | afterIdle secs =>
      refine ⟨⟨rfl, rfl, rfl, fun x deadline hx => ?_, [], (List.append_nil _).symm, by simp⟩,
        fun _ hx => hx⟩
      change (e.scheduler.idle.insert address _).find? x = some deadline at hx
      rw [Table.find?_insert] at hx
      split at hx
      · exact .inr ⟨secs, hpolicy, (Option.some.inj hx).symm⟩
      · exact .inl hx

theorem withdraws_removeDependency (hnodup : e.scheduler.tracked.Nodup)
    (account address : Address) : e.Withdraws (removeDependency account e address) := by
  rw [removeDependency]
  split
  · have herased : e.Withdraws { e with scheduler := { e.scheduler with
        dependents := e.scheduler.dependents.erase address } } := .of_eq rfl rfl rfl rfl rfl
    apply herased.trans
    apply withdraws_release
    exact hnodup
  · exact .of_eq rfl rfl rfl rfl rfl

theorem Tidy.withdraws_foldl (h : Tidy needs e) (account : Address) (addresses : List Address) :
    e.Withdraws (addresses.foldl (Engine.removeDependency account) e) := by
  induction addresses generalizing e needs with
  | nil => exact .of_eq rfl rfl rfl rfl rfl
  | cons address rest ih =>
    have hfirst := withdraws_removeDependency h.nodup_tracked account address
    exact hfirst.trans (ih (h.removeDependency account address))

theorem sheds_foldl_addDependency (e : Engine) (account : Address) (addresses : List Address) :
    e.Sheds (addresses.foldl (addDependency account) e) := by
  have hbooked : (∀ x deadline,
      (addresses.foldl (addDependency account) e).scheduler.idle.find? x = some deadline →
        e.scheduler.idle.find? x = some deadline) ∧
      ∃ asked : List Address, (addresses.foldl (addDependency account) e).link.router.commands =
        e.link.router.commands ++ asked.map .track := by
    induction addresses generalizing e with
    | nil => exact ⟨fun _ _ => id, [], (List.append_nil _).symm⟩
    | cons address rest ih =>
      obtain ⟨_, hidle, asked, hcommands⟩ := addDependency_spec e account address
      obtain ⟨hwaits, asked', hcommands'⟩ := ih (addDependency account e address)
      refine ⟨fun x deadline hx => ?_, asked ++ asked', ?_⟩
      · have hbefore := hwaits x deadline hx
        rw [hidle] at hbefore
        exact (Table.find?_erase_eq_some.mp hbefore).2
      · rw [List.foldl_cons, hcommands', hcommands, List.map_append, List.append_assoc]
  obtain ⟨hwaits, asked, hcommands⟩ := hbooked
  obtain ⟨hpinned, hpolicy, hnow⟩ :=
    (rebooked_foldl (rebooked_addDependency · account) addresses e).frame
  refine ⟨hpinned, hpolicy, hnow, fun x deadline hx => .inl (hwaits x deadline hx), _, hcommands,
    fun x hx => ?_⟩
  simp at hx

/-- Addresses are asked for before any is given up. -/
theorem sheds_setDependencies (h : Tidy (fun a x => x ∈ e.scheduler.dependenciesOf a) e)
    (account : Address) (next : List Address) : e.Sheds (e.setDependencies account next) := by
  rw [setDependencies]
  generalize (e.scheduler.dependencies.find? account).getD [] = previous
  have hbegin : Tidy (fun a x => x ∈ e.scheduler.dependenciesOf a) (e.updateScheduler fun s =>
      { s with dependencies := s.dependencies.erase account }) :=
    bookkeeping_tidy.dependencies h _
  let arrange := e.scheduler.arrangement.order (some account)
  have hadded := bookkeeping_tidy.foldl_add hbegin account
    (arrange (next.filter (!previous.contains ·)))
  have hasked := sheds_foldl_addDependency (e.updateScheduler fun s =>
    { s with dependencies := s.dependencies.erase account }) account
      (arrange (next.filter (!previous.contains ·)))
  have hshed := hasked.trans
    (hadded.withdraws_foldl account (arrange (previous.filter (!next.contains ·))))
  have hfinal : e.Sheds _ := ⟨hshed.pinned, hshed.policy, hshed.now, hshed.waits, hshed.sent⟩
  split
  · exact hfinal
  · exact hfinal.trans (.of_eq rfl rfl rfl rfl rfl)

/-- Only what is given new dependencies has others than before. -/
theorem find?_setDependencies (e : Engine) (account : Address) (next : List Address)
    (b : Address) : (e.setDependencies account next).scheduler.dependencies.find? b =
      if b = account then (if next = [] then none else some next)
      else e.scheduler.dependencies.find? b := by
  rw [setDependencies]
  generalize (e.scheduler.dependencies.find? account).getD [] = previous
  obtain ⟨_, _, _, _, heq⟩ := rebooked_difference (e.updateScheduler fun s =>
    { s with dependencies := s.dependencies.erase account }) account
      (e.scheduler.arrangement.order (some account) (previous.filter (!next.contains ·)))
      (e.scheduler.arrangement.order (some account) (next.filter (!previous.contains ·)))
  rw [heq]
  by_cases hempty : next = []
  · rw [if_pos (List.isEmpty_iff.mpr hempty), if_pos hempty]
    exact e.scheduler.dependencies.find?_erase account b
  · rw [if_neg fun h => hempty (List.isEmpty_iff.mp h), if_neg hempty]
    refine (Table.find?_insert _ account b next).trans ?_
    change (if _ then _ else (e.scheduler.dependencies.erase account).find? b) = _
    rw [Table.find?_erase]
    split <;> rfl

end Solvency.Engine
