import Mathlib.Data.List.Nodup
import Solvency.Proofs.Router.Evolution
import Solvency.Push.Scheduler

/-! Who depends on what. The addresses that an account depends on, and the accounts that
depend on an address, are two sides of one relation, and everything in it is tracked. -/

namespace Solvency

namespace Scheduler

def dependenciesOf (s : Scheduler) (account : Address) : List Address :=
  (s.dependencies.find? account).getD []

def dependentsOf (s : Scheduler) (address : Address) : List Address :=
  (s.dependents.find? address).getD []

end Scheduler

theorem Arrangement.mem_order (r : Arrangement) (owner : Option Address) {members : List Address}
    {a : Address} : a ∈ r.order owner members ↔ a ∈ members :=
  (r.perm owner members).mem_iff

namespace Engine

open Router.Command (Renewed renewed_append_track)

variable {e e' e'' : Engine} {needs needs' : Address → Address → Prop} {account address : Address}

/-- Nothing has changed but what is known of addresses, and commands were sent. -/
def Rebooked (e e' : Engine) : Prop :=
  ∃ dependents tracked idle sent, e' = { e with
    scheduler := { e.scheduler with dependents, tracked, idle }
    link := { e.link with
      router := { e.link.router with commands := e.link.router.commands ++ sent } } }

theorem Rebooked.refl (e : Engine) : e.Rebooked e :=
  ⟨_, _, _, [], by rw [List.append_nil]⟩

theorem Rebooked.trans (h : e.Rebooked e') (h' : e'.Rebooked e'') : e.Rebooked e'' := by
  obtain ⟨_, _, _, sent, rfl⟩ := h
  obtain ⟨_, _, _, sent', rfl⟩ := h'
  exact ⟨_, _, _, sent ++ sent', by rw [List.append_assoc]⟩

theorem rebooked_untrack (e : Engine) (address : Address) : e.Rebooked (e.untrack address) := by
  rw [untrack, Link.send]
  split
  · exact ⟨_, _, _, _, rfl⟩
  · exact ⟨_, _, _, [], by rw [List.append_nil]⟩

theorem rebooked_release (e : Engine) (address : Address) : e.Rebooked (e.release address) := by
  rw [release]
  split
  · split
    · exact .refl e
    · exact e.rebooked_untrack address
    · exact ⟨_, _, _, [], by rw [List.append_nil]; rfl⟩
  · exact .refl e

theorem rebooked_addDependency (e : Engine) (account address : Address) :
    e.Rebooked (addDependency account e address) := by
  rw [addDependency]
  simp only [Link.send]
  split
  · exact ⟨_, _, _, [], by rw [List.append_nil]⟩
  · by_cases hrunning : e.link.router.running = true
    · simp only [if_pos hrunning]
      exact ⟨_, _, _, _, rfl⟩
    · simp only [if_neg hrunning]
      exact ⟨_, _, _, [], by rw [List.append_nil]⟩

theorem rebooked_removeDependency (e : Engine) (account address : Address) :
    e.Rebooked (removeDependency account e address) := by
  rw [removeDependency]
  split
  · exact .trans ⟨_, _, _, [], by rw [List.append_nil]⟩ (rebooked_release _ _)
  · exact ⟨_, _, _, [], by rw [List.append_nil]⟩

theorem rebooked_foldl {f : Engine → Address → Engine}
    (hf : ∀ (e : Engine) (a : Address), e.Rebooked (f e a))
    (addresses : List Address) (e : Engine) : e.Rebooked (addresses.foldl f e) := by
  induction addresses generalizing e with
  | nil => exact .refl e
  | cons a rest ih => exact (hf e a).trans (ih (f e a))

theorem rebooked_difference (e : Engine) (account : Address) (stale fresh : List Address) :
    e.Rebooked (stale.foldl (removeDependency account) (fresh.foldl (addDependency account) e)) :=
  (rebooked_foldl (rebooked_addDependency · account) _ e).trans
    (rebooked_foldl (rebooked_removeDependency · account) _ _)

/-- Whatever is known of the others, new dependencies are a matter of the books alone. -/
theorem rebooked_setDependencies (e : Engine) (account : Address) (next : List Address) :
    ∃ dependencies, (e.updateScheduler ({ · with dependencies })).Rebooked
        (e.setDependencies account next) ∧
      ∀ b, (dependencies.find? b).getD [] =
        if b = account then next else e.scheduler.dependenciesOf b := by
  rw [setDependencies]
  generalize (e.scheduler.dependencies.find? account).getD [] = previous
  obtain ⟨dependents, tracked, idle, sent, heq⟩ := rebooked_difference (e.updateScheduler fun s =>
    { s with dependencies := s.dependencies.erase account }) account
      (e.scheduler.arrangement.order (some account) (previous.filter (!next.contains ·)))
      (e.scheduler.arrangement.order (some account) (next.filter (!previous.contains ·)))
  rw [heq]
  split
  case isTrue hempty =>
    refine ⟨e.scheduler.dependencies.erase account, ⟨_, _, _, _, rfl⟩, fun b => ?_⟩
    rw [Table.find?_erase, List.isEmpty_iff.mp hempty]
    split <;> rfl
  case isFalse =>
    refine ⟨(e.scheduler.dependencies.erase account).insert account next, ⟨_, _, _, _, rfl⟩,
      fun b => ?_⟩
    rw [Table.find?_insert, Table.find?_erase]
    split <;> rfl

/-- The accounts that depend on an address are those that need it; the router was asked to
track what is needed, and whatever it is asked to give up in between it tracks again. -/
structure Books (needs : Address → Address → Prop) (e : Engine) : Prop where
  running : e.link.router.running = true
  dependents : ∀ a x, a ∈ e.scheduler.dependentsOf x ↔ needs a x
  nodup : ∀ x, (e.scheduler.dependentsOf x).Nodup
  tracked : ∀ a x, needs a x → x ∈ e.scheduler.tracked
  nodup_tracked : e.scheduler.tracked.Nodup
  renewed : ∀ x ∈ e.scheduler.tracked, Renewed x e.link.router.commands

theorem Books.imp (h : Books needs e) (hneeds : ∀ a x, needs' a x ↔ needs a x) :
    Books needs' e where
  running := h.running
  dependents a x := (h.dependents a x).trans (hneeds a x).symm
  nodup := h.nodup
  tracked a x hx := h.tracked a x ((hneeds a x).mp hx)
  nodup_tracked := h.nodup_tracked
  renewed := h.renewed

/-- The router may go on meanwhile. -/
theorem Books.carry (h : Books needs e)
    (hdependents : e'.scheduler.dependents = e.scheduler.dependents)
    (htracked : e'.scheduler.tracked = e.scheduler.tracked)
    (hrunning : e'.link.router.running = true)
    (hrenewed : ∀ x, Renewed x e.link.router.commands → Renewed x e'.link.router.commands) :
    Books needs e' where
  running := hrunning
  dependents a x := by simpa only [Scheduler.dependentsOf, hdependents] using h.dependents a x
  nodup x := by simpa only [Scheduler.dependentsOf, hdependents] using h.nodup x
  tracked := htracked ▸ h.tracked
  nodup_tracked := htracked ▸ h.nodup_tracked
  renewed := by
    rw [htracked]
    exact fun x hx => hrenewed x (h.renewed x hx)

theorem Books.congr (h : Books needs e)
    (hdependents : e'.scheduler.dependents = e.scheduler.dependents)
    (htracked : e'.scheduler.tracked = e.scheduler.tracked)
    (hcommands : e'.link.router.commands = e.link.router.commands)
    (hrunning : e'.link.router.running = e.link.router.running) : Books needs e' :=
  h.carry hdependents htracked (hrunning.trans h.running) fun _ hrenewed => hcommands ▸ hrenewed

theorem Books.untrack (h : Books needs e) (hfree : ∀ a, ¬ needs a address) :
    Books needs (e.untrack address) := by
  have hsend : e.link.send (.untrack address) = (.ok (), { e.link with router :=
      { e.link.router with commands := e.link.router.commands ++ [.untrack address] } }) := by
    rw [Link.send, if_pos h.running]
  rw [Engine.untrack, hsend]
  refine ⟨h.running, h.dependents, h.nodup, ?_, h.nodup_tracked.erase _, ?_⟩
  · intro a x hx
    refine (List.mem_erase_of_ne ?_).mpr (h.tracked a x hx)
    rintro rfl
    exact hfree a hx
  · intro x hx
    obtain ⟨hne, hx⟩ := h.nodup_tracked.mem_erase_iff.mp hx
    exact (h.renewed x hx).append fun heq => hne (Router.Command.untrack.inj heq).symm

theorem Books.release (h : Books needs e) (hfree : ∀ a, ¬ needs a address) :
    Books needs (e.release address) := by
  rw [Engine.release]
  split
  · split
    · exact h
    · exact h.untrack hfree
    · exact h.congr rfl rfl rfl rfl
  · exact h

theorem Books.track (h : Books needs e) (address : Address) :
    Books needs { e with link := (e.link.send (.track address)).2 } := by
  rw [Link.send, if_pos h.running]
  exact ⟨h.running, h.dependents, h.nodup, h.tracked, h.nodup_tracked,
    fun x hx => (h.renewed x hx).append (by intro heq; cases heq)⟩

theorem dependentsOf_insert (s : Scheduler) (address x : Address) (accounts : List Address) :
    { s with dependents := s.dependents.insert address accounts }.dependentsOf x =
      if x = address then accounts else s.dependentsOf x := by
  simp only [Scheduler.dependentsOf, Table.find?_insert]
  split <;> rfl

theorem Books.addDependency (h : Books needs e) (account address : Address) :
    Books (fun a x => needs a x ∨ a = account ∧ x = address)
      (e.addDependency account address) := by
  have hdependents : ∀ a x, a ∈ { e.scheduler with
      dependents := e.scheduler.dependents.insert address
        ((e.scheduler.dependentsOf address).insert account) }.dependentsOf x ↔
      needs a x ∨ a = account ∧ x = address := by
    intro a x
    rw [dependentsOf_insert]
    by_cases hx : x = address
    · subst hx
      simp [h.dependents, or_comm]
    · simp [hx, h.dependents]
  have hnodup : ∀ x, ({ e.scheduler with
      dependents := e.scheduler.dependents.insert address
        ((e.scheduler.dependentsOf address).insert account) }.dependentsOf x).Nodup := by
    intro x
    rw [dependentsOf_insert]
    split
    · exact List.Nodup.insert (h.nodup address)
    · exact h.nodup x
  rw [Engine.addDependency]
  simp only [Link.send, if_pos h.running]
  split
  case isTrue htracked =>
    refine ⟨h.running, hdependents, hnodup, ?_, h.nodup_tracked, h.renewed⟩
    rintro a x (hx | ⟨_, rfl⟩)
    · exact h.tracked a x hx
    · exact List.contains_iff_mem.mp htracked
  case isFalse =>
    refine ⟨h.running, hdependents, hnodup, ?_, List.Nodup.insert h.nodup_tracked, ?_⟩
    · rintro a x (hx | ⟨_, rfl⟩)
      · exact List.mem_insert_of_mem (h.tracked a x hx)
      · exact List.mem_insert_self
    · intro x hx
      rcases List.mem_insert_iff.mp hx with rfl | hx
      · exact renewed_append_track
      · exact (h.renewed x hx).append (by intro heq; cases heq)

theorem Books.mem_erase (h : Books needs e) (a : Address) :
    a ∈ (e.scheduler.dependentsOf address).erase account ↔ needs a address ∧ a ≠ account := by
  rw [(h.nodup address).mem_erase_iff, h.dependents, and_comm]

/-- The last account that needed an address leaves it to nobody. -/
theorem Books.eraseDependents (h : Books needs e)
    (hnone : (e.scheduler.dependentsOf address).erase account = []) :
    (∀ a, ¬ (needs a address ∧ ¬ (a = account ∧ address = address))) ∧
      Books (fun a x => needs a x ∧ ¬ (a = account ∧ x = address)) (e.updateScheduler fun s =>
        { s with dependents := s.dependents.erase address }) := by
  have hfree : ∀ a, ¬ (needs a address ∧ ¬ (a = account ∧ address = address)) := by
    rintro a ⟨hneeds, hother⟩
    have hrest := h.mem_erase a |>.mpr ⟨hneeds, fun ha => hother ⟨ha, rfl⟩⟩
    rw [hnone] at hrest
    cases hrest
  have hfind : ∀ x, { e.scheduler with
      dependents := e.scheduler.dependents.erase address }.dependentsOf x =
      if x = address then [] else e.scheduler.dependentsOf x := by
    intro x
    simp only [Scheduler.dependentsOf, Table.find?_erase]
    split <;> rfl
  refine ⟨hfree, h.running, fun a x => ?_, fun x => ?_, fun a x hx => h.tracked a x hx.1,
    h.nodup_tracked, h.renewed⟩
  · rw [updateScheduler, hfind]
    by_cases hx : x = address
    · subst hx
      simpa using hfree a
    · simp [hx, h.dependents]
  · rw [updateScheduler, hfind]
    split
    · exact .nil
    · exact h.nodup x

theorem Books.removeDependency (h : Books needs e) (account address : Address) :
    Books (fun a x => needs a x ∧ ¬ (a = account ∧ x = address))
      (e.removeDependency account address) := by
  rw [Engine.removeDependency]
  split
  case h_1 hnone =>
    obtain ⟨hfree, herased⟩ := h.eraseDependents hnone
    exact herased.release hfree
  case h_2 =>
    refine ⟨h.running, fun a x => ?_, fun x => ?_, fun a x hx => h.tracked a x hx.1,
      h.nodup_tracked, h.renewed⟩
    · rw [dependentsOf_insert]
      by_cases hx : x = address
      · subst hx
        rw [if_pos rfl]
        exact (h.mem_erase a).trans (by simp)
      · simp [hx, h.dependents]
    · rw [dependentsOf_insert]
      split
      · exact (h.nodup address).erase account
      · exact h.nodup x

abbrev Balanced (e : Engine) : Prop := Books (fun a x => x ∈ e.scheduler.dependenciesOf a) e

/-- What is said of an engine by who needs what, and follows each entry of the books. -/
structure Bookkeeping (B : (Address → Address → Prop) → Engine → Prop) : Prop where
  imp : ∀ {needs needs' e}, B needs e → (∀ a x, needs' a x ↔ needs a x) → B needs' e
  dependencies : ∀ {needs e}, B needs e → ∀ dependencies,
    B needs (e.updateScheduler ({ · with dependencies }))
  add : ∀ {needs e}, B needs e → ∀ account address,
    B (fun a x => needs a x ∨ a = account ∧ x = address) (addDependency account e address)
  remove : ∀ {needs e}, B needs e → ∀ account address,
    B (fun a x => needs a x ∧ ¬ (a = account ∧ x = address)) (removeDependency account e address)

theorem bookkeeping_books : Bookkeeping Books where
  imp h hneeds := h.imp hneeds
  dependencies h _ := h.congr rfl rfl rfl rfl
  add h account address := h.addDependency account address
  remove h account address := h.removeDependency account address

/-- Adding what is new and removing what is no longer there leaves what comes next. -/
theorem needs_of_difference (needs : Address → Address → Prop) (account : Address)
    (previous next : List Address) (a x : Address)
    (hheld : a = account → (x ∈ previous ↔ needs a x)) :
    (if a = account then x ∈ next else needs a x) ↔
      (needs a x ∨ a = account ∧ x ∈ next.filter (!previous.contains ·)) ∧
        ¬ (a = account ∧ x ∈ previous.filter (!next.contains ·)) := by
  by_cases ha : a = account
  · simp only [ha, if_true, List.mem_filter, Bool.not_eq_true', true_and, List.contains_eq_mem,
      decide_eq_false_iff_not]
    have hsame := hheld ha
    rw [ha] at hsame
    tauto
  · simp [ha]

section Bookkeeping

variable {B : (Address → Address → Prop) → Engine → Prop}

theorem Bookkeeping.foldl_add (hB : Bookkeeping B) (h : B needs e) (account : Address)
    (addresses : List Address) : B (fun a x => needs a x ∨ a = account ∧ x ∈ addresses)
      (addresses.foldl (addDependency account) e) := by
  induction addresses generalizing e needs with
  | nil => exact hB.imp h (by simp)
  | cons address rest ih =>
    refine hB.imp (ih (hB.add h account address)) fun a x => ?_
    rw [List.mem_cons, or_assoc, ← and_or_left]

theorem Bookkeeping.foldl_remove (hB : Bookkeeping B) (h : B needs e) (account : Address)
    (addresses : List Address) : B (fun a x => needs a x ∧ ¬ (a = account ∧ x ∈ addresses))
      (addresses.foldl (removeDependency account) e) := by
  induction addresses generalizing e needs with
  | nil => exact hB.imp h (by simp)
  | cons address rest ih =>
    refine hB.imp (ih (hB.remove h account address)) fun a x => ?_
    rw [List.mem_cons, and_or_left, not_or, and_assoc]

theorem Bookkeeping.setDependencies (hB : Bookkeeping B)
    (h : B (fun a x => x ∈ e.scheduler.dependenciesOf a) e) (account : Address)
    (next : List Address) :
    B (fun a x => x ∈ (e.setDependencies account next).scheduler.dependenciesOf a)
      (e.setDependencies account next) := by
  obtain ⟨dependencies, ⟨_, _, _, _, heq⟩, hfind⟩ := e.rebooked_setDependencies account next
  have hneeds : ∀ a x, x ∈ (e.setDependencies account next).scheduler.dependenciesOf a ↔
      if a = account then x ∈ next else x ∈ e.scheduler.dependenciesOf a := by
    intro a x
    rw [heq]
    refine (iff_of_eq (congrArg (x ∈ ·) (hfind a))).trans ?_
    split <;> rfl
  refine hB.imp ?_ hneeds
  rw [Engine.setDependencies]
  generalize hprevious : (e.scheduler.dependencies.find? account).getD [] = previous
  have hheld : ∀ a x, a = account → (x ∈ previous ↔ x ∈ e.scheduler.dependenciesOf a) := by
    rintro a x rfl
    rw [Scheduler.dependenciesOf, hprevious]
  have hbegin : B (fun a x => x ∈ e.scheduler.dependenciesOf a) (e.updateScheduler fun s =>
      { s with dependencies := s.dependencies.erase account }) := hB.dependencies h _
  let arrange := e.scheduler.arrangement.order (some account)
  have hadded := hB.foldl_add hbegin account (arrange (next.filter (!previous.contains ·)))
  have hremoved := hB.foldl_remove hadded account (arrange (previous.filter (!next.contains ·)))
  have hdifference : ∀ a x,
      (if a = account then x ∈ next else x ∈ e.scheduler.dependenciesOf a) ↔
        (x ∈ e.scheduler.dependenciesOf a ∨
            a = account ∧ x ∈ arrange (next.filter (!previous.contains ·))) ∧
          ¬ (a = account ∧ x ∈ arrange (previous.filter (!next.contains ·))) := by
    intro a x
    simp only [arrange, Arrangement.mem_order]
    exact needs_of_difference (fun a x => x ∈ e.scheduler.dependenciesOf a) account previous next
      a x (hheld a x)
  have hbooks := hB.imp hremoved hdifference
  split
  · exact hbooks
  · exact hB.dependencies hbooks _

end Bookkeeping

theorem Books.setDependencies (h : e.Balanced) (account : Address) (next : List Address) :
    (e.setDependencies account next).Balanced :=
  bookkeeping_books.setDependencies h account next

end Engine

end Solvency
