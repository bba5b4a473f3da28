import Solvency.Proofs.Push.Books
import Solvency.Proofs.Router.Requests

/-! What a router is asked to track for an engine that gives up at once what nobody needs. It is
what some account needs and what callers have pinned, whatever requests are still in its queue. -/

namespace Solvency.Engine

variable {e e' : Engine} {needs needs' : Address → Address → Prop} {account address : Address}

/-- The router was asked for what the scheduler tracks, and for what is pinned. -/
structure Ordered (needs : Address → Address → Prop) (e : Engine) : Prop
    extends Books needs e where
  policy : e.scheduler.idlePolicy = .immediate
  idle : e.scheduler.idle = {}
  wanted : ∀ x, x ∈ e.link.router.asked ↔ x ∈ e.scheduler.tracked ∨ x ∈ e.pinned
  nodup_asked : e.link.router.asked.Nodup

/-- Nothing is tracked for nobody. -/
structure Thrifty (needs : Address → Address → Prop) (e : Engine) : Prop
    extends Ordered needs e where
  justified : ∀ x ∈ e.scheduler.tracked, (∃ a, needs a x) ∨ x ∈ e.pinned

theorem Ordered.imp (h : Ordered needs e) (hneeds : ∀ a x, needs' a x ↔ needs a x) :
    Ordered needs' e :=
  ⟨h.toBooks.imp hneeds, h.policy, h.idle, h.wanted, h.nodup_asked⟩

theorem Thrifty.imp (h : Thrifty needs e) (hneeds : ∀ a x, needs' a x ↔ needs a x) :
    Thrifty needs' e := by
  refine ⟨h.toOrdered.imp hneeds, fun x hx => ?_⟩
  simpa only [hneeds] using h.justified x hx

/-- As long as the books stay as they are, a router that goes on makes no difference to them. -/
theorem Thrifty.congr (h : Thrifty needs e) (hcarries : e.link.Carries e'.link)
    (hdependents : e'.scheduler.dependents = e.scheduler.dependents)
    (htracked : e'.scheduler.tracked = e.scheduler.tracked)
    (hidle : e'.scheduler.idle = e.scheduler.idle)
    (hpolicy : e'.scheduler.idlePolicy = e.scheduler.idlePolicy)
    (hpinned : e'.pinned = e.pinned) : Thrifty needs e' where
  toBooks := h.toBooks.carry hdependents htracked (hcarries.running.trans h.running)
    hcarries.renewed
  policy := hpolicy.trans h.policy
  idle := hidle.trans h.idle
  wanted := by
    rw [hcarries.asked, htracked, hpinned]
    exact h.wanted
  nodup_asked := hcarries.asked ▸ h.nodup_asked
  justified := by
    rw [htracked, hpinned]
    exact h.justified

theorem Ordered.untrack (h : Ordered needs e) (hfree : ∀ a, ¬ needs a address)
    (hpinned : address ∉ e.pinned) : Ordered needs (e.untrack address) := by
  have hasked : (e.untrack address).link.router.asked = e.link.router.asked.erase address :=
    Link.asked_send h.running (.untrack address)
  refine ⟨h.toBooks.untrack hfree, h.policy, h.idle, fun x => ?_, ?_⟩
  · have htracked : x ∈ (e.untrack address).scheduler.tracked ↔
        x ≠ address ∧ x ∈ e.scheduler.tracked := h.nodup_tracked.mem_erase_iff
    have hkept : x ∈ e.pinned → x ≠ address := by
      rintro hx rfl
      exact hpinned hx
    rw [hasked, h.nodup_asked.mem_erase_iff, h.wanted x, htracked]
    change _ ↔ _ ∨ x ∈ e.pinned
    tauto
  · rw [hasked]
    exact h.nodup_asked.erase address

/-- An address that was the last to be left to nobody is given up, unless it is pinned. -/
theorem Ordered.release (h : Ordered needs e) (hfree : ∀ a, ¬ needs a address)
    (hothers : ∀ x ∈ e.scheduler.tracked, x ≠ address → (∃ a, needs a x) ∨ x ∈ e.pinned) :
    Thrifty needs (e.release address) := by
  rw [Engine.release]
  by_cases hspare : address ∈ e.scheduler.tracked ∧ address ∉ e.pinned
  · rw [if_pos (by simpa using hspare), h.policy]
    refine ⟨h.untrack hfree hspare.2, fun x hx => ?_⟩
    obtain ⟨hne, hx⟩ := h.nodup_tracked.mem_erase_iff.mp hx
    exact hothers x hx hne
  · rw [if_neg (by simpa using hspare)]
    refine ⟨h, fun x hx => ?_⟩
    by_cases hxa : x = address
    · subst hxa
      right
      by_contra hpinned
      exact hspare ⟨hx, hpinned⟩
    · exact hothers x hx hxa

theorem Thrifty.addDependency (h : Thrifty needs e) (account address : Address) :
    Thrifty (fun a x => needs a x ∨ a = account ∧ x = address)
      (addDependency account e address) := by
  have hbooks := h.toBooks.addDependency account address
  have hidle : e.scheduler.idle.erase address = {} := by
    rw [h.idle]
    rfl
  have hneeded : ∀ x ∈ e.scheduler.tracked,
      (∃ a, needs a x ∨ a = account ∧ x = address) ∨ x ∈ e.pinned := by
    intro x hx
    exact (h.justified x hx).imp_left fun ⟨a, ha⟩ => ⟨a, .inl ha⟩
  rw [Engine.addDependency] at hbooks ⊢
  simp only [Link.send, if_pos h.running] at hbooks ⊢
  by_cases htracked : e.scheduler.tracked.contains address = true
  · rw [if_pos htracked] at hbooks ⊢
    exact ⟨⟨hbooks, h.policy, hidle, h.wanted, h.nodup_asked⟩, hneeded⟩
  · rw [if_neg htracked] at hbooks ⊢
    have hasked : (e.link.send (.track address)).2.router.asked =
        e.link.router.asked.insert address := Link.asked_send h.running (.track address)
    rw [Link.send, if_pos h.running] at hasked
    refine ⟨⟨hbooks, h.policy, hidle, fun x => ?_, ?_⟩, fun x hx => ?_⟩
    · have hwanted := h.wanted x
      simp only [hasked, List.mem_insert_iff, hwanted, or_assoc]
    · rw [hasked]
      exact h.nodup_asked.insert
    · rcases List.mem_insert_iff.mp hx with rfl | hx
      · exact .inl ⟨account, .inr ⟨rfl, rfl⟩⟩
      · exact hneeded x hx

theorem Thrifty.removeDependency (h : Thrifty needs e) (account address : Address) :
    Thrifty (fun a x => needs a x ∧ ¬ (a = account ∧ x = address))
      (removeDependency account e address) := by
  have hothers : ∀ x ∈ e.scheduler.tracked, x ≠ address →
      (∃ a, needs a x ∧ ¬ (a = account ∧ x = address)) ∨ x ∈ e.pinned := by
    intro x hx hne
    exact (h.justified x hx).imp_left fun ⟨a, ha⟩ => ⟨a, ha, fun hsame => hne hsame.2⟩
  have hbooks := h.toBooks.removeDependency account address
  rw [Engine.removeDependency] at hbooks ⊢
  cases hrest : ((e.scheduler.dependents.find? address).getD []).erase account with
  | nil =>
    obtain ⟨hfree, herased⟩ := h.toBooks.eraseDependents hrest
    have hordered : Ordered (fun a x => needs a x ∧ ¬ (a = account ∧ x = address))
        (e.updateScheduler fun s => { s with dependents := s.dependents.erase address }) :=
      ⟨herased, h.policy, h.idle, h.wanted, h.nodup_asked⟩
    exact hordered.release hfree hothers
  | cons first rest =>
    simp only [hrest] at hbooks
    refine ⟨⟨hbooks, h.policy, h.idle, h.wanted, h.nodup_asked⟩, fun x hx => ?_⟩
    by_cases hxa : x = address
    · subst hxa
      have hfirst : first ∈ (e.scheduler.dependentsOf x).erase account := by
        rw [Scheduler.dependentsOf, hrest]
        exact List.mem_cons_self
      obtain ⟨hneeds, hne⟩ := (h.mem_erase first).mp hfirst
      exact .inl ⟨first, hneeds, fun hsame => hne hsame.1⟩
    · exact hothers x hx hxa

theorem bookkeeping_thrifty : Bookkeeping Thrifty where
  imp h hneeds := h.imp hneeds
  dependencies h _ := h.congr (.of_eq rfl rfl rfl) rfl rfl rfl rfl rfl
  add h account address := h.addDependency account address
  remove h account address := h.removeDependency account address

/-- A caller pins an address before the router is asked for it. -/
theorem Thrifty.ask (h : Thrifty needs e) (address : Address) : Thrifty needs { e with
    link := (e.link.send (.track address)).2, pinned := e.pinned.insert address } := by
  have hasked : (e.link.send (.track address)).2.router.asked =
      e.link.router.asked.insert address := Link.asked_send h.running (.track address)
  have hbooks : Books needs { e with
      link := (e.link.send (.track address)).2, pinned := e.pinned.insert address } :=
    (h.toBooks.track address).congr rfl rfl rfl rfl
  refine ⟨⟨hbooks, h.policy, h.idle, fun x => ?_, ?_⟩, fun x hx => ?_⟩
  · rw [hasked, List.mem_insert_iff, h.wanted x]
    change _ ↔ _ ∨ x ∈ e.pinned.insert address
    rw [List.mem_insert_iff]
    tauto
  · rw [hasked]
    exact h.nodup_asked.insert
  · exact (h.justified x hx).imp_right List.mem_insert_of_mem

end Solvency.Engine
