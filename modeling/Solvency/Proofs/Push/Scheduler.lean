import Solvency.Proofs.Push.Tended

/-! Every step of the scheduler sees to the accounts that it takes from a queue: it marks them
dirty, or composes them again. The others are as they were. -/

namespace Solvency.Engine

variable {e e' : Engine} {writes : List RawAccount} {todo : List Address} {a : Address}

theorem mem_foldl_insert {accounts held : List Address} :
    a ∈ accounts.foldl (fun held a => held.insert a) held ↔ a ∈ accounts ∨ a ∈ held := by
  induction accounts generalizing held with
  | nil => simp
  | cons account rest ih =>
    rw [List.foldl_cons, ih, List.mem_insert_iff, List.mem_cons, or_left_comm, or_assoc]

/-- A flush is due as long as an account is dirty. -/
theorem flushAt_markDirty (h : e.scheduler.dirty ≠ [] → e.scheduler.flushAt ≠ none)
    (accounts : List Address) : (e.markDirty accounts).scheduler.dirty ≠ [] →
      (e.markDirty accounts).scheduler.flushAt ≠ none := by
  intro hsome
  change (if _ then _ else e.scheduler.flushAt) ≠ none
  split
  case isTrue => exact Option.some_ne_none _
  case isFalse hlate =>
    intro hnone
    have hclean : e.scheduler.dirty = [] := by
      by_contra hdirty
      exact h hdirty hnone
    refine hlate ⟨?_, hnone⟩
    rw [hclean]
    exact List.length_pos_iff.mpr (hclean ▸ hsome)

theorem Tended.markDirty {accounts : List Address} (h : e.Tended writes accounts) :
    (e.markDirty accounts).Tended writes [] := by
  have hdirty : ∀ b, b ∈ (e.markDirty accounts).scheduler.dirty ↔
      b ∈ accounts ∨ b ∈ e.scheduler.dirty := fun b => mem_foldl_insert
  refine ⟨h.link, h.full, h.position_le, h.proper, h.books.congr rfl rfl rfl rfl, h.nodup,
    flushAt_markDirty h.flush accounts, h.released, h.asked, fun b hwatched hopen => .inr ?_⟩
  rcases h.accounted b hwatched hopen with hb | haccounted
  · exact .dirty ((hdirty b).mpr (.inl hb))
  · exact haccounted.congr ⟨rfl, fun _ => id, rfl, rfl, .rfl, rfl, rfl, rfl⟩
      (fun hb => .asked hb) fun hb => .dirty ((hdirty b).mpr (.inr hb))

theorem Tended.admit (h : e.Tended writes []) {rest : List Address}
    (hcommands : e.scheduler.commands = a :: rest) :
    Tended writes [a] (e.updateScheduler fun s =>
      { s with commands := rest, watched := s.watched.insert a }) := by
  have henlisted : Enlisted (e.scheduler.watched.insert a) rest e.notifier :=
    Enlisted.meet (hcommands ▸ h.enlisted)
  refine ⟨h.link, h.full, h.position_le, h.proper, h.books.congr rfl rfl rfl rfl,
    henlisted.nodup, h.flush, henlisted.released, henlisted.asked, fun b hb hopen => ?_⟩
  by_cases hba : b = a
  · exact .inl (List.mem_singleton.mpr hba)
  · have hwatched : b ∈ e.scheduler.watched := (List.mem_insert_iff.mp hb).resolve_left hba
    refine .inr ((h.accounts hwatched hopen).congr
      ⟨rfl, fun _ => id, rfl, rfl, .rfl, rfl, rfl, rfl⟩ (fun hasked => .asked ?_)
      fun hdirty => .dirty hdirty)
    rw [hcommands] at hasked
    exact (List.mem_cons.mp hasked).resolve_left hba

theorem Tended.watchStep (h : e.Tended writes []) (hs : e.watchStep? = some e') :
    e'.Tended writes [] := by
  rw [watchStep?] at hs
  split at hs
  · cases hs
  case h_2 account rest hcommands =>
    cases hs
    have hadmitted := h.admit hcommands
    rw [onWatch]
    refine Tended.markDirty ?_
    split
    case isTrue hheld =>
      have hsame : e.scheduler.watched.insert account = e.scheduler.watched :=
        List.insert_of_mem (List.contains_iff_mem.mp hheld)
      simp only [updateScheduler, hsame] at hadmitted
      exact hadmitted
    case isFalse =>
      exact (hadmitted.setDependencies List.mem_cons_self _).1

/-- An account that was released is no longer watched. -/
theorem Tended.dismiss (h : e.Tended writes []) {account : Address} {rest : List Address}
    (hcommands : e.scheduler.commands = []) (hreleased : e.notifier.released = account :: rest)
    (hclosed : e.notifier.isWatched account = false) :
    Tended writes [account] { e with
      notifier := { e.notifier with released := rest }
      scheduler := { e.scheduler with
        watched := e.scheduler.watched.erase account
        dirty := e.scheduler.dirty.erase account
        pending := e.scheduler.pending.erase account } } := by
  have henlisted := Enlisted.dismiss (hcommands ▸ h.enlisted) hreleased hclosed
  refine ⟨h.link, h.full, h.position_le, henlisted.proper, h.books.congr rfl rfl rfl rfl,
    henlisted.nodup, ?_, hcommands ▸ henlisted.released, hcommands ▸ henlisted.asked, ?_⟩
  · intro hdirty
    exact h.flush fun hclean => hdirty (by simp [hclean])
  · intro b hb hopen
    obtain ⟨hne, hb⟩ := h.nodup.mem_erase_iff.mp hb
    refine .inr ((h.accounts hb hopen).congr
      ⟨rfl, fun _ => id, rfl, rfl, List.mem_erase_of_ne hne, rfl, rfl, rfl⟩
      (fun hasked => .asked hasked) fun hdirty => .dirty ?_)
    exact (List.mem_erase_of_ne hne).mpr hdirty

/-- A release is void when the account has a new watcher, or is not watched anyway. -/
theorem Tended.overtake (h : e.Tended writes []) {account : Address} {rest : List Address}
    (hcommands : e.scheduler.commands = []) (hreleased : e.notifier.released = account :: rest)
    (hvoid : e.notifier.isWatched account = true ∨ account ∉ e.scheduler.watched) :
    Tended writes [] { e with notifier := { e.notifier with released := rest } } := by
  have henlisted := Enlisted.overtake (hcommands ▸ h.enlisted) hreleased hvoid
  refine ⟨h.link, h.full, h.position_le, henlisted.proper, h.books.congr rfl rfl rfl rfl,
    h.nodup, h.flush, hcommands ▸ henlisted.released, h.asked, fun b hb hopen => ?_⟩
  exact (h.accounted b hb hopen).imp_right fun haccounted =>
    haccounted.of_alike ⟨rfl, fun _ => id, rfl, rfl, .rfl, rfl, rfl, rfl⟩ rfl rfl

theorem Tended.releaseStep (h : e.Tended writes []) (hcommands : e.scheduler.commands = [])
    (hs : e.releaseStep? = some e') : e'.Tended writes [] := by
  rw [releaseStep?] at hs
  split at hs
  · cases hs
  case h_2 account rest hreleased =>
    cases hs
    rw [onRelease]
    split
    case isTrue hcond =>
      have hclosed : e.notifier.isWatched account = false :=
        (Bool.not_eq_true' _).mp (Bool.and_eq_true_iff.mp hcond).1
      have hdismissed := h.dismiss hcommands hreleased hclosed
      obtain ⟨htended, _, _, _, _, _, _, heq⟩ := hdismissed.setDependencies List.mem_cons_self []
      refine htended.done fun hwatched => ?_
      rw [heq] at hwatched
      exact absurd rfl (h.nodup.mem_erase_iff.mp hwatched).1
    case isFalse hkept => exact h.overtake hcommands hreleased (Enlisted.void_of_kept hkept)

theorem Tended.receive (h : e.Tended writes []) {next : Nat} {accounts : List Address}
    (hnext : next ≤ e.link.registry.events.total)
    (haccounts : ∀ b ∈ e.scheduler.watched,
      e.link.registry.events.Outstanding e.scheduler.position (e.Concerns b) →
        b ∈ accounts ∨ e.link.registry.events.Outstanding next (e.Concerns b)) :
    Tended writes accounts (e.updateScheduler ({ · with position := next })) := by
  refine ⟨h.link, h.full, hnext, h.proper, h.books.congr rfl rfl rfl rfl, h.nodup, h.flush,
    h.released, h.asked, fun b hb hopen => ?_⟩
  rcases h.accounts hb hopen with
    hasked | hdirty | hdue | ⟨x, hx, howed⟩ | hcurrent
  · exact .inr (.asked hasked)
  · exact .inr (.dirty hdirty)
  · exact (haccounts b hb hdue).imp_right fun hdue => .due (hdue.imp fun event =>
      (Concerns.of_eq rfl .rfl event).mpr)
  · exact .inr (.owed x hx howed)
  · exact .inr (.current ⟨hcurrent.covered, hcurrent.composed, hcurrent.failed⟩)

theorem Tended.eventStep (h : e.Tended writes []) (hs : e.eventStep? = some e') :
    e'.Tended writes [] := by
  simp only [eventStep?, Option.bind_eq_bind, Option.bind_eq_some_iff] at hs
  obtain ⟨⟨reception, next⟩, hreceive, hs⟩ := hs
  cases hs
  obtain ⟨hnext, ⟨missed, rfl⟩ | ⟨event, rfl, hevent⟩⟩ :=
    EventLog.receive?_cases h.position_le hreceive
  · exact (h.receive hnext fun b hb _ => .inl hb).markDirty
  · cases event with
    | updated address slot =>
      refine (h.receive hnext fun b _ hdue => ?_).markDirty
      exact (hevent _ hdue).imp_left fun hconcerns => (h.books.dependents b address).mpr hconcerns
    | slotConfirmed slot =>
      exact (h.receive hnext fun b _ hdue => hevent _ hdue).markDirty
    | invalidated epoch =>
      exact Tended.markDirty ⟨h.link, h.full, hnext, h.proper.invalidate,
        h.books.congr rfl rfl rfl rfl, h.nodup, h.flush, h.released, h.asked,
        fun b hb _ => .inl hb⟩

theorem Tended.tell (h : e.Tended writes (a :: todo)) {f : Latest Snapshot → Latest Snapshot}
    (hopen : ∀ held, (f held).isOpen = held.isOpen) (clock : Nat) {pending : List Address}
    (hpending : ∀ b, b ≠ a → (b ∈ pending ↔ b ∈ e.scheduler.pending)) :
    Tended writes (a :: todo) { e with
      notifier := e.notifier.alter a f, clock, scheduler := { e.scheduler with pending } } := by
  have henlisted := h.enlisted.alter a hopen
  refine ⟨h.link, h.full, h.position_le, henlisted.proper, h.books.congr rfl rfl rfl rfl, h.nodup,
    h.flush, henlisted.released, henlisted.asked, fun b hb hb' => ?_⟩
  by_cases hba : b = a
  · exact .inl (List.mem_cons.mpr (.inl hba))
  · have hwatched : e.notifier.isWatched b = true := e.notifier.isWatched_alter a f b ▸ hb'
    have hlatest := Notifier.latest?_alter_of_ne h.proper f hba
    exact (h.accounted b hb hwatched).imp_right fun haccounted => haccounted.of_alike
      ⟨rfl, fun _ => id, rfl, rfl, hpending b hba, hlatest, rfl, rfl⟩ rfl rfl

/-- What was composed at one time is what would be composed at another, slots aside. -/
theorem agrees_bare {calculator : Calculator} {snapshot : Snapshot} {view : View} {before : Nat}
    (h : snapshot.Agrees (calculator.evaluate before view)) (time : Nat) :
    ({ snapshot with slotRange := .ofSlot 0 }).Agrees (calculator.evaluate time view.bare) := by
  rw [Snapshot.Agrees] at h ⊢
  rw [calculator.evaluate_bare, calculator.evaluate_at time before, ← h]

theorem Tended.recompose (h : e.Tended writes (a :: todo)) :
    (e.recompose a).Tended writes todo := by
  rw [Engine.recompose]
  split
  case isFalse hcond =>
    exact h.done fun hwatched => absurd (List.contains_iff_mem.mpr hwatched) hcond
  case isTrue =>
    split
    case h_1 view hbuild =>
      have htold : Tended writes (a :: todo) { e with
          notifier := (e.notifier.publish a (e.calculator.evaluate e.clock view)).2
          clock := e.clock + 1
          scheduler := { e.scheduler with pending := e.scheduler.pending.erase a } } :=
        h.tell (Notifier.isOpen_offer _) _ fun b hb => List.mem_erase_of_ne hb
      obtain ⟨htended, hdependencies, _, _, _, _, _, heq⟩ :=
        htold.setDependencies List.mem_cons_self view.dependencies.eraseDups
      have hbuilt : Lookup.build e.lookup e.tolerance a = .ok view := hbuild
      refine htended.done fun _ hopen => .current ⟨fun r hr => ?_, fun other hother => ?_, ?_⟩
      · rw [hdependencies, List.mem_eraseDups]
        rw [heq] at hr
        exact Lookup.mem_dependencies_of_build hbuilt hr
      · rw [heq] at hopen hother ⊢
        cases hbuilt.symm.trans hother
        have hwatched : e.notifier.isWatched a = true :=
          (e.notifier.isWatched_alter a _ a).symm.trans hopen
        refine ⟨_, Notifier.latest?_publish h.proper hwatched _, fun time => ?_⟩
        exact agrees_bare (Notifier.agrees_retained _ _) time
      · intro error herror
        rw [heq] at herror
        cases hbuilt.symm.trans herror
    case h_2 error hbuild =>
      have htold : Tended writes (a :: todo) { e with
          notifier := e.notifier.withdraw a
          scheduler := { e.scheduler with pending := e.scheduler.pending.insert a } } :=
        h.tell (f := Latest.clear) (fun _ => rfl) e.clock fun b hb =>
          List.mem_insert_iff.trans (or_iff_right hb)
      obtain ⟨htended, hdependencies, _, _, _, _, _, heq⟩ :=
        htold.setDependencies List.mem_cons_self
          (e.requirementAddresses a ++ e.scheduler.dependenciesOf a).eraseDups
      have hbuilt : Lookup.build e.lookup e.tolerance a = .error error := hbuild
      refine htended.done fun _ _ => .current ⟨fun r hr => ?_, fun view hview => ?_, fun _ _ => ?_⟩
      · rw [hdependencies, List.mem_eraseDups]
        rw [heq] at hr
        refine List.mem_append_left _ (List.mem_eraseDups.mpr ?_)
        exact List.mem_map.mpr ⟨r, hr, rfl⟩
      · rw [heq] at hview
        cases hbuilt.symm.trans hview
      · rw [heq]
        exact ⟨Notifier.latest?_withdraw h.proper a, List.mem_insert_self⟩

theorem Tended.flushStep (h : e.Tended writes []) (hs : e.flushStep? = some e') :
    e'.Tended writes [] := by
  have hfold : ∀ (accounts : List Address) (e : Engine), e.Tended writes accounts →
      (accounts.foldl Engine.recompose e).Tended writes [] := by
    intro accounts
    induction accounts with
    | nil => exact fun _ h => h
    | cons a rest ih => exact fun _ h => ih _ h.recompose
  simp only [flushStep?, Option.bind_eq_bind, Option.bind_eq_some_iff] at hs
  obtain ⟨time, _, hs⟩ := hs
  split at hs
  · cases hs
    refine hfold _ _ ⟨h.link, h.full, h.position_le, h.proper, h.books.congr rfl rfl rfl rfl,
      h.nodup, fun hdirty => absurd rfl hdirty, h.released, h.asked, fun b hb hopen => ?_⟩
    by_cases hdirty : b ∈ e.scheduler.dirty
    · exact .inl ((e.scheduler.arrangement.mem_order none).mpr hdirty)
    · exact .inr ((h.accounts hb hopen).congr
        ⟨rfl, fun _ => id, rfl, rfl, .rfl, rfl, rfl, rfl⟩ (fun hasked => .asked hasked)
        fun h => absurd h hdirty)
  · cases hs

theorem Tended.expireIdle (h : e.Tended writes []) : e.expireIdle.Tended writes [] := by
  rw [Engine.expireIdle]
  dsimp only
  generalize (e.scheduler.arrangement.order none _) = expired
  induction expired generalizing e with
  | nil => exact h
  | cons x rest ih =>
    refine ih ?_
    have hforgotten : Tended writes [] (e.updateScheduler fun s =>
        { s with idle := s.idle.erase x }) :=
      h.congr h.link rfl (fun _ => id) ⟨_, _, _, _, rfl⟩ (fun _ _ => rfl) rfl rfl rfl
        (h.books.congr rfl rfl rfl rfl)
    simp only
    split
    · exact hforgotten
    case isFalse hkept =>
      have hfree : ∀ b, ¬ x ∈ e.scheduler.dependenciesOf b := by
        intro b hb
        have hdependent := (h.books.dependents b x).mpr hb
        have hnone : e.scheduler.dependents.find? x = none := by
          refine Option.not_isSome_iff_eq_none.mp fun hsome => hkept ?_
          exact (Bool.or_eq_true _ _).mpr (.inl hsome)
        rw [Scheduler.dependentsOf, hnone] at hdependent
        cases hdependent
      exact hforgotten.rebooked (rebooked_untrack _ x) (fun _ _ => rfl)
        (hforgotten.books.untrack hfree)

theorem Tended.idleStep (h : e.Tended writes []) (hs : e.idleStep? = some e') :
    e'.Tended writes [] := by
  simp only [idleStep?, Option.bind_eq_bind, Option.bind_eq_some_iff] at hs
  obtain ⟨time, _, hs⟩ := hs
  split at hs
  · cases hs
    exact h.expireIdle
  · cases hs

theorem commands_eq_nil (h : e.watchStep? = none) : e.scheduler.commands = [] := by
  rw [watchStep?] at h
  split at h
  · assumption
  · cases h

theorem Tended.schedulerStep (h : e.Tended writes []) (hs : e.schedulerStep? = some e') :
    e'.Tended writes [] := by
  simp only [schedulerStep?, Option.or_eq_some_iff] at hs
  rcases hs with hwatch | ⟨hnone, hrelease | ⟨_, hevent | ⟨_, hflush | ⟨_, hidle⟩⟩⟩⟩
  · exact h.watchStep hwatch
  · exact h.releaseStep (commands_eq_nil hnone) hrelease
  · exact h.eventStep hevent
  · exact h.flushStep hflush
  · exact h.idleStep hidle

end Solvency.Engine
