import Mathlib.Data.List.Nodup
import Solvency.Proofs.Notifier

/-! Who is watched, told twice: by the open streams of a notifier and by the list of a scheduler.
Where the two differ, a request to watch or a release is still to be read. -/

namespace Solvency

/-- The watched accounts and the requests to watch of a scheduler, beside its notifier. -/
structure Enlisted (watched commands : List Address) (n : Notifier) : Prop where
  proper : n.Proper
  nodup : watched.Nodup
  released : ∀ a, a ∈ watched ∨ a ∈ commands → n.isWatched a = true ∨ a ∈ n.released
  asked : ∀ a, n.isWatched a = true → a ∈ watched ∨ a ∈ commands

namespace Enlisted

variable {watched commands rest : List Address} {n n' : Notifier} {a : Address}

theorem empty : Enlisted [] [] {} := ⟨Notifier.proper_empty, .nil, nofun, nofun⟩

theorem subscribe (h : Enlisted watched commands n) (a : Address) :
    Enlisted watched (commands ++ [a]) (n.subscribe a).2 where
  proper := h.proper.subscribe a
  nodup := h.nodup
  released b hb := by
    have hsame : (n.subscribe a).2.released = n.released := n.released_channelOf a
    rw [Notifier.isWatched_subscribe h.proper, hsame]
    have hknown : b = a ∨ b ∈ watched ∨ b ∈ commands := by
      rcases hb with hb | hb
      · exact .inr (.inl hb)
      · rcases List.mem_append.mp hb with hb | hb
        · exact .inr (.inr hb)
        · exact .inl (List.mem_singleton.mp hb)
    rcases hknown with hb | hb
    · exact .inl (.inl hb)
    · exact (h.released b hb).imp_left .inr
  asked b hb := by
    rcases (Notifier.isWatched_subscribe h.proper).mp hb with rfl | hb
    · exact .inr (List.mem_append_right _ (List.mem_singleton_self _))
    · exact (h.asked b hb).imp_right (List.mem_append_left _)

theorem renotify (h : Enlisted watched commands n) (hkeeps : n.Keeps n') :
    Enlisted watched commands n' where
  proper := hkeeps.proper
  nodup := h.nodup
  released b hb := by
    rcases h.released b hb with hopen | hreleased
    · exact hkeeps.closed b hopen
    · exact .inr (hkeeps.released hreleased)
  asked b hb := h.asked b (hkeeps.watched b hb).1

/-- What a channel holds is nobody's concern here. -/
theorem alter (h : Enlisted watched commands n) (a : Address)
    {f : Latest Snapshot → Latest Snapshot} (hopen : ∀ held, (f held).isOpen = held.isOpen) :
    Enlisted watched commands (n.alter a f) where
  proper := h.proper.alter a hopen
  nodup := h.nodup
  released b hb := by
    rw [n.isWatched_alter, n.released_alter]
    exact h.released b hb
  asked b hb := h.asked b (n.isWatched_alter a f b ▸ hb)

/-- The first request is met. -/
theorem meet (h : Enlisted watched (a :: rest) n) : Enlisted (watched.insert a) rest n where
  proper := h.proper
  nodup := h.nodup.insert
  released b hb := by
    apply h.released b
    rcases hb with hb | hb
    · rcases List.mem_insert_iff.mp hb with rfl | hb
      · exact .inr List.mem_cons_self
      · exact .inl hb
    · exact .inr (List.mem_cons_of_mem _ hb)
  asked b hb := by
    rcases h.asked b hb with hb | hb
    · exact .inl (List.mem_insert_of_mem hb)
    · rcases List.mem_cons.mp hb with rfl | hb
      · exact .inl List.mem_insert_self
      · exact .inr hb

/-- An account that was released is no longer watched. -/
theorem dismiss (h : Enlisted watched [] n) (hreleased : n.released = a :: rest)
    (hclosed : n.isWatched a = false) :
    Enlisted (watched.erase a) [] { n with released := rest } where
  proper := h.proper.withReleased rest
  nodup := h.nodup.erase a
  released b hb := by
    obtain ⟨hne, hb⟩ := h.nodup.mem_erase_iff.mp (hb.resolve_right List.not_mem_nil)
    refine (h.released b (.inl hb)).imp_right fun hfree => ?_
    rw [hreleased] at hfree
    exact (List.mem_cons.mp hfree).resolve_left hne
  asked b hb := by
    refine (h.asked b hb).imp_left fun hwatched => h.nodup.mem_erase_iff.mpr ⟨?_, hwatched⟩
    rintro rfl
    cases hclosed.symm.trans hb

/-- A release is void when the account has a new watcher, or is not watched anyway. -/
theorem overtake (h : Enlisted watched [] n) (hreleased : n.released = a :: rest)
    (hvoid : n.isWatched a = true ∨ a ∉ watched) :
    Enlisted watched [] { n with released := rest } where
  proper := h.proper.withReleased rest
  nodup := h.nodup
  released b hb := by
    have hb := hb.resolve_right List.not_mem_nil
    rcases h.released b (.inl hb) with hopen | hfree
    · exact .inl hopen
    · rw [hreleased] at hfree
      rcases List.mem_cons.mp hfree with rfl | hfree
      · exact .inl (hvoid.resolve_right (not_not_intro hb))
      · exact .inr hfree
  asked := h.asked

/-- What is not dismissed has a new watcher, or is not watched anyway. -/
theorem void_of_kept (hkept : ¬ (!n.isWatched a && watched.contains a) = true) :
    n.isWatched a = true ∨ a ∉ watched := by
  by_cases hopen : n.isWatched a = true
  · exact .inl hopen
  · refine .inr fun hwatched => hkept (Bool.and_eq_true_iff.mpr ⟨?_, ?_⟩)
    · exact (Bool.not_eq_true' _).mpr (Bool.eq_false_iff.mpr hopen)
    · exact List.contains_iff_mem.mpr hwatched

/-- With nothing left to read, the two agree. -/
theorem mem_iff (h : Enlisted watched [] n) (hreleased : n.released = []) :
    a ∈ watched ↔ n.isWatched a = true := by
  constructor
  · intro ha
    refine (h.released a (.inl ha)).resolve_right fun hfree => ?_
    rw [hreleased] at hfree
    cases hfree
  · exact fun ha => (h.asked a ha).resolve_right List.not_mem_nil

end Enlisted

end Solvency
