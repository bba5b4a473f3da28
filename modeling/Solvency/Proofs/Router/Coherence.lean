import Mathlib.Order.MinMax
import Solvency.Proofs.Router.Settled
import Solvency.Proofs.View.Build

/-! Observed slots against the history of the ledger. Within the slots that an observation
vouches for, the ledger wrote nothing that the observation lacks. -/

namespace Solvency

namespace Ledger

def WrittenOnce (writes : List RawAccount) : Prop :=
  writes.Pairwise fun w earlier => w.address = earlier.address → w.slot ≠ earlier.slot

variable {l : Ledger} {writes : List RawAccount}

theorem Records.lastWrite?_eq (h : l.Records writes) (honce : WrittenOnce writes) {w : RawAccount}
    (hw : w ∈ writes) {slot : Slot} (hslot : w.slot ≤ slot)
    (hgap : ∀ other ∈ writes, other.address = w.address → other.slot ≤ slot →
      other.slot ≤ w.slot) : lastWrite? writes w.address slot = some w := by
  cases hlast : lastWrite? writes w.address slot with
  | none =>
    have hnot := List.find?_eq_none.mp hlast w hw
    simp [hslot] at hnot
  | some found =>
    obtain ⟨hfound, later, earlier, hwrites, hlater⟩ := List.find?_eq_some_iff_append.mp hlast
    obtain ⟨haddress, hle⟩ := of_decide_eq_true hfound
    subst hwrites
    rcases List.mem_append.mp hw with hw' | hw'
    · have hnot := hlater w hw'
      simp [hslot] at hnot
    · rcases List.mem_cons.mp hw' with rfl | hearlier
      · rfl
      · have hsorted := (List.pairwise_append.mp h.sorted).2.1
        have hne := List.rel_of_pairwise_cons (List.pairwise_append.mp honce).2.1 hearlier haddress
        have hle' := List.rel_of_pairwise_cons hsorted hearlier
        exact absurd (Nat.le_antisymm (hgap found (by simp) haddress hle) hle') hne

end Ledger

namespace Link

variable {s : Link} {writes : List RawAccount}

/-- A fresh entry is of a write to its address, and none came after it up to the slot that it
was observed at. -/
theorem Wired.observed (h : s.Wired writes) {a : Address} {v : Versioned}
    (hget : s.registry.get? a = some v) :
    (∃ w ∈ writes, w.address = a ∧ w.slot = v.slot ∧ w.slot ≤ v.observedSlot ∧
      w.read = .ok v.entity) ∧
    ∀ w ∈ writes, w.address = a → w.slot ≤ v.observedSlot → w.slot ≤ v.slot := by
  simp only [Registry.get?, Option.bind_eq_bind, Option.bind_eq_some_iff] at hget
  obtain ⟨entry, hentry, hget⟩ := hget
  split at hget
  case isFalse => cases hget
  case isTrue hfresh =>
    cases hget
    obtain ⟨_, w, hw, haddress, hslot, hread⟩ := h.stores a entry hentry
    have hepoch : entry.epoch = s.registry.epoch := by simpa [Registry.isFresh] using hfresh
    cases hid : s.router.streams.find? a with
    | none => exact absurd hepoch ((h.follows a).idle hid entry hentry)
    | some id =>
      have hlive : a ∈ s.registry.live := (h.follows a).live.mpr (by rw [hid]; rfl)
      obtain ⟨inbox, _, hcompletes⟩ := (h.follows a).held id hid
      have hobserved : s.registry.observedSlot a entry =
          max entry.slot s.registry.confirmedSlot := by
        simp [Registry.observedSlot, hfresh, hlive]
      simp only [Registry.versioned, hobserved]
      refine ⟨⟨w, hw, haddress, hslot, hslot ▸ Nat.le_max_left _ _, hread⟩, ?_⟩
      intro other hother hsame hle
      rcases hcompletes.seen other hother hsame with ⟨stored, hstored, hseen⟩ | ⟨hconfirmed, _⟩
      · cases hentry.symm.trans hstored
        exact hseen
      · rcases le_max_iff.mp hle with hle | hle
        · exact hle
        · exact absurd hle (Nat.not_le.mpr hconfirmed)

theorem Wired.last (h : s.Wired writes) (honce : Ledger.WrittenOnce writes) {a : Address}
    {v : Versioned} (hget : s.registry.get? a = some v) :
    ∃ w, Ledger.lastWrite? writes a v.observedSlot = some w ∧ w.slot = v.slot ∧
      w.read = .ok v.entity := by
  obtain ⟨⟨w, hw, rfl, hslot, hle, hread⟩, hgap⟩ := h.observed hget
  refine ⟨w, h.ledger.lastWrite?_eq honce hw hle ?_, hslot, hread⟩
  rw [hslot]
  exact hgap

/-- Whatever happens between a ledger and its router: what a reader gets for an address is
the last write to it up to the slot it was observed at, nothing was written after that write up
to there, and a view of one slot is the ledger at that slot. -/
theorem observed_slots_coherent (hs : s.Reaches writes) (hreads : Readable writes)
    (honce : Ledger.WrittenOnce writes) :
    (∀ a v, s.registry.get? a = some v →
      (∃ w, Ledger.lastWrite? writes a v.observedSlot = some w ∧ w.slot = v.slot ∧
        w.read = .ok v.entity) ∧
      ∀ w ∈ writes, w.address = a → ¬ (v.slot < w.slot ∧ w.slot ≤ v.observedSlot)) ∧
    ∀ a view, Lookup.build s.registry.get? 0 a = .ok view →
      view.slots.min = view.slots.max ∧
      ∀ seen ∈ view.components, ∃ w, Ledger.lastWrite? writes seen.address view.slots.min = some w ∧
        w.read = .ok seen.value := by
  have h := (Settled.of_reaches hs hreads).toWired
  refine ⟨fun a v hget => ⟨h.last honce hget, ?_⟩, fun a view hbuild => ?_⟩
  · rintro w hw ha ⟨hlater, hle⟩
    exact Nat.not_le.mpr hlater ((h.observed hget).2 w hw ha hle)
  · obtain ⟨hspread, hseen⟩ := Lookup.sees_of_build hbuild
    have hwhole : view.slots.max ≤ view.slots.min :=
      Nat.sub_eq_zero_iff_le.mp (Nat.le_zero.mp hspread)
    have hcovers := (hseen (view.account.map .marginAccount) (by simp [View.components])).2
    refine ⟨Nat.le_antisymm (Nat.le_trans hcovers.1 hcovers.2) hwhole, fun seen hcomponent => ?_⟩
    obtain ⟨⟨v, hget, hentity, hslot⟩, hcovered⟩ := hseen seen hcomponent
    obtain ⟨w, hlast, _, hread⟩ := h.last honce hget
    rw [hslot, hcovered.eq_min hspread] at hlast
    exact ⟨w, hlast, hentity ▸ hread⟩

/-- A margin account without positions, and its group. -/
def pairAccount : Entity := .marginAccount { (default : MarginAccount) with group := ⟨2⟩ }

def pairGroup : Entity := .group default

def pairWrites : List RawAccount := [.ofEntity ⟨1⟩ 1 pairAccount, .ofEntity ⟨2⟩ 1 pairGroup]

def pairLedger : Ledger :=
  (({} : Ledger).perform (.setAccount ⟨2⟩ pairGroup)).perform (.setAccount ⟨1⟩ pairAccount)

theorem reaches_pairLedger : pairLedger.Reaches true pairWrites :=
  ((@Ledger.Reaches.start true).perform (.setAccount ⟨2⟩ pairGroup)).perform
    (.setAccount ⟨1⟩ pairAccount)

theorem canonical_pairAccount : pairAccount.Canonical := ⟨.inl rfl, .nil, nofun⟩

theorem canonical_pairGroup : pairGroup.Canonical := ⟨rfl, by decide⟩

theorem readable_pairWrites : Readable pairWrites := by
  intro w hw
  rcases List.mem_pair.mp hw with rfl | rfl
  · exact ⟨_, RawAccount.read_ofEntity canonical_pairAccount _ _⟩
  · exact ⟨_, RawAccount.read_ofEntity canonical_pairGroup _ _⟩

theorem observed_slots_coherent_pair :
    Readable pairWrites ∧ Ledger.WrittenOnce pairWrites ∧ ∃ s : Link, s.Reaches pairWrites ∧
      ∃ view, Lookup.build s.registry.get? 0 ⟨1⟩ = .ok view ∧
        ∀ seen ∈ view.components, ∃ w,
          Ledger.lastWrite? pairWrites seen.address view.slots.min = some w ∧
            w.read = .ok seen.value := by
  have honce : Ledger.WrittenOnce pairWrites := by
    simp [pairWrites, Ledger.WrittenOnce, RawAccount.ofEntity]
  have hstart := Reaches.start reaches_pairLedger {} 1 0
  have hfirst := hstart.track rfl rfl ⟨1⟩
  obtain ⟨tally, htrack⟩ := (Settled.of_reaches hstart readable_pairWrites).track_new (a := ⟨1⟩)
    rfl rfl rfl rfl (RawAccount.read_ofEntity canonical_pairAccount _ _)
  rw [htrack] at hfirst
  have hs := hfirst.track rfl rfl ⟨2⟩
  obtain ⟨tally', htrack'⟩ := (Settled.of_reaches hfirst readable_pairWrites).track_new (a := ⟨2⟩)
    rfl rfl rfl rfl (RawAccount.read_ofEntity canonical_pairGroup _ _)
  rw [htrack'] at hs
  refine ⟨readable_pairWrites, honce, _, hs, ?_⟩
  suffices hbuild : ∃ view, Lookup.build (Registry.get? _) 0 ⟨1⟩ = .ok view by
    obtain ⟨view, hview⟩ := hbuild
    exact ⟨view, hview, ((observed_slots_coherent hs readable_pairWrites honce).2 ⟨1⟩ view hview).2⟩
  dsimp only [opened]
  exact exists_of_isOk (by decide +kernel)

end Link

end Solvency
