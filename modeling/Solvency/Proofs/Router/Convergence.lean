import Solvency.Proofs.Router.Coherence
import Solvency.Proofs.Router.Manned

/-! A router that has read everything holds, for each address, the slot of the record on the
ledger. Slots alone tell records apart, so of several writes within one slot any may be held. -/

namespace Solvency.Link

variable {s : Link} {writes : List RawAccount} {a : Address}

/-- With nothing left to read, no write to the address is newer than what is stored. -/
theorem Wired.caught_up (h : s.Wired writes) (hdrained : s.Drained) {id : Nat}
    (hid : s.router.streams.find? a = some id) {w : RawAccount} (hw : w ∈ writes)
    (ha : w.address = a) :
    ∃ entry, s.registry.entries.find? a = some entry ∧ s.registry.isFresh entry = true ∧
      w.slot ≤ entry.slot := by
  obtain ⟨inbox, hfeed, hcompletes⟩ := (h.follows a).held id hid
  have hempty : inbox.queue = [] := hdrained.queue hid hfeed
  obtain ⟨entry, hentry, hle⟩ := hcompletes.seen_of_read hempty hw ha
  have hepoch := hcompletes.fresh entry hentry
  exact ⟨entry, hentry, by simp [Registry.isFresh, hepoch], hle⟩

/-- Connected and with nothing left to read: what is looked up for a tracked address was written
in the slot of the ledger's own record, and is that record unless the slot saw another. -/
theorem connected_holds_newest_slot (hs : s.Reaches writes) (hreads : Readable writes)
    (hstate : s.router.state = .connected) (hdrained : s.Drained)
    (ha : a ∈ s.router.tracked) {raw : RawAccount}
    (hraw : s.transport.ledger.accounts.find? a = some raw) :
    ∃ v, s.registry.get? a = some v ∧ v.slot = raw.slot ∧
      (∃ w ∈ writes, w.address = a ∧ w.slot = raw.slot ∧ w.read = .ok v.entity) ∧
      ((∀ w ∈ writes, w.address = a → w.slot = raw.slot → w.read = raw.read) →
        raw.read = .ok v.entity) := by
  have hwired : s.Wired writes := (Settled.of_reaches hs hreads).toWired
  have hmanned : s.Manned := Manned.of_reaches hs
  obtain ⟨id, hid⟩ := Option.isSome_iff_exists.mp (hmanned.complete hstate a ha)
  rw [hwired.ledger.accounts] at hraw
  obtain ⟨hmem, haddress, hnewest⟩ := hwired.ledger.newest hraw
  obtain ⟨entry, hentry, hfresh, hle⟩ := hwired.caught_up hdrained hid hmem haddress
  obtain ⟨_, w, hw, hwa, hslot, hread⟩ := hwired.stores a entry hentry
  have hge : w.slot ≤ raw.slot := hnewest w hw hwa
  have heq : entry.slot = raw.slot := Nat.le_antisymm (hslot ▸ hge) hle
  have hget : s.registry.get? a = some (s.registry.versioned a entry) := by
    simp [Registry.get?, hentry, hfresh]
  refine ⟨_, hget, heq, ⟨w, hw, hwa, hslot.trans heq, hread⟩, fun hsame => ?_⟩
  rw [← hsame w hw hwa (hslot.trans heq)]
  exact hread

/-- The account of the pair, moved to another group. -/
def movedAccount : Entity := .marginAccount { (default : MarginAccount) with group := ⟨3⟩ }

theorem canonical_movedAccount : movedAccount.Canonical := ⟨.inl rfl, .nil, nofun⟩

def movedWrites : List RawAccount := .ofEntity ⟨1⟩ 1 movedAccount :: pairWrites

theorem readable_movedWrites : Readable movedWrites := by
  intro w hw
  rcases List.mem_cons.mp hw with rfl | hw
  · exact ⟨_, RawAccount.read_ofEntity canonical_movedAccount _ _⟩
  · exact readable_pairWrites w hw

/-- A router that follows the account of the pair. -/
def followed : Link := ((start { ledger := pairLedger } {} 1 0).track ⟨1⟩).2

theorem reaches_followed : followed.Reaches pairWrites :=
  (Reaches.start reaches_pairLedger {} 1 0).track rfl rfl ⟨1⟩

theorem connected_holds_newest_slot_followed :
    Readable pairWrites ∧ followed.router.state = .connected ∧ followed.Drained ∧
      ⟨1⟩ ∈ followed.router.tracked ∧
      followed.transport.ledger.accounts.find? ⟨1⟩ = some (.ofEntity ⟨1⟩ 1 pairAccount) ∧
      ∃ v, followed.registry.get? ⟨1⟩ = some v ∧ v.slot = 1 ∧ v.entity = pairAccount := by
  have hrun : followed.router.state = .connected ∧ followed.Drained ∧
      ⟨1⟩ ∈ followed.router.tracked := by
    unfold Drained
    decide +kernel
  have hledger : followed.transport.ledger.accounts.find? ⟨1⟩ =
      some (.ofEntity ⟨1⟩ 1 pairAccount) := by
    rw [(Settled.of_reaches reaches_followed readable_pairWrites).ledger.accounts]
    simp [pairWrites, RawAccount.ofEntity]
  obtain ⟨v, hget, hslot, _, hsame⟩ := connected_holds_newest_slot reaches_followed
    readable_pairWrites hrun.1 hrun.2.1 hrun.2.2 hledger
  have honly : ∀ w ∈ pairWrites, w.address = ⟨1⟩ → w.slot = 1 →
      w.read = (RawAccount.ofEntity ⟨1⟩ 1 pairAccount).read := by
    intro w hw ha _
    rcases List.mem_pair.mp hw with rfl | rfl
    · rfl
    · cases ha
  have hread := hsame honly
  rw [RawAccount.read_ofEntity canonical_pairAccount] at hread
  have hentity : v.entity = pairAccount := (Except.ok.inj hread).symm
  exact ⟨readable_pairWrites, hrun.1, hrun.2.1, hrun.2.2, hledger, v, hget, hslot, hentity⟩

/-- The account moves within the slot that it was read at. -/
def moved : Link := followed.performLedger (.setAccount ⟨1⟩ movedAccount)

def reread : Link := (moved.accountStep? 1).getD moved

/-- Two records of one slot are the same to the registry, so it keeps the first. -/
theorem connected_holds_other_entity_reread :
    reread.Reaches movedWrites ∧ Readable movedWrites ∧ reread.router.state = .connected ∧
      reread.Drained ∧ ⟨1⟩ ∈ reread.router.tracked ∧
      (reread.transport.ledger.accounts.find? ⟨1⟩).map (·.read.toOption) =
        some (some movedAccount) ∧
      (reread.registry.get? ⟨1⟩).map (·.entity) = some pairAccount ∧
      pairAccount ≠ movedAccount := by
  have hrun : (followed.transport.ledger.slot = 1 ∧ moved.router.commands = [] ∧
      1 ∈ moved.router.streams.values ∧ (moved.accountStep? 1).isSome) ∧
      reread.router.state = .connected ∧ reread.Drained ∧ ⟨1⟩ ∈ reread.router.tracked ∧
      (reread.transport.ledger.accounts.find? ⟨1⟩).map (·.read.toOption) =
        some (some movedAccount) ∧
      (reread.registry.get? ⟨1⟩).map (·.entity) = some pairAccount ∧
      pairAccount ≠ movedAccount := by
    unfold Drained
    decide +kernel
  obtain ⟨⟨hslot, hfree, hid, hread⟩, hend⟩ := hrun
  have hmoved := reaches_followed.step (.ledger (.setAccount ⟨1⟩ movedAccount))
  simp only [Ledger.written, Ledger.Op.setAccount, hslot] at hmoved
  have hstep : moved.accountStep? 1 = some reread := by
    obtain ⟨s, hs⟩ := Option.isSome_iff_exists.mp hread
    rw [reread, hs, Option.getD_some]
  exact ⟨hmoved.step (.account hfree hid hstep), readable_movedWrites, hend⟩

end Solvency.Link
