import Solvency.Proofs.Account.Decoding
import Solvency.Proofs.Router.Wired

/-! Records on their way into the registry. It takes those that are decoded as if no others had
come, and every record raises one of five counters. -/

namespace Solvency

namespace RawAccount

/-- What a record gives the registry to store, if it is decoded. -/
def observation? (raw : RawAccount) : Option (Address × Entity × Slot) :=
  raw.read.toOption.map fun entity => (raw.address, entity, raw.slot)

def isUnsupported (raw : RawAccount) : Bool := (AccountKind.ofTag? raw.tag).isNone

/-- Of a supported kind, but not decoded. -/
def isMalformed (raw : RawAccount) : Bool := !raw.isUnsupported && raw.observation?.isNone

end RawAccount

inductive Tally.Counter where
  | applied
  | revalidated
  | stale
  | malformed
  | unknown
deriving DecidableEq

def PutOutcome.counter : PutOutcome → Tally.Counter
  | applied _ => .applied
  | revalidated => .revalidated
  | stale _ => .stale

def RouteOutcome.counter : RouteOutcome → Tally.Counter
  | stored outcome => outcome.counter
  | dropped (.unknownTag _) => .unknown
  | dropped _ => .malformed

namespace Tally

def raise (t : Tally) : Counter → Tally
  | .applied => { t with applied := t.applied + 1 }
  | .revalidated => { t with revalidated := t.revalidated + 1 }
  | .stale => { t with stale := t.stale + 1 }
  | .malformed => { t with malformed := t.malformed + 1 }
  | .unknown => { t with unknown := t.unknown + 1 }

def records (t : Tally) : Nat :=
  t.applied + t.revalidated + t.stale + t.malformed + t.unknown

def counted (t : Tally) : Counter → Nat
  | .applied => t.applied
  | .revalidated => t.revalidated
  | .stale => t.stale
  | .malformed => t.malformed
  | .unknown => t.unknown

/-- What a counter of 64 bits shows, which starts over after its last number. -/
def shown (t : Tally) (c : Counter) : UInt64 := .ofNat (t.counted c)

/-- The tally after the records, of which the registry put those with an outcome. -/
def after (t : Tally) (raws : List RawAccount) (outcomes : List PutOutcome) : Tally :=
  { t with
    applied := t.applied + outcomes.countP (·.counter = .applied)
    revalidated := t.revalidated + outcomes.countP (·.counter = .revalidated)
    stale := t.stale + outcomes.countP (·.counter = .stale)
    malformed := t.malformed + raws.countP RawAccount.isMalformed
    unknown := t.unknown + raws.countP RawAccount.isUnsupported }

end Tally

def Registry.putAll (r : Registry) :
    List (Address × Entity × Slot) → List PutOutcome × Registry
  | [] => ([], r)
  | (address, entity, slot) :: rest =>
    let (outcome, r) := r.put address entity slot
    let (outcomes, r) := r.putAll rest
    (outcome :: outcomes, r)

variable {raw : RawAccount} {raws : List RawAccount} {entity : Entity} {error : LayoutError}

namespace RawAccount

theorem observation?_of_read (h : raw.read = .ok entity) :
    raw.observation? = some (raw.address, entity, raw.slot) := by
  simp [observation?, h, Except.toOption]

theorem observation?_of_read_error (h : raw.read = .error error) : raw.observation? = none := by
  simp [observation?, h, Except.toOption]

theorem not_isUnsupported_of_read (h : raw.read = .ok entity) : raw.isUnsupported = false := by
  obtain ⟨kind, htag, _⟩ := Entity.decode_ok_iff.mp ⟨entity, h⟩
  simp [isUnsupported, ← htag, AccountKind.ofTag?_tag]

theorem kind?_of_read_error (h : raw.read = .error error) :
    error.kind? = AccountKind.ofTag? raw.tag := by
  rw [read] at h
  cases htag : AccountKind.ofTag? raw.tag with
  | none =>
    have hunknown : Entity.decode raw.tag raw.data = .error (.unknownTag raw.tag) :=
      Entity.decode_unknownTag_iff.mpr (Entity.ofTag?_eq_none_iff.mp htag)
    rw [h] at hunknown
    exact congrArg LayoutError.kind? (Except.error.inj hunknown)
  | some kind =>
    rw [← Entity.tag_of_ofTag? htag] at h
    by_cases hdata : raw.data.length = kind.size ∧ Grammar kind raw.data
    · obtain ⟨entity, hread⟩ := Entity.decode_ok_iff.mpr ⟨kind, rfl, hdata⟩
      rw [h] at hread
      cases hread
    · obtain ⟨error', herror', hkind⟩ := Entity.decode_refused_iff.mp hdata
      rw [h] at herror'
      exact (Except.error.inj herror').symm ▸ hkind

end RawAccount

namespace Tally

variable {t : Tally} {outcome : PutOutcome} {outcomes : List PutOutcome}

theorem count_eq_raise (t : Tally) (outcome : RouteOutcome) :
    t.count outcome = t.raise outcome.counter := by
  rcases outcome with (_ | _ | _) | (_ | _ | _) <;> rfl

theorem records_raise (t : Tally) (c : Counter) : (t.raise c).records = t.records + 1 := by
  cases c <;> simp only [raise, records] <;> omega

theorem shown_raise (t : Tally) (c c' : Counter) :
    (t.raise c).shown c' = if c' = c then t.shown c' + 1 else t.shown c' := by
  cases c <;> cases c' <;> simp [shown, raise, counted, UInt64.ofNat_add]

theorem counted_le_records (t : Tally) (c : Counter) : t.counted c ≤ t.records := by
  cases c <;> simp only [counted, records] <;> omega

theorem raise_injective (t : Tally) : Function.Injective t.raise := by
  intro c c' h
  cases c <;> cases c' <;> simp_all [raise]

theorem count_after_of_read (h : raw.read = .ok entity) :
    (t.count (.stored outcome)).after raws outcomes =
      t.after (raw :: raws) (outcome :: outcomes) := by
  have hsupported := RawAccount.not_isUnsupported_of_read h
  have hmalformed : raw.isMalformed = false := by
    simp [RawAccount.isMalformed, RawAccount.observation?_of_read h]
  cases outcome <;>
    simp [after, count, PutOutcome.counter, hsupported, hmalformed, Nat.add_assoc, Nat.add_comm 1]

theorem count_after_of_read_error (h : raw.read = .error error) :
    (t.count (.dropped error)).after raws outcomes = t.after (raw :: raws) outcomes := by
  have hkind := RawAccount.kind?_of_read_error h
  have hnone := RawAccount.observation?_of_read_error h
  cases error <;>
    simp [after, count, RawAccount.isMalformed, RawAccount.isUnsupported, ← hkind, hnone,
      LayoutError.kind?, Nat.add_assoc, Nat.add_comm 1]

end Tally

namespace Link

variable {s : Link}

theorem ingest_of_read_error (h : raw.read = .error error) :
    s.ingest raw = { s with
      router := { s.router with tally := s.router.tally.count (.dropped error) } } := by
  have hdecode : Entity.decode raw.tag raw.data = .error error := h
  simp only [ingest, Registry.ingest, hdecode]

theorem tally_ingest (s : Link) (raw : RawAccount) : (s.ingest raw).router.tally =
    s.router.tally.raise (s.registry.ingest raw).1.counter :=
  s.router.tally.count_eq_raise _

theorem foldl_ingest (s : Link) (raws : List RawAccount) :
    let put := s.registry.putAll (raws.filterMap RawAccount.observation?)
    raws.foldl ingest s = { s with
      registry := put.2
      router := { s.router with tally := s.router.tally.after raws put.1 } } := by
  induction raws generalizing s with
  | nil => rfl
  | cons raw raws ih =>
    have hrest := ih (s.ingest raw)
    dsimp only at hrest ⊢
    rw [List.foldl_cons, hrest]
    -- a dropped record is missing on both sides, a decoded one is the first that is put
    cases hread : raw.read with
    | error error =>
      have hdropped := RawAccount.observation?_of_read_error hread
      rw [ingest_of_read_error hread, List.filterMap_cons_none hdropped,
        Tally.count_after_of_read_error hread]
    | ok entity =>
      have hput := RawAccount.observation?_of_read hread
      rw [ingest_of_read hread, List.filterMap_cons_some hput, Tally.count_after_of_read hread]
      rfl

theorem records_foldl_ingest (s : Link) (raws : List RawAccount) :
    (raws.foldl ingest s).router.tally.records = s.router.tally.records + raws.length := by
  induction raws generalizing s with
  | nil => rfl
  | cons raw raws ih =>
    rw [List.foldl_cons, ih, tally_ingest, Tally.records_raise, List.length_cons]
    omega

/-- Counters of 64 bits show no less, as long as fewer records have come than they can count. -/
theorem toNat_shown_foldl_ingest (h : s.router.tally.records + raws.length < 2 ^ 64)
    (c : Tally.Counter) : ((raws.foldl ingest s).router.tally.shown c).toNat =
      (raws.foldl ingest s).router.tally.counted c := by
  have hle := (raws.foldl ingest s).router.tally.counted_le_records c
  rw [records_foldl_ingest] at hle
  exact UInt64.toNat_ofNat_of_lt' (Nat.lt_of_le_of_lt hle h)

/-- Records leave the registry, with its events and its channels, as the decodable ones alone
would. Each raises one counter by one: those of the registry by what became of a record that was
put, the others by the tag of one that was not. -/
theorem ingest_puts_decodable_counts_each (s : Link) (raws : List RawAccount) :
    let put := s.registry.putAll (raws.filterMap RawAccount.observation?)
    let s' := raws.foldl ingest s
    s' = { s with
        registry := put.2
        router := { s.router with tally := s.router.tally.after raws put.1 } } ∧
      s'.router.tally.records = s.router.tally.records + raws.length ∧
      ∀ raw, ∃! counter, (s'.ingest raw).router.tally = s'.router.tally.raise counter := by
  refine ⟨s.foldl_ingest raws, s.records_foldl_ingest raws, fun raw => ?_⟩
  refine ⟨_, tally_ingest _ raw, fun counter hcounter => ?_⟩
  rw [tally_ingest] at hcounter
  exact (Tally.raise_injective _ hcounter).symm

/-- A root bank was seen before the connection was lost. -/
def reconnected : Link :=
  let s := start { ledger := {} } {} 4 0
  { s with registry := (s.registry.put ⟨2⟩ (.rootBank default) 7).2.invalidateAll }

/-- One record is too late, one has no data, and the tag of one is not known. -/
def mixedRecords : List RawAccount :=
  [.ofEntity ⟨1⟩ 5 (.rootBank default), ⟨⟨1⟩, 6, 2, []⟩, .ofEntity ⟨1⟩ 4 (.rootBank default),
    ⟨⟨1⟩, 7, 255, []⟩, .ofEntity ⟨2⟩ 7 (.rootBank default)]

theorem ingest_puts_decodable_counts_each_mixed :
    (mixedRecords.foldl ingest reconnected).registry = (reconnected.registry.putAll
        [(⟨1⟩, .rootBank default, 5), (⟨1⟩, .rootBank default, 4), (⟨2⟩, .rootBank default, 7)]).2 ∧
      (mixedRecords.foldl ingest reconnected).router.tally = { reconnected.router.tally with
        applied := 1, revalidated := 1, stale := 1, malformed := 1, unknown := 1 } ∧
      (mixedRecords.foldl ingest reconnected).router.tally.records =
        reconnected.router.tally.records + mixedRecords.length := by
  have hdecoded : mixedRecords.filterMap RawAccount.observation? =
      [(⟨1⟩, .rootBank default, 5), (⟨1⟩, .rootBank default, 4), (⟨2⟩, .rootBank default, 7)] := by
    have hcanonical : (Entity.rootBank default).Canonical := ⟨rfl, by decide⟩
    have hread (a : Address) (slot : Slot) :
        (RawAccount.ofEntity a slot (.rootBank default)).observation? =
          some (a, .rootBank default, slot) :=
      RawAccount.observation?_of_read (RawAccount.read_ofEntity hcanonical _ _)
    have hempty : (⟨⟨1⟩, 6, 2, []⟩ : RawAccount).observation? = none := by decide +kernel
    have hunknown : (⟨⟨1⟩, 7, 255, []⟩ : RawAccount).observation? = none := by decide +kernel
    rw [mixedRecords, List.filterMap_cons_some (hread _ _), List.filterMap_cons_none hempty,
      List.filterMap_cons_some (hread _ _), List.filterMap_cons_none hunknown,
      List.filterMap_cons_some (hread _ _), List.filterMap_nil]
  have htally : reconnected.router.tally.after mixedRecords (reconnected.registry.putAll
      [(⟨1⟩, .rootBank default, 5), (⟨1⟩, .rootBank default, 4), (⟨2⟩, .rootBank default, 7)]).1 =
      { reconnected.router.tally with
        applied := 1, revalidated := 1, stale := 1, malformed := 1, unknown := 1 } := by
    decide +kernel
  obtain ⟨hs, hrecords, _⟩ := ingest_puts_decodable_counts_each reconnected mixedRecords
  rw [hdecoded, htally] at hs
  refine ⟨?_, ?_, hrecords⟩
  · rw [hs]
  · rw [hs]

end Link

end Solvency
