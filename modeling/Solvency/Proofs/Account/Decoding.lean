import Solvency.Proofs.Account.Grammar
import Solvency.Proofs.Account.RoundTrip

/-! Which payloads are decoded, and what is lost when they are encoded again: the payloads
are those of the grammar, and only slack is lost. -/

namespace Solvency

namespace Codec

variable {α : Type} {c : Codec α} {kind : AccountKind}

namespace Located

variable {A : Bytes → Nat → Prop} {I : Bytes → Nat → Nat → Prop} {v : Bytes → Nat → α}

theorem bit_write_iff (hc : c.Located A I v) {x : Bytes} (hx : x.length = c.size) (ha : A x 0)
    (p : Nat) : bit (c.write (v x 0)) p = true ↔ bit x p = true ∧ ¬I x 0 p := by
  have hlength := hc.length_write (v x 0)
  by_cases hp : p < 8 * c.size
  · simpa using hc.rewrites (by omega) ha p (by omega)
  · rw [bit_of_length_le (by omega), bit_of_length_le (by omega)]
    simp

theorem idle_write_iff (hc : c.Located A I v) {x : Bytes} (hx : x.length = c.size) (ha : A x 0)
    (p : Nat) : I (c.write (v x 0)) 0 p ↔ I x 0 p := by
  have hlength := hc.length_write (v x 0)
  obtain ⟨_, _, hidle⟩ := hc.stable (y := c.write (v x 0)) (by omega) (by omega) ha
    fun q _ hq => by
      have hbit := hc.bit_write_iff hx ha q
      rw [Bool.eq_iff_iff, hbit, and_iff_left hq]
  exact hidle p

/-- Payloads with the same value are those that agree wherever it counts. -/
theorem value_eq_iff (hc : c.Located A I v) {x y : Bytes} (hx : x.length = c.size)
    (hy : y.length = c.size) (ha : A x 0) :
    A y 0 ∧ v y 0 = v x 0 ↔ ∀ p, ¬I x 0 p → bit y p = bit x p := by
  constructor
  · rintro ⟨hb, hvalue⟩ p hp
    have hidle : ¬I y 0 p := by
      rwa [← hc.idle_write_iff hy hb, hvalue, hc.idle_write_iff hx ha]
    have hbit := hc.bit_write_iff hy hb p
    rw [hvalue, hc.bit_write_iff hx ha p, and_iff_left hp, and_iff_left hidle] at hbit
    exact Bool.eq_iff_iff.mpr hbit.symm
  · intro h
    obtain ⟨hb, hvalue, _⟩ := hc.stable (by omega) (by omega) ha fun p _ hp => (h p hp).symm
    exact ⟨hb, hvalue⟩

end Located

namespace Describes

theorem unpack_error (hc : c.Describes kind) {x : Bytes}
    (h : ¬(x.length = kind.size ∧ Grammar kind x)) :
    ∃ e, c.unpack kind x = .error e ∧ e.kind? = some kind := by
  obtain ⟨A, I, v, hlocated, haccepts, _⟩ := hc.located
  exact hlocated.unpack_of_not_accepts hc.size_eq (by rwa [haccepts])

theorem unpack_ok_iff (hc : c.Describes kind) {x : Bytes} :
    (∃ a, c.unpack kind x = .ok a) ↔ x.length = kind.size ∧ Grammar kind x := by
  obtain ⟨A, I, v, hlocated, haccepts, _⟩ := hc.located
  constructor
  · rintro ⟨a, ha⟩
    by_contra h
    obtain ⟨e, he, _⟩ := hc.unpack_error h
    rw [ha] at he
    cases he
  · rintro ⟨hlength, hgrammar⟩
    exact ⟨_, hlocated.unpack_of_accepts hc.size_eq hlength ((haccepts x).mpr hgrammar)⟩

theorem write_unpack (hc : c.Describes kind) {x : Bytes} {a : α} (h : c.unpack kind x = .ok a) :
    (c.write a).length = x.length ∧
      (∀ p, bit (c.write a) p = true ↔ bit x p = true ∧ ¬Slack kind x p) ∧
      ∀ y, c.unpack kind y = .ok a ↔
        y.length = x.length ∧ ∀ p, ¬Slack kind x p → bit y p = bit x p := by
  obtain ⟨hlength, hgrammar⟩ := hc.unpack_ok_iff.mp ⟨a, h⟩
  obtain ⟨A, I, v, hlocated, haccepts, hidle⟩ := hc.located
  have ha := (haccepts x).mpr hgrammar
  have hsize : x.length = c.size := hlength.trans hc.size_eq.symm
  have hvalue := hlocated.unpack_of_accepts hc.size_eq hlength ha
  rw [h] at hvalue
  obtain rfl := Except.ok.inj hvalue
  refine ⟨(hlocated.length_write _).trans hsize.symm, fun p => ?_, fun y => ?_⟩
  · rw [hlocated.bit_write_iff hsize ha, hidle x p hgrammar]
  · have hsame (hy : y.length = c.size) : A y 0 ∧ v y 0 = v x 0 ↔
        ∀ p, ¬Slack kind x p → bit y p = bit x p := by
      simp only [hlocated.value_eq_iff hsize hy ha, hidle x _ hgrammar]
    constructor
    · intro hy
      obtain ⟨hylength, hygrammar⟩ := hc.unpack_ok_iff.mp ⟨_, hy⟩
      have hb := (haccepts y).mpr hygrammar
      have hyvalue := hlocated.unpack_of_accepts hc.size_eq hylength hb
      rw [hy] at hyvalue
      exact ⟨hylength.trans hlength.symm,
        (hsame (hylength.trans hc.size_eq.symm)).mp ⟨hb, (Except.ok.inj hyvalue).symm⟩⟩
    · rintro ⟨hylength, hagree⟩
      obtain ⟨hb, hyvalue⟩ := (hsame (hylength.trans hsize)).mpr hagree
      rw [hlocated.unpack_of_accepts hc.size_eq (hylength.trans hlength) hb, hyvalue]

end Describes

end Codec

namespace Entity

/-- Every kind is decoded and encoded by one codec, of which its entities are a copy. -/
theorem exists_codec (kind : AccountKind) : ∃ (α : Type) (c : Codec α) (wrap : α → Entity),
    c.Describes kind ∧ Function.Injective wrap ∧
      (∀ x, unpack x kind = wrap <$> c.unpack kind x) ∧
      ∀ a, (wrap a).encode = c.write a ∧ (wrap a).kind = kind := by
  cases kind with
  | group => exact ⟨_, _, group, Group.describes, fun _ _ => group.inj, fun _ => rfl,
      fun _ => ⟨rfl, rfl⟩⟩
  | marginAccount => exact ⟨_, _, marginAccount, MarginAccount.describes,
      fun _ _ => marginAccount.inj, fun _ => rfl, fun _ => ⟨rfl, rfl⟩⟩
  | rootBank => exact ⟨_, _, rootBank, RootBank.describes, fun _ _ => rootBank.inj, fun _ => rfl,
      fun _ => ⟨rfl, rfl⟩⟩
  | perpMarket => exact ⟨_, _, perpMarket, PerpMarket.describes, fun _ _ => perpMarket.inj,
      fun _ => rfl, fun _ => ⟨rfl, rfl⟩⟩
  | openOrders => exact ⟨_, _, openOrders, OpenOrders.describes, fun _ _ => openOrders.inj,
      fun _ => rfl, fun _ => ⟨rfl, rfl⟩⟩
  | spotMarket => exact ⟨_, _, spotMarket, SpotMarket.describes, fun _ _ => spotMarket.inj,
      fun _ => rfl, fun _ => ⟨rfl, rfl⟩⟩
  | oraclePrice => exact ⟨_, _, oraclePrice, OraclePrice.describes, fun _ _ => oraclePrice.inj,
      fun _ => rfl, fun _ => ⟨rfl, rfl⟩⟩

theorem decode_tag (kind : AccountKind) (x : Bytes) : decode kind.tag x = unpack x kind := by
  rw [decode, AccountKind.ofTag?_tag]

theorem unpack_ok_iff {kind : AccountKind} {x : Bytes} :
    (∃ e, unpack x kind = .ok e) ↔ x.length = kind.size ∧ Grammar kind x := by
  obtain ⟨α, c, wrap, hc, _, hunpack, _⟩ := exists_codec kind
  rw [← hc.unpack_ok_iff, hunpack]
  constructor
  · rintro ⟨e, he⟩
    obtain ⟨a, ha, _⟩ := map_eq_ok_iff.mp he
    exact ⟨a, ha⟩
  · rintro ⟨a, ha⟩
    exact ⟨wrap a, map_eq_ok_iff.mpr ⟨a, ha, rfl⟩⟩

theorem unpack_error {kind : AccountKind} {x : Bytes}
    (h : ¬(x.length = kind.size ∧ Grammar kind x)) :
    ∃ e, unpack x kind = .error e ∧ e.kind? = some kind := by
  obtain ⟨α, c, wrap, hc, _, hunpack, _⟩ := exists_codec kind
  obtain ⟨e, he, hkind⟩ := hc.unpack_error h
  exact ⟨e, by rw [hunpack, he]; rfl, hkind⟩

theorem tag_of_ofTag? {tag : UInt8} {kind : AccountKind}
    (h : AccountKind.ofTag? tag = some kind) : kind.tag = tag := by
  simpa [AccountKind.ofTag?] using List.find?_some h

theorem ofTag?_eq_none_iff {tag : UInt8} :
    AccountKind.ofTag? tag = none ↔ ∀ kind : AccountKind, kind.tag ≠ tag := by
  constructor
  · rintro h kind rfl
    rw [AccountKind.ofTag?_tag] at h
    cases h
  · intro h
    cases htag : AccountKind.ofTag? tag with
    | none => rfl
    | some kind => exact absurd (tag_of_ofTag? htag) (h kind)

theorem size_injective : Function.Injective AccountKind.size := by
  intro kind kind' h
  revert h
  cases kind <;> cases kind' <;> decide

theorem decode_ok_iff {tag : UInt8} {x : Bytes} : (∃ e, decode tag x = .ok e) ↔
    ∃ kind : AccountKind, kind.tag = tag ∧ x.length = kind.size ∧ Grammar kind x := by
  constructor
  · rintro ⟨e, he⟩
    cases htag : AccountKind.ofTag? tag with
    | none => simp [decode, htag] at he
    | some kind =>
      have hunpack : unpack x kind = .ok e := by simpa [decode, htag] using he
      exact ⟨kind, tag_of_ofTag? htag, unpack_ok_iff.mp ⟨e, hunpack⟩⟩
  · rintro ⟨kind, rfl, h⟩
    rw [decode_tag]
    exact unpack_ok_iff.mpr h

theorem decode_unknownTag_iff {tag : UInt8} {x : Bytes} :
    decode tag x = .error (.unknownTag tag) ↔ ∀ kind : AccountKind, kind.tag ≠ tag := by
  constructor
  · rintro h kind rfl
    rw [decode_tag] at h
    by_cases hx : x.length = kind.size ∧ Grammar kind x
    · obtain ⟨e, he⟩ := unpack_ok_iff.mpr hx
      rw [h] at he
      cases he
    · obtain ⟨e, he, hkind⟩ := unpack_error hx
      rw [h] at he
      obtain rfl := Except.error.inj he
      cases hkind
  · intro h
    rw [decode, ofTag?_eq_none_iff.mpr h]

theorem decode_refused_iff {kind : AccountKind} {x : Bytes} :
    ¬(x.length = kind.size ∧ Grammar kind x) ↔
      ∃ err, decode kind.tag x = .error err ∧ err.kind? = some kind := by
  rw [decode_tag]
  refine ⟨unpack_error, ?_⟩
  rintro ⟨err, herr, _⟩ hx
  obtain ⟨e, he⟩ := unpack_ok_iff.mpr hx
  rw [herr] at he
  cases he

/-- A payload is decoded exactly when its tag is that of a kind, its length is the kind's and
it is in the kind's grammar. Other payloads are refused, under the name of the kind where
there is one. No payload is decoded under two tags. -/
theorem decode_exactly_grammar :
    (∀ (tag : UInt8) (x : Bytes), (∃ e, decode tag x = .ok e) ↔
      ∃ kind : AccountKind, kind.tag = tag ∧ x.length = kind.size ∧ Grammar kind x) ∧
    (∀ (tag : UInt8) (x : Bytes), decode tag x = .error (.unknownTag tag) ↔
      ∀ kind : AccountKind, kind.tag ≠ tag) ∧
    (∀ (kind : AccountKind) (x : Bytes), ¬(x.length = kind.size ∧ Grammar kind x) ↔
      ∃ err, decode kind.tag x = .error err ∧ err.kind? = some kind) ∧
    ∀ (tag tag' : UInt8) (x : Bytes) (e e' : Entity),
      decode tag x = .ok e → decode tag' x = .ok e' → tag = tag' := by
  refine ⟨fun _ _ => decode_ok_iff, fun _ _ => decode_unknownTag_iff,
    fun _ _ => decode_refused_iff, fun tag tag' x e e' he he' => ?_⟩
  obtain ⟨kind, rfl, hlength, _⟩ := decode_ok_iff.mp ⟨e, he⟩
  obtain ⟨kind', rfl, hlength', _⟩ := decode_ok_iff.mp ⟨e', he'⟩
  rw [size_injective (hlength.symm.trans hlength')]

theorem decode_rootBank : decode 2 (rootBank {}).encode = .ok (rootBank {}) :=
  decode_encode (e := rootBank {}) ⟨rfl, by decide⟩

/-- The payload of a root bank at its defaults is in the grammar of root banks, and no perp
market. -/
theorem decode_exactly_grammar_rootBank :
    decode 2 (rootBank {}).encode = .ok (rootBank {}) ∧ Grammar .rootBank (rootBank {}).encode ∧
      ¬∃ e, decode 4 (rootBank {}).encode = .ok e := by
  have hdecode := decode_rootBank
  obtain ⟨kind, htag, _, hgrammar⟩ := (decode_exactly_grammar.1 2 _).mp ⟨_, hdecode⟩
  refine ⟨hdecode, ?_, fun ⟨e, he⟩ => ?_⟩
  · cases kind <;> first | exact hgrammar | exact absurd htag (by decide)
  · exact absurd (decode_exactly_grammar.2.2.2 2 4 _ _ _ hdecode he) (by decide)

/-- What is encoded again differs from the payload only in its slack, which is zero then, and
payloads of one entity are those that differ only there. -/
theorem encode_decode_clears_slack {tag : UInt8} {x : Bytes} {e : Entity}
    (h : decode tag x = .ok e) :
    e.encode.length = x.length ∧
    (∀ p, bit e.encode p = true ↔ bit x p = true ∧ ¬Slack e.kind x p) ∧
    (e.kind = .spotMarket → e.encode = x) ∧
    ∀ y, decode tag y = .ok e ↔
      y.length = x.length ∧ ∀ p, ¬Slack e.kind x p → bit y p = bit x p := by
  obtain ⟨kind, rfl, _⟩ := decode_ok_iff.mp ⟨e, h⟩
  obtain ⟨α, c, wrap, hc, hwrap, hunpack, hencode⟩ := exists_codec kind
  have hdecode (y : Bytes) : decode kind.tag y = wrap <$> c.unpack kind y := by
    rw [decode_tag, hunpack]
  rw [hdecode] at h
  obtain ⟨a, ha, rfl⟩ := map_eq_ok_iff.mp h
  obtain ⟨hlength, hbits, hsame⟩ := hc.write_unpack ha
  rw [(hencode a).1, (hencode a).2]
  refine ⟨hlength, hbits, ?_, fun y => ?_⟩
  · rintro rfl
    refine eq_of_bits hlength fun p _ => Bool.eq_iff_iff.mpr ?_
    rw [hbits p]
    exact and_iff_left id
  · rw [hdecode, ← hsame y, map_eq_ok_iff]
    constructor
    · rintro ⟨b, hb, hwrapped⟩
      rwa [hwrap hwrapped] at hb
    · exact fun hy => ⟨a, hy, rfl⟩

/-- A blank byte of the header may hold anything. -/
theorem encode_decode_clears_slack_rootBank :
    decode 2 ((rootBank {}).encode.set 3 255) = .ok (rootBank {}) := by
  refine ((encode_decode_clears_slack decode_rootBank).2.2.2 _).mpr
    ⟨List.length_set, fun p hp => ?_⟩
  have hbyte : p / 8 ≠ 3 := fun h => hp (.inl ⟨by omega, by omega⟩)
  simp [bit, List.getElem?_set_ne hbyte.symm]

end Entity

end Solvency
