import Solvency.Proofs.Collections
import Solvency.Proofs.Risk.Worth

/-! The lines of a view are what is valued, before any weight is applied. A valuation enters
them one after another, and the weights of the group come in only there. -/

namespace Solvency

theorem Fixed.add_zero (x : Fixed) : x.add 0 = .ok x := by
  have hraw : x.raw + (0 : Fixed).raw = x.raw := Int.add_zero x.raw
  rw [add, add?, hraw, ofRaw?_eq_some x.min_le x.lt_max]
  rfl

/-- Where a line comes from. -/
inductive Place where
  | spot (i : Fin marketSlots)
  | perp (i : Fin marketSlots)
  | quote
deriving DecidableEq

namespace Place

def kind : Place → PositionKind
  | spot _ => .spot
  | perp _ => .perp
  | quote => .quote

def index : Place → Nat
  | spot i => i
  | perp i => i
  | quote => quoteIndex

end Place

structure Line where
  place : Place
  amount : Fixed
  price : Fixed
deriving DecidableEq

namespace Line

/-- Nothing is entered for an amount of zero. -/
def unlessZero (line : Line) : List Line := if line.amount = 0 then [] else [line]

def enter (weights : Place → Weights) (valuation : Valuation) (line : Line) : Valued Valuation :=
  valuation.push line.place.kind line.place.index line.amount line.price (weights line.place)

end Line

namespace View

def weights (v : View) (health : HealthType) : Place → Weights
  | .spot i => .spot (v.group.value.spotMarkets.get i) health
  | .perp i => .perp (v.group.value.perpMarkets.get i) health
  | .quote => .unit

/-- Base of a market's token, and the quote that its open orders hold. -/
def spotSide (v : View) (i : Fin marketSlots) (price : Fixed) : Valued (Fixed × Fixed) := do
  let decimals := (v.group.value.tokens.get i.castSucc).decimals
  let held ← v.netBalance i.castSucc decimals
  match v.openOrders.get i with
  | none => return (held, 0)
  | some orders =>
    let (base, quote) ← orders.value.exposure price decimals v.group.value.quoteToken.decimals
    return (← held.add base, quote)

/-- The line of a perpetual position and its quote, if there is one. -/
def perpSide (v : View) (i : Fin marketSlots) (price : Fixed) :
    Valued (List Line × List Fixed) := do
  match v.account.value.perpAccount? i with
  | none => return ([], [])
  | some perp =>
    match v.perpMarkets.get i with
    | none => throw .incompleteView
    | some market =>
      let decimals := (v.group.value.tokens.get i.castSucc).decimals
      let (base, quote) ← perp.exposure market.value (v.group.value.perpMarkets.get i) price
        decimals v.group.value.quoteToken.decimals
      return ([⟨.perp i, base, price⟩], [quote])

/-- The lines of a market and the amounts of quote that it leaves to the pool. -/
def marketLines (v : View) (i : Fin marketSlots) : Valued (List Line × List Fixed) := do
  if v.account.value.participates i then
    let price ← v.price i
    let (base, quote) ← v.spotSide i price
    let (lines, quotes) ← v.perpSide i price
    return ((⟨.spot i, base, price⟩ : Line).unlessZero ++ lines, quote :: quotes)
  else
    return ([], [])

def lines (v : View) : Valued (List Line) := do
  let markets ← (List.finRange marketSlots).mapM v.marketLines
  let pool ← (markets.flatMap (·.2)).foldlM Fixed.add 0
  let quote ← (← v.netBalance quoteIndex v.group.value.quoteToken.decimals).add pool
  return markets.flatMap (·.1) ++ (⟨.quote, quote, 1⟩ : Line).unlessZero

variable {v : View} {health : HealthType} {i : Fin marketSlots} {valuation valuation' : Valuation}
  {pool pool' : Fixed}

theorem marketLines_eq_ok_iff {part : List Line × List Fixed}
    (hi : v.account.value.participates i = true) :
    v.marketLines i = .ok part ↔ ∃ price, v.price i = .ok price ∧
      ∃ spot, v.spotSide i price = .ok spot ∧ ∃ perp, v.perpSide i price = .ok perp ∧
        ((⟨.spot i, spot.1, price⟩ : Line).unlessZero ++ perp.1, spot.2 :: perp.2) = part := by
  simp only [marketLines, hi, if_true, bind_eq_ok_iff, pure_eq_ok_iff]

theorem marketLines_of_not_participates (hi : v.account.value.participates i = false) :
    v.marketLines i = .ok ([], []) := by
  rw [marketLines, hi]
  rfl

theorem valueMarket_eq (v : View) (health : HealthType) (valuation : Valuation) (pool : Fixed)
    (i : Fin marketSlots) :
    v.valueMarket health (valuation, pool) i = (do
      if v.account.value.participates i then
        let price ← v.price i
        let (base, quote) ← v.spotSide i price
        let pool ← pool.add quote
        let spot := (⟨.spot i, base, price⟩ : Line).unlessZero
        let valuation ← spot.foldlM (Line.enter (v.weights health)) valuation
        let (lines, quotes) ← v.perpSide i price
        let pool ← quotes.foldlM Fixed.add pool
        return (← lines.foldlM (Line.enter (v.weights health)) valuation, pool)
      else
        return (valuation, pool)) := by
  by_cases hi : v.account.value.participates i
  case neg => simp only [valueMarket, hi, if_false, Bool.false_eq_true]
  have hspot {α : Type} (base price : Fixed) (next : Valuation → Valued α) :
      (((⟨.spot i, base, price⟩ : Line).unlessZero.foldlM (Line.enter (v.weights health))
        valuation) >>= next) = if base = 0 then next valuation else
          valuation.push .spot i base price
            (.spot (v.group.value.spotMarkets.get i) health) >>= next := by
    by_cases hbase : base = 0
    · simp [Line.unlessZero, hbase]
    · simp [Line.unlessZero, hbase, Line.enter, weights, Place.kind, Place.index]
  simp only [valueMarket, hi, if_true, hspot]
  cases horders : v.openOrders.get i <;> cases hperp : v.account.value.perpAccount? i <;>
    cases hmarket : v.perpMarkets.get i <;>
    simp [spotSide, perpSide, horders, hperp, hmarket, Line.enter, weights, Place.kind,
      Place.index, pool.add_zero, ok_bind, throw_bind]

theorem valueMarket_eq_ok_iff :
    v.valueMarket health (valuation, pool) i = .ok (valuation', pool') ↔
      ∃ part, v.marketLines i = .ok part ∧
        part.1.foldlM (Line.enter (v.weights health)) valuation = .ok valuation' ∧
        part.2.foldlM Fixed.add pool = .ok pool' := by
  rw [valueMarket_eq, marketLines]
  by_cases hi : v.account.value.participates i
  case neg => simp [hi, pure_eq_ok_iff]
  simp only [hi, if_true, bind_eq_ok_iff, pure_eq_ok_iff]
  constructor
  · rintro ⟨price, hprice, spot, hspot, pool₁, hpool₁, valuation₁, hvaluation₁, perp, hperp,
      pool₂, hpool₂, valuation₂, hvaluation₂, heq⟩
    cases heq
    refine ⟨_, ⟨price, hprice, spot, hspot, perp, hperp, rfl⟩, ?_, ?_⟩
    · rw [List.foldlM_append, hvaluation₁, ok_bind, hvaluation₂]
    · rw [List.foldlM_cons, hpool₁, ok_bind, hpool₂]
  · rintro ⟨_, ⟨price, hprice, spot, hspot, perp, hperp, rfl⟩, hlines, hquotes⟩
    rw [List.foldlM_append] at hlines
    rw [List.foldlM_cons] at hquotes
    obtain ⟨valuation₁, hvaluation₁, hvaluation₂⟩ := bind_eq_ok_iff.mp hlines
    obtain ⟨pool₁, hpool₁, hpool₂⟩ := bind_eq_ok_iff.mp hquotes
    exact ⟨price, hprice, spot, hspot, pool₁, hpool₁, valuation₁, hvaluation₁, perp, hperp,
      pool', hpool₂, valuation', hvaluation₂, rfl⟩

/-- Valuing market after market is finding their lines first and then entering all of them. -/
theorem foldlM_valueMarket_eq_ok_iff (markets : List (Fin marketSlots)) :
    markets.foldlM (v.valueMarket health) (valuation, pool) = .ok (valuation', pool') ↔
      ∃ parts, markets.mapM v.marketLines = .ok parts ∧
        (parts.flatMap (·.1)).foldlM (Line.enter (v.weights health)) valuation = .ok valuation' ∧
        (parts.flatMap (·.2)).foldlM Fixed.add pool = .ok pool' := by
  induction markets generalizing valuation pool with
  | nil => simp [pure_eq_ok_iff]
  | cons i rest ih =>
    rw [List.foldlM_cons, List.mapM_cons]
    simp only [bind_eq_ok_iff, pure_eq_ok_iff]
    constructor
    · rintro ⟨⟨valuation₁, pool₁⟩, hi, hrest⟩
      obtain ⟨part, hpart, hlines, hquotes⟩ := valueMarket_eq_ok_iff.mp hi
      obtain ⟨parts, hparts, hlines', hquotes'⟩ := ih.mp hrest
      refine ⟨part :: parts, ⟨part, hpart, parts, hparts, rfl⟩, ?_, ?_⟩
      · rw [List.flatMap_cons, List.foldlM_append, hlines, ok_bind, hlines']
      · rw [List.flatMap_cons, List.foldlM_append, hquotes, ok_bind, hquotes']
    · rintro ⟨_, ⟨part, hpart, parts, hparts, rfl⟩, hlines, hquotes⟩
      rw [List.flatMap_cons, List.foldlM_append] at hlines hquotes
      obtain ⟨valuation₁, hlines, hlines'⟩ := bind_eq_ok_iff.mp hlines
      obtain ⟨pool₁, hquotes, hquotes'⟩ := bind_eq_ok_iff.mp hquotes
      exact ⟨(valuation₁, pool₁), valueMarket_eq_ok_iff.mpr ⟨part, hpart, hlines, hquotes⟩,
        ih.mpr ⟨parts, hparts, hlines', hquotes'⟩⟩

theorem value_eq_ok_iff :
    v.value health = .ok valuation ↔
      ∃ lines, v.lines = .ok lines ∧
        lines.foldlM (Line.enter (v.weights health)) {} = .ok valuation := by
  have hquote (quote : Fixed) (before : Valuation) :
      (⟨.quote, quote, 1⟩ : Line).unlessZero.foldlM (Line.enter (v.weights health)) before =
        if quote = 0 then pure before else before.push .quote quoteIndex quote 1 .unit := by
    by_cases hzero : quote = 0
    · simp [Line.unlessZero, hzero]
    · simp [Line.unlessZero, hzero, Line.enter, weights, Place.kind, Place.index]
  simp only [value, lines, bind_eq_ok_iff, pure_eq_ok_iff, Prod.exists,
    foldlM_valueMarket_eq_ok_iff]
  constructor
  · rintro ⟨before, pool, ⟨parts, hparts, hlines, hquotes⟩, held, hheld, quote, hadd, hlast⟩
    refine ⟨_, ⟨parts, hparts, pool, hquotes, held, hheld, quote, hadd, rfl⟩, ?_⟩
    rw [List.foldlM_append, hlines, ok_bind, hquote]
    exact hlast
  · rintro ⟨_, ⟨parts, hparts, pool, hquotes, held, hheld, quote, hadd, rfl⟩, hlines⟩
    rw [List.foldlM_append] at hlines
    obtain ⟨before, hlines, hlast⟩ := bind_eq_ok_iff.mp hlines
    rw [hquote] at hlast
    exact ⟨before, pool, ⟨parts, hparts, hlines, hquotes⟩, held, hheld, quote, hadd, hlast⟩

theorem price_pos {price : Fixed} (h : v.price i = .ok price) : 0 < price := by
  rw [View.price] at h
  split at h
  case h_1 => cases h
  case h_2 oracle _ =>
    split at h
    case isFalse => cases h
    case isTrue =>
      obtain ⟨found, _, h⟩ := bind_eq_ok_iff.mp h
      split at h
      case isFalse => cases h
      case isTrue hpos => exact pure_eq_ok_iff.mp h ▸ hpos

theorem exists_marketLines {lines : List Line} (h : v.lines = .ok lines) (i : Fin marketSlots) :
    ∃ part, v.marketLines i = .ok part ∧ part.1 ⊆ lines := by
  obtain ⟨parts, hparts, h⟩ := bind_eq_ok_iff.mp h
  obtain ⟨pool, _, h⟩ := bind_eq_ok_iff.mp h
  obtain ⟨held, _, h⟩ := bind_eq_ok_iff.mp h
  obtain ⟨quote, _, h⟩ := bind_eq_ok_iff.mp h
  obtain ⟨part, hmem, hpart⟩ := exists_ok_of_mapM hparts (List.mem_finRange i)
  refine ⟨part, hpart, fun line hline => ?_⟩
  rw [← pure_eq_ok_iff.mp h]
  exact List.mem_append_left _ (List.mem_flatMap.mpr ⟨part, hmem, hline⟩)

end View

namespace Valuation

variable {weights : Place → Weights} {valuation after : Valuation} {line : Line}

/-- What is entered for a line under the weights of its place. -/
structure RowOf (weights : Place → Weights) (line : Line) (row : Position) : Prop where
  kind : row.kind = line.place.kind
  index : row.index = line.place.index
  amount : row.amount = line.amount
  price : row.price = line.price
  value : line.amount.mul line.price = .ok row.value
  weighted : (weights line.place).apply row.value = .ok row.weighted

/-- A weighted value counts for the collateral while it is not negative, else as a liability. -/
structure Enters (valuation : Valuation) (row : Position) (after : Valuation) : Prop where
  positions : after.positions = valuation.positions ++ [row]
  collateral : after.collateral.toRat = valuation.collateral.toRat + max row.weighted.toRat 0
  liabilities : after.liabilities.toRat = valuation.liabilities.toRat + max (-row.weighted.toRat) 0

theorem enters_of_enter (h : line.enter weights valuation = .ok after) :
    ∃ row, RowOf weights line row ∧ valuation.Enters row after := by
  obtain ⟨value, hvalue, h⟩ := bind_eq_ok_iff.mp h
  obtain ⟨weighted, hweighted, h⟩ := bind_eq_ok_iff.mp h
  refine ⟨⟨_, _, _, _, value, weighted⟩, ⟨rfl, rfl, rfl, rfl, hvalue, hweighted⟩, ?_⟩
  by_cases hsign : 0 ≤ weighted
  · have hnonneg := Fixed.toRat_nonneg.mpr hsign
    rw [if_pos hsign] at h
    obtain ⟨collateral, hcollateral, h⟩ := bind_eq_ok_iff.mp h
    cases pure_eq_ok_iff.mp h
    refine ⟨rfl, ?_, ?_⟩
    · rw [Fixed.toRat_of_add hcollateral, max_eq_left hnonneg]
    · rw [max_eq_right (neg_nonpos.mpr hnonneg), add_zero]
  · have hneg : weighted.toRat ≤ 0 :=
      le_of_not_ge fun hnonneg => hsign (Fixed.toRat_nonneg.mp hnonneg)
    rw [if_neg hsign] at h
    obtain ⟨liabilities, hliabilities, h⟩ := bind_eq_ok_iff.mp h
    cases pure_eq_ok_iff.mp h
    refine ⟨rfl, ?_, ?_⟩
    · rw [max_eq_right hneg, add_zero]
    · rw [Fixed.toRat_of_sub hliabilities, max_eq_left (neg_nonneg.mpr hneg), sub_eq_add_neg]

end Valuation

end Solvency
