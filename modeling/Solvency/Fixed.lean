/-! Fixed-point numbers: multiples of `2 ^ -48` whose raw value fits a signed
128-bit word. Every operation either gives the rounded exact result or none. -/

namespace Solvency

namespace Fixed

/-- Raw values lie below `2 ^ 127` and not below its negation. -/
abbrev bound : Int := 170141183460469231731687303715884105728

/-- One unit of the last place is `1 / scale`; `scale` is `2 ^ 48`. -/
def scale : Int := 281474976710656

end Fixed

/-- The number `raw / 2 ^ 48`. -/
structure Fixed where
  raw : Int
  min_le : -Fixed.bound ≤ raw
  lt_max : raw < Fixed.bound
deriving DecidableEq

namespace Fixed

def ofRaw? (raw : Int) : Option Fixed :=
  if h : -bound ≤ raw ∧ raw < bound then some ⟨raw, h.1, h.2⟩ else none

def ofBits (bits : BitVec 128) : Fixed :=
  ⟨bits.toInt, by have := BitVec.le_toInt bits; simpa using this,
    by have := @BitVec.toInt_lt _ bits; simpa using this⟩

def bits (x : Fixed) : BitVec 128 := BitVec.ofInt 128 x.raw

instance : OfNat Fixed 0 := ⟨⟨0, by decide, by decide⟩⟩

instance : OfNat Fixed 1 := ⟨⟨scale, by decide, by decide⟩⟩

instance : Inhabited Fixed := ⟨0⟩

def min : Fixed := ⟨-bound, by decide, by decide⟩

def max : Fixed := ⟨bound - 1, by decide, by decide⟩

instance : LT Fixed := ⟨fun x y => x.raw < y.raw⟩

instance : LE Fixed := ⟨fun x y => x.raw ≤ y.raw⟩

instance (x y : Fixed) : Decidable (x < y) := inferInstanceAs (Decidable (x.raw < y.raw))

instance (x y : Fixed) : Decidable (x ≤ y) := inferInstanceAs (Decidable (x.raw ≤ y.raw))

def ofInt? (n : Int) : Option Fixed := ofRaw? (n * scale)

def add? (x y : Fixed) : Option Fixed := ofRaw? (x.raw + y.raw)

def sub? (x y : Fixed) : Option Fixed := ofRaw? (x.raw - y.raw)

/-- The product, rounded down. -/
def mul? (x y : Fixed) : Option Fixed := ofRaw? ((x.raw * y.raw).fdiv scale)

/-- The quotient, rounded toward zero; dividing by zero gives none. -/
def div? (x y : Fixed) : Option Fixed :=
  if y.raw = 0 then none else ofRaw? ((x.raw * scale).tdiv y.raw)

def abs? (x : Fixed) : Option Fixed := ofRaw? x.raw.natAbs

/-- The difference, held at the nearer end of the range where it leaves it. -/
def satSub (x y : Fixed) : Fixed :=
  (x.sub? y).getD (if x < y then min else max)

/-- `10 ^ e`, for the exponents at which it is in range. -/
def pow10? (e : Nat) : Option Fixed :=
  if e < 24 then ofInt? (Nat.pow 10 e) else none

/-- An amount in the smallest unit of a token, in whole tokens. -/
def nativeToUi? (native : Fixed) (decimals : Nat) : Option Fixed := do
  native.div? (← pow10? decimals)

def uiToNative? (ui : Fixed) (decimals : Nat) : Option Fixed := do
  ui.mul? (← pow10? decimals)

end Fixed

end Solvency
