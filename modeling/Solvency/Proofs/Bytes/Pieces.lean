import Mathlib.Algebra.GroupWithZero.Nat
import Solvency.Proofs.Bytes.Faithful

/-! How far a reader moves, whether it fails or not. A reader consumes pieces, each of them at
once, and where it leaves off is the end of the last piece that it consumed. -/

namespace Solvency

/-- What becomes of a piece that is there: one that is refused stays consumed, one that is handed
back does not. -/
inductive Fate where
  | accepted
  | refused
  | handedBack
deriving DecidableEq

structure Piece where
  size : Nat
  judge : Bytes → Fate

namespace Piece

def total (pieces : List Piece) : Nat := (pieces.map size).sum

/-- The pieces that are consumed in front of some bytes, and whether there was no failure. -/
def walk : List Piece → Bytes → List Piece × Bool
  | [], _ => ([], true)
  | piece :: rest, bytes =>
    if bytes.length < piece.size then
      ([], false)
    else
      match piece.judge (bytes.take piece.size) with
      | .accepted =>
        let (consumed, done) := walk rest (bytes.drop piece.size)
        (piece :: consumed, done)
      | .refused => ([piece], false)
      | .handedBack => ([], false)

def checked (size : Nat) (ok : Bytes → Bool) : Piece where
  size
  judge bytes := if ok bytes then .accepted else .refused

def free (size : Nat) : Piece := checked size fun _ => true

/-- One byte that must be 0 or 1 and is handed back otherwise. -/
def strictBool : Piece where
  size := 1
  judge byte := if byte = [0] ∨ byte = [1] then .accepted else .handedBack

/-- One byte that must be 1. A 0 is refused, anything else is handed back. -/
def initialized : Piece where
  size := 1
  judge byte := if byte = [1] then .accepted else if byte = [0] then .refused else .handedBack

theorem judge_free (size : Nat) (bytes : Bytes) : (free size).judge bytes ≠ .refused := by
  simp [free, checked]

theorem judge_strictBool (bytes : Bytes) : strictBool.judge bytes ≠ .refused := by
  simp only [strictBool]
  split <;> simp

@[simp] theorem total_nil : total [] = 0 := rfl

@[simp] theorem total_cons (piece : Piece) (rest : List Piece) :
    total (piece :: rest) = piece.size + total rest := rfl

@[simp] theorem total_append (first second : List Piece) :
    total (first ++ second) = total first + total second := by
  simp [total]

theorem walk_append (first second : List Piece) (bytes : Bytes) :
    walk (first ++ second) bytes =
      if (walk first bytes).2 then
        let next := walk second (bytes.drop (total (walk first bytes).1))
        ((walk first bytes).1 ++ next.1, next.2)
      else walk first bytes := by
  induction first generalizing bytes with
  | nil => rfl
  | cons piece rest ih =>
    rw [List.cons_append, walk, walk]
    split
    · rfl
    · cases hjudge : piece.judge (bytes.take piece.size) with
      | accepted =>
        simp only [ih, total_cons, List.drop_drop]
        split <;> simp_all
      | refused => rfl
      | handedBack => rfl

theorem walk_eq_nil_of_not_refused {piece : Piece} {bytes : Bytes}
    (h : ∀ bytes, piece.judge bytes ≠ .refused) (hfailed : (walk [piece] bytes).2 = false) :
    (walk [piece] bytes).1 = [] := by
  rw [walk] at hfailed ⊢
  split
  · rfl
  · rw [if_neg ‹_›] at hfailed
    cases hjudge : piece.judge (bytes.take piece.size) with
    | accepted =>
      rw [hjudge] at hfailed
      cases hfailed
    | refused => exact absurd hjudge (h _)
    | handedBack => rfl

theorem walk_checked (size : Nat) (ok : Bytes → Bool) (bytes : Bytes) :
    walk [checked size ok] bytes =
      if bytes.length < size then ([], false) else ([checked size ok], ok (bytes.take size)) := by
  rw [walk]
  cases hok : ok (bytes.take size) <;> simp [checked, hok, walk]

theorem walk_prefix (pieces : List Piece) (bytes : Bytes) : (walk pieces bytes).1 <+: pieces := by
  induction pieces generalizing bytes with
  | nil => exact List.prefix_rfl
  | cons piece rest ih =>
    rw [walk]
    split
    · exact List.nil_prefix
    · cases piece.judge (bytes.take piece.size) with
      | accepted => exact (List.prefix_cons_inj piece).mpr (ih _)
      | refused => exact ⟨rest, rfl⟩
      | handedBack => exact List.nil_prefix

theorem total_walk_le (pieces : List Piece) (bytes : Bytes) :
    total (walk pieces bytes).1 ≤ bytes.length := by
  induction pieces generalizing bytes with
  | nil => exact Nat.zero_le _
  | cons piece rest ih =>
    rw [walk]
    split
    · exact Nat.zero_le _
    · cases piece.judge (bytes.take piece.size) with
      | accepted =>
        have hrest := ih (bytes.drop piece.size)
        rw [List.length_drop] at hrest
        simp only [total_cons]
        omega
      | refused =>
        simp only [total_cons, total_nil]
        omega
      | handedBack => exact Nat.zero_le _

end Piece

theorem Cursor.advance_advance (c : Cursor) (m n : Nat) :
    (c.advance m).advance n = c.advance (m + n) := by
  simp [Cursor.advance, Nat.add_assoc]

namespace Reader

open Piece

variable {α β : Type} {r : Reader α} {pieces : List Piece}

/-- A reader consumes what the pieces say, and fails where they say. -/
def Follows (r : Reader α) (pieces : List Piece) : Prop :=
  ∀ c : Cursor, (r.runFrom c).1.isOk = (walk pieces c.rest).2 ∧
    (r.runFrom c).2 = c.advance (total (walk pieces c.rest).1)

theorem follows_pure (a : α) : (pure a : Reader α).Follows [] := fun _ => ⟨rfl, rfl⟩

theorem Follows.bind {f : α → Reader β} {next : List Piece} (hr : r.Follows pieces)
    (hf : ∀ a, (f a).Follows next) : (r >>= f).Follows (pieces ++ next) := by
  intro c
  obtain ⟨hok, hmid⟩ := hr c
  rw [runFrom_bind, walk_append]
  rcases hrun : r.runFrom c with ⟨e | a, mid⟩
  · rw [hrun] at hok hmid
    rw [← hok]
    exact ⟨hok, hmid⟩
  · rw [hrun] at hok hmid
    obtain rfl : mid = c.advance (total (walk pieces c.rest).1) := hmid
    obtain ⟨hok', hend⟩ := hf a (c.advance (total (walk pieces c.rest).1))
    rw [← hok]
    refine ⟨hok', hend.trans ?_⟩
    rw [Cursor.advance_advance]
    exact congrArg c.advance (total_append _ _).symm

theorem Follows.map {f : α → β} (hr : r.Follows pieces) : (f <$> r).Follows pieces := by
  rw [map_eq_pure_bind]
  simpa using hr.bind fun a => follows_pure (f a)

theorem runFrom_take_eq (n : Nat) (c : Cursor) : (take n).runFrom c =
    if n ≤ c.rest.length then (.ok (c.rest.take n), c.advance n)
    else (.error (c.fault (.truncated n c.remaining)), c) := by
  rw [take, runFrom_bind_of_ok (runFrom_get _)]
  by_cases h : n ≤ c.rest.length
  · rw [if_pos (List.length_take_of_le h), if_pos h, runFrom_bind_of_ok (runFrom_set _ _),
      runFrom_pure]
  · rw [if_neg (by rw [List.length_take]; omega), if_neg h, runFrom_fail]

/-- What is made of bytes that were taken at once may be refused; then they stay taken. -/
theorem follows_take_bind {n : Nat} {f : Bytes → Reader α} {ok : Bytes → Bool}
    (hf : ∀ bytes, bytes.length = n → ∀ c,
      ((f bytes).runFrom c).1.isOk = ok bytes ∧ ((f bytes).runFrom c).2 = c) :
    (take n >>= f).Follows [checked n ok] := by
  intro c
  rw [runFrom_bind, runFrom_take_eq, walk_checked]
  by_cases h : n ≤ c.rest.length
  · rw [if_pos h, if_neg (Nat.not_lt.mpr h)]
    exact hf (c.rest.take n) (List.length_take_of_le h) (c.advance n)
  · rw [if_neg h, if_pos (Nat.lt_of_not_le h)]
    exact ⟨rfl, rfl⟩

theorem follows_take (n : Nat) : (take n).Follows [free n] := by
  rw [← bind_pure (take n)]
  exact follows_take_bind fun _ _ _ => ⟨rfl, rfl⟩

theorem follows_get_bind {f : Cursor → Reader α} (hf : ∀ start, (f start).Follows pieces) :
    (get >>= f).Follows pieces := by
  intro c
  rw [runFrom_bind_of_ok (runFrom_get c)]
  exact hf c c

theorem follows_expect (marker : Bytes) (what : String) :
    (expect marker what).Follows [checked marker.length (· == marker)] := by
  refine follows_get_bind fun start => follows_take_bind fun found _ c => ?_
  by_cases h : found = marker
  · rw [if_pos h]
    exact ⟨(beq_iff_eq.mpr h).symm, rfl⟩
  · rw [if_neg h]
    exact ⟨(beq_eq_false_iff_ne.mpr h).symm, rfl⟩

end Reader

namespace Codec

open Piece Reader

variable {α β : Type} {c : Codec α} {d : Codec β} {pieces next : List Piece}

/-- A codec that takes all its bytes at once and makes a value of them whatever they are. -/
def Takes (c : Codec α) (value : Bytes → α) : Prop := c.read = value <$> Reader.take c.size

theorem word_takes (n : Nat) : (word n).Takes fun w => BitVec.ofNat (8 * n) (ofLittleEndian w) :=
  (map_eq_pure_bind _ _).symm

theorem blank_takes (n : Nat) : (blank n).Takes fun _ => () :=
  (map_eq_pure_bind _ _).symm

theorem Takes.iso {value : Bytes → α} {f : α → β} {g : β → α} (hc : c.Takes value) :
    (c.iso f g).Takes fun w => f (value w) := by
  rw [Takes, Codec.iso, hc]
  simp

theorem Takes.follows {value : Bytes → α} (hc : c.Takes value) : c.read.Follows [free c.size] := by
  rw [hc]
  exact (follows_take c.size).map

theorem Takes.follows_refine {value : Bytes → α} {decode : Nat → α → Except Fault β}
    {encode : β → α} {ok : Bytes → Bool} (hc : c.Takes value)
    (hok : ∀ w, w.length = c.size → ∀ start, (decode start (value w)).isOk = ok w) :
    (c.refine decode encode).read.Follows [checked c.size ok] := by
  rw [Codec.refine, hc]
  refine follows_get_bind fun start => ?_
  rw [bind_map_left]
  refine follows_take_bind fun w hw mid => ?_
  rw [← hok w hw start.offset]
  cases decode start.offset (value w) <;> exact ⟨rfl, rfl⟩

theorem Takes.follows_check {value : Bytes → α} {accepts : α → Bool} {fault : α → Fault}
    {ok : Bytes → Bool} (hc : c.Takes value)
    (hok : ∀ w, w.length = c.size → accepts (value w) = ok w) :
    (c.check accepts fault).read.Follows [checked c.size ok] :=
  hc.follows_refine fun w hw _ => by
    rw [← hok w hw]
    cases accepts (value w) <;> rfl

theorem follows_pair (hc : c.read.Follows pieces) (hd : d.read.Follows next) :
    (c.pair d).read.Follows (pieces ++ next) :=
  hc.bind fun a => by simpa using hd.bind fun b => follows_pure (a, b)

theorem follows_before {d : Codec Unit} (hc : c.read.Follows pieces) (hd : d.read.Follows next) :
    (c.before d).read.Follows (pieces ++ next) :=
  hc.bind fun a => by simpa using hd.bind fun _ => follows_pure a

theorem follows_iso {f : α → β} {g : β → α} (hc : c.read.Follows pieces) :
    (c.iso f g).read.Follows pieces := by
  rw [Codec.iso, ← map_eq_pure_bind]
  exact hc.map

theorem follows_readMany (hc : c.read.Follows pieces) (n : Nat) :
    (readMany c.read n).Follows (List.replicate n pieces).flatten := by
  induction n with
  | zero => exact follows_pure _
  | succ n ih =>
    rw [List.replicate_succ', List.flatten_append, List.flatten_singleton]
    exact ih.bind fun first => by simpa using hc.bind fun last => follows_pure (first.push last)

theorem runFrom_bool_cons (kind : AccountKind) (offset : Nat) (byte : UInt8) (rest : Bytes) :
    bool.read.runFrom ⟨kind, offset, byte :: rest⟩ =
      if byte = 0 then (.ok false, ⟨kind, offset + 1, rest⟩)
      else if byte = 1 then (.ok true, ⟨kind, offset + 1, rest⟩)
      else (.error (.malformed kind (.invalidBool byte) offset), ⟨kind, offset, byte :: rest⟩) := by
  have hwrite : u8.write byte = [byte] := by simp [u8, word, Codec.iso, littleEndian]
  have hbyte := u8_faithful.read_write byte trivial kind offset rest
  rw [hwrite, List.singleton_append] at hbyte
  rw [bool, runFrom_bind_of_ok (runFrom_get _), runFrom_bind_of_ok hbyte]
  split
  · rfl
  · rfl
  · rename_i h0 h1
    rw [if_neg h0, if_neg h1]
    rfl

theorem follows_bool : bool.read.Follows [strictBool] := by
  rintro ⟨kind, offset, rest⟩
  cases rest with
  | nil => exact ⟨rfl, rfl⟩
  | cons byte rest =>
    rw [runFrom_bool_cons]
    by_cases h0 : byte = 0
    · subst h0
      exact ⟨rfl, rfl⟩
    · by_cases h1 : byte = 1
      · subst h1
        exact ⟨rfl, rfl⟩
      · rw [if_neg h0, if_neg h1]
        simp [walk, strictBool, h0, h1, Cursor.advance]
        rfl

theorem follows_initialized {fault : Bool → Fault} :
    (bool.check id fault).read.Follows [initialized] := by
  rintro ⟨kind, offset, rest⟩
  rw [check, refine, runFrom_bind_of_ok (runFrom_get _), runFrom_bind]
  cases rest with
  | nil => exact ⟨rfl, rfl⟩
  | cons byte rest =>
    rw [runFrom_bool_cons]
    by_cases h0 : byte = 0
    · subst h0
      exact ⟨rfl, rfl⟩
    · by_cases h1 : byte = 1
      · subst h1
        exact ⟨rfl, rfl⟩
      · rw [if_neg h0, if_neg h1]
        simp [walk, initialized, h0, h1, Cursor.advance]
        rfl

end Codec

end Solvency
