import Mathlib.Algebra.Group.Nat.Defs
import Solvency.Bytes.Codec

/-! Codecs whose two directions belong together. A faithful codec writes a fixed number
of bytes, reads back every good value it wrote in front of any rest, and reads nothing
but good values. -/

namespace Solvency

namespace Reader

variable {α β : Type}

@[simp] theorem runFrom_pure (a : α) (c : Cursor) : (pure a : Reader α).runFrom c = (.ok a, c) := rfl

theorem runFrom_bind (r : Reader α) (f : α → Reader β) (c : Cursor) :
    (r >>= f).runFrom c = match r.runFrom c with
      | (.ok a, c') => (f a).runFrom c'
      | (.error e, c') => (.error e, c') := by
  show (ExceptT.bindCont f (r c).1 (r c).2 : Except LayoutError β × Cursor) = _
  simp only [runFrom, ExceptT.run, StateT.run]
  rcases r c with ⟨a | a, c'⟩ <;> rfl

@[simp] theorem runFrom_get (c : Cursor) : (get : Reader Cursor).runFrom c = (.ok c, c) := rfl

@[simp] theorem runFrom_set (c c' : Cursor) : (set c' : Reader Unit).runFrom c = (.ok (), c') := rfl

@[simp] theorem runFrom_throw (e : LayoutError) (c : Cursor) :
    (throw e : Reader α).runFrom c = (.error e, c) := rfl

@[simp] theorem runFrom_fail (fault : Fault) (c : Cursor) :
    (fail fault : Reader α).runFrom c = (.error (c.fault fault), c) := rfl

theorem runFrom_bind_of_ok {r : Reader α} {f : α → Reader β} {c c' : Cursor} {a : α}
    (h : r.runFrom c = (.ok a, c')) : (r >>= f).runFrom c = (f a).runFrom c' := by
  rw [runFrom_bind, h]

theorem runFrom_bind_ok {r : Reader α} {f : α → Reader β} {c c' : Cursor} {b : β}
    (h : (r >>= f).runFrom c = (.ok b, c')) :
    ∃ a mid, r.runFrom c = (.ok a, mid) ∧ (f a).runFrom mid = (.ok b, c') := by
  rw [runFrom_bind] at h
  rcases hr : r.runFrom c with ⟨e | a, mid⟩
  · simp [hr] at h
  · exact ⟨a, mid, rfl, by simpa [hr] using h⟩

theorem runFrom_take_append {n : Nat} (kind : AccountKind) (offset : Nat) {bytes : Bytes}
    (rest : Bytes) (h : bytes.length = n) :
    (take n).runFrom ⟨kind, offset, bytes ++ rest⟩ = (.ok bytes, ⟨kind, offset + n, rest⟩) := by
  subst h
  rw [take, runFrom_bind_of_ok (runFrom_get _)]
  simp only [List.take_left, ite_true]
  rw [runFrom_bind_of_ok (runFrom_set _ _), runFrom_pure]
  simp [Cursor.advance]

theorem runFrom_expect_append (kind : AccountKind) (offset : Nat) (marker rest : Bytes)
    (what : String) :
    (expect marker what).runFrom ⟨kind, offset, marker ++ rest⟩ =
      (.ok (), ⟨kind, offset + marker.length, rest⟩) := by
  rw [expect, runFrom_bind_of_ok (runFrom_get _),
    runFrom_bind_of_ok (runFrom_take_append kind offset rest rfl)]
  simp

end Reader

namespace Codec

variable {α β : Type}

/-- What is written for one value is read as another, whatever follows it. -/
def ReadsBack (c : Codec α) (a b : α) : Prop :=
  ∀ kind offset rest,
    c.read.runFrom ⟨kind, offset, c.write a ++ rest⟩ = (.ok b, ⟨kind, offset + c.size, rest⟩)

namespace ReadsBack

variable {c : Codec α} {d : Codec β} {a a' : α} {b b' : β}

theorem pair (hc : c.ReadsBack a a') (hd : d.ReadsBack b b') :
    (c.pair d).ReadsBack (a, b) (a', b') := by
  intro kind offset rest
  simp only [Codec.pair, List.append_assoc]
  rw [Reader.runFrom_bind_of_ok (hc kind offset _), Reader.runFrom_bind_of_ok (hd kind _ rest),
    Reader.runFrom_pure, Nat.add_assoc]

theorem before {d : Codec Unit} (hc : c.ReadsBack a a') (hd : d.ReadsBack () ()) :
    (c.before d).ReadsBack a a' := by
  intro kind offset rest
  simp only [Codec.before, List.append_assoc]
  rw [Reader.runFrom_bind_of_ok (hc kind offset _), Reader.runFrom_bind_of_ok (hd kind _ rest),
    Reader.runFrom_pure, Nat.add_assoc]

theorem iso {f : α → β} {g : β → α} (hc : c.ReadsBack (g b) a) (hf : f a = b') :
    (c.iso f g).ReadsBack b b' := by
  intro kind offset rest
  simp only [Codec.iso]
  rw [Reader.runFrom_bind_of_ok (hc kind offset rest), hf, Reader.runFrom_pure]

theorem refine {decode : Nat → α → Except Fault β} {encode : β → α}
    (hc : c.ReadsBack (encode b) a) (hdecode : ∀ start, decode start a = .ok b') :
    (c.refine decode encode).ReadsBack b b' := by
  intro kind offset rest
  simp only [Codec.refine]
  rw [Reader.runFrom_bind_of_ok (Reader.runFrom_get _),
    Reader.runFrom_bind_of_ok (hc kind offset rest)]
  simp [hdecode]

theorem unpack_write (hc : c.ReadsBack a a') {kind : AccountKind}
    (hlength : (c.write a).length = kind.size) : c.unpack kind (c.write a) = .ok a' := by
  have hread := hc kind 0 []
  rw [List.append_nil] at hread
  rw [unpack, if_pos hlength, Cursor.start, Reader.runFrom_bind_of_ok hread]
  rfl

end ReadsBack

/-- What a codec promises: a length for every value, the way back for the good ones, and
good values only. -/
structure Faithful (c : Codec α) (Good : α → Prop) : Prop where
  length_write : ∀ a, (c.write a).length = c.size
  read_write : ∀ a, Good a → ∀ kind offset rest,
    c.read.runFrom ⟨kind, offset, c.write a ++ rest⟩ = (.ok a, ⟨kind, offset + c.size, rest⟩)
  good_of_read : ∀ {cursor a cursor'}, c.read.runFrom cursor = (.ok a, cursor') → Good a

theorem length_littleEndian (n value : Nat) : (littleEndian n value).length = n := by
  induction n generalizing value with
  | zero => rfl
  | succ n ih => simp [littleEndian, ih]

theorem ofLittleEndian_littleEndian {n value : Nat} (h : value < 256 ^ n) :
    ofLittleEndian (littleEndian n value) = value := by
  induction n generalizing value with
  | zero =>
    have hz : value = 0 := by simpa using h
    subst hz
    rfl
  | succ n ih =>
    have hdiv : value / 256 < 256 ^ n := by
      rw [Nat.div_lt_iff_lt_mul (by decide)]
      simpa only [Nat.pow_succ] using h
    have hrest := ih hdiv
    simp only [ofLittleEndian] at hrest
    simp only [ofLittleEndian, littleEndian, List.foldr_cons, hrest, UInt8.toNat_ofNat']
    omega

theorem word_faithful (n : Nat) : (word n).Faithful fun _ => True where
  length_write a := length_littleEndian n a.toNat
  read_write a _ kind offset rest := by
    have ha : a.toNat < 256 ^ n := by simpa only [Nat.pow_mul] using a.isLt
    simp only [word]
    rw [Reader.runFrom_bind_of_ok
      (Reader.runFrom_take_append kind offset rest (length_littleEndian n a.toNat)),
      ofLittleEndian_littleEndian ha, Reader.runFrom_pure, BitVec.ofNat_toNat, BitVec.setWidth_eq]
  good_of_read _ := trivial

theorem blank_faithful (n : Nat) : (blank n).Faithful fun _ => True where
  length_write _ := List.length_replicate
  read_write _ _ kind offset rest := by
    simp only [blank]
    rw [Reader.runFrom_bind_of_ok
      (Reader.runFrom_take_append kind offset rest List.length_replicate), Reader.runFrom_pure]
  good_of_read _ := trivial

theorem marker_faithful (bytes : Bytes) (what : String) :
    (marker bytes what).Faithful fun _ => True where
  length_write _ := rfl
  read_write _ _ kind offset rest := Reader.runFrom_expect_append kind offset bytes rest what
  good_of_read _ := trivial

theorem bool_faithful : bool.Faithful fun _ => True where
  length_write _ := rfl
  read_write a _ kind offset rest := by
    cases a <;> rfl
  good_of_read _ := trivial

namespace Faithful

variable {c : Codec α} {d : Codec β} {Good : α → Prop} {Fine : β → Prop}

theorem readsBack (hc : c.Faithful Good) {a : α} (ha : Good a) : c.ReadsBack a a :=
  hc.read_write a ha

theorem mono {Good' : α → Prop} (hc : c.Faithful Good) (h : ∀ a, Good a ↔ Good' a) :
    c.Faithful Good' where
  length_write := hc.length_write
  read_write a ha := hc.read_write a ((h a).mpr ha)
  good_of_read hr := (h _).mp (hc.good_of_read hr)

theorem pair (hc : c.Faithful Good) (hd : d.Faithful Fine) :
    (c.pair d).Faithful fun ab => Good ab.1 ∧ Fine ab.2 where
  length_write ab := by simp [Codec.pair, hc.length_write, hd.length_write]
  read_write ab hab := (hc.readsBack hab.1).pair (hd.readsBack hab.2)
  good_of_read h := by
    obtain ⟨a, mid, ha, h⟩ := Reader.runFrom_bind_ok h
    obtain ⟨b, mid', hb, h⟩ := Reader.runFrom_bind_ok h
    obtain ⟨rfl, rfl⟩ : (a, b) = _ ∧ mid' = _ := by simpa using h
    exact ⟨hc.good_of_read ha, hd.good_of_read hb⟩

theorem before {d : Codec Unit} {Fine : Unit → Prop} (hc : c.Faithful Good)
    (hd : d.Faithful Fine) (hu : Fine ()) : (c.before d).Faithful Good where
  length_write a := by simp [Codec.before, hc.length_write, hd.length_write]
  read_write a ha := (hc.readsBack ha).before (hd.readsBack hu)
  good_of_read h := by
    obtain ⟨a, mid, ha, h⟩ := Reader.runFrom_bind_ok h
    obtain ⟨u, mid', _, h⟩ := Reader.runFrom_bind_ok h
    obtain ⟨rfl, rfl⟩ : a = _ ∧ mid' = _ := by simpa using h
    exact hc.good_of_read ha

theorem after {c : Codec Unit} {Good : Unit → Prop} (hd : d.Faithful Fine)
    (hc : c.Faithful Good) (hu : Good ()) : (d.after c).Faithful Fine where
  length_write b := by simp [Codec.after, hc.length_write, hd.length_write]
  read_write b hb kind offset rest := by
    simp only [Codec.after, List.append_assoc]
    rw [Reader.runFrom_bind_of_ok (hc.read_write () hu kind offset _),
      hd.read_write b hb kind _ rest, Nat.add_assoc]
  good_of_read h := by
    obtain ⟨_, mid, _, h⟩ := Reader.runFrom_bind_ok h
    exact hd.good_of_read h

theorem iso {f : α → β} {g : β → α} (hc : c.Faithful Good)
    (hwrite : ∀ b, Fine b → Good (g b) ∧ f (g b) = b) (hread : ∀ a, Good a → Fine (f a)) :
    (c.iso f g).Faithful Fine where
  length_write b := hc.length_write (g b)
  read_write b hb := (hc.readsBack (hwrite b hb).1).iso (hwrite b hb).2
  good_of_read h := by
    obtain ⟨a, mid, ha, h⟩ := Reader.runFrom_bind_ok h
    obtain ⟨rfl, rfl⟩ : f a = _ ∧ mid = _ := by simpa using h
    exact hread a (hc.good_of_read ha)

theorem refine {decode : Nat → α → Except Fault β} {encode : β → α} (hc : c.Faithful Good)
    (hwrite : ∀ b, Fine b → Good (encode b) ∧ ∀ start, decode start (encode b) = .ok b)
    (hread : ∀ start a b, Good a → decode start a = .ok b → Fine b) :
    (c.refine decode encode).Faithful Fine where
  length_write b := hc.length_write (encode b)
  read_write b hb := (hc.readsBack (hwrite b hb).1).refine (hwrite b hb).2
  good_of_read {cursor b cursor'} h := by
    obtain ⟨start, mid, _, h⟩ := Reader.runFrom_bind_ok h
    obtain ⟨a, mid', ha, h⟩ := Reader.runFrom_bind_ok h
    cases hd : decode start.offset a with
    | error fault => simp [hd] at h
    | ok b' =>
      obtain ⟨rfl, rfl⟩ : b' = b ∧ mid' = cursor' := by simpa [hd] using h
      exact hread start.offset a b' (hc.good_of_read ha) hd

theorem check {ok : α → Bool} {fault : α → Fault} (hc : c.Faithful Good) :
    (c.check ok fault).Faithful fun a => Good a ∧ ok a = true := by
  refine hc.refine (fun a ha => ⟨ha.1, fun _ => by simp [ha.2]⟩) fun _ a b ha h => ?_
  cases hok : ok a with
  | false => simp [hok] at h
  | true =>
    obtain rfl : a = b := by simpa [hok] using h
    exact ⟨ha, hok⟩

theorem length_flatMap_write (hc : c.Faithful Good) (items : List α) :
    (items.flatMap c.write).length = items.length * c.size := by
  simp [List.length_flatMap, hc.length_write, List.map_const']

theorem readMany_append (hc : c.Faithful Good) {n : Nat} (values : Vector α n)
    (hgood : ∀ a ∈ values, Good a) (kind : AccountKind) (offset : Nat) (rest : Bytes) :
    (readMany c.read n).runFrom ⟨kind, offset, values.toList.flatMap c.write ++ rest⟩ =
      (.ok values, ⟨kind, offset + n * c.size, rest⟩) := by
  induction n generalizing rest with
  | zero =>
    obtain rfl : values = #v[] := Vector.eq_empty
    simp [readMany]
  | succ n ih =>
    obtain ⟨first, last, rfl⟩ : ∃ first : Vector α n, ∃ last, values = first.push last :=
      ⟨values.pop, values.back, (Vector.push_pop_back values).symm⟩
    have hfirst := ih first (fun a ha => hgood a (Vector.mem_push.mpr (.inl ha)))
      (c.write last ++ rest)
    have hlast := hc.read_write last (hgood last (Vector.mem_push.mpr (.inr rfl))) kind
      (offset + n * c.size) rest
    have hbytes : (first.push last).toList.flatMap c.write ++ rest =
        first.toList.flatMap c.write ++ (c.write last ++ rest) := by
      simp [Vector.toList_push]
    rw [hbytes, readMany, Reader.runFrom_bind_of_ok hfirst, Reader.runFrom_bind_of_ok hlast,
      Reader.runFrom_pure, Nat.succ_mul, Nat.add_assoc]

theorem good_of_readMany (hc : c.Faithful Good) {n : Nat} {values : Vector α n}
    {cursor cursor' : Cursor} (h : (readMany c.read n).runFrom cursor = (.ok values, cursor')) :
    ∀ a ∈ values, Good a := by
  induction n generalizing cursor' with
  | zero =>
    obtain rfl : values = #v[] := Vector.eq_empty
    simp
  | succ n ih =>
    obtain ⟨first, mid, hfirst, h⟩ := Reader.runFrom_bind_ok h
    obtain ⟨last, mid', hlast, h⟩ := Reader.runFrom_bind_ok h
    obtain ⟨rfl, rfl⟩ : first.push last = values ∧ mid' = cursor' := by simpa using h
    intro a ha
    rcases Vector.mem_push.mp ha with ha | rfl
    · exact ih hfirst a ha
    · exact hc.good_of_read hlast

theorem array (hc : c.Faithful Good) (n : Nat) :
    (Codec.array n c).Faithful fun values => ∀ a ∈ values, Good a where
  length_write values := by
    simp [Codec.array, hc.length_flatMap_write]
  read_write values hgood kind offset rest := hc.readMany_append values hgood kind offset rest
  good_of_read h := hc.good_of_readMany h

theorem readMany_list (hc : c.Faithful Good) {n : Nat} {items : List α} (hn : items.length = n)
    (hgood : ∀ a ∈ items, Good a) (kind : AccountKind) (offset : Nat) (rest : Bytes) :
    ∃ values : Vector α n, values.toList = items ∧
      (readMany c.read n).runFrom ⟨kind, offset, items.flatMap c.write ++ rest⟩ =
        (.ok values, ⟨kind, offset + n * c.size, rest⟩) := by
  let values : Vector α n := ⟨items.toArray, by simpa using hn⟩
  have hread := hc.readMany_append values (fun a ha => hgood a (by simpa [values] using ha))
    kind offset rest
  exact ⟨values, rfl, hread⟩

theorem counted {count : Codec α} {size : Nat} {body : α → Reader β} {write : β → Bytes}
    {countOf : β → α} (hcount : count.Faithful Good) (hlength : ∀ b, (write b).length = size)
    (hwrite : ∀ b, Fine b → Good (countOf b) ∧ ∀ kind offset rest,
      (body (countOf b)).runFrom ⟨kind, offset, write b ++ rest⟩ =
        (.ok b, ⟨kind, offset + size, rest⟩))
    (hread : ∀ n, Good n → ∀ cursor b cursor',
      (body n).runFrom cursor = (.ok b, cursor') → Fine b) :
    (Codec.counted count size body write countOf).Faithful Fine where
  length_write b := by simp [Codec.counted, hcount.length_write, hlength]
  read_write b hb kind offset rest := by
    obtain ⟨hgood, hbody⟩ := hwrite b hb
    simp only [Codec.counted, List.append_assoc]
    rw [Reader.runFrom_bind_of_ok (hcount.read_write _ hgood kind offset _), hbody, Nat.add_assoc]
  good_of_read h := by
    obtain ⟨n, mid, hn, h⟩ := Reader.runFrom_bind_ok h
    exact hread n (hcount.good_of_read hn) mid _ _ h

theorem unpack_write (hc : c.Faithful Good) {kind : AccountKind} (hsize : c.size = kind.size)
    {a : α} (ha : Good a) : c.unpack kind (c.write a) = .ok a :=
  (hc.readsBack ha).unpack_write ((hc.length_write a).trans hsize)

theorem good_of_unpack (hc : c.Faithful Good) {kind : AccountKind} {data : Bytes} {a : α}
    (h : c.unpack kind data = .ok a) : Good a := by
  rw [unpack] at h
  split at h
  · obtain ⟨b, mid, hb, h⟩ := Reader.runFrom_bind_ok (Prod.ext h rfl)
    obtain ⟨_, mid', _, h⟩ := Reader.runFrom_bind_ok h
    obtain ⟨rfl, _⟩ : b = a ∧ mid' = _ := by simpa using h
    exact hc.good_of_read hb
  · cases h

end Faithful

theorem u8_faithful : u8.Faithful fun _ => True :=
  (word_faithful 1).iso (fun _ _ => ⟨trivial, rfl⟩) fun _ _ => trivial

theorem u32_faithful : u32.Faithful fun _ => True :=
  (word_faithful 4).iso (fun _ _ => ⟨trivial, rfl⟩) fun _ _ => trivial

theorem u64_faithful : u64.Faithful fun _ => True :=
  (word_faithful 8).iso (fun _ _ => ⟨trivial, rfl⟩) fun _ _ => trivial

theorem i32_faithful : i32.Faithful fun _ => True :=
  (word_faithful 4).iso (fun _ _ => ⟨trivial, rfl⟩) fun _ _ => trivial

theorem i64_faithful : i64.Faithful fun _ => True :=
  (word_faithful 8).iso (fun _ _ => ⟨trivial, rfl⟩) fun _ _ => trivial

theorem u128_faithful : u128.Faithful fun _ => True := word_faithful 16

theorem i128_faithful : i128.Faithful fun _ => True :=
  (word_faithful 16).iso (fun _ _ => ⟨trivial, rfl⟩) fun _ _ => trivial

theorem ofBits_bits (x : Fixed) : Fixed.ofBits x.bits = x := by
  obtain ⟨raw, hlow, hhigh⟩ := x
  simp only [Fixed.bits, Fixed.ofBits, Fixed.mk.injEq]
  exact BitVec.toInt_ofInt_eq_self (by decide) (by simpa using hlow) (by simpa using hhigh)

theorem fixed_faithful : fixed.Faithful fun _ => True :=
  (word_faithful 16).iso (fun x _ => ⟨trivial, ofBits_bits x⟩) fun _ _ => trivial

theorem address_faithful : address.Faithful fun _ => True :=
  (word_faithful 32).iso (fun _ _ => ⟨trivial, rfl⟩) fun _ _ => trivial

end Codec

end Solvency
