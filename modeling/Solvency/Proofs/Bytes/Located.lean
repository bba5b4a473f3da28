import Solvency.Proofs.Bytes.Bits

/-! Codecs seen from a whole payload. At every place of a payload a located codec accepts
what `Accepts` says and reads `value`. The bits that are `Idle` do not count: they are not
looked at, and they are zero when the value is written again. -/

namespace Solvency

def Cursor.into (kind : AccountKind) (x : Bytes) (start : Nat) : Cursor :=
  ⟨kind, start, x.drop start⟩

namespace Reader

variable {α β : Type}

theorem fst_bind_of_error {r : Reader α} {f : α → Reader β} {c : Cursor} {e : LayoutError}
    (h : (r.runFrom c).1 = .error e) : ((r >>= f).runFrom c).1 = .error e := by
  rw [runFrom_bind]
  rcases hr : r.runFrom c with ⟨e' | a, c'⟩
  · simpa [hr] using h
  · simp [hr] at h

theorem runFrom_map_ok {r : Reader α} {f : α → β} {c c' : Cursor} {a : α}
    (h : r.runFrom c = (.ok a, c')) : (f <$> r).runFrom c = (.ok (f a), c') := by
  rw [map_eq_pure_bind, runFrom_bind_of_ok h, runFrom_pure]

theorem fst_map_of_error {r : Reader α} {f : α → β} {c : Cursor} {e : LayoutError}
    (h : (r.runFrom c).1 = .error e) : ((f <$> r).runFrom c).1 = .error e := by
  rw [map_eq_pure_bind]
  exact fst_bind_of_error h

theorem runFrom_take {x : Bytes} {start n : Nat} (h : start + n ≤ x.length) (kind : AccountKind) :
    (take n).runFrom (.into kind x start) =
      (.ok ((x.drop start).take n), .into kind x (start + n)) := by
  have hlength : ((x.drop start).take n).length = n := by
    rw [List.length_take, List.length_drop]
    omega
  have hread := runFrom_take_append kind start ((x.drop start).drop n) hlength
  rwa [List.take_append_drop, List.drop_drop] at hread

end Reader

namespace Codec

variable {α β : Type}

structure Located (c : Codec α) (Accepts : Bytes → Nat → Prop) (Idle : Bytes → Nat → Nat → Prop)
    (value : Bytes → Nat → α) : Prop where
  length_write : ∀ a, (c.write a).length = c.size
  idle_within : ∀ {x start p}, Idle x start p → InBytes start c.size p
  reads : ∀ {x start}, start + c.size ≤ x.length → Accepts x start → ∀ kind,
    c.read.runFrom (.into kind x start) = (.ok (value x start), .into kind x (start + c.size))
  refuses : ∀ {x start}, start + c.size ≤ x.length → ¬Accepts x start → ∀ kind,
    ∃ fault offset, (c.read.runFrom (.into kind x start)).1 = .error (.malformed kind fault offset)
  rewrites : ∀ {x start}, start + c.size ≤ x.length → Accepts x start →
    Masked x start (Idle x start) (c.write (value x start))
  stable : ∀ {x y start}, start + c.size ≤ x.length → start + c.size ≤ y.length →
    Accepts x start →
    (∀ p, InBytes start c.size p → ¬Idle x start p → bit x p = bit y p) →
      Accepts y start ∧ value y start = value x start ∧ ∀ p, Idle y start p ↔ Idle x start p

/-- A stretch of bytes in which all bits count. -/
theorem located_of_window {c : Codec α} {A : Bytes → Prop} {v : Bytes → α}
    (length_write : ∀ a, (c.write a).length = c.size)
    (reads : ∀ {x start}, start + c.size ≤ x.length → A ((x.drop start).take c.size) →
      ∀ kind, c.read.runFrom (.into kind x start) =
        (.ok (v ((x.drop start).take c.size)), .into kind x (start + c.size)))
    (refuses : ∀ {x start}, start + c.size ≤ x.length → ¬A ((x.drop start).take c.size) →
      ∀ kind, ∃ fault offset,
        (c.read.runFrom (.into kind x start)).1 = .error (.malformed kind fault offset))
    (write_value : ∀ w, w.length = c.size → A w → c.write (v w) = w) :
    c.Located (fun x start => A ((x.drop start).take c.size)) (fun _ _ _ => False)
      (fun x start => v ((x.drop start).take c.size)) where
  length_write := length_write
  idle_within := False.elim
  reads := reads
  refuses := refuses
  rewrites {x start} hx ha := by
    have hlength : ((x.drop start).take c.size).length = c.size := by
      rw [List.length_take, List.length_drop]
      omega
    rw [write_value _ hlength ha]
    exact .of_window hx fun _ _ => id
  stable {x y start} hx hy ha hbits := by
    have hwindow := window_eq_of_bits hx hy fun p hlow hhigh => hbits p ⟨hlow, hhigh⟩ id
    rw [← hwindow]
    exact ⟨ha, rfl, fun _ => Iff.rfl⟩

theorem word_located (n : Nat) : (word n).Located (fun _ _ => True) (fun _ _ _ => False)
    (fun x start => BitVec.ofNat (8 * n) (natAt x start n)) := by
  refine located_of_window (A := fun _ => True)
    (v := fun w => BitVec.ofNat (8 * n) (ofLittleEndian w)) (word_faithful n).length_write
    (fun hx _ kind => Reader.runFrom_bind_of_ok (Reader.runFrom_take (n := n) hx kind))
    (fun _ h => absurd trivial h) fun w hw _ => ?_
  have hlt : ofLittleEndian w < 2 ^ (8 * n) := by
    have hbound := ofLittleEndian_lt w
    rw [hw] at hbound
    rwa [Nat.pow_mul]
  have hback := littleEndian_ofLittleEndian w
  rw [hw] at hback
  simpa [word, Nat.mod_eq_of_lt hlt] using hback

theorem marker_located (bytes : Bytes) (what : String) :
    (marker bytes what).Located (fun x start => (x.drop start).take bytes.length = bytes)
      (fun _ _ _ => False) (fun _ _ => ()) := by
  refine located_of_window (A := (· = bytes)) (v := fun _ => ())
    (marker_faithful bytes what).length_write (fun hx ha kind => ?_)
    (fun {x start} hx ha kind => ⟨.badMarker what, start, ?_⟩) fun _ _ ha => ha.symm
  · rw [marker, Reader.expect, Reader.runFrom_bind_of_ok (Reader.runFrom_get _),
      Reader.runFrom_bind_of_ok (Reader.runFrom_take (n := bytes.length) hx kind)]
    exact congrArg (Reader.runFrom · _) (if_pos ha)
  · rw [marker, Reader.expect, Reader.runFrom_bind_of_ok (Reader.runFrom_get _),
      Reader.runFrom_bind_of_ok (Reader.runFrom_take (n := bytes.length) hx kind)]
    exact congrArg (Prod.fst <| Reader.runFrom · _) (if_neg ha)

theorem blank_located (n : Nat) : (blank n).Located (fun _ _ => True)
    (fun _ start p => InBytes start n p) (fun _ _ => ()) where
  length_write := (blank_faithful n).length_write
  idle_within := id
  reads hx _ kind := Reader.runFrom_bind_of_ok (Reader.runFrom_take (n := n) hx kind)
  refuses _ h := absurd trivial h
  rewrites _ _ := .of_zero (bit_replicate_zero n) fun p hp => by
    simpa only [blank, List.length_replicate] using hp
  stable _ _ _ _ := ⟨trivial, rfl, fun _ => Iff.rfl⟩

namespace Located

variable {c : Codec α} {d : Codec β} {A A' B : Bytes → Nat → Prop}
  {I I' J : Bytes → Nat → Nat → Prop} {v v' : Bytes → Nat → α} {w : Bytes → Nat → β}

theorem congr (hc : c.Located A I v) (ha : ∀ x start, A x start ↔ A' x start)
    (hi : ∀ x start p, I x start p ↔ I' x start p) (hv : ∀ x start, v x start = v' x start) :
    c.Located A' I' v' := by
  obtain rfl : A = A' := funext fun x => funext fun start => propext (ha x start)
  obtain rfl : I = I' := funext fun x => funext fun start => funext fun p => propext (hi x start p)
  obtain rfl : v = v' := funext fun x => funext fun start => hv x start
  exact hc

/-- Writing back a value in which every bit counts, somewhere outside a hole. -/
theorem kept {hole : Nat → Prop} {x : Bytes} {start : Nat} (hc : c.Located A (fun _ _ _ => False) v)
    (hx : start + c.size ≤ x.length) (ha : A x start)
    (hhole : ∀ p, InBytes start c.size p → ¬hole p) : Masked x start hole (c.write (v x start)) :=
  (hc.rewrites hx ha).congr fun p hp => by
    rw [hc.length_write] at hp
    simp [hhole p hp]

section Cells

variable {n : Nat} {free : Nat → Prop} {cell : Nat → Nat → Prop}

theorem not_free_of_taken
    (hunique : ∀ s k p, s < n → k < n → cell s p → cell k p → s = k) {k p : Nat}
    (hk : k < n) (htaken : ¬free k) (hp : cell k p) : ¬∃ s < n, free s ∧ cell s p := by
  rintro ⟨s, hs, hfree, hcell⟩
  obtain rfl : s = k := hunique s k p hs hk hcell hp
  exact htaken hfree

/-- Part of a cell: zero is written where the cell is free, else it is written back whole. -/
theorem masked_cell [DecidablePred free] {x : Bytes} {start k : Nat} {zero : α}
    (hc : c.Located A (fun _ _ _ => False) v)
    (hunique : ∀ s k p, s < n → k < n → cell s p → cell k p → s = k)
    (hx : start + c.size ≤ x.length) (ha : A x start) (hzero : ∀ p, bit (c.write zero) p = false)
    (hk : k < n) (hcell : ∀ p, InBytes start c.size p → cell k p) :
    Masked x start (fun p => ∃ s < n, free s ∧ cell s p)
      (c.write (if free k then zero else v x start)) := by
  split
  case isTrue hfree =>
    refine .of_zero hzero fun p hp => ⟨k, hk, hfree, hcell p ?_⟩
    rwa [hc.length_write] at hp
  case isFalse htaken =>
    exact hc.kept hx ha fun p hp => not_free_of_taken hunique hk htaken (hcell p hp)

end Cells

theorem masked_pair {hole : Nat → Prop} {x : Bytes} {start : Nat} {a : α} {b : β}
    (hc : c.Located A I v) (ha : Masked x start hole (c.write a))
    (hb : Masked x (start + c.size) hole (d.write b)) :
    Masked x start hole ((c.pair d).write (a, b)) :=
  ha.append (by rwa [hc.length_write])

theorem masked_array {hole : Nat → Prop} {x : Bytes} {start n : Nat} {item : Fin n → α}
    (hc : c.Located A I v)
    (h : ∀ k : Fin n, Masked x (start + k * c.size) hole (c.write (item k))) :
    Masked x start hole ((array n c).write (Vector.ofFn item)) := by
  refine .flatMap hc.length_write fun k hk => ?_
  have hk : k < n := by simpa using hk
  simpa only [Vector.getElem_toList, Vector.getElem_ofFn] using h ⟨k, hk⟩

/-- The same bytes under another type. -/
theorem reshape {f : α → β} (hc : c.Located A I v) (hsize : d.size = c.size)
    (hlength : ∀ b, (d.write b).length = d.size) (hread : d.read = f <$> c.read)
    (hwrite : ∀ x start, A x start → d.write (f (v x start)) = c.write (v x start)) :
    d.Located A I (fun x start => f (v x start)) where
  length_write := hlength
  idle_within h := hsize ▸ hc.idle_within h
  reads hx ha kind := by
    rw [hread, hsize]
    exact Reader.runFrom_map_ok (hc.reads (hsize ▸ hx) ha kind)
  refuses hx ha kind := by
    obtain ⟨fault, offset, h⟩ := hc.refuses (hsize ▸ hx) ha kind
    exact ⟨fault, offset, by rw [hread]; exact Reader.fst_map_of_error h⟩
  rewrites hx ha := by
    rw [hwrite _ _ ha]
    exact hc.rewrites (hsize ▸ hx) ha
  stable hx hy ha hbits := by
    obtain ⟨hy', hvalue, hidle⟩ := hc.stable (hsize ▸ hx) (hsize ▸ hy) ha (hsize ▸ hbits)
    exact ⟨hy', by rw [hvalue], hidle⟩

theorem iso {f : α → β} {g : β → α} (hc : c.Located A I v)
    (hback : ∀ x start, A x start → g (f (v x start)) = v x start) :
    (c.iso f g).Located A I (fun x start => f (v x start)) :=
  hc.reshape rfl (fun b => hc.length_write (g b)) (map_eq_pure_bind _ _).symm
    fun x start ha => congrArg c.write (hback x start ha)

theorem pair (hc : c.Located A I v) (hd : d.Located B J w) :
    (c.pair d).Located (fun x start => A x start ∧ B x (start + c.size))
      (fun x start p => I x start p ∨ J x (start + c.size) p)
      (fun x start => (v x start, w x (start + c.size))) where
  length_write ab := by simp [Codec.pair, hc.length_write, hd.length_write]
  idle_within {x start p} h := by
    have hsize : (c.pair d).size = c.size + d.size := rfl
    rcases h with h | h
    · have := hc.idle_within h
      simp only [InBytes] at *
      omega
    · have := hd.idle_within h
      simp only [InBytes] at *
      omega
  reads {x start} hx ha kind := by
    have hsize : (c.pair d).size = c.size + d.size := rfl
    rw [Codec.pair, Reader.runFrom_bind_of_ok (hc.reads (by omega) ha.1 kind),
      Reader.runFrom_bind_of_ok (hd.reads (by omega) ha.2 kind), Reader.runFrom_pure, Nat.add_assoc]
  refuses {x start} hx ha kind := by
    have hsize : (c.pair d).size = c.size + d.size := rfl
    rw [Codec.pair]
    by_cases hfirst : A x start
    · obtain ⟨fault, offset, h⟩ := hd.refuses (by omega) (fun hb => ha ⟨hfirst, hb⟩) kind
      refine ⟨fault, offset, ?_⟩
      rw [Reader.runFrom_bind_of_ok (hc.reads (by omega) hfirst kind)]
      exact Reader.fst_bind_of_error h
    · obtain ⟨fault, offset, h⟩ := hc.refuses (by omega) hfirst kind
      exact ⟨fault, offset, Reader.fst_bind_of_error h⟩
  rewrites {x start} hx ha := by
    have hsize : (c.pair d).size = c.size + d.size := rfl
    have hfirst := hc.rewrites (by omega) ha.1
    have hsecond := hd.rewrites (by omega) ha.2
    refine hc.masked_pair (hfirst.congr fun p hp => ?_) (hsecond.congr fun p hp => ?_)
    · rw [hc.length_write] at hp
      refine ⟨.inl, fun h => h.resolve_right fun hj => ?_⟩
      have := (hd.idle_within hj).1
      have := hp.2
      omega
    · refine ⟨.inr, fun h => h.resolve_left fun hi => ?_⟩
      have := (hc.idle_within hi).2
      have := hp.1
      omega
  stable {x y start} hx hy ha hbits := by
    have hsize : (c.pair d).size = c.size + d.size := rfl
    obtain ⟨hl, hlv, hli⟩ := hc.stable (y := y) (by omega) (by omega) ha.1 fun p hp hidle => by
      refine hbits p ⟨hp.1, by have := hp.2; omega⟩ (not_or.mpr ⟨hidle, fun h => ?_⟩)
      have := (hd.idle_within h).1
      have := hp.2
      omega
    obtain ⟨hm, hmv, hmi⟩ := hd.stable (y := y) (by omega) (by omega) ha.2 fun p hp hidle => by
      refine hbits p ⟨by have := hp.1; omega, by have := hp.2; omega⟩
        (not_or.mpr ⟨fun h => ?_, hidle⟩)
      have := (hc.idle_within h).2
      have := hp.1
      omega
    exact ⟨⟨hl, hm⟩, by rw [hlv, hmv], fun p => by rw [hli, hmi]⟩

theorem before {d : Codec Unit} {w : Bytes → Nat → Unit} (hc : c.Located A I v)
    (hd : d.Located B J w) :
    (c.before d).Located (fun x start => A x start ∧ B x (start + c.size))
      (fun x start p => I x start p ∨ J x (start + c.size) p) v := by
  have hlength (a : α) : ((c.before d).write a).length = (c.before d).size := by
    simp [Codec.before, hc.length_write, hd.length_write]
  have hread : (c.before d).read = Prod.fst <$> (c.pair d).read := by
    simp [Codec.before, Codec.pair]
  exact (hc.pair hd).reshape (f := Prod.fst) rfl hlength hread fun _ _ _ => rfl

theorem after {c : Codec Unit} {v : Bytes → Nat → Unit} (hd : d.Located B J w)
    (hc : c.Located A I v) :
    (d.after c).Located (fun x start => A x start ∧ B x (start + c.size))
      (fun x start p => I x start p ∨ J x (start + c.size) p)
      (fun x start => w x (start + c.size)) := by
  have hlength (b : β) : ((d.after c).write b).length = (d.after c).size := by
    simp [Codec.after, hc.length_write, hd.length_write]
  have hread : (d.after c).read = Prod.snd <$> (c.pair d).read := by
    simp [Codec.after, Codec.pair]
  exact (hc.pair hd).reshape (f := Prod.snd) rfl hlength hread fun _ _ _ => rfl

/-- Values that only some readings give, each written back as it was read. -/
theorem refine {decode : Nat → α → Except Fault β} {encode : β → α} {P : α → Prop} {f : α → β}
    (hc : c.Located A I v) (htakes : ∀ a, P a → ∀ start, decode start a = .ok (f a))
    (hrejects : ∀ a, ¬P a → ∀ start, ∃ fault, decode start a = .error fault)
    (hback : ∀ a, P a → encode (f a) = a) :
    (c.refine decode encode).Located (fun x start => A x start ∧ P (v x start)) I
      (fun x start => f (v x start)) where
  length_write b := hc.length_write (encode b)
  idle_within := hc.idle_within
  reads {x start} hx ha kind := by
    rw [Codec.refine, Reader.runFrom_bind_of_ok (Reader.runFrom_get _),
      Reader.runFrom_bind_of_ok (hc.reads hx ha.1 kind)]
    simp [htakes _ ha.2]
  refuses {x start} hx ha kind := by
    rw [Codec.refine, Reader.runFrom_bind_of_ok (Reader.runFrom_get _)]
    by_cases hfirst : A x start
    · obtain ⟨fault, h⟩ := hrejects (v x start) (fun hok => ha ⟨hfirst, hok⟩) start
      have hoffset : (Cursor.into kind x start).offset = start := rfl
      refine ⟨fault, start + c.size, ?_⟩
      rw [Reader.runFrom_bind_of_ok (hc.reads hx hfirst kind), hoffset, h]
      rfl
    · obtain ⟨fault, offset, h⟩ := hc.refuses hx hfirst kind
      exact ⟨fault, offset, Reader.fst_bind_of_error h⟩
  rewrites {x start} hx ha := by
    simp only [Codec.refine, hback _ ha.2]
    exact hc.rewrites hx ha.1
  stable hx hy ha hbits := by
    obtain ⟨hy', hvalue, hidle⟩ := hc.stable hx hy ha.1 hbits
    exact ⟨⟨hy', hvalue ▸ ha.2⟩, by rw [hvalue], hidle⟩

theorem check {ok : α → Bool} {fault : α → Fault} (hc : c.Located A I v) :
    (c.check ok fault).Located (fun x start => A x start ∧ ok (v x start) = true) I v :=
  hc.refine (P := (ok · = true)) (f := id) (fun a hok _ => by simp [hok])
    (fun a hok _ => ⟨fault a, by simp [hok]⟩) fun _ _ => rfl

section Array

theorem cell_le {k n : Nat} (hk : k < n) (size : Nat) : k * size + size ≤ n * size := by
  rw [← Nat.succ_mul]
  exact Nat.mul_le_mul_right size hk

theorem cell_unique {start size j k p : Nat} (hj : InBytes (start + j * size) size p)
    (hk : InBytes (start + k * size) size p) : j = k := by
  simp only [InBytes] at hj hk
  rcases Nat.lt_trichotomy j k with hlt | heq | hlt
  · have := cell_le hlt size
    omega
  · exact heq
  · have := cell_le hlt size
    omega

theorem runFrom_readMany (hc : c.Located A I v) {x : Bytes} {start n : Nat}
    (hx : start + n * c.size ≤ x.length) (ha : ∀ k < n, A x (start + k * c.size))
    (kind : AccountKind) :
    (readMany c.read n).runFrom (.into kind x start) =
      (.ok (Vector.ofFn fun k : Fin n => v x (start + k * c.size)),
        .into kind x (start + n * c.size)) := by
  induction n with
  | zero => simp [readMany]
  | succ n ih =>
    have hsize : (n + 1) * c.size = n * c.size + c.size := Nat.succ_mul n c.size
    have hlast := hc.reads (by omega) (ha n (Nat.lt_succ_self n)) kind
    rw [readMany, Reader.runFrom_bind_of_ok (ih (by omega) fun k hk => ha k (by omega)),
      Reader.runFrom_bind_of_ok hlast, Reader.runFrom_pure, hsize, Nat.add_assoc, Vector.ofFn_succ]
    rfl

theorem fst_readMany_of_refuses (hc : c.Located A I v) {x : Bytes} {start n : Nat}
    (hx : start + n * c.size ≤ x.length) (ha : ¬∀ k < n, A x (start + k * c.size))
    (kind : AccountKind) : ∃ fault offset,
      ((readMany c.read n).runFrom (.into kind x start)).1 =
        .error (.malformed kind fault offset) := by
  induction n with
  | zero => simp at ha
  | succ n ih =>
    have hsize : (n + 1) * c.size = n * c.size + c.size := Nat.succ_mul n c.size
    by_cases hfirst : ∀ k < n, A x (start + k * c.size)
    · have hlast : ¬A x (start + n * c.size) := fun h => ha fun k hk => by
        rcases Nat.lt_succ_iff_lt_or_eq.mp hk with hk | rfl
        · exact hfirst k hk
        · exact h
      obtain ⟨fault, offset, h⟩ := hc.refuses (by omega) hlast kind
      refine ⟨fault, offset, ?_⟩
      rw [readMany, Reader.runFrom_bind_of_ok (hc.runFrom_readMany (by omega) hfirst kind)]
      exact Reader.fst_bind_of_error h
    · obtain ⟨fault, offset, h⟩ := ih (by omega) hfirst
      exact ⟨fault, offset, Reader.fst_bind_of_error h⟩

theorem array (hc : c.Located A I v) (n : Nat) :
    (Codec.array n c).Located (fun x start => ∀ k < n, A x (start + k * c.size))
      (fun x start p => ∃ k < n, I x (start + k * c.size) p)
      (fun x start => Vector.ofFn fun k : Fin n => v x (start + k * c.size)) where
  length_write values := by
    simp [Codec.array, List.length_flatMap, hc.length_write, List.map_const']
  idle_within {x start p} h := by
    obtain ⟨k, hk, h⟩ := h
    have hcell := cell_le hk c.size
    have hsize : (Codec.array n c).size = n * c.size := rfl
    have hwithin := hc.idle_within h
    simp only [InBytes] at *
    omega
  reads hx ha kind := hc.runFrom_readMany hx ha kind
  refuses hx ha kind := hc.fst_readMany_of_refuses hx ha kind
  rewrites {x start} hx ha := by
    have hsize : (Codec.array n c).size = n * c.size := rfl
    refine hc.masked_array fun k => ?_
    have hcell := cell_le k.isLt c.size
    have hbits := hc.rewrites (by omega) (ha k k.isLt)
    refine hbits.congr fun p hp => ⟨fun h => ⟨k, k.isLt, h⟩, ?_⟩
    rintro ⟨j, hj, h⟩
    -- No other cell reaches the bits of cell `k`.
    rw [hc.length_write] at hp
    obtain rfl : j = k := cell_unique (hc.idle_within h) hp
    exact h
  stable {x y start} hx hy ha hbits := by
    have hsize : (Codec.array n c).size = n * c.size := rfl
    have hcells (k : Nat) (hk : k < n) : A y (start + k * c.size) ∧
        v y (start + k * c.size) = v x (start + k * c.size) ∧
        ∀ p, I y (start + k * c.size) p ↔ I x (start + k * c.size) p := by
      have hcell := cell_le hk c.size
      refine hc.stable (by omega) (by omega) (ha k hk) fun p hp hidle => hbits p ?_ ?_
      · simp only [InBytes] at *
        omega
      · rintro ⟨j, hj, h⟩
        obtain rfl : j = k := cell_unique (hc.idle_within h) hp
        exact hidle h
    refine ⟨fun k hk => (hcells k hk).1, ?_, fun p => ?_⟩
    · exact congrArg Vector.ofFn (funext fun k => (hcells k k.isLt).2.1)
    · exact exists_congr fun k => and_congr_right fun hk => (hcells k hk).2.2 p

end Array

/-- A count and what it counts, when for each accepted count the rest is located. -/
theorem counted {count : Codec α} {size : Nat} {body : α → Reader β} {write : β → Bytes}
    {countOf : β → α} {B : α → Bytes → Nat → Prop} {J : α → Bytes → Nat → Nat → Prop}
    {w : α → Bytes → Nat → β} (hc : count.Located A I v)
    (hd : ∀ {x start}, A x start → (Codec.mk size (body (v x start)) write).Located
      (B (v x start)) (J (v x start)) (w (v x start)))
    (hcount : ∀ {x start}, A x start → ∀ y o, countOf (w (v x start) y o) = v x start)
    (hlength : ∀ b, (write b).length = size) :
    (Codec.counted count size body write countOf).Located
      (fun x start => A x start ∧ B (v x start) x (start + count.size))
      (fun x start p => A x start ∧ (I x start p ∨ J (v x start) x (start + count.size) p))
      (fun x start => w (v x start) x (start + count.size)) := by
  have hwhole : (Codec.counted count size body write countOf).size = count.size + size := rfl
  constructor
  case length_write => exact fun b => by simp [Codec.counted, hc.length_write, hlength]
  case idle_within => exact fun h => (hc.pair (hd h.1)).idle_within h.2
  case reads =>
    intro x start hx ha kind
    have hrest := (hd ha.1).reads (by simp only; omega) ha.2 kind
    rw [Codec.counted, Reader.runFrom_bind_of_ok (hc.reads (by omega) ha.1 kind), hrest,
      Nat.add_assoc]
  case refuses =>
    intro x start hx ha kind
    rw [Codec.counted]
    by_cases hfirst : A x start
    · obtain ⟨fault, offset, h⟩ :=
        (hd hfirst).refuses (by simp only; omega) (fun hb => ha ⟨hfirst, hb⟩) kind
      refine ⟨fault, offset, ?_⟩
      rw [Reader.runFrom_bind_of_ok (hc.reads (by omega) hfirst kind)]
      exact h
    · obtain ⟨fault, offset, h⟩ := hc.refuses (by omega) hfirst kind
      exact ⟨fault, offset, Reader.fst_bind_of_error h⟩
  case rewrites =>
    intro x start hx ha
    have hbits := (hc.pair (hd ha.1)).rewrites hx ha
    simp only [Codec.counted, hcount ha.1, ha.1, true_and]
    exact hbits
  case stable =>
    intro x y start hx hy ha hbits
    obtain ⟨hy', hvalue, hidle⟩ := (hc.pair (hd ha.1)).stable (y := y) hx hy ha
      fun p hp hidle => hbits p hp fun h => hidle h.2
    obtain ⟨hcount, hrest⟩ := Prod.mk.inj hvalue
    rw [hcount]
    exact ⟨hy', hrest, fun p => by simp only [hy'.1, ha.1, true_and, hidle]⟩

theorem unpack_of_accepts (hc : c.Located A I v) {kind : AccountKind} (hsize : c.size = kind.size)
    {x : Bytes} (hlength : x.length = kind.size) (ha : A x 0) :
    c.unpack kind x = .ok (v x 0) := by
  have hread : c.read.runFrom (.into kind x 0) = (.ok (v x 0), .into kind x (0 + c.size)) :=
    hc.reads (by omega) ha kind
  have hrest : x.drop c.size = [] := List.drop_eq_nil_of_le (by omega)
  rw [Cursor.into, List.drop_zero] at hread
  rw [unpack, if_pos hlength, Cursor.start, Reader.runFrom_bind_of_ok hread]
  simp [Reader.finish, Cursor.into, hrest, Reader.runFrom_bind]

theorem unpack_of_not_accepts (hc : c.Located A I v) {kind : AccountKind}
    (hsize : c.size = kind.size) {x : Bytes} (h : ¬(x.length = kind.size ∧ A x 0)) :
    ∃ e, c.unpack kind x = .error e ∧ e.kind? = some kind := by
  by_cases hlength : x.length = kind.size
  · obtain ⟨fault, offset, hread⟩ : ∃ fault offset,
        (c.read.runFrom (.into kind x 0)).1 = .error (.malformed kind fault offset) :=
      hc.refuses (by omega) (fun ha => h ⟨hlength, ha⟩) kind
    rw [Cursor.into, List.drop_zero] at hread
    refine ⟨.malformed kind fault offset, ?_, rfl⟩
    rw [unpack, if_pos hlength, Cursor.start]
    exact Reader.fst_bind_of_error hread
  · exact ⟨.wrongLength kind x.length, if_neg hlength, rfl⟩

end Located

section Leaves

theorem u8_located : u8.Located (fun _ _ => True) (fun _ _ _ => False)
    (fun x start => UInt8.ofNat (natAt x start 1)) := (word_located 1).iso fun _ _ _ => rfl

theorem u32_located : u32.Located (fun _ _ => True) (fun _ _ _ => False)
    (fun x start => UInt32.ofNat (natAt x start 4)) := (word_located 4).iso fun _ _ _ => rfl

theorem u64_located : u64.Located (fun _ _ => True) (fun _ _ _ => False)
    (fun x start => UInt64.ofNat (natAt x start 8)) := (word_located 8).iso fun _ _ _ => rfl

theorem i32_located : i32.Located (fun _ _ => True) (fun _ _ _ => False)
    (fun x start => Int32.ofBitVec (BitVec.ofNat 32 (natAt x start 4))) :=
  (word_located 4).iso fun _ _ _ => rfl

theorem i64_located : i64.Located (fun _ _ => True) (fun _ _ _ => False)
    (fun x start => Int64.ofBitVec (BitVec.ofNat 64 (natAt x start 8))) :=
  (word_located 8).iso fun _ _ _ => rfl

theorem u128_located : u128.Located (fun _ _ => True) (fun _ _ _ => False)
    (fun x start => BitVec.ofNat 128 (natAt x start 16)) := word_located 16

theorem i128_located : i128.Located (fun _ _ => True) (fun _ _ _ => False)
    (fun x start => Int128.mk (BitVec.ofNat 128 (natAt x start 16))) :=
  (word_located 16).iso fun _ _ _ => rfl

theorem fixed_located : fixed.Located (fun _ _ => True) (fun _ _ _ => False)
    (fun x start => Fixed.ofBits (BitVec.ofNat 128 (natAt x start 16))) :=
  (word_located 16).iso fun _ _ _ => BitVec.ofInt_toInt

theorem address_located : address.Located (fun _ _ => True) (fun _ _ _ => False)
    (fun x start => Address.mk (BitVec.ofNat 256 (natAt x start 32))) :=
  (word_located 32).iso fun _ _ _ => rfl

theorem runFrom_bool {x : Bytes} {start : Nat} (hx : start + 1 ≤ x.length) (kind : AccountKind) :
    bool.read.runFrom (.into kind x start) =
      if natAt x start 1 = 0 then (.ok false, .into kind x (start + 1))
      else if natAt x start 1 = 1 then (.ok true, .into kind x (start + 1))
      else (.error (.malformed kind (.invalidBool (UInt8.ofNat (natAt x start 1))) start),
        .into kind x start) := by
  have hbyte : natAt x start 1 < 256 := natAt_lt x start 1
  have hfound (n : UInt8) (hn : UInt8.ofNat (natAt x start 1) = n) :
      natAt x start 1 = n.toNat := by
    rw [← hn, UInt8.toNat_ofNat', Nat.mod_eq_of_lt hbyte]
  rw [bool, Reader.runFrom_bind_of_ok (Reader.runFrom_get _),
    Reader.runFrom_bind_of_ok (u8_located.reads hx trivial kind)]
  split
  · rename_i h
    have hzero : natAt x start 1 = 0 := hfound 0 h
    rw [if_pos hzero]
    rfl
  · rename_i h
    have hone : natAt x start 1 = 1 := hfound 1 h
    rw [if_neg (by omega), if_pos hone]
    rfl
  · rename_i h0 h1
    rw [if_neg fun h => h0 (by rw [h]; rfl), if_neg fun h => h1 (by rw [h]; rfl)]
    rfl

theorem bool_located : bool.Located (fun x start => natAt x start 1 ≤ 1) (fun _ _ _ => False)
    (fun x start => natAt x start 1 == 1) := by
  refine located_of_window (A := (ofLittleEndian · ≤ 1)) (v := (ofLittleEndian · == 1))
    bool_faithful.length_write (fun {x start} hx ha kind => ?_)
    (fun {x start} hx ha kind => ⟨.invalidBool (UInt8.ofNat (natAt x start 1)), start, ?_⟩)
    fun w hw ha => ?_
  · have hread := runFrom_bool hx kind
    have hsmall : natAt x start 1 = 0 ∨ natAt x start 1 = 1 :=
      Nat.le_one_iff_eq_zero_or_eq_one.mp ha
    show _ = (Except.ok (natAt x start 1 == 1), _)
    rcases hsmall with h | h
    · rw [hread, if_pos h, h]
      rfl
    · rw [hread, if_neg (by omega), if_pos h, h]
      rfl
  · have hlarge : 1 < natAt x start 1 := Nat.lt_of_not_le ha
    rw [runFrom_bool hx kind, if_neg (by omega), if_neg (by omega)]
  · obtain ⟨b, rfl⟩ := List.length_eq_one_iff.mp hw
    have hb : b.toNat ≤ 1 := ha
    rcases Nat.le_one_iff_eq_zero_or_eq_one.mp hb with h | h
    · obtain rfl : b = 0 := UInt8.toNat_inj.mp h
      rfl
    · obtain rfl : b = 1 := UInt8.toNat_inj.mp h
      rfl

end Leaves

section Sizes

@[simp] theorem size_pair (c : Codec α) (d : Codec β) : (c.pair d).size = c.size + d.size := rfl

@[simp] theorem size_before (c : Codec α) (d : Codec Unit) :
    (c.before d).size = c.size + d.size := rfl

@[simp] theorem size_after (d : Codec α) (c : Codec Unit) :
    (d.after c).size = c.size + d.size := rfl

@[simp] theorem size_iso (c : Codec α) (f : α → β) (g : β → α) : (c.iso f g).size = c.size := rfl

@[simp] theorem size_refine (c : Codec α) (decode : Nat → α → Except Fault β) (encode : β → α) :
    (c.refine decode encode).size = c.size := rfl

@[simp] theorem size_check (c : Codec α) (ok : α → Bool) (fault : α → Fault) :
    (c.check ok fault).size = c.size := rfl

@[simp] theorem size_array (n : Nat) (c : Codec α) : (array n c).size = n * c.size := rfl

@[simp] theorem size_blank (n : Nat) : (blank n).size = n := rfl

@[simp] theorem size_u8 : u8.size = 1 := rfl

@[simp] theorem size_u32 : u32.size = 4 := rfl

@[simp] theorem size_u64 : u64.size = 8 := rfl

@[simp] theorem size_i32 : i32.size = 4 := rfl

@[simp] theorem size_i64 : i64.size = 8 := rfl

@[simp] theorem size_u128 : u128.size = 16 := rfl

@[simp] theorem size_i128 : i128.size = 16 := rfl

@[simp] theorem size_fixed : fixed.size = 16 := rfl

@[simp] theorem size_address : address.size = 32 := rfl

@[simp] theorem size_bool : bool.size = 1 := rfl

end Sizes

end Codec

end Solvency
