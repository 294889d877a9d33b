import Mathlib.Tactic

set_option autoImplicit false

/-!
# Reflected cyclic redundancy checks

A register of `w` bits is shifted toward its low end once for each message bit, and the
generator is added when a one falls out. The step is linear over exclusive or, and
injective when the generator has its top bit set; both together give the detection of
every error burst that is no longer than the register.
-/
namespace SpVision.ReflectedCrc

variable {w : ℕ} (poly : BitVec w)

def shift (c : BitVec w) : BitVec w := if c.getLsbD 0 then (c >>> 1) ^^^ poly else c >>> 1

def bit (c : BitVec w) (b : Bool) : BitVec w := shift poly (c ^^^ BitVec.setWidth w (BitVec.ofBool b))

def feed (c : BitVec w) (message : List Bool) : BitVec w := message.foldl (bit poly) c

@[simp] theorem feed_nil (c : BitVec w) : feed poly c [] = c := rfl

@[simp] theorem feed_cons (c : BitVec w) (b : Bool) (message : List Bool) :
    feed poly c (b :: message) = feed poly (bit poly c b) message := rfl

theorem feed_append (c : BitVec w) (xs ys : List Bool) :
    feed poly c (xs ++ ys) = feed poly (feed poly c xs) ys := List.foldl_append

/-! ### Linearity -/

theorem shift_xor (c d : BitVec w) : shift poly (c ^^^ d) = shift poly c ^^^ shift poly d := by
  unfold shift
  rw [BitVec.getLsbD_xor, BitVec.ushiftRight_xor_distrib]
  cases c.getLsbD 0 <;> cases d.getLsbD 0
  · rfl
  · exact BitVec.xor_assoc _ _ _
  · change c >>> 1 ^^^ d >>> 1 ^^^ poly = c >>> 1 ^^^ poly ^^^ d >>> 1
    ac_rfl
  · have hcancel : poly ^^^ poly = 0#w := BitVec.xor_self
    change c >>> 1 ^^^ d >>> 1 = c >>> 1 ^^^ poly ^^^ (d >>> 1 ^^^ poly)
    calc
      c >>> 1 ^^^ d >>> 1 = c >>> 1 ^^^ d >>> 1 ^^^ (poly ^^^ poly) := by rw [hcancel, BitVec.xor_zero]
      _ = c >>> 1 ^^^ poly ^^^ (d >>> 1 ^^^ poly) := by ac_rfl

theorem shift_zero : shift poly 0#w = 0#w := by
  simp [shift]

theorem bit_xor (c d : BitVec w) (a b : Bool) :
    bit poly (c ^^^ d) (a ^^ b) = bit poly c a ^^^ bit poly d b := by
  have hinput : BitVec.setWidth w (BitVec.ofBool (a ^^ b)) =
      BitVec.setWidth w (BitVec.ofBool a) ^^^ BitVec.setWidth w (BitVec.ofBool b) := by
    rw [← BitVec.setWidth_xor, BitVec.ofBool_xor_ofBool]
  unfold bit
  rw [hinput, ← shift_xor]
  congr 1
  ac_rfl

/-- A message and an error pattern of its length act on the register independently. -/
theorem feed_xor (c d : BitVec w) {xs ys : List Bool} (hlen : xs.length = ys.length) :
    feed poly (c ^^^ d) (List.zipWith (· ^^ ·) xs ys) = feed poly c xs ^^^ feed poly d ys := by
  induction xs generalizing c d ys with
  | nil =>
    rw [List.eq_nil_of_length_eq_zero hlen.symm]
    rfl
  | cons x xs ih =>
    cases ys with
    | nil => cases hlen
    | cons y ys =>
      rw [List.zipWith_cons_cons, feed_cons, feed_cons, feed_cons, bit_xor]
      exact ih _ _ (Nat.succ.inj hlen)

/-! ### Nothing is forgotten -/

variable {poly}

theorem bit_false (c : BitVec w) : bit poly c false = shift poly c := by
  simp [bit]

theorem feed_zero_false (n : ℕ) : feed poly 0#w (List.replicate n false) = 0#w := by
  induction n with
  | zero => rfl
  | succ n ih => rw [List.replicate_succ, feed_cons, bit_false, shift_zero, ih]

/-- A one that falls out puts the top bit of the generator into the register. -/
theorem toNat_of_shift_lt (htop : poly.getLsbD (w - 1) = true) {c : BitVec w}
    (h : (shift poly c).toNat < 2 ^ (w - 1)) : c.toNat = 2 * (shift poly c).toNat := by
  have hlow : c.getLsbD 0 = false := by
    by_contra hone
    rw [Bool.not_eq_false] at hone
    have hw : 0 < w := BitVec.lt_of_getLsbD hone
    have htop' : (shift poly c).getLsbD (w - 1) = true := by
      rw [shift, if_pos hone, BitVec.getLsbD_xor, BitVec.getLsbD_ushiftRight,
        BitVec.getLsbD_of_ge c _ (by omega), htop]
      rfl
    have hge : 2 ^ (w - 1) ≤ (shift poly c).toNat := Nat.ge_two_pow_of_testBit htop'
    omega
  have heven : c.toNat % 2 = 0 := by
    rw [BitVec.getLsbD, Nat.testBit_zero, decide_eq_false_iff_not] at hlow
    omega
  rw [shift, if_neg (by rw [hlow]; decide), BitVec.toNat_ushiftRight, Nat.shiftRight_eq_div_pow]
  omega

theorem toNat_input_le (b : Bool) : (BitVec.setWidth w (BitVec.ofBool b)).toNat ≤ 1 := by
  rw [BitVec.toNat_setWidth]
  exact (Nat.mod_le _ _).trans (by cases b <;> decide)

/-- A register that ends at zero after `n` more bits was below `2 ^ n`. -/
theorem lt_of_feed_eq_zero (htop : poly.getLsbD (w - 1) = true) {c : BitVec w} {xs : List Bool}
    (h : feed poly c xs = 0#w) : c.toNat < 2 ^ xs.length := by
  induction xs generalizing c with
  | nil =>
    rw [feed_nil] at h
    simp [h]
  | cons b xs ih =>
    have hnext := ih h
    rw [List.length_cons]
    by_cases hlen : w ≤ xs.length
    · exact c.isLt.trans_le (Nat.pow_le_pow_right Nat.two_pos (by omega))
    have hpow : 2 ^ xs.length ≤ 2 ^ (w - 1) := Nat.pow_le_pow_right Nat.two_pos (by omega)
    have hdouble := toNat_of_shift_lt htop (hnext.trans_le hpow)
    have hinput : (BitVec.setWidth w (BitVec.ofBool b)).toNat < 2 ^ (xs.length + 1) :=
      (toNat_input_le b).trans_lt (Nat.one_lt_two_pow (by omega))
    have hsum : (c ^^^ BitVec.setWidth w (BitVec.ofBool b)).toNat < 2 ^ (xs.length + 1) := by
      rw [hdouble, Nat.pow_succ']
      exact Nat.mul_lt_mul_of_pos_left hnext Nat.two_pos
    rw [BitVec.toNat_xor] at hsum
    have hc := Nat.xor_lt_two_pow hsum hinput
    rwa [Nat.xor_assoc, Nat.xor_self, Nat.xor_zero] at hc

theorem eq_zero_of_shift (htop : poly.getLsbD (w - 1) = true) {c : BitVec w}
    (h : shift poly c = 0#w) : c = 0#w := by
  have hzero : (shift poly c).toNat = 0 := by simp [h]
  have hdouble := toNat_of_shift_lt htop (hzero ▸ Nat.two_pow_pos _)
  apply BitVec.eq_of_toNat_eq
  rw [hdouble, hzero]
  simp

theorem eq_zero_of_feed_false (htop : poly.getLsbD (w - 1) = true) {c : BitVec w} {n : ℕ}
    (h : feed poly c (List.replicate n false) = 0#w) : c = 0#w := by
  induction n generalizing c with
  | zero => exact h
  | succ n ih =>
    rw [List.replicate_succ, feed_cons, bit_false] at h
    exact eq_zero_of_shift htop (ih h)

/-! ### Bursts -/

/-- The set bits lie within `n` consecutive bits. -/
def Burst (n : ℕ) (e : List Bool) : Prop := ∃ k, ∀ i, e[i]? = some true → k ≤ i ∧ i < k + n

theorem Burst.drop {n : ℕ} {e : List Bool} (h : Burst n e) (m : ℕ) : Burst n (e.drop m) := by
  obtain ⟨k, hk⟩ := h
  refine ⟨k - m, fun i hi => ?_⟩
  rw [List.getElem?_drop] at hi
  obtain ⟨hle, hlt⟩ := hk _ hi
  omega

theorem Burst.take {n : ℕ} {e : List Bool} (h : Burst n e) (m : ℕ) : Burst n (e.take m) := by
  obtain ⟨k, hk⟩ := h
  refine ⟨k, fun i hi => hk i ?_⟩
  rw [List.getElem?_take] at hi
  split_ifs at hi
  exact hi

theorem exists_first {e : List Bool} (h : true ∈ e) :
    ∃ n rest, e = List.replicate n false ++ true :: rest := by
  induction e with
  | nil => cases h
  | cons b e ih =>
    cases b with
    | true => exact ⟨0, e, rfl⟩
    | false =>
      obtain ⟨n, rest, hrest⟩ := ih (by simpa using h)
      exact ⟨n + 1, rest, by rw [hrest, List.replicate_succ, List.cons_append]⟩

theorem feed_ne_zero_of_burst (htop : poly.getLsbD (w - 1) = true) {e : List Bool} (hone : true ∈ e)
    (hburst : Burst w e) : feed poly 0#w e ≠ 0#w := by
  have hw : 0 < w := by
    by_contra hw
    rw [BitVec.getLsbD_of_ge poly _ (by omega)] at htop
    cases htop
  obtain ⟨n, rest, rfl⟩ := exists_first hone
  obtain ⟨k, hk⟩ := hburst
  have hfirst := (hk n (by simp)).1
  -- what follows the first set bit is a window of `w - 1` bits and then zeros
  have hzeros : rest.drop (w - 1) = List.replicate (rest.length - (w - 1)) false := by
    rw [List.eq_replicate_iff]
    refine ⟨List.length_drop, fun b hb => ?_⟩
    obtain ⟨i, hi⟩ := List.mem_iff_getElem?.mp hb
    cases b with
    | false => rfl
    | true =>
      rw [List.getElem?_drop] at hi
      have hlast := (hk (n + (w - 1 + i + 1)) (by
        rw [List.getElem?_append_right (by simp)]
        simpa using hi)).2
      omega
  intro hzero
  rw [← List.take_append_drop (w - 1) rest, feed_append, feed_zero_false, feed_cons, feed_append,
    hzeros] at hzero
  have hwindow := lt_of_feed_eq_zero htop (eq_zero_of_feed_false htop hzero)
  have hpow : 2 ^ (rest.take (w - 1)).length ≤ 2 ^ (w - 1) :=
    Nat.pow_le_pow_right Nat.two_pos (List.length_take_le _ _)
  unfold bit at hwindow
  have hdouble := toNat_of_shift_lt htop (hwindow.trans_le hpow)
  have hinput : (0#w ^^^ BitVec.setWidth w (BitVec.ofBool true)).toNat = 1 := by
    rw [BitVec.zero_xor, BitVec.toNat_setWidth]
    exact Nat.mod_eq_of_lt (Nat.one_lt_two_pow (by omega))
  omega

/-! ### Checksums -/

/-- The bits of a register, lowest first. -/
def bits (d : BitVec w) : List Bool := (List.range w).map d.getLsbD

@[simp] theorem bits_length (d : BitVec w) : (bits d).length = w := by
  simp [bits]

theorem bits_xor (c d : BitVec w) : bits (c ^^^ d) = List.zipWith (· ^^ ·) (bits c) (bits d) := by
  apply List.ext_getElem
  · simp
  · intro i _ _
    simp [bits]

theorem true_mem_bits {d : BitVec w} (hd : d ≠ 0#w) : true ∈ bits d := by
  by_contra hnone
  apply hd
  apply BitVec.eq_of_getLsbD_eq
  intro i hi
  rw [BitVec.getLsbD_zero]
  by_contra hone
  rw [Bool.not_eq_false] at hone
  exact hnone (List.mem_map.mpr ⟨i, List.mem_range.mpr hi, hone⟩)

/-- Fed its own bits, a register runs empty from the low end. -/
theorem feed_range (d : BitVec w) (n : ℕ) : feed poly d ((List.range n).map d.getLsbD) = d >>> n := by
  induction n with
  | zero => simp
  | succ n ih =>
    rw [List.range_succ, List.map_append, feed_append, ih]
    change bit poly (d >>> n) (d.getLsbD n) = d >>> (n + 1)
    have hinput (i : ℕ) : (BitVec.setWidth w (BitVec.ofBool (d.getLsbD n))).getLsbD i =
        (decide (i = 0) && d.getLsbD n) := by
      by_cases hd : d.getLsbD n
      · have hw : 0 < w := by
          have hn := BitVec.lt_of_getLsbD hd
          omega
        cases i <;> simp [hd, hw]
      · simp [hd]
    have hlow : (d >>> n ^^^ BitVec.setWidth w (BitVec.ofBool (d.getLsbD n))).getLsbD 0 = false := by
      rw [BitVec.getLsbD_xor, hinput, BitVec.getLsbD_ushiftRight]
      simp
    rw [bit, shift, if_neg (by rw [hlow]; decide)]
    apply BitVec.eq_of_getLsbD_eq
    intro i hi
    rw [BitVec.getLsbD_ushiftRight, BitVec.getLsbD_xor, hinput, BitVec.getLsbD_ushiftRight,
      BitVec.getLsbD_ushiftRight, decide_eq_false (by omega), Bool.false_and, Bool.xor_false, Nat.add_assoc]

theorem zipWith_false (xs : List Bool) :
    List.zipWith (· ^^ ·) (List.replicate xs.length false) xs = xs := by
  apply List.ext_getElem <;> simp

/-- Message bits may be added to the register before it is shifted. -/
theorem feed_range_xor (c d : BitVec w) (n : ℕ) : feed poly c ((List.range n).map d.getLsbD) =
    feed poly (c ^^^ d) (List.replicate n false) ^^^ d >>> n := by
  have hlen : (List.replicate n false).length = ((List.range n).map d.getLsbD).length := by simp
  have hsplit := feed_xor poly (c ^^^ d) d hlen
  have hzero := zipWith_false ((List.range n).map d.getLsbD)
  rw [List.length_map, List.length_range] at hzero
  rwa [hzero, BitVec.xor_assoc, BitVec.xor_self, BitVec.xor_zero, feed_range] at hsplit

/-- Only the low `n` bits matter for what `n` shifts add to the register. -/
theorem feed_false_split {n : ℕ} {m : BitVec w} (hm : ∀ i, i < w → m.getLsbD i = decide (i < n))
    (c : BitVec w) : feed poly c (List.replicate n false) =
      feed poly (c &&& m) (List.replicate n false) ^^^ c >>> n := by
  have hsplit : c = c &&& m ^^^ c &&& ~~~m := by
    apply BitVec.eq_of_getLsbD_eq
    intro i hi
    simp only [BitVec.getLsbD_xor, BitVec.getLsbD_and, BitVec.getLsbD_not, hi, hm i hi, decide_true,
      Bool.true_and]
    cases c.getLsbD i <;> cases decide (i < n) <;> rfl
  have hhigh (i : ℕ) : (c &&& ~~~m).getLsbD i = (c.getLsbD i && decide (n ≤ i)) := by
    by_cases hi : i < w
    · rw [BitVec.getLsbD_and, BitVec.getLsbD_not, hm i hi, decide_eq_true hi, Bool.true_and,
        ← decide_not, decide_eq_decide.mpr Nat.not_lt]
    · rw [BitVec.getLsbD_of_ge _ i (by omega), BitVec.getLsbD_of_ge c i (by omega), Bool.false_and]
  have hlow : List.replicate n false = (List.range n).map (c &&& ~~~m).getLsbD := by
    apply List.ext_getElem
    · simp
    · intro i hi _
      rw [List.length_replicate] at hi
      rw [List.getElem_replicate, List.getElem_map, List.getElem_range, hhigh,
        decide_eq_false (by omega), Bool.and_false]
  have hshift : (c &&& ~~~m) >>> n = c >>> n := by
    apply BitVec.eq_of_getLsbD_eq
    intro i _
    rw [BitVec.getLsbD_ushiftRight, BitVec.getLsbD_ushiftRight, hhigh, decide_eq_true (by omega),
      Bool.and_true]
  have hsum := feed_xor poly (c &&& m) (c &&& ~~~m)
    (show (List.replicate n false).length = (List.replicate n false).length from rfl)
  have hzero := zipWith_false (List.replicate n false)
  rw [List.length_replicate] at hzero
  rw [hzero, ← hsplit] at hsum
  rw [hsum]
  conv_lhs => rw [hlow, feed_range, hshift, ← hlow]

/-- A stored checksum is the computed one exactly if the register runs empty over both. -/
theorem feed_bits_eq_zero_iff (htop : poly.getLsbD (w - 1) = true) (c d : BitVec w) :
    feed poly c (bits d) = 0#w ↔ c = d := by
  have hempty : d >>> w = 0#w := by
    apply BitVec.eq_of_toNat_eq
    rw [BitVec.toNat_ushiftRight, Nat.shiftRight_eq_div_pow, Nat.div_eq_of_lt d.isLt]
    rfl
  rw [bits, feed_range_xor, hempty, BitVec.xor_zero]
  constructor
  · intro h
    calc
      c = c ^^^ d ^^^ d := by rw [BitVec.xor_assoc, BitVec.xor_self, BitVec.xor_zero]
      _ = d := by rw [eq_zero_of_feed_false htop h, BitVec.zero_xor]
  · rintro rfl
    rw [BitVec.xor_self, feed_zero_false]

theorem feed_burst_ne_zero (htop : poly.getLsbD (w - 1) = true) {c : BitVec w} {xs e : List Bool}
    (hcode : feed poly c xs = 0#w) (hlen : xs.length = e.length) (hone : true ∈ e)
    (hburst : Burst w e) : feed poly c (List.zipWith (· ^^ ·) xs e) ≠ 0#w := by
  have hsplit := feed_xor poly c 0#w hlen
  rw [BitVec.xor_zero, hcode, BitVec.zero_xor] at hsplit
  rw [hsplit]
  exact feed_ne_zero_of_burst htop hone hburst

end SpVision.ReflectedCrc
