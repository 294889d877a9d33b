import Mathlib.Analysis.Quaternion
import Mathlib.Analysis.SpecialFunctions.Trigonometric.Bounds
import SpVision.Library.AxisTurns
import SpVision.Tools.Spherical

set_option autoImplicit false

/-!
# Euler angles

An orientation is three turns about axes of which none follows itself, either of the body or of the space.
-/
namespace SpVision

open Quaternion

/-- The further function of `<cmath>` that the Euler angles use. -/
structure EulerMath (K : Type) extends Cmath K where
  acos : K → K

/-- `axis0`, `axis1` and `axis2`; no axis follows itself. -/
structure EulerAxes where
  axis0 : Fin 3
  axis1 : Fin 3
  axis2 : Fin 3
  ne01 : axis0 ≠ axis1
  ne12 : axis1 ≠ axis2

namespace EulerAxes

def swap (axes : EulerAxes) : EulerAxes := ⟨axes.axis2, axes.axis1, axes.axis0, axes.ne12.symm, axes.ne01.symm⟩

def isProper (axes : EulerAxes) : Bool := axes.axis0 = axes.axis2

/-- `k` -/
def other (axes : EulerAxes) : Fin 3 :=
  if axes.isProper then Fin.ofNat 3 (3 - axes.axis0.val - axes.axis1.val) else axes.axis2

def signOf (i j k : Fin 3) : ℤ := ((i.val : ℤ) - j.val) * (j.val - k.val) * (k.val - i.val) / 2

def sign (axes : EulerAxes) : ℤ := signOf axes.axis0 axes.axis1 axes.other

end EulerAxes

section Model

variable {K : Type} [Field K] [LinearOrder K] [IsStrictOrderedRing K] [FloorRing K]

omit [LinearOrder K] [IsStrictOrderedRing K] [FloorRing K] in
/-- The first three of `q.coeffs()`. -/
def vecCoeffs (q : ℍ[K]) : Fin 3 → K := ![q.imI, q.imJ, q.imK]

omit [LinearOrder K] [IsStrictOrderedRing K] [FloorRing K] in
/-- `a`, `b`, `c` and `d` -/
def EulerAxes.frame (axes : EulerAxes) (q : ℍ[K]) : K × K × K × K :=
  let xyz := vecCoeffs q
  let sign : K := axes.sign
  if axes.isProper then (q.re, xyz axes.axis0, xyz axes.axis1, xyz axes.other * sign)
  else
    (q.re - xyz axes.axis1, xyz axes.axis0 + xyz axes.other * sign, xyz axes.axis1 + q.re,
      xyz axes.other * sign - xyz axes.axis0)

/-- `tools::eulers` of a quaternion. -/
def eulers (half : HalfTurn K) (m : EulerMath K) (q : ℍ[K]) (axes : EulerAxes) (extrinsic : Bool) : K × K × K :=
  let axes := if extrinsic then axes else axes.swap
  let (a, b, c, d) := axes.frame q
  let n2 := a * a + b * b + c * c + d * d
  let middle := m.acos ((2 : ℕ) * (a * a + b * b) / n2 - 1)
  let halfSum := m.atan2 b a
  let halfDiff := m.atan2 (-d) c
  let safe1 := |middle| ≥ 1e-7
  let safe2 := |middle - half.val| ≥ 1e-7
  let (first, last) :=
    if safe1 ∧ safe2 then (halfSum + halfDiff, halfSum - halfDiff)
    else
      let around := if ¬ safe2 then (if extrinsic then (2 : ℕ) * halfDiff else -(2 : ℕ) * halfDiff) else (2 : ℕ) * halfSum
      if extrinsic then (around, 0) else (0, around)
  let first := limitRad half first
  let middle := limitRad half middle
  let last := limitRad half last
  let (middle, last) := if ¬ axes.isProper then (middle - half.val / (2 : ℕ), last * (axes.sign : K)) else (middle, last)
  if extrinsic then (first, middle, last) else (last, middle, first)

end Model

namespace Eulers

open AxisTurns Trajectory

noncomputable def realEulerMath : EulerMath ℝ := { realMath with acos := Real.arccos }

/-- `CV_PI` as it is meant. -/
noncomputable def piHalf : HalfTurn ℝ := ⟨Real.pi, Real.pi_pos⟩

/-- The axes of space. -/
def axis : Fin 3 → ℍ[ℝ] := ![⟨0, 1, 0, 0⟩, ⟨0, 0, 1, 0⟩, ⟨0, 0, 0, 1⟩]

@[simp] theorem axis_re (i : Fin 3) : (axis i).re = 0 := by
  fin_cases i <;> rfl

@[simp] theorem axis_imI (i : Fin 3) : (axis i).imI = if i = 0 then 1 else 0 := by
  fin_cases i <;> rfl

@[simp] theorem axis_imJ (i : Fin 3) : (axis i).imJ = if i = 1 then 1 else 0 := by
  fin_cases i <;> rfl

@[simp] theorem axis_imK (i : Fin 3) : (axis i).imK = if i = 2 then 1 else 0 := by
  fin_cases i <;> rfl

theorem axis_crossed {i j : Fin 3} (hij : i ≠ j) : Crossed (axis i) (axis j) := by
  revert hij
  fin_cases i <;> fin_cases j <;> intro hij <;> first
    | exact absurd rfl hij
    | constructor <;> ext <;> simp

theorem axis_mul {i j k : Fin 3} (hij : i ≠ j) (hjk : j ≠ k) (hki : k ≠ i) :
    axis i * axis j = (EulerAxes.signOf i j k : ℝ) • axis k := by
  revert hij hjk hki
  fin_cases i <;> fin_cases j <;> fin_cases k <;> intro hij hjk hki <;> first
    | exact absurd rfl hij
    | exact absurd rfl hjk
    | exact absurd rfl hki
    | ext <;> simp [EulerAxes.signOf]

theorem signOf_cases {i j k : Fin 3} (hij : i ≠ j) (hjk : j ≠ k) (hki : k ≠ i) :
    EulerAxes.signOf i j k = 1 ∨ EulerAxes.signOf i j k = -1 := by
  revert i j k
  decide

theorem eq_frame {i j k : Fin 3} (hij : i ≠ j) (hjk : j ≠ k) (hki : k ≠ i) (q : ℍ[ℝ]) :
    q = q.re • 1 + vecCoeffs q i • axis i + vecCoeffs q j • axis j + vecCoeffs q k • axis k := by
  revert hij hjk hki
  fin_cases i <;> fin_cases j <;> fin_cases k <;> intro hij hjk hki <;> first
    | exact absurd rfl hij
    | exact absurd rfl hjk
    | exact absurd rfl hki
    | ext <;> simp [vecCoeffs]

theorem length_eq {i j k : Fin 3} (hij : i ≠ j) (hjk : j ≠ k) (hki : k ≠ i) (q : ℍ[ℝ]) : ‖q‖ * ‖q‖ =
    q.re * q.re + vecCoeffs q i * vecCoeffs q i + vecCoeffs q j * vecCoeffs q j + vecCoeffs q k * vecCoeffs q k := by
  rw [← normSq_eq_norm_mul_self, normSq_def']
  revert hij hjk hki
  fin_cases i <;> fin_cases j <;> fin_cases k <;> intro hij hjk hki <;> first
    | exact absurd rfl hij
    | exact absurd rfl hjk
    | exact absurd rfl hki
    | simp [vecCoeffs]; ring

theorem combination_inj {i j k : Fin 3} (hij : i ≠ j) (hjk : j ≠ k) (hki : k ≠ i) {a b c d a' b' c' d' : ℝ}
    (h : a • 1 + b • axis i + c • axis j + d • axis k = a' • 1 + b' • axis i + c' • axis j + d' • axis k) :
    a = a' ∧ b = b' ∧ c = c' ∧ d = d' := by
  have hre := congrArg QuaternionAlgebra.re h
  have hI := congrArg QuaternionAlgebra.imI h
  have hJ := congrArg QuaternionAlgebra.imJ h
  have hK := congrArg QuaternionAlgebra.imK h
  revert hij hjk hki hre hI hJ hK
  clear h
  fin_cases i <;> fin_cases j <;> fin_cases k <;> intro hij hjk hki hre hI hJ hK <;> first
    | exact absurd rfl hij
    | exact absurd rfl hjk
    | exact absurd rfl hki
    | simp_all

/-! ### Proper sequences and the others as one -/

section Frames

variable (axes : EulerAxes)

theorem other_ne : axes.axis1 ≠ axes.other ∧ axes.other ≠ axes.axis0 := by
  obtain ⟨i, j, k, hij, hjk⟩ := axes
  unfold EulerAxes.other EulerAxes.isProper
  revert i j k
  decide

theorem sign_cases : axes.sign = 1 ∨ axes.sign = -1 :=
  signOf_cases axes.ne01 (other_ne axes).1 (other_ne axes).2

theorem sign_mul_sign : (axes.sign : ℝ) * axes.sign = 1 := by
  rcases sign_cases axes with h | h <;> rw [h] <;> norm_num

noncomputable def shift : ℝ := if axes.isProper then 0 else Real.pi / (2 : ℕ)

noncomputable def outer : ℝ := if axes.isProper then 1 else axes.sign

noncomputable def scale : ℝ := if axes.isProper then 1 else √(2 : ℕ)

/-- The turn that makes a sequence of three axes proper, up to its length. -/
noncomputable def framed (q : ℍ[ℝ]) : ℍ[ℝ] := if axes.isProper then q else (1 + axis axes.axis1) * q

theorem crossed : Crossed (axis axes.axis0) (axis axes.axis1) := axis_crossed axes.ne01

theorem cross_eq : axis axes.axis0 * axis axes.axis1 = (axes.sign : ℝ) • axis axes.other :=
  axis_mul axes.ne01 (other_ne axes).1 (other_ne axes).2

theorem axis_other : axis axes.other = (axes.sign : ℝ) • (axis axes.axis0 * axis axes.axis1) := by
  rw [cross_eq, smul_smul, sign_mul_sign, one_smul]

theorem scale_pos : 0 < scale axes := by
  unfold scale
  split_ifs
  · exact one_pos
  · exact Real.sqrt_pos.mpr two_pos

theorem outer_cases : outer axes = 1 ∨ outer axes = -1 := by
  unfold outer
  split_ifs
  · exact .inl rfl
  · exact (sign_cases axes).imp (fun h => by simp [h]) (fun h => by simp [h])

theorem outer_mul_outer : outer axes * outer axes = 1 := by
  rcases outer_cases axes with h | h <;> rw [h] <;> norm_num

variable {axes}

theorem framed_smul (s : ℝ) (q : ℍ[ℝ]) : framed axes (s • q) = s • framed axes q := by
  unfold framed
  split_ifs
  · rfl
  · rw [mul_smul_comm]

variable (axes) in
theorem framed_inj {q q' : ℍ[ℝ]} (h : framed axes q = framed axes q') : q = q' := by
  unfold framed at h
  split_ifs at h
  · exact h
  · have hback (x : ℍ[ℝ]) : (1 - axis axes.axis1) * ((1 + axis axes.axis1) * x) = (2 : ℝ) • x := by
      rw [← mul_assoc, sub_mul, one_mul, mul_add, mul_one, (crossed axes).root', two_smul]
      noncomm_ring
    have htwice := congrArg ((1 - axis axes.axis1) * ·) h
    simp only [hback] at htwice
    exact smul_right_injective _ two_ne_zero htwice

/-- `a`, `b`, `c` and `d` are what makes up the turned quaternion. -/
theorem framed_eq (q : ℍ[ℝ]) : framed axes q = (axes.frame q).1 • 1 + (axes.frame q).2.1 • axis axes.axis0 +
    (axes.frame q).2.2.1 • axis axes.axis1 + (axes.frame q).2.2.2 • (axis axes.axis0 * axis axes.axis1) := by
  have hq := eq_frame axes.ne01 (other_ne axes).1 (other_ne axes).2 q
  rw [axis_other, smul_smul] at hq
  unfold framed EulerAxes.frame
  split_ifs
  · exact hq
  · have hback : axis axes.axis1 * (axis axes.axis0 * axis axes.axis1) = axis axes.axis0 := by
      rw [← mul_assoc, (crossed axes).anti, neg_mul, mul_assoc, (crossed axes).root', mul_neg_one, neg_neg]
    conv_lhs => rw [hq]
    simp only [add_mul, mul_add, one_mul, mul_one, mul_smul_comm, hback, (crossed axes).root', (crossed axes).anti]
    module

/-- Nothing else makes it up. -/
theorem frame_eq {q : ℍ[ℝ]} {a b c d : ℝ} (h : framed axes q = a • 1 + b • axis axes.axis0 + c • axis axes.axis1 +
    d • (axis axes.axis0 * axis axes.axis1)) : axes.frame q = (a, b, c, d) := by
  rw [framed_eq, cross_eq, smul_smul, smul_smul] at h
  obtain ⟨ha, hb, hc, hd⟩ := combination_inj axes.ne01 (other_ne axes).1 (other_ne axes).2 h
  have hsign : (axes.sign : ℝ) ≠ 0 := left_ne_zero_of_mul_eq_one (sign_mul_sign axes)
  exact Prod.ext ha (Prod.ext hb (Prod.ext hc (mul_right_cancel₀ hsign hd)))

variable (axes) in
/-- The length of what is turned. -/
theorem frame_length (q : ℍ[ℝ]) : (axes.frame q).1 * (axes.frame q).1 + (axes.frame q).2.1 * (axes.frame q).2.1 +
    ((axes.frame q).2.2.1 * (axes.frame q).2.2.1 + (axes.frame q).2.2.2 * (axes.frame q).2.2.2) =
      (scale axes * ‖q‖) * (scale axes * ‖q‖) := by
  have hlength := length_eq axes.ne01 (other_ne axes).1 (other_ne axes).2 q
  have hsign := sign_mul_sign axes
  rw [mul_mul_mul_comm, hlength]
  unfold EulerAxes.frame scale
  split_ifs
  · dsimp only
    linear_combination vecCoeffs q axes.other * vecCoeffs q axes.other * hsign
  · dsimp only
    rw [Nat.cast_ofNat, Real.mul_self_sqrt zero_le_two]
    linear_combination 2 * (vecCoeffs q axes.other * vecCoeffs q axes.other) * hsign

/-- A sequence of turns about the three axes. -/
noncomputable def sequence (axes : EulerAxes) (first middle last : ℝ) : ℍ[ℝ] :=
  turn (axis axes.axis2) last * turn (axis axes.axis1) middle * turn (axis axes.axis0) first

theorem framed_sequence (first middle last : ℝ) :
    framed axes (sequence axes first (middle - shift axes) (last * outer axes)) =
      scale axes • (turn (axis axes.axis0) last * turn (axis axes.axis1) middle * turn (axis axes.axis0) first) := by
  unfold framed sequence scale shift outer
  by_cases hproper : axes.isProper = true
  · have hsame : axes.axis0 = axes.axis2 := of_decide_eq_true hproper
    simp only [if_pos hproper, sub_zero, mul_one, one_smul, ← hsame]
  · have hother : axes.other = axes.axis2 := if_neg hproper
    have hlast : turn (axis axes.axis2) (last * axes.sign) = turn (axis axes.axis0 * axis axes.axis1) last := by
      rw [cross_eq, hother, turn_smul]
      exact (sign_cases axes).imp (fun h => by simp [h]) (fun h => by simp [h])
    simp only [if_neg hproper, Nat.cast_ofNat]
    rw [hlast, ← turn_quarter, smul_mul_assoc]
    congr 1
    rw [← mul_assoc, ← mul_assoc, (crossed axes).quarter_turn_back, mul_assoc (turn _ last), ← turn_add (crossed axes).root',
      add_sub_cancel]

end Frames

/-! ### The angles -/

section Angles

variable (axes : EulerAxes) (q : ℍ[ℝ])

noncomputable def halfSum : ℝ := Complex.arg ⟨(axes.frame q).1, (axes.frame q).2.1⟩

noncomputable def halfDiff : ℝ := Complex.arg ⟨(axes.frame q).2.2.1, -(axes.frame q).2.2.2⟩

noncomputable def middleAngle : ℝ :=
  Real.arccos ((2 : ℕ) * ((axes.frame q).1 * (axes.frame q).1 + (axes.frame q).2.1 * (axes.frame q).2.1) /
    ((scale axes * ‖q‖) * (scale axes * ‖q‖)) - 1)

/-- The outer angles for a middle one, which near its ends leaves one of them open. -/
noncomputable def outerAngles (extrinsic : Bool) (middle halfSum halfDiff : ℝ) : ℝ × ℝ :=
  if |middle| ≥ 1e-7 ∧ |middle - Real.pi| ≥ 1e-7 then (halfSum + halfDiff, halfSum - halfDiff)
  else
    let around :=
      if ¬ |middle - Real.pi| ≥ 1e-7 then (if extrinsic then (2 : ℕ) * halfDiff else -(2 : ℕ) * halfDiff)
      else (2 : ℕ) * halfSum
    if extrinsic then (around, 0) else (0, around)

/-- Three angles by the sequence that `eulers` works with. -/
noncomputable def limited (axes : EulerAxes) (first middle last : ℝ) : ℝ × ℝ × ℝ :=
  (limitRad piHalf first, middle - shift axes, limitRad piHalf last * outer axes)

theorem middle_limited : limitRad piHalf (middleAngle axes q) = middleAngle axes q :=
  limitRad_of_mem _ ⟨(neg_lt_zero.mpr Real.pi_pos).trans_le (Real.arccos_nonneg _), Real.arccos_le_pi _⟩

/-- `eulers`, by the half angles. -/
theorem eulers_eq (extrinsic : Bool) : eulers piHalf realEulerMath q axes extrinsic =
    let axes := if extrinsic then axes else axes.swap
    let (first, last) := outerAngles extrinsic (middleAngle axes q) (halfSum axes q) (halfDiff axes q)
    let angles := limited axes first (middleAngle axes q) last
    if extrinsic then angles else (angles.2.2, angles.2.1, angles.1) := by
  unfold eulers
  dsimp only
  generalize (if extrinsic = true then axes else axes.swap) = axes
  have hmiddle : realEulerMath.acos ((2 : ℕ) * ((axes.frame q).1 * (axes.frame q).1 +
      (axes.frame q).2.1 * (axes.frame q).2.1) / ((axes.frame q).1 * (axes.frame q).1 +
        (axes.frame q).2.1 * (axes.frame q).2.1 + (axes.frame q).2.2.1 * (axes.frame q).2.2.1 +
          (axes.frame q).2.2.2 * (axes.frame q).2.2.2) - 1) = middleAngle axes q := by
    unfold middleAngle
    rw [← frame_length, add_assoc _ _ (_ * _)]
    rfl
  rw [hmiddle, middle_limited]
  unfold limited shift outer
  by_cases hproper : axes.isProper = true
  · simp only [hproper, not_true_eq_false, if_false, if_true, sub_zero, mul_one]
    rfl
  · simp only [Bool.not_eq_true] at hproper
    simp only [hproper, Bool.false_eq_true, not_false_eq_true, if_true, if_false]
    rfl

/-- The raw angles make up the quaternion. -/
theorem eq_sequence (hq : q ≠ 0) : q = ‖q‖ • sequence axes (halfSum axes q + halfDiff axes q)
    (middleAngle axes q - shift axes) ((halfSum axes q - halfDiff axes q) * outer axes) := by
  have hlength : 0 < scale axes * ‖q‖ := mul_pos (scale_pos axes) (norm_pos_iff.mpr hq)
  have hsum := (frame_length axes q).symm
  apply framed_inj axes
  rw [framed_smul, framed_sequence, framed_eq, (crossed axes).combination_eq hlength hsum, smul_smul, mul_comm ‖q‖]
  rfl

end Angles

/-! ### There and back -/

section Turns

variable {axes : EulerAxes}

theorem norm_axis (i : Fin 3) : ‖axis i‖ = 1 := by
  have hsquare : ‖axis i‖ * ‖axis i‖ = 1 := by
    rw [← normSq_eq_norm_mul_self, normSq_def']
    fin_cases i <;> simp
  nlinarith [norm_nonneg (axis i)]

theorem norm_turn (i : Fin 3) (t : ℝ) : ‖turn (axis i) t‖ = 1 := by
  have hsquare : ‖turn (axis i) t‖ * ‖turn (axis i) t‖ = 1 := by
    rw [← normSq_eq_norm_mul_self, normSq_def']
    simp only [turn_eq]
    fin_cases i <;> simp
  nlinarith [norm_nonneg (turn (axis i) t)]

variable (axes) in
/-- Whole turns of the outer angles change no more than the sign. -/
theorem sequence_limitRad (first middle last : ℝ) : ∃ s : ℝ, (s = 1 ∨ s = -1) ∧
    sequence axes first middle (last * outer axes) =
      s • sequence axes (limitRad piHalf first) middle (limitRad piHalf last * outer axes) := by
  obtain ⟨z, hz⟩ := limitRad_turns piHalf first
  obtain ⟨z', hz'⟩ := limitRad_turns piHalf last
  refine ⟨(-1) ^ z' * (-1) ^ z, ?_, ?_⟩
  · rw [← zpow_add₀ (by norm_num)]
    exact neg_one_zpow_cases _
  · unfold sequence
    rw [← turn_smul _ (outer_cases axes), ← turn_smul _ (outer_cases axes)]
    conv_lhs => rw [hz, hz']
    change turn _ (_ + z' • (2 * Real.pi)) * _ * turn _ (_ + z • (2 * Real.pi)) = _
    rw [turn_add_turns, turn_add_turns, smul_mul_assoc, smul_mul_smul_comm]

variable (axes) in
theorem norm_framed (q : ℍ[ℝ]) : ‖framed axes q‖ = scale axes * ‖q‖ := by
  unfold framed scale
  split_ifs
  · rw [one_mul]
  · rw [Nat.cast_ofNat, norm_mul, ← turn_quarter, norm_smul, norm_turn, mul_one, Real.norm_of_nonneg (Real.sqrt_nonneg 2)]

theorem framed_sub (q q' : ℍ[ℝ]) : framed axes (q - q') = framed axes q - framed axes q' := by
  unfold framed
  split_ifs
  · rfl
  · rw [mul_sub]

variable (axes) in
/-- What two sequences with the same middle angle are apart, by their proper forms. -/
theorem norm_sequence_sub (first last first' last' middle : ℝ) :
    ‖sequence axes first (middle - shift axes) (last * outer axes) -
        sequence axes first' (middle - shift axes) (last' * outer axes)‖ =
      ‖turn (axis axes.axis0) last * turn (axis axes.axis1) middle * turn (axis axes.axis0) first -
        turn (axis axes.axis0) last' * turn (axis axes.axis1) middle * turn (axis axes.axis0) first'‖ := by
  have hframed := norm_framed axes (sequence axes first (middle - shift axes) (last * outer axes) -
    sequence axes first' (middle - shift axes) (last' * outer axes))
  rw [framed_sub, framed_sequence, framed_sequence, ← smul_sub, norm_smul, Real.norm_of_nonneg (scale_pos axes).le]
    at hframed
  exact (mul_left_cancel₀ (scale_pos axes).ne' hframed).symm

/-- Near its ends the middle angle hides half the difference, or half the sum, of the others. -/
theorem norm_turns_sub_le {middle α β α' β' : ℝ} (hmiddle : middle ∈ Set.Icc 0 Real.pi)
    (h : α = α' ∧ middle < 1e-7 ∨ β = β' ∧ Real.pi - middle < 1e-7) :
    ‖turn (axis axes.axis0) (α - β) * turn (axis axes.axis1) middle * turn (axis axes.axis0) (α + β) -
      turn (axis axes.axis0) (α' - β') * turn (axis axes.axis1) middle * turn (axis axes.axis0) (α' + β')‖ < 1e-7 := by
  have hsum (t : ℝ) : ‖Real.cos t • (1 : ℍ[ℝ]) + Real.sin t • axis axes.axis0‖ = 1 := by
    have hturn := norm_turn axes.axis0 (2 * t)
    rwa [turn_eq, mul_div_cancel_left₀ _ two_ne_zero] at hturn
  have hdiff (t : ℝ) : ‖Real.cos t • axis axes.axis1 - Real.sin t • (axis axes.axis0 * axis axes.axis1)‖ = 1 := by
    have hneg := hsum (-t)
    rw [Real.cos_neg, Real.sin_neg, neg_smul, ← sub_eq_add_neg] at hneg
    have hfactor : Real.cos t • axis axes.axis1 - Real.sin t • (axis axes.axis0 * axis axes.axis1) =
        (Real.cos t • 1 - Real.sin t • axis axes.axis0) * axis axes.axis1 := by
      rw [sub_mul, smul_mul_assoc, one_mul, smul_mul_assoc]
    rw [hfactor, norm_mul, hneg, norm_axis, mul_one]
  have hapart {x y : ℍ[ℝ]} (hx : ‖x‖ = 1) (hy : ‖y‖ = 1) : ‖x - y‖ ≤ 2 := by
    have htriangle := norm_sub_le x y
    linarith
  rw [(crossed axes).turns_eq, (crossed axes).turns_eq]
  rcases h with ⟨rfl, hsmall⟩ | ⟨rfl, hsmall⟩
  · have hsin : Real.sin (middle / 2) ≤ middle / 2 := Real.sin_le (div_nonneg hmiddle.1 zero_le_two)
    have hpos : 0 ≤ Real.sin (middle / 2) :=
      Real.sin_nonneg_of_nonneg_of_le_pi (div_nonneg hmiddle.1 zero_le_two) (by linarith [hmiddle.2, Real.pi_pos])
    rw [add_sub_add_left_eq_sub, ← smul_sub, norm_smul, Real.norm_of_nonneg hpos]
    have hbound := mul_le_mul_of_nonneg_left (hapart (hdiff β) (hdiff β')) hpos
    linarith
  · have hcos : Real.cos (middle / 2) ≤ (Real.pi - middle) / 2 := by
      have hle := Real.sin_le (x := Real.pi / 2 - middle / 2) (by linarith [hmiddle.2])
      rw [Real.sin_pi_div_two_sub] at hle
      linarith
    have hpos : 0 ≤ Real.cos (middle / 2) :=
      Real.cos_nonneg_of_mem_Icc ⟨by linarith [hmiddle.1, Real.pi_pos], by linarith [hmiddle.2]⟩
    rw [add_sub_add_right_eq_sub, ← smul_sub, norm_smul, Real.norm_of_nonneg hpos]
    have hbound := mul_le_mul_of_nonneg_left (hapart (hsum α) (hsum α')) hpos
    linarith

/-- Off its ends the middle angle leaves the raw angles, near them it moves only what it hides. -/
theorem outerAngles_cases {middle : ℝ} (hmiddle : middle ∈ Set.Icc 0 Real.pi) (extrinsic : Bool) (α β : ℝ) :
    ∃ α' β', outerAngles extrinsic middle α β = (α' + β', α' - β') ∧
      (α = α' ∧ β = β' ∨ (α = α' ∧ middle < 1e-7 ∨ β = β' ∧ Real.pi - middle < 1e-7) ∧
        ¬ (1e-7 ≤ middle ∧ middle ≤ Real.pi - 1e-7)) := by
  have habs : |middle| = middle := abs_of_nonneg hmiddle.1
  have habs' : |middle - Real.pi| = Real.pi - middle := by
    rw [abs_sub_comm, abs_of_nonneg (sub_nonneg.mpr hmiddle.2)]
  unfold outerAngles
  rw [habs, habs', Nat.cast_ofNat]
  by_cases hsafe : middle ≥ 1e-7 ∧ Real.pi - middle ≥ 1e-7
  · rw [if_pos hsafe]
    exact ⟨α, β, rfl, .inl ⟨rfl, rfl⟩⟩
  · have hopen : ¬ (1e-7 ≤ middle ∧ middle ≤ Real.pi - 1e-7) := fun h => hsafe ⟨h.1, by linarith [h.2]⟩
    rw [if_neg hsafe]
    dsimp only
    by_cases hend : Real.pi - middle ≥ 1e-7
    · have hsmall : middle < 1e-7 := not_le.mp fun h => hsafe ⟨h, hend⟩
      rw [if_neg (not_not.mpr hend)]
      cases extrinsic with
      | true => exact ⟨α, α, Prod.ext (two_mul α) (sub_self α).symm, .inr ⟨.inl ⟨rfl, hsmall⟩, hopen⟩⟩
      | false =>
        refine ⟨α, -α, Prod.ext (add_neg_cancel α).symm ?_, .inr ⟨.inl ⟨rfl, hsmall⟩, hopen⟩⟩
        exact (two_mul α).trans (sub_neg_eq_add α α).symm
    · have hlarge : Real.pi - middle < 1e-7 := not_le.mp hend
      rw [if_pos hend]
      cases extrinsic with
      | true => exact ⟨β, β, Prod.ext (two_mul β) (sub_self β).symm, .inr ⟨.inr ⟨rfl, hlarge⟩, hopen⟩⟩
      | false =>
        refine ⟨-β, β, Prod.ext (neg_add_cancel β).symm ?_, .inr ⟨.inr ⟨rfl, hlarge⟩, hopen⟩⟩
        change -2 * β = -β - β
        ring

variable (axes) in
theorem middleAngle_mem (q : ℍ[ℝ]) : middleAngle axes q ∈ Set.Icc 0 Real.pi := ⟨Real.arccos_nonneg _, Real.arccos_le_pi _⟩

variable (axes) in
/-- The three angles turn back to the quaternion. -/
theorem limited_turns {q : ℍ[ℝ]} (hq : ‖q‖ = 1) (extrinsic : Bool) :
    let outers := outerAngles extrinsic (middleAngle axes q) (halfSum axes q) (halfDiff axes q)
    let angles := limited axes outers.1 (middleAngle axes q) outers.2
    ∃ s : ℝ, (s = 1 ∨ s = -1) ∧ ‖q - s • sequence axes angles.1 angles.2.1 angles.2.2‖ < 1e-7 ∧
      (1e-7 ≤ middleAngle axes q → middleAngle axes q ≤ Real.pi - 1e-7 →
        q = s • sequence axes angles.1 angles.2.1 angles.2.2) := by
  intro outers angles
  have hq0 : q ≠ 0 := norm_ne_zero_iff.mp (hq.trans_ne one_ne_zero)
  obtain ⟨s, hs, hlimited⟩ := sequence_limitRad axes outers.1 (middleAngle axes q - shift axes) outers.2
  have hraw := eq_sequence axes q hq0
  rw [hq, one_smul] at hraw
  obtain ⟨α, β, houters, hcases⟩ := outerAngles_cases (middleAngle_mem axes q) extrinsic (halfSum axes q)
    (halfDiff axes q)
  have hfirst : outers.1 = α + β := congrArg Prod.fst houters
  have hlast : outers.2 = α - β := congrArg Prod.snd houters
  have hturned : s • sequence axes angles.1 angles.2.1 angles.2.2 =
      sequence axes (α + β) (middleAngle axes q - shift axes) ((α - β) * outer axes) := by
    rw [← hfirst, ← hlast]
    exact hlimited.symm
  refine ⟨s, hs, ?_, fun hlow hhigh => ?_⟩
  · rw [hturned]
    rcases hcases with ⟨hα, hβ⟩ | ⟨hnear, -⟩
    · rw [← hα, ← hβ, ← hraw, sub_self, norm_zero]
      norm_num
    · have hnorm := norm_sequence_sub axes (halfSum axes q + halfDiff axes q) (halfSum axes q - halfDiff axes q)
        (α + β) (α - β) (middleAngle axes q)
      rw [← hraw] at hnorm
      rw [hnorm]
      exact norm_turns_sub_le (middleAngle_mem axes q) hnear
  · rcases hcases with ⟨hα, hβ⟩ | ⟨-, hopen⟩
    · rw [hturned, ← hα, ← hβ]
      exact hraw
    · exact absurd ⟨hlow, hhigh⟩ hopen

theorem limitRad_add_turns (angle : ℝ) (z : ℤ) :
    limitRad piHalf (angle + z • (2 * Real.pi)) = limitRad piHalf angle := by
  obtain ⟨z', hz'⟩ := limitRad_turns piHalf angle
  apply limitRad_eq piHalf (limitRad_mem piHalf angle)
  refine ⟨z' + z, ?_⟩
  rw [add_smul, ← add_assoc, ← hz']
  rfl

/-- The argument of a point on a ray. -/
theorem arg_ray {r : ℝ} (hr : 0 < r) (θ : ℝ) :
    ∃ z : ℤ, Complex.arg ⟨r * Real.cos θ, r * Real.sin θ⟩ = θ + z • (2 * Real.pi) := by
  have hpoint : (⟨r * Real.cos θ, r * Real.sin θ⟩ : ℂ) = r * (Complex.cos θ + Complex.sin θ * Complex.I) := by
    apply Complex.ext <;> simp [← Complex.ofReal_cos, ← Complex.ofReal_sin]
  rw [hpoint, Complex.arg_mul_cos_add_sin_mul_I_eq_toIocMod hr]
  refine ⟨-toIocDiv Real.two_pi_pos (-Real.pi) θ, ?_⟩
  rw [neg_smul, ← sub_eq_add_neg, toIocMod]

variable (axes) in
/-- The angles of a sequence of turns. -/
theorem limited_sequence {s middle : ℝ} (hs : 0 < s) (hmiddle : 1e-7 ≤ middle) (hmiddle' : middle ≤ Real.pi - 1e-7)
    (first last : ℝ) (extrinsic : Bool) {q : ℍ[ℝ]}
    (hq : q = s • sequence axes first (middle - shift axes) (last * outer axes)) :
    middleAngle axes q = middle ∧
      let outers := outerAngles extrinsic middle (halfSum axes q) (halfDiff axes q)
      limitRad piHalf outers.1 = limitRad piHalf first ∧ limitRad piHalf outers.2 = limitRad piHalf last := by
  have hlength : 0 < s * scale axes := mul_pos hs (scale_pos axes)
  have hcos : 0 < Real.cos (middle / 2) :=
    Real.cos_pos_of_mem_Ioo ⟨by linarith [Real.pi_pos], by linarith⟩
  have hsin : 0 < Real.sin (middle / 2) := Real.sin_pos_of_pos_of_lt_pi (by linarith) (by linarith [Real.pi_pos])
  have hframe : axes.frame q = (s * scale axes * Real.cos (middle / 2) * Real.cos ((first + last) / 2),
      s * scale axes * Real.cos (middle / 2) * Real.sin ((first + last) / 2),
      s * scale axes * Real.sin (middle / 2) * Real.cos ((first - last) / 2),
      -(s * scale axes * Real.sin (middle / 2) * Real.sin ((first - last) / 2))) := by
    apply frame_eq
    have hturns := (crossed axes).turns_eq ((first + last) / 2) middle ((first - last) / 2)
    rw [show (first + last) / 2 - (first - last) / 2 = last by ring,
      show (first + last) / 2 + (first - last) / 2 = first by ring] at hturns
    rw [hq, framed_smul, framed_sequence, hturns]
    module
  have hlengths := frame_length axes q
  rw [hframe] at hlengths
  dsimp only at hlengths
  have hsquare : scale axes * ‖q‖ * (scale axes * ‖q‖) = s * scale axes * (s * scale axes) := by
    rw [← hlengths]
    linear_combination (s * scale axes * Real.cos (middle / 2)) ^ 2 * Real.sin_sq_add_cos_sq ((first + last) / 2) +
      (s * scale axes * Real.sin (middle / 2)) ^ 2 * Real.sin_sq_add_cos_sq ((first - last) / 2) +
      (s * scale axes) ^ 2 * Real.sin_sq_add_cos_sq (middle / 2)
  have hangle : middleAngle axes q = middle := by
    have hdouble : 2 * (s * scale axes * Real.cos (middle / 2) * Real.cos ((first + last) / 2) *
        (s * scale axes * Real.cos (middle / 2) * Real.cos ((first + last) / 2)) +
          s * scale axes * Real.cos (middle / 2) * Real.sin ((first + last) / 2) *
            (s * scale axes * Real.cos (middle / 2) * Real.sin ((first + last) / 2))) =
        (2 * Real.cos (middle / 2) ^ 2) * (s * scale axes * (s * scale axes)) := by
      linear_combination 2 * (s * scale axes * Real.cos (middle / 2)) ^ 2 *
        Real.sin_sq_add_cos_sq ((first + last) / 2)
    unfold middleAngle
    rw [hsquare, hframe, Nat.cast_ofNat]
    dsimp only
    rw [hdouble, mul_div_cancel_right₀ _ (mul_pos hlength hlength).ne', ← Real.cos_two_mul, mul_div_cancel₀ _ two_ne_zero]
    exact Real.arccos_cos (by linarith) (by linarith)
  refine ⟨hangle, ?_⟩
  obtain ⟨z, hz⟩ := arg_ray (mul_pos hlength hcos) ((first + last) / 2)
  obtain ⟨z', hz'⟩ := arg_ray (mul_pos hlength hsin) ((first - last) / 2)
  have hsum : halfSum axes q = (first + last) / 2 + z • (2 * Real.pi) := by
    rw [halfSum, hframe]
    exact hz
  have hdiff : halfDiff axes q = (first - last) / 2 + z' • (2 * Real.pi) := by
    rw [halfDiff, hframe, neg_neg]
    exact hz'
  have hsafe : |middle| ≥ 1e-7 ∧ |middle - Real.pi| ≥ 1e-7 := by
    rw [abs_of_nonneg (by linarith : (0 : ℝ) ≤ middle), abs_sub_comm, abs_of_nonneg (by linarith)]
    exact ⟨hmiddle, by linarith⟩
  unfold outerAngles
  rw [if_pos hsafe, hsum, hdiff]
  have hfirst : (first + last) / 2 + z • (2 * Real.pi) + ((first - last) / 2 + z' • (2 * Real.pi)) =
      first + (z + z') • (2 * Real.pi) := by
    rw [add_smul]
    ring
  have hlast : (first + last) / 2 + z • (2 * Real.pi) - ((first - last) / 2 + z' • (2 * Real.pi)) =
      last + (z - z') • (2 * Real.pi) := by
    rw [sub_smul]
    ring
  dsimp only
  rw [hfirst, hlast]
  exact ⟨limitRad_add_turns first _, limitRad_add_turns last _⟩

end Turns

/-- The orientation of three angles. -/
noncomputable def turnsOf (axes : EulerAxes) (extrinsic : Bool) (angles : ℝ × ℝ × ℝ) : ℍ[ℝ] :=
  if extrinsic then
    turn (axis axes.axis2) angles.2.2 * turn (axis axes.axis1) angles.2.1 * turn (axis axes.axis0) angles.1
  else turn (axis axes.axis0) angles.1 * turn (axis axes.axis1) angles.2.1 * turn (axis axes.axis2) angles.2.2

/-- The axes in the order in which space sees them. -/
def oriented (axes : EulerAxes) (extrinsic : Bool) : EulerAxes := if extrinsic then axes else axes.swap

/-- The outer angles are within a turn. -/
def Principal (axes : EulerAxes) (extrinsic : Bool) (angles : ℝ × ℝ × ℝ) : Prop :=
  let outers := if extrinsic then (angles.1, angles.2.2) else (angles.2.2, angles.1)
  outers.1 ∈ Set.Ioc (-Real.pi) Real.pi ∧ outers.2 * outer (oriented axes extrinsic) ∈ Set.Ioc (-Real.pi) Real.pi

/-- The middle angle is off the ends at which the outer axes meet. -/
def Clear (axes : EulerAxes) (angles : ℝ × ℝ × ℝ) : Prop :=
  angles.2.1 + shift axes ∈ Set.Icc 1e-7 (Real.pi - 1e-7)

theorem shift_oriented (axes : EulerAxes) (extrinsic : Bool) : shift (oriented axes extrinsic) = shift axes := by
  cases extrinsic with
  | true => rfl
  | false =>
    unfold shift oriented EulerAxes.isProper
    simp only [Bool.false_eq_true, if_false, EulerAxes.swap, eq_comm]

/-- The outer angles in that order. -/
def outersOf (extrinsic : Bool) (angles : ℝ × ℝ × ℝ) : ℝ × ℝ :=
  if extrinsic then (angles.1, angles.2.2) else (angles.2.2, angles.1)

theorem turnsOf_eq (axes : EulerAxes) (extrinsic : Bool) (angles : ℝ × ℝ × ℝ) : turnsOf axes extrinsic angles =
    sequence (oriented axes extrinsic) (outersOf extrinsic angles).1 angles.2.1 (outersOf extrinsic angles).2 := by
  cases extrinsic <;> rfl

section Overall

variable {axes : EulerAxes} {extrinsic : Bool}

variable (axes extrinsic) in
/-- `eulers` in that order. -/
theorem eulers_limited (q : ℍ[ℝ]) :
    let axes' := oriented axes extrinsic
    let outers := outerAngles extrinsic (middleAngle axes' q) (halfSum axes' q) (halfDiff axes' q)
    let angles := eulers piHalf realEulerMath q axes extrinsic
    (outersOf extrinsic angles).1 = limitRad piHalf outers.1 ∧ angles.2.1 = middleAngle axes' q - shift axes' ∧
      (outersOf extrinsic angles).2 = limitRad piHalf outers.2 * outer axes' := by
  intro axes' outers angles
  have hangles : angles = _ := eulers_eq axes q extrinsic
  cases extrinsic <;> rw [hangles] <;> exact ⟨rfl, rfl, rfl⟩

variable (axes extrinsic) in
theorem eulers_near {q : ℍ[ℝ]} (hq : ‖q‖ = 1) :
    let angles := eulers piHalf realEulerMath q axes extrinsic
    Principal axes extrinsic angles ∧ angles.2.1 + shift axes ∈ Set.Icc 0 Real.pi ∧
      ∃ s : ℝ, (s = 1 ∨ s = -1) ∧ ‖q - s • turnsOf axes extrinsic angles‖ < 1e-7 ∧
        (Clear axes angles → q = s • turnsOf axes extrinsic angles) := by
  intro angles
  obtain ⟨hfirst, hmiddle, hlast⟩ := eulers_limited axes extrinsic q
  have hshifted : angles.2.1 + shift axes = middleAngle (oriented axes extrinsic) q := by
    rw [hmiddle, shift_oriented, sub_add_cancel]
  obtain ⟨s, hs, hnear, hclear⟩ := limited_turns (oriented axes extrinsic) hq extrinsic
  have hturns : turnsOf axes extrinsic angles = _ := turnsOf_eq axes extrinsic angles
  rw [hfirst, hmiddle, hlast] at hturns
  refine ⟨⟨?_, ?_⟩, ?_, s, hs, ?_, ?_⟩
  · change (outersOf extrinsic angles).1 ∈ _
    rw [hfirst]
    exact limitRad_mem piHalf _
  · change (outersOf extrinsic angles).2 * _ ∈ _
    rw [hlast, mul_assoc, outer_mul_outer, mul_one]
    exact limitRad_mem piHalf _
  · rw [hshifted]
    exact middleAngle_mem _ q
  · rw [hturns]
    exact hnear
  · intro hclear'
    rw [Clear, hshifted] at hclear'
    rw [hturns]
    exact hclear hclear'.1 hclear'.2

/-- The sign is a whole turn. -/
theorem exists_pos_smul (axes : EulerAxes) {s : ℝ} (hs : s ≠ 0) (first middle last : ℝ) : ∃ s' first' : ℝ, 0 < s' ∧
    limitRad piHalf first' = limitRad piHalf first ∧
      s • sequence axes first middle last = s' • sequence axes first' middle last := by
  rcases lt_or_gt_of_ne hs with hneg | hpos
  · refine ⟨-s, first + (1 : ℤ) • (2 * Real.pi), neg_pos.mpr hneg, limitRad_add_turns first 1, ?_⟩
    unfold sequence
    rw [turn_add_turns, zpow_one, neg_one_smul, mul_neg, neg_smul_neg]
  · exact ⟨s, first, hpos, rfl, rfl⟩

theorem eulers_turnsOf {angles : ℝ × ℝ × ℝ} (hprincipal : Principal axes extrinsic angles) (hclear : Clear axes angles)
    {s : ℝ} (hs : s ≠ 0) :
    eulers piHalf realEulerMath (s • turnsOf axes extrinsic angles) axes extrinsic = angles := by
  obtain ⟨hprincipal₁, hprincipal₂⟩ := hprincipal
  obtain ⟨hlow, hhigh⟩ := hclear
  set q := s • turnsOf axes extrinsic angles with hq
  obtain ⟨s', first', hs', hfirst', hsequence⟩ := exists_pos_smul (oriented axes extrinsic) hs
    (outersOf extrinsic angles).1 angles.2.1 (outersOf extrinsic angles).2
  have hq' : q = s' • sequence (oriented axes extrinsic) first'
      (angles.2.1 + shift axes - shift (oriented axes extrinsic))
      ((outersOf extrinsic angles).2 * outer (oriented axes extrinsic) * outer (oriented axes extrinsic)) := by
    rw [hq, turnsOf_eq, hsequence, shift_oriented, add_sub_cancel_right, mul_assoc, outer_mul_outer, mul_one]
  obtain ⟨hmiddle, houters⟩ := limited_sequence (oriented axes extrinsic) hs' hlow hhigh first' _ extrinsic hq'
  obtain ⟨hfirst, hmiddle', hlast⟩ := eulers_limited axes extrinsic q
  rw [hmiddle] at hfirst hmiddle' hlast
  rw [houters.1, hfirst', limitRad_of_mem _ hprincipal₁] at hfirst
  rw [houters.2, limitRad_of_mem _ hprincipal₂, mul_assoc, outer_mul_outer, mul_one] at hlast
  rw [shift_oriented, add_sub_cancel_right] at hmiddle'
  cases extrinsic with
  | true => exact Prod.ext hfirst (Prod.ext hmiddle' hlast)
  | false => exact Prod.ext hlast (Prod.ext hmiddle' hfirst)

end Overall

/-- For every sequence of axes, of the body or of space: the angles of an orientation are in range and turn back to it,
    exactly where the middle angle is clear of its ends and within 1e-7 near them; and angles that are in range and
    clear are those of their orientation. -/
theorem eulers_turns (axes : EulerAxes) (extrinsic : Bool) :
    (∀ q : ℍ[ℝ], ‖q‖ = 1 →
      let angles := eulers piHalf realEulerMath q axes extrinsic
      Principal axes extrinsic angles ∧ angles.2.1 + shift axes ∈ Set.Icc 0 Real.pi ∧
        ∃ s : ℝ, (s = 1 ∨ s = -1) ∧ ‖q - s • turnsOf axes extrinsic angles‖ < 1e-7 ∧
          (Clear axes angles → q = s • turnsOf axes extrinsic angles)) ∧
    ∀ angles, Principal axes extrinsic angles → Clear axes angles → ∀ s : ℝ, s ≠ 0 →
      eulers piHalf realEulerMath (s • turnsOf axes extrinsic angles) axes extrinsic = angles :=
  ⟨fun _ hq => eulers_near axes extrinsic hq, fun _ hprincipal hclear _ hs => eulers_turnsOf hprincipal hclear hs⟩

/-- About z, x and z of the body: the angles of a turn that takes each axis to the next, and angles back from a
    quaternion that is not a unit. -/
theorem eulers_turns_zxz :
    let axes : EulerAxes := ⟨2, 0, 2, by decide, by decide⟩
    let q : ℍ[ℝ] := ⟨1 / 2, 1 / 2, 1 / 2, 1 / 2⟩
    let angles := eulers piHalf realEulerMath q axes false
    (Principal axes false angles ∧ angles.2.1 + shift axes ∈ Set.Icc 0 Real.pi ∧
      ∃ s : ℝ, (s = 1 ∨ s = -1) ∧ ‖q - s • turnsOf axes false angles‖ < 1e-7) ∧
    eulers piHalf realEulerMath ((-3 : ℝ) • turnsOf axes false (1, 0.5, -1)) axes false = (1, 0.5, -1) := by
  intro axes q angles
  have hunit : ‖q‖ = 1 := by
    have hsquare : ‖q‖ * ‖q‖ = 1 := by
      rw [← normSq_eq_norm_mul_self, normSq_def']
      norm_num [q]
    nlinarith [norm_nonneg q]
  have hpi := Real.two_le_pi
  have houter : outer (oriented axes false) = 1 := if_pos (by decide)
  have hshift : shift axes = 0 := if_pos (by decide)
  have hprincipal : Principal axes false (1, 0.5, -1) := by
    unfold Principal
    dsimp only
    rw [houter]
    refine ⟨⟨?_, ?_⟩, ?_, ?_⟩ <;> norm_num <;> linarith
  have hclear : Clear axes (1, 0.5, -1) := by
    rw [Clear, hshift]
    constructor <;> norm_num
    linarith
  obtain ⟨hangles, hback⟩ := eulers_turns axes false
  obtain ⟨hrange, hmiddle, s, hs, hnear, -⟩ := hangles q hunit
  exact ⟨⟨hrange, hmiddle, s, hs, hnear⟩, hback _ hprincipal hclear (-3) (by norm_num)⟩

end Eulers

end SpVision
