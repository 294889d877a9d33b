import Mathlib.Analysis.Quaternion
import Mathlib.LinearAlgebra.Matrix.NonsingularInverse
import Mathlib.Tactic.LinearCombination
import Mathlib.Tactic.NoncommRing

set_option autoImplicit false

/-!
# Rotations by unit quaternions

A matrix rotates as a unit quaternion does by conjugation. The quaternion is unique up to its sign.
-/
namespace SpVision.Rotations

open Matrix Quaternion

/-- A vector as a quaternion. -/
def vector (v : Fin 3 → ℝ) : ℍ[ℝ] := ⟨0, v 0, v 1, v 2⟩

@[simp] theorem vector_re (v : Fin 3 → ℝ) : (vector v).re = 0 := rfl
@[simp] theorem vector_imI (v : Fin 3 → ℝ) : (vector v).imI = v 0 := rfl
@[simp] theorem vector_imJ (v : Fin 3 → ℝ) : (vector v).imJ = v 1 := rfl
@[simp] theorem vector_imK (v : Fin 3 → ℝ) : (vector v).imK = v 2 := rfl

theorem vector_inj {v w : Fin 3 → ℝ} (h : vector v = vector w) : v = w := by
  funext i
  fin_cases i
  · exact congrArg QuaternionAlgebra.imI h
  · exact congrArg QuaternionAlgebra.imJ h
  · exact congrArg QuaternionAlgebra.imK h

structure Rotates (R : Matrix (Fin 3) (Fin 3) ℝ) (q : ℍ[ℝ]) : Prop where
  unit : ‖q‖ = 1
  turns : ∀ v, vector (R *ᵥ v) = q * vector v * star q

variable {R R' : Matrix (Fin 3) (Fin 3) ℝ} {q q' : ℍ[ℝ]}

theorem star_mul_self_of_unit (h : ‖q‖ = 1) : star q * q = 1 := by
  rw [star_mul_self, normSq_eq_norm_mul_self, h, mul_one, coe_one]

theorem self_mul_star_of_unit (h : ‖q‖ = 1) : q * star q = 1 := by
  rw [self_mul_star, normSq_eq_norm_mul_self, h, mul_one, coe_one]

namespace Rotates

theorem one : Rotates 1 1 := ⟨norm_one, fun v => by rw [one_mulVec, one_mul, star_one, mul_one]⟩

theorem mul (h : Rotates R q) (h' : Rotates R' q') : Rotates (R * R') (q * q') := by
  refine ⟨by rw [norm_mul, h.unit, h'.unit, one_mul], fun v => ?_⟩
  rw [← mulVec_mulVec, h.turns, h'.turns, star_mul]
  noncomm_ring

theorem neg (h : Rotates R q) : Rotates R (-q) := by
  refine ⟨(norm_neg q).trans h.unit, fun v => ?_⟩
  rw [h.turns, star_neg, neg_mul, neg_mul_neg]

/-- The quaternion decides the rotation. -/
theorem matrix_eq (h : Rotates R q) (h' : Rotates R' q) : R = R' := by
  refine Matrix.ext_of_mulVec_single fun i => ?_
  exact vector_inj ((h.turns _).trans (h'.turns _).symm)

/-- A rotation is undone by the conjugate. -/
theorem star_apply (h : Rotates R q) (v : Fin 3 → ℝ) : star q * vector (R *ᵥ v) * q = vector v := by
  have hstar := star_mul_self_of_unit h.unit
  calc star q * vector (R *ᵥ v) * q = (star q * q) * vector v * (star q * q) := by
        rw [h.turns]
        noncomm_ring
    _ = vector v := by rw [hstar, one_mul, mul_one]

/-- The length of a vector is kept. -/
theorem dotProduct_mulVec (h : Rotates R q) (v w : Fin 3 → ℝ) : (R *ᵥ v) ⬝ᵥ (R *ᵥ w) = v ⬝ᵥ w := by
  have hre (v w : Fin 3 → ℝ) : (vector v * vector w).re = -(v ⬝ᵥ w) := by
    simp [dotProduct, Fin.sum_univ_succ]
    ring
  have hturned : vector (R *ᵥ v) * vector (R *ᵥ w) = q * (vector v * vector w) * star q := by
    calc vector (R *ᵥ v) * vector (R *ᵥ w) = q * vector v * (star q * q) * vector w * star q := by
          rw [h.turns, h.turns]
          noncomm_ring
      _ = q * (vector v * vector w) * star q := by
          rw [star_mul_self_of_unit h.unit]
          noncomm_ring
  have hkept (x : ℍ[ℝ]) : (q * x * star q).re = x.re := by
    have hnorm : q.re ^ 2 + q.imI ^ 2 + q.imJ ^ 2 + q.imK ^ 2 = 1 := by
      rw [← normSq_def', normSq_eq_norm_mul_self, h.unit, mul_one]
    simp
    linear_combination x.re * hnorm
  have hcompare := congrArg QuaternionAlgebra.re hturned
  rw [hkept, hre, hre] at hcompare
  exact neg_injective hcompare

theorem transpose_mul (h : Rotates R q) : Rᵀ * R = 1 := by
  ext i j
  have hentry := h.dotProduct_mulVec (Pi.single i 1) (Pi.single j 1)
  rw [mulVec_single_one, mulVec_single_one, single_dotProduct, one_mul, Pi.single_apply] at hentry
  rw [mul_apply', one_apply]
  exact hentry

theorem mul_transpose (h : Rotates R q) : R * Rᵀ = 1 := mul_eq_one_comm.mp h.transpose_mul

theorem transpose (h : Rotates R q) : Rotates Rᵀ (star q) := by
  refine ⟨(Quaternion.norm_star q).trans h.unit, fun v => ?_⟩
  rw [star_star, ← h.star_apply, mulVec_mulVec, h.mul_transpose, one_mulVec]

/-- Quaternions of one rotation differ by their sign at most. -/
theorem eq_or_neg (h : Rotates R q) (h' : Rotates R q') : q' = q ∨ q' = -q := by
  have hfix (v : Fin 3 → ℝ) : (star q * q') * vector v = vector v * (star q * q') := by
    have hboth : q * vector v * star q = q' * vector v * star q' := (h.turns v).symm.trans (h'.turns v)
    calc (star q * q') * vector v = star q * (q' * vector v * star q') * q' := by
          rw [← mul_one (star q * q' * vector v), ← star_mul_self_of_unit h'.unit]
          noncomm_ring
      _ = (star q * q) * vector v * (star q * q') := by
          rw [← hboth]
          noncomm_ring
      _ = vector v * (star q * q') := by rw [star_mul_self_of_unit h.unit, one_mul]
  set p := star q * q' with hp
  have hback : q' = q * p := by
    rw [hp, ← mul_assoc, self_mul_star_of_unit h.unit, one_mul]
  have hunit : ‖p‖ = 1 := by
    rw [hp, norm_mul, Quaternion.norm_star, h.unit, h'.unit, one_mul]
  -- what commutes with every vector is real
  have hK : p.imK = 0 := by
    have hcomponent := congrArg QuaternionAlgebra.imJ (hfix ![1, 0, 0])
    simp at hcomponent
    linarith
  have hJ : p.imJ = 0 := by
    have hcomponent := congrArg QuaternionAlgebra.imK (hfix ![1, 0, 0])
    simp at hcomponent
    linarith
  have hI : p.imI = 0 := by
    have hcomponent := congrArg QuaternionAlgebra.imK (hfix ![0, 1, 0])
    simp at hcomponent
    linarith
  have hre : p.re * p.re = 1 := by
    have hnorm : normSq p = 1 := by
      rw [normSq_eq_norm_mul_self, hunit, mul_one]
    rw [normSq_def', hI, hJ, hK] at hnorm
    linarith
  have hreal : p = p.re := by
    ext <;> simp [hI, hJ, hK]
  rcases mul_self_eq_one_iff.mp hre with hone | hone
  · left
    rw [hback, hreal, hone, coe_one, mul_one]
  · right
    rw [hback, hreal, hone, coe_neg, coe_one, mul_neg_one]

end Rotates

/-- The matrix of a unit quaternion. -/
def matrixOf (q : ℍ[ℝ]) : Matrix (Fin 3) (Fin 3) ℝ :=
  let two : ℝ := (2 : ℕ)
  !![1 - two * (q.imJ * q.imJ + q.imK * q.imK), two * (q.imI * q.imJ - q.re * q.imK),
      two * (q.imI * q.imK + q.re * q.imJ);
    two * (q.imI * q.imJ + q.re * q.imK), 1 - two * (q.imI * q.imI + q.imK * q.imK),
      two * (q.imJ * q.imK - q.re * q.imI);
    two * (q.imI * q.imK - q.re * q.imJ), two * (q.imJ * q.imK + q.re * q.imI),
      1 - two * (q.imI * q.imI + q.imJ * q.imJ)]

theorem rotates_matrixOf (h : ‖q‖ = 1) : Rotates (matrixOf q) q := by
  refine ⟨h, fun v => ?_⟩
  have hnorm : q.re ^ 2 + q.imI ^ 2 + q.imJ ^ 2 + q.imK ^ 2 = 1 := by
    rw [← normSq_def', normSq_eq_norm_mul_self, h, mul_one]
  ext <;> simp [matrixOf, dotProduct, Fin.sum_univ_succ]
  · ring
  · linear_combination -(v 0) * hnorm
  · linear_combination -(v 1) * hnorm
  · linear_combination -(v 2) * hnorm

/-! ### The quaternion of a rotation -/

theorem Rotates.eq_matrixOf (h : Rotates R q) : R = matrixOf q := h.matrix_eq (rotates_matrixOf h.unit)

theorem Rotates.squares (h : Rotates R q) : q.re ^ 2 + q.imI ^ 2 + q.imJ ^ 2 + q.imK ^ 2 = 1 := by
  rw [← normSq_def', normSq_eq_norm_mul_self, h.unit, mul_one]

/-- A quaternion of a rotation is scaled by four times one of its entries, over twice the root of four times the square
    of this. -/
theorem Rotates.of_scaled (h : Rotates R q) {c square : ℝ} (hc : c ≠ 0) (hsquare : square = 4 * c ^ 2)
    (hre : 2 * √square * q'.re = 4 * c * q.re) (hI : 2 * √square * q'.imI = 4 * c * q.imI)
    (hJ : 2 * √square * q'.imJ = 4 * c * q.imJ) (hK : 2 * √square * q'.imK = 4 * c * q.imK) : Rotates R q' := by
  have hq : (2 * √square) • q' = (4 * c) • q := by
    ext <;> simp only [re_smul, imI_smul, imJ_smul, imK_smul, smul_eq_mul]
    · exact hre
    · exact hI
    · exact hJ
    · exact hK
  have hroot : √square = 2 * |c| := by
    have hpower : square = (2 * |c|) ^ 2 := by
      rw [hsquare, mul_pow, sq_abs]
      norm_num
    rw [hpower, Real.sqrt_sq (by positivity)]
  have hfour : 4 * c ≠ 0 := mul_ne_zero four_ne_zero hc
  rcases lt_or_gt_of_ne hc with hneg | hpos
  · have hscale : (4 * c) • -q' = (4 * c) • q := by
      rw [← hq, hroot, abs_of_neg hneg, smul_neg, ← neg_smul]
      congr 1
      ring
    rw [← neg_neg q', smul_right_injective _ hfour hscale]
    exact h.neg
  · have hscale : (4 * c) • q' = (4 * c) • q := by
      rw [← hq, hroot, abs_of_pos hpos]
      congr 1
      ring
    rw [smul_right_injective _ hfour hscale]
    exact h

theorem root_ne_zero {c square : ℝ} (hc : c ≠ 0) (hsquare : square = 4 * c ^ 2) :
    √square ≠ 0 ∧ √square * √square = 4 * c ^ 2 := by
  have hpos : 0 < square := by
    rw [hsquare]
    positivity
  exact ⟨(Real.sqrt_pos.mpr hpos).ne', (Real.mul_self_sqrt hpos.le).trans hsquare⟩

section Quaternions

variable (R)

/-- A quaternion of a rotation by its trace. -/
noncomputable def quaternionByTrace : ℍ[ℝ] :=
  let t := √(R 0 0 + R 1 1 + R 2 2 + 1)
  let half : ℝ := 1 / (2 : ℕ) / t
  ⟨t / (2 : ℕ), (R 2 1 - R 1 2) * half, (R 0 2 - R 2 0) * half, (R 1 0 - R 0 1) * half⟩

/-- By an entry of its diagonal. -/
noncomputable def quaternionByX : ℍ[ℝ] :=
  let t := √(R 0 0 - R 1 1 - R 2 2 + 1)
  let half : ℝ := 1 / (2 : ℕ) / t
  ⟨(R 2 1 - R 1 2) * half, t / (2 : ℕ), (R 1 0 + R 0 1) * half, (R 2 0 + R 0 2) * half⟩

noncomputable def quaternionByY : ℍ[ℝ] :=
  let t := √(R 1 1 - R 2 2 - R 0 0 + 1)
  let half : ℝ := 1 / (2 : ℕ) / t
  ⟨(R 0 2 - R 2 0) * half, (R 0 1 + R 1 0) * half, t / (2 : ℕ), (R 2 1 + R 1 2) * half⟩

noncomputable def quaternionByZ : ℍ[ℝ] :=
  let t := √(R 2 2 - R 0 0 - R 1 1 + 1)
  let half : ℝ := 1 / (2 : ℕ) / t
  ⟨(R 1 0 - R 0 1) * half, (R 0 2 + R 2 0) * half, (R 1 2 + R 2 1) * half, t / (2 : ℕ)⟩

/-- The quaternion of a rotation, by its trace or by the greatest entry of its diagonal. -/
noncomputable def quaternionOf : ℍ[ℝ] :=
  if 0 < R 0 0 + R 1 1 + R 2 2 then quaternionByTrace R
  else if R 1 1 ≤ R 0 0 ∧ R 2 2 ≤ R 0 0 then quaternionByX R
  else if R 2 2 ≤ R 1 1 then quaternionByY R
  else quaternionByZ R

end Quaternions

theorem scaled_root (t : ℝ) : 2 * t * (t / (2 : ℕ)) = t * t := by
  rw [Nat.cast_ofNat]
  ring

theorem scaled_half {t : ℝ} (ht : t ≠ 0) (a : ℝ) : 2 * t * (a * (1 / (2 : ℕ) / t)) = a := by
  rw [Nat.cast_ofNat]
  field_simp

namespace Rotates

theorem diagonal (h : Rotates R q) : R 0 0 = 1 - 2 * (q.imJ ^ 2 + q.imK ^ 2) ∧
    R 1 1 = 1 - 2 * (q.imI ^ 2 + q.imK ^ 2) ∧ R 2 2 = 1 - 2 * (q.imI ^ 2 + q.imJ ^ 2) := by
  rw [h.eq_matrixOf]
  simp [matrixOf, sq]

theorem differences (h : Rotates R q) : R 2 1 - R 1 2 = 4 * q.re * q.imI ∧ R 0 2 - R 2 0 = 4 * q.re * q.imJ ∧
    R 1 0 - R 0 1 = 4 * q.re * q.imK := by
  rw [h.eq_matrixOf]
  refine ⟨?_, ?_, ?_⟩ <;> simp [matrixOf] <;> ring

theorem sums (h : Rotates R q) : R 1 0 + R 0 1 = 4 * q.imI * q.imJ ∧ R 2 0 + R 0 2 = 4 * q.imI * q.imK ∧
    R 2 1 + R 1 2 = 4 * q.imJ * q.imK := by
  rw [h.eq_matrixOf]
  refine ⟨?_, ?_, ?_⟩ <;> simp [matrixOf] <;> ring

theorem byTrace (h : Rotates R q) (hre : q.re ≠ 0) : Rotates R (quaternionByTrace R) := by
  obtain ⟨h0, h1, h2⟩ := h.diagonal
  obtain ⟨hI, hJ, hK⟩ := h.differences
  have hsquare : R 0 0 + R 1 1 + R 2 2 + 1 = 4 * q.re ^ 2 := by
    rw [h0, h1, h2]
    linear_combination -4 * h.squares
  obtain ⟨hne, hroot⟩ := root_ne_zero hre hsquare
  refine h.of_scaled hre hsquare ?_ ((scaled_half hne _).trans hI) ((scaled_half hne _).trans hJ)
    ((scaled_half hne _).trans hK)
  exact (scaled_root _).trans (hroot.trans (by ring))

theorem byX (h : Rotates R q) (hx : q.imI ≠ 0) : Rotates R (quaternionByX R) := by
  obtain ⟨h0, h1, h2⟩ := h.diagonal
  obtain ⟨hre, -, -⟩ := h.differences
  obtain ⟨hJ, hK, -⟩ := h.sums
  have hsquare : R 0 0 - R 1 1 - R 2 2 + 1 = 4 * q.imI ^ 2 := by
    rw [h0, h1, h2]
    ring
  obtain ⟨hne, hroot⟩ := root_ne_zero hx hsquare
  refine h.of_scaled hx hsquare ((scaled_half hne _).trans (hre.trans (by ring))) ?_ ((scaled_half hne _).trans hJ)
    ((scaled_half hne _).trans hK)
  exact (scaled_root _).trans (hroot.trans (by ring))

theorem byY (h : Rotates R q) (hy : q.imJ ≠ 0) : Rotates R (quaternionByY R) := by
  obtain ⟨h0, h1, h2⟩ := h.diagonal
  obtain ⟨-, hre, -⟩ := h.differences
  obtain ⟨hI, -, hK⟩ := h.sums
  have hsquare : R 1 1 - R 2 2 - R 0 0 + 1 = 4 * q.imJ ^ 2 := by
    rw [h0, h1, h2]
    ring
  obtain ⟨hne, hroot⟩ := root_ne_zero hy hsquare
  refine h.of_scaled hy hsquare ((scaled_half hne _).trans (hre.trans (by ring)))
    ((scaled_half hne _).trans ((add_comm _ _).trans (hI.trans (by ring)))) ?_ ((scaled_half hne _).trans hK)
  exact (scaled_root _).trans (hroot.trans (by ring))

theorem byZ (h : Rotates R q) (hz : q.imK ≠ 0) : Rotates R (quaternionByZ R) := by
  obtain ⟨h0, h1, h2⟩ := h.diagonal
  obtain ⟨-, -, hre⟩ := h.differences
  obtain ⟨-, hI, hJ⟩ := h.sums
  have hsquare : R 2 2 - R 0 0 - R 1 1 + 1 = 4 * q.imK ^ 2 := by
    rw [h0, h1, h2]
    ring
  obtain ⟨hne, hroot⟩ := root_ne_zero hz hsquare
  refine h.of_scaled hz hsquare ((scaled_half hne _).trans (hre.trans (by ring)))
    ((scaled_half hne _).trans ((add_comm _ _).trans (hI.trans (by ring))))
    ((scaled_half hne _).trans ((add_comm _ _).trans (hJ.trans (by ring)))) ?_
  exact (scaled_root _).trans (hroot.trans (by ring))

end Rotates

theorem rotates_quaternionOf (h : Rotates R q) : Rotates R (quaternionOf R) := by
  obtain ⟨h0, h1, h2⟩ := h.diagonal
  have hsquares := h.squares
  unfold quaternionOf
  split_ifs with htrace hfirst hsecond
  · refine h.byTrace fun hre => ?_
    rw [h0, h1, h2] at htrace
    rw [hre] at hsquares
    nlinarith
  · refine h.byX fun hx => ?_
    rw [h0, h1, h2] at htrace hfirst
    rw [hx] at hsquares hfirst
    nlinarith
  · refine h.byY fun hy => hfirst ?_
    rw [h1, h2, hy] at hsecond
    rw [h0, h1, h2, hy]
    constructor <;> nlinarith
  · refine h.byZ fun hz => hsecond ?_
    rw [h1, h2, hz]
    nlinarith

end SpVision.Rotations
