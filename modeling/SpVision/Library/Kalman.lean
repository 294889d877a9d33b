import Mathlib.LinearAlgebra.Matrix.PosDef
import Mathlib.Tactic.Abel

set_option autoImplicit false

/-!
# The covariance of a linear estimate

A correction with any gain leaves a covariance. Its distance to the least one is the covariance of the
difference of the gains, so the gain of the filter is the best.
-/
namespace SpVision.Kalman

open Matrix

section Correction

variable {ι κ K : Type} [Fintype ι] [Fintype κ] [DecidableEq ι] [CommRing K]

/-- The covariance of the difference between a measurement and its prediction. -/
def innovation (P : Matrix ι ι K) (H : Matrix κ ι K) (R : Matrix κ κ K) : Matrix κ κ K := H * P * Hᵀ + R

/-- The covariance after a correction with the gain `G`. -/
def corrected (P : Matrix ι ι K) (H : Matrix κ ι K) (R : Matrix κ κ K) (G : Matrix ι κ K) : Matrix ι ι K :=
  (1 - G * H) * P * (1 - G * H)ᵀ + G * R * Gᵀ

variable {P : Matrix ι ι K} {H : Matrix κ ι K} {R : Matrix κ κ K} {G : Matrix ι κ K}

theorem corrected_expand (P : Matrix ι ι K) (H : Matrix κ ι K) (R : Matrix κ κ K) (G : Matrix ι κ K) :
    corrected P H R G = P - G * (H * P) - P * Hᵀ * Gᵀ + G * innovation P H R * Gᵀ := by
  rw [corrected, innovation, transpose_sub, transpose_one, transpose_mul]
  simp only [Matrix.sub_mul, Matrix.mul_sub, Matrix.add_mul, Matrix.mul_add, Matrix.one_mul, Matrix.mul_one,
    Matrix.mul_assoc]
  abel

omit [DecidableEq ι] [Fintype κ] in
theorem innovation_symm (hP : Pᵀ = P) (hR : Rᵀ = R) : (innovation P H R)ᵀ = innovation P H R := by
  rw [innovation, transpose_add, transpose_mul, transpose_mul, transpose_transpose, hP, hR, Matrix.mul_assoc]

/-- Completing the square in the gain. -/
theorem corrected_eq (hP : Pᵀ = P) (hR : Rᵀ = R) (hgain : G * innovation P H R = P * Hᵀ) (L : Matrix ι κ K) :
    corrected P H R L =
      P - G * innovation P H R * Gᵀ + (L - G) * innovation P H R * (L - G)ᵀ := by
  have hcross : innovation P H R * Gᵀ = H * P := by
    have htranspose := congrArg transpose hgain
    rwa [transpose_mul, transpose_mul, transpose_transpose, hP, innovation_symm hP hR] at htranspose
  have hsquare : (L - G) * innovation P H R * (L - G)ᵀ =
      L * innovation P H R * Lᵀ - L * (innovation P H R * Gᵀ) - G * innovation P H R * Lᵀ +
        G * innovation P H R * Gᵀ := by
    rw [transpose_sub]
    simp only [Matrix.sub_mul, Matrix.mul_sub, Matrix.mul_assoc]
    abel
  rw [corrected_expand, hsquare, hcross, hgain]
  abel

theorem corrected_gain (hP : Pᵀ = P) (hR : Rᵀ = R) (hgain : G * innovation P H R = P * Hᵀ) :
    corrected P H R G = P - G * innovation P H R * Gᵀ := by
  rw [corrected_eq hP hR hgain, sub_self, Matrix.zero_mul, Matrix.zero_mul, add_zero]

/-! ### A direction that is not observed -/

omit [DecidableEq ι] in
/-- The state along `e` is not correlated to the rest. -/
def Isolated (P : Matrix ι ι K) (e : ι → K) : Prop := ∃ c : K, e ᵥ* P = c • e

variable {e : ι → K}

omit [DecidableEq ι] in
theorem Isolated.predicted (h : Isolated P e) {F Q : Matrix ι ι K} (hleft : e ᵥ* F = e) (hright : F *ᵥ e = e)
    (hQ : e ᵥ* Q = 0) : Isolated (F * P * Fᵀ + Q) e := by
  obtain ⟨c, hc⟩ := h
  refine ⟨c, ?_⟩
  rw [vecMul_add, hQ, add_zero, ← vecMul_vecMul, ← vecMul_vecMul, hleft, hc, smul_vecMul, vecMul_transpose, hright]

omit [DecidableEq ι] in
/-- A measurement does not correct it. -/
theorem Isolated.gain (h : Isolated P e) (hH : H *ᵥ e = 0) (M : Matrix κ κ K) : e ᵥ* (P * Hᵀ * M) = 0 := by
  obtain ⟨c, hc⟩ := h
  rw [← vecMul_vecMul, ← vecMul_vecMul, hc, smul_vecMul, vecMul_transpose, hH, smul_zero, zero_vecMul]

theorem Isolated.corrected (h : Isolated P e) (hH : H *ᵥ e = 0) (hG : e ᵥ* G = 0) (R : Matrix κ κ K) :
    Isolated (corrected P H R G) e := by
  obtain ⟨c, hc⟩ := h
  have hleft : e ᵥ* (1 - G * H) = e := by
    rw [vecMul_sub, vecMul_one, ← vecMul_vecMul, hG, zero_vecMul, sub_zero]
  have hright : (1 - G * H) *ᵥ e = e := by
    rw [sub_mulVec, one_mulVec, ← mulVec_mulVec, hH, mulVec_zero, sub_zero]
  refine ⟨c, ?_⟩
  rw [Kalman.corrected, vecMul_add, ← vecMul_vecMul, ← vecMul_vecMul, hleft, hc, smul_vecMul, vecMul_transpose,
    hright, ← vecMul_vecMul, ← vecMul_vecMul, hG, zero_vecMul, zero_vecMul, add_zero]

end Correction

section Covariance

variable {ι κ : Type} [Fintype ι] [Fintype κ] [DecidableEq ι] {P : Matrix ι ι ℝ} {H : Matrix κ ι ℝ}
  {R : Matrix κ κ ℝ} {G : Matrix ι κ ℝ}

omit [DecidableEq ι] in
theorem predicted_posSemidef (hP : P.PosSemidef) {Q : Matrix ι ι ℝ} (hQ : Q.PosSemidef) (F : Matrix ι ι ℝ) :
    (F * P * Fᵀ + Q).PosSemidef := by
  have hmoved := hP.mul_mul_conjTranspose_same F
  rw [conjTranspose_eq_transpose_of_trivial] at hmoved
  exact hmoved.add hQ

omit [DecidableEq ι] in
theorem innovation_posDef (hP : P.PosSemidef) (hR : R.PosDef) (H : Matrix κ ι ℝ) : (innovation P H R).PosDef := by
  have hmoved := hP.mul_mul_conjTranspose_same H
  rw [conjTranspose_eq_transpose_of_trivial] at hmoved
  exact Matrix.PosDef.posSemidef_add hmoved hR

theorem corrected_posSemidef (hP : P.PosSemidef) (hR : R.PosSemidef) (H : Matrix κ ι ℝ) (G : Matrix ι κ ℝ) :
    (corrected P H R G).PosSemidef := by
  have hstate := hP.mul_mul_conjTranspose_same (1 - G * H)
  have hnoise := hR.mul_mul_conjTranspose_same G
  rw [conjTranspose_eq_transpose_of_trivial] at hstate hnoise
  exact hstate.add hnoise

omit [Fintype ι] [DecidableEq ι] in
theorem transpose_eq {M : Matrix ι ι ℝ} (hM : M.PosSemidef) : Mᵀ = M := by
  have hhermitian := hM.isHermitian
  rwa [IsHermitian, conjTranspose_eq_transpose_of_trivial] at hhermitian

/-- No other gain leaves less uncertainty in any direction. -/
theorem corrected_least (hP : P.PosSemidef) (hR : R.PosDef) (hgain : G * innovation P H R = P * Hᵀ)
    (L : Matrix ι κ ℝ) : (corrected P H R L - corrected P H R G).PosSemidef := by
  have hsquare := (innovation_posDef hP hR H).posSemidef.mul_mul_conjTranspose_same (L - G)
  have hRsymm : Rᵀ = R := transpose_eq hR.posSemidef
  rw [conjTranspose_eq_transpose_of_trivial] at hsquare
  rw [corrected_gain (transpose_eq hP) hRsymm hgain, corrected_eq (transpose_eq hP) hRsymm hgain, add_sub_cancel_left]
  exact hsquare

end Covariance

end SpVision.Kalman
