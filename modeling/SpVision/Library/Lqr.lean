import Mathlib.Algebra.BigOperators.Fin
import Mathlib.LinearAlgebra.Matrix.NonsingularInverse
import Mathlib.Tactic.LinearCombination
import Mathlib.Tactic.Ring

set_option autoImplicit false

/-!
# Linear dynamics with a quadratic cost

A feedback is rolled out from the initial state, with a cost to go that is nearly a fixed point of the
Riccati recursion. The excess of any other run is the cost of its difference to it, up to what the
residuals of the recursion make of the two. Costs are counted twice.
-/
namespace SpVision.Lqr

open Matrix

section Forms

variable {ι κ K : Type} [Fintype ι] [Fintype κ] [CommRing K]

def quad (M : Matrix ι ι K) (v : ι → K) : K := v ⬝ᵥ M *ᵥ v

/-- A quadratic cost with a linear term. -/
def value (M : Matrix ι ι K) (p v : ι → K) : K := quad M v + 2 • (p ⬝ᵥ v)

theorem quad_add {M : Matrix ι ι K} (hM : Mᵀ = M) (v w : ι → K) :
    quad M (v + w) = quad M v + 2 * (v ⬝ᵥ M *ᵥ w) + quad M w := by
  have hcross : w ⬝ᵥ M *ᵥ v = v ⬝ᵥ M *ᵥ w := by
    rw [← dotProduct_transpose_mulVec, hM]
  rw [quad, mulVec_add, dotProduct_add, add_dotProduct, add_dotProduct, hcross, quad, quad]
  ring

theorem quad_mulVec (M : Matrix ι ι K) (N : Matrix ι κ K) (v : κ → K) : quad M (N *ᵥ v) = quad (Nᵀ * M * N) v := by
  rw [quad, quad, ← mulVec_mulVec, ← mulVec_mulVec, dotProduct_transpose_mulVec, dotProduct_comm]

theorem quad_matrix_add (M N : Matrix ι ι K) (v : ι → K) : quad (M + N) v = quad M v + quad N v := by
  rw [quad, add_mulVec, dotProduct_add, quad, quad]

theorem quad_matrix_sub (M N : Matrix ι ι K) (v : ι → K) : quad (M - N) v = quad M v - quad N v := by
  rw [quad, sub_mulVec, dotProduct_sub, quad, quad]

theorem quad_zero (M : Matrix ι ι K) : quad M 0 = 0 := zero_dotProduct _

theorem quad_neg (M : Matrix ι ι K) (v : ι → K) : quad M (-v) = quad M v := by
  rw [quad, quad, mulVec_neg, neg_dotProduct_neg]

theorem value_zero (M : Matrix ι ι K) (v : ι → K) : value M 0 v = quad M v := by
  rw [value, zero_dotProduct, smul_zero, add_zero]

end Forms

/-- The dynamics `x' = A x + B u + f`. -/
structure Plant (ι κ K : Type) where
  A : Matrix ι ι K
  B : Matrix ι κ K
  f : ι → K

section Riccati

variable {ι κ K : Type} [Fintype ι] [Fintype κ] [CommRing K]

/-- The cost of an input one step before a cost to go `P`. -/
def inputCost (plant : Plant ι κ K) (R : Matrix κ κ K) (P : Matrix ι ι K) : Matrix κ κ K :=
  R + plant.Bᵀ * P * plant.B

/-- How far the gain `G` is from the one that is optimal before the cost to go `P`. -/
def gainResidual (plant : Plant ι κ K) (R : Matrix κ κ K) (P : Matrix ι ι K) (G : Matrix κ ι K) : Matrix κ ι K :=
  inputCost plant R P * G - plant.Bᵀ * P * plant.A

/-- How far `P` is from the cost to go one step before it. -/
def costResidual (plant : Plant ι κ K) (Q P : Matrix ι ι K) (G : Matrix κ ι K) : Matrix ι ι K :=
  P - (Q + plant.Aᵀ * P * (plant.A - plant.B * G))

/-- What the residuals make of a state and an input. -/
def defect (plant : Plant ι κ K) (Q : Matrix ι ι K) (R : Matrix κ κ K) (P : Matrix ι ι K) (G : Matrix κ ι K) (x : ι → K)
    (u : κ → K) : K :=
  quad (costResidual plant Q P G) x + (2 • u + G *ᵥ x) ⬝ᵥ gainResidual plant R P G *ᵥ x

/-- What they make of two states and inputs together. -/
def mixed (plant : Plant ι κ K) (Q : Matrix ι ι K) (R : Matrix κ κ K) (P : Matrix ι ι K) (G : Matrix κ ι K) (x : ι → K)
    (u : κ → K) (x' : ι → K) (u' : κ → K) : K :=
  x ⬝ᵥ costResidual plant Q P G *ᵥ x' + x' ⬝ᵥ costResidual plant Q P G *ᵥ x +
    (2 • u + G *ᵥ x) ⬝ᵥ gainResidual plant R P G *ᵥ x' + (2 • u' + G *ᵥ x') ⬝ᵥ gainResidual plant R P G *ᵥ x

/-- What the linear term `p` of the cost to go becomes one step earlier, for the linear terms `q` and `r` there. -/
def earlier (plant : Plant ι κ K) (P : Matrix ι ι K) (G : Matrix κ ι K) (q : ι → K) (r : κ → K) (p : ι → K) : ι → K :=
  q + (plant.A - plant.B * G)ᵀ *ᵥ p - Gᵀ *ᵥ r + (plant.A - plant.B * G)ᵀ *ᵥ (P *ᵥ plant.f)

variable {plant : Plant ι κ K} {Q : Matrix ι ι K} {R : Matrix κ κ K} {P : Matrix ι ι K} {G : Matrix κ ι K}

omit [Fintype κ] in
theorem inputCost_symm (hP : Pᵀ = P) (hR : Rᵀ = R) : (inputCost plant R P)ᵀ = inputCost plant R P := by
  rw [inputCost, transpose_add, transpose_mul, transpose_mul, transpose_transpose, hP, hR, Matrix.mul_assoc]

theorem gain_cross (hP : Pᵀ = P) (hR : Rᵀ = R) (hgain : inputCost plant R P * G = plant.Bᵀ * P * plant.A) :
    plant.Aᵀ * P * (plant.B * G) = Gᵀ * inputCost plant R P * G := by
  have htranspose : Gᵀ * inputCost plant R P = plant.Aᵀ * P * plant.B := by
    rw [← inputCost_symm hP hR, ← transpose_mul, hgain, transpose_mul, transpose_mul, transpose_transpose, hP,
      Matrix.mul_assoc]
  rw [htranspose, Matrix.mul_assoc (plant.Aᵀ * P)]

theorem defect_add (plant : Plant ι κ K) (x x' : ι → K) (u u' : κ → K) : defect plant Q R P G (x + x') (u + u') =
    defect plant Q R P G x u + defect plant Q R P G x' u' + mixed plant Q R P G x u x' u' := by
  simp only [defect, mixed, quad, mulVec_add, add_dotProduct, dotProduct_add, smul_add]
  ring

/-- The gain, with its residual. -/
theorem gain_mulVec (plant : Plant ι κ K) (x : ι → K) : plant.Bᵀ *ᵥ (P *ᵥ (plant.A *ᵥ x)) =
    inputCost plant R P *ᵥ (G *ᵥ x) - gainResidual plant R P G *ᵥ x := by
  rw [mulVec_mulVec, mulVec_mulVec, mulVec_mulVec, ← sub_mulVec, gainResidual, sub_sub_cancel]

/-- The cost to go, with the residuals. -/
theorem quad_cost (plant : Plant ι κ K) (hP : Pᵀ = P) (x : ι → K) :
    quad Q x + quad (plant.Aᵀ * P * plant.A) x - quad (inputCost plant R P) (G *ᵥ x) =
      quad P x - quad (costResidual plant Q P G) x - G *ᵥ x ⬝ᵥ gainResidual plant R P G *ᵥ x := by
  have hback : quad (plant.Aᵀ * P * (plant.B * G)) x = G *ᵥ x ⬝ᵥ plant.Bᵀ *ᵥ (P *ᵥ (plant.A *ᵥ x)) := by
    have hsymm := dotProduct_transpose_mulVec P (plant.A *ᵥ x) (plant.B *ᵥ (G *ᵥ x))
    rw [hP, dotProduct_comm, dotProduct_comm _ (P *ᵥ _)] at hsymm
    rw [quad, ← mulVec_mulVec, ← mulVec_mulVec, ← mulVec_mulVec, dotProduct_transpose_mulVec, dotProduct_transpose_mulVec,
      hsymm]
  have hgain := gain_mulVec (R := R) (P := P) (G := G) plant x
  have hsplit : quad P x = quad Q x + quad (plant.Aᵀ * P * plant.A) x - quad (plant.Aᵀ * P * (plant.B * G)) x +
      quad (costResidual plant Q P G) x := by
    rw [← quad_matrix_add, ← quad_matrix_sub, ← quad_matrix_add, costResidual, Matrix.mul_sub, add_sub_assoc,
      add_sub_cancel]
  have hself : G *ᵥ x ⬝ᵥ inputCost plant R P *ᵥ (G *ᵥ x) = quad (inputCost plant R P) (G *ᵥ x) := rfl
  rw [hsplit, hback, hgain, dotProduct_sub, hself]
  ring

/-- Completing the square: one stage and the cost to go after it. -/
theorem stage (hP : Pᵀ = P) (hR : Rᵀ = R) {q p : ι → K} {r d : κ → K}
    (hd : inputCost plant R P *ᵥ d = plant.Bᵀ *ᵥ p + r + plant.Bᵀ *ᵥ (P *ᵥ plant.f)) (x : ι → K) (u : κ → K) :
    value Q q x + value R r u + value P p (plant.A *ᵥ x + plant.B *ᵥ u + plant.f) =
      value P (earlier plant P G q r p) x + quad (inputCost plant R P) (u + (G *ᵥ x + d)) -
        defect plant Q R P G x u + (quad P plant.f + 2 * (p ⬝ᵥ plant.f) - quad (inputCost plant R P) d) := by
  have hsymm : (inputCost plant R P)ᵀ = inputCost plant R P := inputCost_symm hP hR
  -- the part that depends on the input
  have hinput : value R r u + value P p (plant.A *ᵥ x + plant.B *ᵥ u + plant.f) =
      quad (inputCost plant R P) (u + (G *ᵥ x + d)) - quad (inputCost plant R P) (G *ᵥ x + d) -
        2 * (u ⬝ᵥ gainResidual plant R P G *ᵥ x) + value P p (plant.A *ᵥ x + plant.f) := by
    have hcross : plant.B *ᵥ u ⬝ᵥ P *ᵥ (plant.A *ᵥ x + plant.f) + p ⬝ᵥ plant.B *ᵥ u + r ⬝ᵥ u =
        u ⬝ᵥ inputCost plant R P *ᵥ (G *ᵥ x + d) - u ⬝ᵥ gainResidual plant R P G *ᵥ x := by
      have hback (w : ι → K) : w ⬝ᵥ plant.B *ᵥ u = u ⬝ᵥ plant.Bᵀ *ᵥ w := (dotProduct_transpose_mulVec _ _ _).symm
      rw [dotProduct_comm (plant.B *ᵥ u), hback, hback, dotProduct_comm r, mulVec_add (inputCost plant R P), hd,
        mulVec_add P, mulVec_add plant.Bᵀ, gain_mulVec]
      simp only [dotProduct_add, dotProduct_sub]
      ring
    have hquad : quad P (plant.B *ᵥ u) + quad R u = quad (inputCost plant R P) u := by
      rw [quad_mulVec, add_comm, ← quad_matrix_add, inputCost]
    have horder : plant.A *ᵥ x + plant.B *ᵥ u + plant.f = plant.B *ᵥ u + (plant.A *ᵥ x + plant.f) := by abel
    rw [horder, value, value, value, quad_add hP, quad_add hsymm, ← hquad, dotProduct_add]
    linear_combination 2 * hcross
  -- what is left of it, and the part that does not
  have hstate : value Q q x - quad (inputCost plant R P) (G *ᵥ x + d) + value P p (plant.A *ᵥ x + plant.f) =
      value P (earlier plant P G q r p) x - quad (costResidual plant Q P G) x -
        G *ᵥ x ⬝ᵥ gainResidual plant R P G *ᵥ x +
        (quad P plant.f + 2 * (p ⬝ᵥ plant.f) - quad (inputCost plant R P) d) := by
    have hlinear : q ⬝ᵥ x + plant.A *ᵥ x ⬝ᵥ P *ᵥ plant.f + p ⬝ᵥ plant.A *ᵥ x -
        G *ᵥ x ⬝ᵥ inputCost plant R P *ᵥ d = earlier plant P G q r p ⬝ᵥ x := by
      rw [hd, earlier]
      simp only [transpose_sub, transpose_mul, sub_mulVec, ← mulVec_mulVec, add_dotProduct, sub_dotProduct,
        dotProduct_add]
      simp only [dotProduct_comm _ x, dotProduct_transpose_mulVec, dotProduct_comm (plant.A *ᵥ x),
        dotProduct_comm (G *ᵥ x)]
      ring
    have hcost := quad_cost (Q := Q) (R := R) (G := G) plant hP x
    rw [value, value, value, quad_add hP, quad_add hsymm, ← hlinear, quad_mulVec P plant.A, dotProduct_add]
    linear_combination hcost
  rw [add_assoc, hinput, defect, add_dotProduct, smul_dotProduct]
  linear_combination hstate

end Riccati

/-! ### Runs -/

section Runs

variable {ι κ K : Type} [Fintype ι] [Fintype κ] [CommRing K] {n : ℕ}

/-- The states and inputs follow the dynamics. -/
def Follows (plant : Plant ι κ K) (x : Fin (n + 1) → ι → K) (u : Fin n → κ → K) : Prop :=
  ∀ i, x i.succ = plant.A *ᵥ x i.castSucc + plant.B *ᵥ u i + plant.f

/-- Twice the cost of a run with the linear terms `q` and `r`, and `p` at its end. -/
def cost (Q : Matrix ι ι K) (R : Matrix κ κ K) (P : Matrix ι ι K) (q : Fin n → ι → K) (r : Fin n → κ → K) (p : ι → K)
    (x : Fin (n + 1) → ι → K) (u : Fin n → κ → K) : K :=
  ∑ i, (value Q (q i) (x i.castSucc) + value R (r i) (u i)) + value P p (x (Fin.last n))

/-- The cost without linear terms. -/
def energy (Q : Matrix ι ι K) (R : Matrix κ κ K) (P : Matrix ι ι K) (x : Fin (n + 1) → ι → K) (u : Fin n → κ → K) :
    K :=
  ∑ i, (quad Q (x i.castSucc) + quad R (u i)) + quad P (x (Fin.last n))

/-- The linear terms of the costs to go and the offsets of the inputs, from the end backwards. -/
structure Backward (plant : Plant ι κ K) (R : Matrix κ κ K) (P : Matrix ι ι K) (G : Matrix κ ι K) (q : Fin n → ι → K)
    (r : Fin n → κ → K) (p : Fin (n + 1) → ι → K) (d : Fin n → κ → K) : Prop where
  offset : ∀ i, inputCost plant R P *ᵥ d i = plant.Bᵀ *ᵥ p i.succ + r i + plant.Bᵀ *ᵥ (P *ᵥ plant.f)
  linear : ∀ i, p i.castSucc = earlier plant P G (q i) (r i) (p i.succ)

variable {plant : Plant ι κ K} {Q : Matrix ι ι K} {R : Matrix κ κ K} {P : Matrix ι ι K} {G : Matrix κ ι K}
  {q : Fin n → ι → K} {r d : Fin n → κ → K} {p : Fin (n + 1) → ι → K} {x x' : Fin (n + 1) → ι → K}
  {u u' : Fin n → κ → K}

theorem cost_zero (Q : Matrix ι ι K) (R : Matrix κ κ K) (P : Matrix ι ι K) (x : Fin (n + 1) → ι → K)
    (u : Fin n → κ → K) : cost Q R P 0 0 0 x u = energy Q R P x u := by
  simp only [cost, energy, Pi.zero_apply, value_zero]

theorem cost_eq (hP : Pᵀ = P) (hR : Rᵀ = R) (hback : Backward plant R P G q r p d) (hx : Follows plant x u) :
    cost Q R P q r (p (Fin.last n)) x u = value P (p 0) (x 0) +
      ∑ i, quad (inputCost plant R P) (u i + (G *ᵥ x i.castSucc + d i)) -
      ∑ i, defect plant Q R P G (x (Fin.castSucc i)) (u i) +
      ∑ i, (quad P plant.f + 2 * (p (Fin.succ i) ⬝ᵥ plant.f) - quad (inputCost plant R P) (d i)) := by
  have hstage (i : Fin n) := stage (Q := Q) (G := G) hP hR (q := q i) (hback.offset i) (x i.castSucc) (u i)
  simp only [← hx _, ← hback.linear] at hstage
  have hsum := Finset.sum_congr (rfl : (Finset.univ : Finset (Fin n)) = Finset.univ) fun i _ => hstage i
  simp only [Finset.sum_add_distrib, Finset.sum_sub_distrib] at hsum
  have hends := (Fin.sum_univ_succ fun i => value P (p i) (x i)).symm.trans
    (Fin.sum_univ_castSucc fun i => value P (p i) (x i))
  simp only [cost, Finset.sum_add_distrib, Finset.sum_sub_distrib]
  linear_combination hsum - hends

/-- The difference of two runs is a run without drift. -/
theorem Follows.sub (hx : Follows plant x u) (hx' : Follows plant x' u') :
    Follows { plant with f := 0 } (x' - x) (u' - u) := by
  intro i
  simp only [Pi.sub_apply, hx i, hx' i, mulVec_sub]
  abel

theorem energy_eq (hP : Pᵀ = P) (hR : Rᵀ = R) (hx : Follows { plant with f := 0 } x u) (hstart : x 0 = 0) :
    energy Q R P x u = ∑ i, quad (inputCost plant R P) (u i + G *ᵥ x i.castSucc) -
      ∑ i, defect plant Q R P G (x (Fin.castSucc i)) (u i) := by
  have hzero : Backward { plant with f := 0 } R P G (0 : Fin n → ι → K) (0 : Fin n → κ → K) 0 0 :=
    ⟨fun i => by simp, fun i => by simp [earlier]⟩
  have hcost := cost_eq (Q := Q) hP hR hzero hx
  simp only [Pi.zero_apply, cost_zero, hstart, value_zero, quad_zero, zero_add, add_zero, zero_dotProduct, mul_zero,
    sub_zero, Finset.sum_const_zero] at hcost
  exact hcost

/-- The excess of a run over the feedback's. -/
theorem cost_sub (hP : Pᵀ = P) (hR : Rᵀ = R) (hback : Backward plant R P G q r p d)
    (hx : Follows plant x u) (hx' : Follows plant x' u') (hstart : x' 0 = x 0)
    (hfeedback : ∀ i, u i = -(G *ᵥ x i.castSucc) - d i) :
    cost Q R P q r (p (Fin.last n)) x' u' - cost Q R P q r (p (Fin.last n)) x u = energy Q R P (x' - x) (u' - u) -
      ∑ i, mixed plant Q R P G (x i.castSucc) (u i) (x' i.castSucc - x i.castSucc) (u' i - u i) := by
  have hexcess : ∑ i, quad (inputCost plant R P) (u i + (G *ᵥ x i.castSucc + d i)) = 0 :=
    Finset.sum_eq_zero fun i _ => by
      rw [hfeedback i, sub_add_add_cancel, neg_add_cancel, quad_zero]
  have hsame (i : Fin n) : u' i - u i + G *ᵥ (x' i.castSucc - x i.castSucc) = u' i + (G *ᵥ x' i.castSucc + d i) := by
    rw [hfeedback i, mulVec_sub]
    abel
  have hdefect (i : Fin n) := defect_add (Q := Q) (R := R) (P := P) (G := G) plant (x i.castSucc)
    (x' i.castSucc - x i.castSucc) (u i) (u' i - u i)
  simp only [add_sub_cancel] at hdefect
  have hsum := Finset.sum_congr (rfl : (Finset.univ : Finset (Fin n)) = Finset.univ) fun i _ => hdefect i
  simp only [Finset.sum_add_distrib] at hsum
  rw [energy_eq (G := G) hP hR (hx.sub hx') (sub_eq_zero.mpr hstart), cost_eq hP hR hback hx, cost_eq hP hR hback hx',
    hexcess, hstart]
  simp only [Pi.sub_apply, hsame]
  linear_combination -hsum

end Runs

/-! ### The recursion keeps the costs non-negative -/

section Definite

variable {ι κ K : Type} [Fintype ι] [Fintype κ] [Field K] [LinearOrder K] [IsStrictOrderedRing K]

def Nonneg (M : Matrix ι ι K) : Prop := Mᵀ = M ∧ ∀ v, 0 ≤ quad M v

def Pos (M : Matrix ι ι K) : Prop := Mᵀ = M ∧ ∀ v ≠ 0, 0 < quad M v

variable {plant : Plant ι κ K} {Q : Matrix ι ι K} {R : Matrix κ κ K} {P : Matrix ι ι K} {G : Matrix κ ι K}

omit [IsStrictOrderedRing K] in
theorem Nonneg.congr {M : Matrix ι ι K} (h : Nonneg M) (N : Matrix ι κ K) : Nonneg (Nᵀ * M * N) := by
  constructor
  · rw [transpose_mul, transpose_mul, transpose_transpose, h.1, Matrix.mul_assoc]
  · intro v
    rw [← quad_mulVec]
    exact h.2 _

omit [IsStrictOrderedRing K] in
theorem Pos.nonneg {M : Matrix ι ι K} (h : Pos M) : Nonneg M := by
  refine ⟨h.1, fun v => ?_⟩
  by_cases hzero : v = 0
  · rw [hzero, quad_zero]
  · exact (h.2 v hzero).le

theorem Pos.inputCost (hR : Pos R) (hP : Nonneg P) : Pos (inputCost plant R P) := by
  refine ⟨inputCost_symm hP.1 hR.1, fun v hv => ?_⟩
  rw [Lqr.inputCost, quad_matrix_add]
  exact add_pos_of_pos_of_nonneg (hR.2 v hv) ((hP.congr plant.B).2 v)

omit [IsStrictOrderedRing K] in
theorem Pos.isUnit [DecidableEq ι] {M : Matrix ι ι K} (h : Pos M) : IsUnit M := by
  rw [← mulVec_injective_iff_isUnit]
  intro v w hvw
  by_contra hne
  have hpos := h.2 (v - w) (sub_ne_zero.mpr hne)
  rw [quad, mulVec_sub, hvw, sub_self, dotProduct_zero] at hpos
  exact lt_irrefl _ hpos

omit [LinearOrder K] [IsStrictOrderedRing K] in
/-- With the optimal gain the next cost to go is a sum of costs. -/
theorem quad_next (hgain : Lqr.inputCost plant R P * G = plant.Bᵀ * P * plant.A)
    (x : ι → K) : quad (Q + plant.Aᵀ * P * (plant.A - plant.B * G)) x =
      quad Q x + quad R (G *ᵥ x) + quad P ((plant.A - plant.B * G) *ᵥ x) := by
  have hzero : x ⬝ᵥ (Gᵀ * plant.Bᵀ * P * (plant.A - plant.B * G)) *ᵥ x = quad R (G *ᵥ x) := by
    have hmatrix : Gᵀ * plant.Bᵀ * P * (plant.A - plant.B * G) = Gᵀ * R * G := by
      have hgain' : plant.Bᵀ * P * plant.A = R * G + plant.Bᵀ * P * plant.B * G := by
        rw [← hgain, Lqr.inputCost, Matrix.add_mul]
      rw [Matrix.mul_sub]
      simp only [Matrix.mul_assoc] at hgain' ⊢
      rw [hgain', Matrix.mul_add, add_sub_cancel_right]
    rw [hmatrix, quad_mulVec, quad]
  have hsplit : plant.Aᵀ * P * (plant.A - plant.B * G) =
      (plant.A - plant.B * G)ᵀ * P * (plant.A - plant.B * G) + Gᵀ * plant.Bᵀ * P * (plant.A - plant.B * G) := by
    rw [transpose_sub, transpose_mul, ← Matrix.add_mul, ← Matrix.add_mul, sub_add_cancel]
  rw [quad_matrix_add, hsplit, quad_matrix_add, ← quad_mulVec P, quad.eq_1 (Gᵀ * _ * P * _), hzero]
  ring

theorem Nonneg.next (hP : Nonneg P) (hR : Pos R) (hQ : Nonneg Q)
    (hgain : Lqr.inputCost plant R P * G = plant.Bᵀ * P * plant.A) :
    Nonneg (Q + plant.Aᵀ * P * (plant.A - plant.B * G)) ∧
      ∀ v, quad Q v ≤ quad (Q + plant.Aᵀ * P * (plant.A - plant.B * G)) v := by
  have hle (v : ι → K) : quad Q v ≤ quad (Q + plant.Aᵀ * P * (plant.A - plant.B * G)) v := by
    rw [quad_next hgain, add_assoc]
    exact le_add_of_nonneg_right (add_nonneg (hR.nonneg.2 _) (hP.2 _))
  refine ⟨⟨?_, fun v => (hQ.2 v).trans (hle v)⟩, hle⟩
  rw [Matrix.mul_sub, gain_cross hP.1 hR.1 hgain, transpose_add, transpose_sub, hQ.1, (hP.congr plant.A).1,
    ((hR.inputCost hP).nonneg.congr G).1]

end Definite

end SpVision.Lqr
