import Mathlib.LinearAlgebra.Matrix.DotProduct
import SpVision.Planner.TinySolve

set_option autoImplicit false

/-!
# What the solver converges to

Where an iteration reproduces the slack variables and the prices of the one before, its run is the
cheapest one within the bounds, up to the residuals that the recursion of the set-up stops with.
-/
namespace SpVision

open Matrix

namespace TinySolver

variable {n : ℕ} {ι κ K : Type} [Fintype ι] [Fintype κ] [Field K]

/-! ### Costs with prices -/

section Prices

variable [DecidableEq ι]

/-- The part of a cost that the prices add. -/
def penalty (v g x : ι → K) : K := x ⬝ᵥ x - 2 • ((v - g) ⬝ᵥ x)

omit [DecidableEq ι] in
theorem penalty_sub (g x x' : ι → K) :
    penalty x g x' - penalty x g x = (x' - x) ⬝ᵥ (x' - x) + 2 * (g ⬝ᵥ (x' - x)) := by
  simp only [penalty, sub_dotProduct, dotProduct_sub, dotProduct_comm x' x]
  ring

theorem quad_add_rho (M : Matrix ι ι K) (rho : K) (x : ι → K) :
    Lqr.quad (M + rho • 1) x = Lqr.quad M x + rho * (x ⬝ᵥ x) := by
  rw [Lqr.quad_matrix_add, Lqr.quad.eq_1 (rho • 1), smul_mulVec, one_mulVec, dotProduct_smul, smul_eq_mul]

theorem value_stage (w ref v g x : ι → K) (rho : K) :
    Lqr.value (diagonal w + rho • 1) (-(ref * w) - rho • (v - g)) x =
      Lqr.quad (diagonal w) (x - ref) - Lqr.quad (diagonal w) ref + rho * penalty v g x := by
  have hcross : x ⬝ᵥ diagonal w *ᵥ ref = (ref * w) ⬝ᵥ x := by
    rw [dotProduct_comm (ref * w)]
    congr 1
    funext j
    rw [mulVec_diagonal, Pi.mul_apply, mul_comm]
  have hquad : Lqr.quad (diagonal w) (x - ref) =
      Lqr.quad (diagonal w) x - 2 * ((ref * w) ⬝ᵥ x) + Lqr.quad (diagonal w) ref := by
    rw [sub_eq_add_neg, Lqr.quad_add (diagonal_transpose w), mulVec_neg, dotProduct_neg, hcross, Lqr.quad_neg]
    ring
  rw [Lqr.value, quad_add_rho, hquad, penalty, sub_dotProduct, neg_dotProduct, smul_dotProduct, smul_eq_mul]
  ring

omit [DecidableEq ι] in
theorem value_end (P : Matrix ι ι K) (ref v g x : ι → K) (rho : K) :
    Lqr.value P (-(ref ᵥ* P) - rho • (v - g)) x =
      Lqr.quad P x - rho * (x ⬝ᵥ x) - 2 * ((ref ᵥ* P) ⬝ᵥ x) + rho * penalty v g x := by
  rw [Lqr.value, penalty, sub_dotProduct, neg_dotProduct, smul_dotProduct, smul_eq_mul]
  ring

end Prices

variable [DecidableEq ι] [DecidableEq κ]

/-- Twice what a run costs: its distance to the reference, and at its end what the cost to go makes of it. -/
def tracking (s : TinySolver n ι κ K) (x : Columns (n + 1) ι K) (u : Columns n κ K) : K :=
  ∑ i, (Lqr.quad (diagonal s.work.Q) (x i.castSucc - s.work.xref i.castSucc) +
      Lqr.quad (diagonal s.work.R) (u i - s.work.uref i)) +
    (Lqr.quad s.cache.pinf (x (Fin.last n)) - s.cache.rho * (x (Fin.last n) ⬝ᵥ x (Fin.last n)) -
      2 • ((s.work.xref (Fin.last n) ᵥ* s.cache.pinf) ⬝ᵥ x (Fin.last n)))

/-- The linear costs are those of the slack variables and prices. -/
structure Priced (s : TinySolver n ι κ K) : Prop where
  q : ∀ i, s.work.q i = -(s.work.xref i * s.work.Q) - s.cache.rho • (s.work.vnew i - s.work.g i)
  r : ∀ i, s.work.r i = -(s.work.uref i * s.work.R) - s.cache.rho • (s.work.znew i - s.work.y i)
  p : s.work.p (Fin.last n) = -(s.work.xref (Fin.last n) ᵥ* s.cache.pinf) -
    s.cache.rho • (s.work.vnew (Fin.last n) - s.work.g (Fin.last n))

/-- The weights of the recursion, with the price of the difference added once more. -/
def stateWeight (s : TinySolver n ι κ K) : Matrix ι ι K := diagonal s.work.Q + s.cache.rho • 1

def inputWeight (s : TinySolver n ι κ K) : Matrix κ κ K := diagonal s.work.R + s.cache.rho • 1

/-- What the residuals of the recursion make of a run and its difference to another. -/
def residual (s : TinySolver n ι κ K) (x : Columns (n + 1) ι K) (u : Columns n κ K) (x' : Columns (n + 1) ι K)
    (u' : Columns n κ K) : K :=
  ∑ i, Lqr.mixed s.work.plant (stateWeight s) (inputWeight s) s.cache.pinf s.cache.kinf (x (Fin.castSucc i)) (u i)
    (x' i.castSucc - x i.castSucc) (u' i - u i)

theorem Priced.cost_eq {s : TinySolver n ι κ K} (h : Priced s) (x : Columns (n + 1) ι K) (u : Columns n κ K) :
    Lqr.cost (stateWeight s) (inputWeight s) s.cache.pinf (fun i => s.work.q i.castSucc) s.work.r
      (s.work.p (Fin.last n)) x u =
    tracking s x u -
      ∑ i, (Lqr.quad (diagonal s.work.Q) (s.work.xref (Fin.castSucc i)) +
        Lqr.quad (diagonal s.work.R) (s.work.uref i)) +
      s.cache.rho * (∑ i, penalty (s.work.vnew i) (s.work.g i) (x i) +
        ∑ i, penalty (s.work.znew i) (s.work.y i) (u i)) := by
  rw [Lqr.cost, h.p, value_end, tracking, Fin.sum_univ_castSucc fun i => penalty (s.work.vnew i) (s.work.g i) (x i)]
  simp only [h.q, h.r, stateWeight, inputWeight, value_stage, Finset.sum_add_distrib, Finset.sum_sub_distrib,
    ← Finset.mul_sum]
  ring

omit [DecidableEq ι] [DecidableEq κ] in
theorem iterateOnce_priced [LinearOrder K] (s : TinySolver n ι κ K) : Priced (iterateOnce s) :=
  ⟨fun _ => rfl, fun _ => rfl, Function.update_self _ _ _⟩

/-! ### The projections -/

section Bounds

variable [LinearOrder K] [IsStrictOrderedRing K]

/-- Where the projection of a priced value is the value, its price does not reward a change within the bounds. -/
theorem price_mul_sub_nonpos {low high x g w : K} (hx : x = min high (max low (x + g))) (hlow : low ≤ w)
    (hhigh : w ≤ high) : g * (w - x) ≤ 0 := by
  rcases lt_trichotomy g 0 with hneg | hzero | hpos
  · have hle : x ≤ low := by
      by_contra hlt
      have hmax : max low (x + g) < x := max_lt (not_le.mp hlt) (add_lt_of_neg_right x hneg)
      exact absurd hx (ne_of_gt ((min_le_right _ _).trans_lt hmax))
    exact mul_nonpos_of_nonpos_of_nonneg hneg.le (sub_nonneg.mpr (hle.trans hlow))
  · rw [hzero, zero_mul]
  · have hge : high ≤ x := by
      by_contra hlt
      have hmin : x < min high (max low (x + g)) :=
        lt_min (not_le.mp hlt) ((lt_add_of_pos_right x hpos).trans_le (le_max_right _ _))
      exact absurd hx (ne_of_lt hmin)
    exact mul_nonpos_of_nonneg_of_nonpos hpos.le (sub_nonpos.mpr (hhigh.trans hge))

omit [DecidableEq ι] in
theorem price_nonpos {m : ℕ} {low high x g w : Columns m ι K} (hx : x = clampTo low high (x + g))
    (hlow : ∀ i j, low i j ≤ w i j) (hhigh : ∀ i j, w i j ≤ high i j) (i : Fin m) : g i ⬝ᵥ (w i - x i) ≤ 0 :=
  Finset.sum_nonpos fun j _ => price_mul_sub_nonpos (congrFun (congrFun hx i) j) (hlow i j) (hhigh i j)

end Bounds

/-! ### The recursion of the set-up -/

/-- What the cache holds of the costs to go. -/
structure Cached (s : TinySolver n ι κ K) : Prop where
  quuInv : Lqr.inputCost s.work.plant (inputWeight s) s.cache.pinf * s.cache.quuInv = 1
  amBKt : s.cache.amBKt = (s.work.plant.A - s.work.plant.B * s.cache.kinf)ᵀ
  aPf : s.cache.aPf = s.cache.amBKt *ᵥ (s.cache.pinf *ᵥ s.work.plant.f)
  bPf : s.cache.bPf = s.work.plant.Bᵀ *ᵥ (s.cache.pinf *ᵥ s.work.plant.f)

section Optimum

variable [LinearOrder K] [IsStrictOrderedRing K]

omit [DecidableEq ι] in
theorem dotProduct_self_nonneg (x : ι → K) : 0 ≤ x ⬝ᵥ x := Finset.sum_nonneg fun j _ => mul_self_nonneg (x j)

theorem quad_diagonal_nonneg {w : ι → K} (hw : ∀ j, 0 ≤ w j) (x : ι → K) : 0 ≤ Lqr.quad (diagonal w) x := by
  refine Finset.sum_nonneg fun j _ => ?_
  rw [mulVec_diagonal, mul_left_comm]
  exact mul_nonneg (hw j) (mul_self_nonneg (x j))

/-- The argument for one iteration: the feedback is optimal for the priced costs, up to the residual, and the prices do
    not reward what the bounds forbid. -/
theorem Iterated.cheapest {s s' : TinySolver n ι κ K} (h : Iterated s s') (hpriced : Priced s) (hcached : Cached s)
    (hP : s.cache.pinfᵀ = s.cache.pinf) (hweight : (inputWeight s)ᵀ = inputWeight s)
    (hrho : 0 ≤ s.cache.rho) (hQ : ∀ j, 0 ≤ s.work.Q j) (hR : ∀ j, 0 ≤ s.work.R j)
    (hend : ∀ x, s.cache.rho * (x ⬝ᵥ x) ≤ Lqr.quad s.cache.pinf x)
    (hv : s.work.vnew = s'.work.x) (hz : s.work.znew = s'.work.u) {x' : Columns (n + 1) ι K} {u' : Columns n κ K}
    (hfollows : Lqr.Follows s.work.plant x' u') (hstart : x' 0 = s.work.x 0)
    (hg : ∀ i, s.work.g i ⬝ᵥ (x' i - s'.work.x i) ≤ 0) (hy : ∀ i, s.work.y i ⬝ᵥ (u' i - s'.work.u i) ≤ 0) :
    tracking s s'.work.x s'.work.u ≤ tracking s x' u' + residual s s'.work.x s'.work.u x' u' := by
  obtain ⟨p, d, hlast, hd, hp, hu⟩ := h.backward
  have hback : Lqr.Backward s.work.plant (inputWeight s) s.cache.pinf s.cache.kinf (fun i => s.work.q i.castSucc)
      s.work.r p d := by
    constructor
    · intro i
      rw [hd i, mulVec_mulVec, hcached.quuInv, one_mulVec, hcached.bPf]
    · intro i
      rw [hp i, hcached.aPf, hcached.amBKt, Lqr.earlier]
  have hexcess := Lqr.cost_sub (Q := stateWeight s) hP hweight hback h.follows hfollows
    (hstart.trans h.same.start.symm) hu
  change _ = _ - residual s s'.work.x s'.work.u x' u' at hexcess
  rw [hlast, hpriced.cost_eq, hpriced.cost_eq, hv, hz] at hexcess
  have hpenalty {m : ℕ} {τ : Type} [Fintype τ] (g x x' : Columns m τ K) :
      ∑ i, penalty (x i) (g i) (x' i) - ∑ i, penalty (x i) (g i) (x i) =
        ∑ i, (x' i - x i) ⬝ᵥ (x' i - x i) + 2 * ∑ i, g i ⬝ᵥ (x' i - x i) := by
    rw [← Finset.sum_sub_distrib, Finset.mul_sum, ← Finset.sum_add_distrib]
    exact Finset.sum_congr rfl fun i _ => penalty_sub _ _ _
  have hstate := hpenalty s.work.g s'.work.x x'
  have hinput := hpenalty s.work.y s'.work.u u'
  have henergy : Lqr.energy (stateWeight s) (inputWeight s) s.cache.pinf (x' - s'.work.x) (u' - s'.work.u) =
      ∑ i, (Lqr.quad (diagonal s.work.Q) (x' (Fin.castSucc i) - s'.work.x i.castSucc) +
        Lqr.quad (diagonal s.work.R) (u' i - s'.work.u i)) +
      s.cache.rho * (∑ i, (x' i - s'.work.x i) ⬝ᵥ (x' i - s'.work.x i) +
        ∑ i, (u' i - s'.work.u i) ⬝ᵥ (u' i - s'.work.u i)) +
      (Lqr.quad s.cache.pinf (x' (Fin.last n) - s'.work.x (Fin.last n)) -
        s.cache.rho * ((x' (Fin.last n) - s'.work.x (Fin.last n)) ⬝ᵥ
          (x' (Fin.last n) - s'.work.x (Fin.last n)))) := by
    rw [Lqr.energy, Fin.sum_univ_castSucc fun i => (x' i - s'.work.x i) ⬝ᵥ (x' i - s'.work.x i)]
    simp only [stateWeight, inputWeight, quad_add_rho, Pi.sub_apply, Finset.sum_add_distrib, ← Finset.mul_sum]
    ring
  have hstages : 0 ≤ ∑ i, (Lqr.quad (diagonal s.work.Q) (x' (Fin.castSucc i) - s'.work.x i.castSucc) +
      Lqr.quad (diagonal s.work.R) (u' i - s'.work.u i)) :=
    Finset.sum_nonneg fun i _ => add_nonneg (quad_diagonal_nonneg hQ _) (quad_diagonal_nonneg hR _)
  have hterminal := hend (x' (Fin.last n) - s'.work.x (Fin.last n))
  have hprices : s.cache.rho * (∑ i, s.work.g i ⬝ᵥ (x' i - s'.work.x i) +
      ∑ i, s.work.y i ⬝ᵥ (u' i - s'.work.u i)) ≤ 0 :=
    mul_nonpos_of_nonneg_of_nonpos hrho
      (add_nonpos (Finset.sum_nonpos fun i _ => hg i) (Finset.sum_nonpos fun i _ => hy i))
  rw [henergy] at hexcess
  have hdiff : tracking s x' u' - tracking s s'.work.x s'.work.u =
      ∑ i, (Lqr.quad (diagonal s.work.Q) (x' (Fin.castSucc i) - s'.work.x i.castSucc) +
        Lqr.quad (diagonal s.work.R) (u' i - s'.work.u i)) +
      (Lqr.quad s.cache.pinf (x' (Fin.last n) - s'.work.x (Fin.last n)) -
        s.cache.rho * ((x' (Fin.last n) - s'.work.x (Fin.last n)) ⬝ᵥ
          (x' (Fin.last n) - s'.work.x (Fin.last n)))) -
      2 * (s.cache.rho * (∑ i, s.work.g i ⬝ᵥ (x' i - s'.work.x i) +
        ∑ i, s.work.y i ⬝ᵥ (u' i - s'.work.u i))) - residual s s'.work.x s'.work.u x' u' := by
    linear_combination hexcess - s.cache.rho * hstate - s.cache.rho * hinput
  linarith

/-! ### The set-up -/

section SetUp

variable {inverse : Matrix κ κ K → Matrix κ κ K} {plant : Lqr.Plant ι κ K} {Q1 : Matrix ι ι K} {R1 : Matrix κ κ K}

omit [LinearOrder K] [IsStrictOrderedRing K] [DecidableEq ι] in
theorem riccati_gain (Q1 : Matrix ι ι K) {ptp1 : Matrix ι ι K}
    (hinverse : Lqr.inputCost plant R1 ptp1 * inverse (Lqr.inputCost plant R1 ptp1) = 1) :
    Lqr.inputCost plant R1 ptp1 * (riccati inverse plant Q1 R1 ptp1).1 = plant.Bᵀ * ptp1 * plant.A := by
  change _ * (inverse (Lqr.inputCost plant R1 ptp1) * plant.Bᵀ * ptp1 * plant.A) = _
  rw [Matrix.mul_assoc (inverse _), Matrix.mul_assoc (inverse _), ← Matrix.mul_assoc, hinverse, Matrix.one_mul]

/-- A cost to go of the recursion is at least the cost of the stage. -/
def AtLeast (Q1 P : Matrix ι ι K) : Prop := Lqr.Nonneg P ∧ ∀ v, Lqr.quad Q1 v ≤ Lqr.quad P v

omit [DecidableEq ι] in
theorem riccati_atLeast (hinverse : ∀ M, IsUnit M → M * inverse M = 1) (hQ1 : Lqr.Nonneg Q1) (hR1 : Lqr.Pos R1)
    {ptp1 : Matrix ι ι K} (h : Lqr.Nonneg ptp1) : AtLeast Q1 (riccati inverse plant Q1 R1 ptp1).2 :=
  h.next hR1 hQ1 (riccati_gain Q1 (hinverse _ (hR1.inputCost h).isUnit))

omit [DecidableEq ι] in
theorem riccatiLoop_atLeast (hinverse : ∀ M, IsUnit M → M * inverse M = 1) (hQ1 : Lqr.Nonneg Q1)
    (hR1 : Lqr.Pos R1) (fuel : ℕ) {tp1 inf : Matrix κ ι K × Matrix ι ι K} (h : Lqr.Nonneg tp1.2) :
    AtLeast Q1 (riccatiLoop inverse plant Q1 R1 (fuel + 1) tp1 inf).2 := by
  induction fuel generalizing tp1 inf with
  | zero =>
    have hnext : AtLeast Q1 (riccati inverse plant Q1 R1 tp1.2).2 := riccati_atLeast hinverse hQ1 hR1 h
    simp only [riccatiLoop, ite_self]
    exact hnext
  | succ fuel ih =>
    have hnext : AtLeast Q1 (riccati inverse plant Q1 R1 tp1.2).2 := riccati_atLeast hinverse hQ1 hR1 h
    rw [riccatiLoop]
    split_ifs
    · exact hnext
    · exact ih hnext.1

theorem diagonal_nonneg {w : ι → K} (hw : ∀ j, 0 ≤ w j) : Lqr.Nonneg (diagonal w) :=
  ⟨diagonal_transpose w, quad_diagonal_nonneg hw⟩

theorem weight_nonneg {w : ι → K} (hw : ∀ j, 0 ≤ w j) {rho : K} (hrho : 0 ≤ rho) :
    Lqr.Nonneg (diagonal w + rho • 1) ∧ ∀ v, rho * (v ⬝ᵥ v) ≤ Lqr.quad (diagonal w + rho • 1) v := by
  have hle (v : ι → K) : rho * (v ⬝ᵥ v) ≤ Lqr.quad (diagonal w + rho • 1) v := by
    rw [quad_add_rho]
    exact le_add_of_nonneg_left (quad_diagonal_nonneg hw v)
  refine ⟨⟨?_, fun v => (mul_nonneg hrho (dotProduct_self_nonneg v)).trans (hle v)⟩, hle⟩
  rw [transpose_add, diagonal_transpose, transpose_smul, transpose_one]

theorem weight_pos {w : ι → K} (hw : ∀ j, 0 ≤ w j) {rho : K} (hrho : 0 < rho) :
    Lqr.Pos (diagonal w + rho • 1) := by
  obtain ⟨hnonneg, hle⟩ := weight_nonneg hw hrho.le
  refine ⟨hnonneg.1, fun v hv => lt_of_lt_of_le (mul_pos hrho ?_) (hle v)⟩
  exact lt_of_le_of_ne (dotProduct_self_nonneg v) fun hzero => hv (dotProduct_self_eq_zero.mp hzero.symm)

end SetUp

/-- The data of a solver that has been set up and given bounds, whatever it has solved since. -/
structure FromSetup (inverse : Matrix κ κ K → Matrix κ κ K) (plant : Lqr.Plant ι κ K) (Q : ι → K) (R : κ → K) (rho : K)
    (s : TinySolver n ι κ K) : Prop where
  cache : s.cache = (tinySetup n inverse plant Q R rho).cache
  plant : s.work.plant = plant
  weights : s.work.Q = (fun j => Q j + rho) ∧ s.work.R = fun j => R j + rho
  enabled : s.settings.enStateBound = true ∧ s.settings.enInputBound = true

/-- The second of two iterations leaves the slack variables and the prices of the first. -/
structure Reproduces (s s' : TinySolver n ι κ K) : Prop where
  vnew : s'.work.vnew = s.work.vnew
  znew : s'.work.znew = s.work.znew
  g : s'.work.g = s.work.g
  y : s'.work.y = s.work.y

/-- A run within the bounds of the solver, from its state. -/
structure Feasible (s : TinySolver n ι κ K) (x : Columns (n + 1) ι K) (u : Columns n κ K) : Prop where
  start : x 0 = s.work.x 0
  follows : Lqr.Follows s.work.plant x u
  states : ∀ i j, s.work.xMin i j ≤ x i j ∧ x i j ≤ s.work.xMax i j
  inputs : ∀ i j, s.work.uMin i j ≤ u i j ∧ u i j ≤ s.work.uMax i j

variable {inverse : Matrix κ κ K → Matrix κ κ K} {plant : Lqr.Plant ι κ K} {Q : ι → K} {R : κ → K} {rho : K}

omit [IsStrictOrderedRing K] in
theorem FromSetup.same {s s' : TinySolver n ι κ K} (h : FromSetup inverse plant Q R rho s) (hsame : SameProblem s s') :
    FromSetup inverse plant Q R rho s' where
  cache := hsame.cache.trans h.cache
  plant := hsame.plant.trans h.plant
  weights := ⟨hsame.weights.1.trans h.weights.1, hsame.weights.2.trans h.weights.2⟩
  enabled := by
    rw [hsame.settings]
    exact h.enabled

omit [IsStrictOrderedRing K] in
theorem FromSetup.weight_eq {s : TinySolver n ι κ K} (h : FromSetup inverse plant Q R rho s) :
    stateWeight s = diagonal (fun j => Q j + rho) + rho • 1 ∧
      inputWeight s = diagonal (fun j => R j + rho) + rho • 1 := by
  rw [stateWeight, inputWeight, h.weights.1, h.weights.2, h.cache]
  exact ⟨rfl, rfl⟩

theorem FromSetup.pinf {s : TinySolver n ι κ K} (h : FromSetup inverse plant Q R rho s)
    (hinverse : ∀ M, IsUnit M → M * inverse M = 1) (hQ : ∀ j, 0 ≤ Q j) (hR : ∀ j, 0 ≤ R j) (hrho : 0 < rho) :
    AtLeast (stateWeight s) s.cache.pinf := by
  rw [h.weight_eq.1, h.cache]
  refine riccatiLoop_atLeast hinverse (weight_nonneg (fun j => add_nonneg (hQ j) hrho.le) hrho.le).1
    (weight_pos (fun j => add_nonneg (hR j) hrho.le) hrho) 999 ?_
  exact diagonal_nonneg fun _ => hrho.le

theorem FromSetup.inverse_eq {s : TinySolver n ι κ K} (h : FromSetup inverse plant Q R rho s)
    (hinverse : ∀ M, IsUnit M → M * inverse M = 1) (hQ : ∀ j, 0 ≤ Q j) (hR : ∀ j, 0 ≤ R j) (hrho : 0 < rho) :
    Lqr.inputCost s.work.plant (inputWeight s) s.cache.pinf *
      inverse (Lqr.inputCost s.work.plant (inputWeight s) s.cache.pinf) = 1 := by
  have hpos : Lqr.Pos (inputWeight s) := by
    rw [h.weight_eq.2]
    exact weight_pos (fun j => add_nonneg (hR j) hrho.le) hrho
  exact hinverse _ (hpos.inputCost (h.pinf hinverse hQ hR hrho).1).isUnit

theorem FromSetup.cached {s : TinySolver n ι κ K} (h : FromSetup inverse plant Q R rho s)
    (hinverse : ∀ M, IsUnit M → M * inverse M = 1) (hQ : ∀ j, 0 ≤ Q j) (hR : ∀ j, 0 ≤ R j) (hrho : 0 < rho) :
    Cached s := by
  have heq := h.inverse_eq hinverse hQ hR hrho
  have hquuInv : s.cache.quuInv = inverse (Lqr.inputCost s.work.plant (inputWeight s) s.cache.pinf) := by
    rw [h.weight_eq.2, h.plant, h.cache]
    rfl
  refine ⟨hquuInv ▸ heq, ?_, ?_, ?_⟩
  · rw [h.plant, h.cache]
    rfl
  · rw [mulVec_mulVec, h.plant, h.cache]
    rfl
  · rw [mulVec_mulVec, h.plant, h.cache]
    rfl

/-- A run that an iteration reproduces keeps to the bounds, and none that does is cheaper by more than what the residuals
    of the recursion make of the difference, whatever the solver was warm-started with. -/
theorem tinySolve_reproduced_cheapest (n : ℕ) (inverse : Matrix κ κ K → Matrix κ κ K)
    (hinverse : ∀ M, IsUnit M → M * inverse M = 1) (plant : Lqr.Plant ι κ K) (Q : ι → K) (R : κ → K) (rho : K)
    (hQ : ∀ j, 0 ≤ Q j) (hR : ∀ j, 0 ≤ R j) (hrho : 0 < rho) (s : TinySolver n ι κ K)
    (hs : FromSetup inverse plant Q R rho s)
    (hstates : ∀ i j, s.work.xMin i j ≤ s.work.xMax i j) (hinputs : ∀ i j, s.work.uMin i j ≤ s.work.uMax i j)
    (hreproduces : Reproduces (iterateOnce s) (iterateOnce (iterateOnce s))) :
    let s' := iterateOnce (iterateOnce s)
    Feasible s s'.work.x s'.work.u ∧
      ∀ x u, Feasible s x u →
        tracking s s'.work.x s'.work.u ≤ tracking s x u + residual s s'.work.x s'.work.u x u := by
  intro s'
  have hfirst := iterateOnce_spec s
  have hsecond : Iterated (iterateOnce s) s' := iterateOnce_spec (iterateOnce s)
  have hsame := hfirst.same.trans hsecond.same
  have hsetup := hs.same hfirst.same
  -- the prices stay as they are only if the run is its own projection
  have hx : s'.work.x = s'.work.vnew := by
    have hg := hsecond.g
    rw [hreproduces.g, add_sub_assoc, left_eq_add, sub_eq_zero] at hg
    exact hg
  have hu : s'.work.u = s'.work.znew := by
    have hy := hsecond.y
    rw [hreproduces.y, add_sub_assoc, left_eq_add, sub_eq_zero] at hy
    exact hy
  have hvnew := hsecond.vnew
  have hznew := hsecond.znew
  rw [if_pos hsetup.enabled.1, ← hx, hfirst.same.stateBounds.1, hfirst.same.stateBounds.2] at hvnew
  rw [if_pos hsetup.enabled.2, ← hu, hfirst.same.inputBounds.1, hfirst.same.inputBounds.2] at hznew
  have hfollows := hsecond.follows
  rw [hfirst.same.plant] at hfollows
  refine ⟨⟨hsame.start, hfollows, fun i j => ?_, fun i j => ?_⟩, fun x u hfeasible => ?_⟩
  · rw [hvnew]
    exact clampTo_within hstates _ i j
  · rw [hznew]
    exact clampTo_within hinputs _ i j
  have hatLeast := hsetup.pinf hinverse hQ hR hrho
  have hrho' : (iterateOnce s).cache.rho = rho := by
    rw [hsetup.cache]
    rfl
  have hweight : Lqr.Pos (inputWeight (iterateOnce s)) := by
    rw [hsetup.weight_eq.2]
    exact weight_pos (fun j => add_nonneg (hR j) hrho.le) hrho
  have hcheapest := hsecond.cheapest (iterateOnce_priced s) (hsetup.cached hinverse hQ hR hrho) hatLeast.1.1
    hweight.1
    (by rw [hrho']; exact hrho.le)
    (by rw [hsetup.weights.1]; exact fun j => add_nonneg (hQ j) hrho.le)
    (by rw [hsetup.weights.2]; exact fun j => add_nonneg (hR j) hrho.le)
    (fun v => by
      refine le_trans ?_ (hatLeast.2 v)
      rw [hrho', hsetup.weight_eq.1]
      exact (weight_nonneg (fun j => add_nonneg (hQ j) hrho.le) hrho.le).2 v)
    (by rw [hx]; exact hreproduces.vnew.symm) (by rw [hu]; exact hreproduces.znew.symm)
    (by rw [hfirst.same.plant]; exact hfeasible.follows) (hfeasible.start.trans hfirst.same.start.symm)
    (price_nonpos hvnew (fun i j => (hfeasible.states i j).1) fun i j => (hfeasible.states i j).2)
    (price_nonpos hznew (fun i j => (hfeasible.inputs i j).1) fun i j => (hfeasible.inputs i j).2)
  have htracking (x : Columns (n + 1) ι K) (u : Columns n κ K) : tracking (iterateOnce s) x u = tracking s x u := by
    simp only [tracking, hfirst.same.weights.1, hfirst.same.weights.2, hfirst.same.reference.1,
      hfirst.same.reference.2, hfirst.same.cache]
  have hresidual (x : Columns (n + 1) ι K) (u : Columns n κ K) (x' : Columns (n + 1) ι K) (u' : Columns n κ K) :
      residual (iterateOnce s) x u x' u' = residual s x u x' u' := by
    simp only [residual, stateWeight, inputWeight, hfirst.same.weights.1, hfirst.same.weights.2, hfirst.same.plant,
      hfirst.same.cache]
  rwa [htracking, htracking, hresidual] at hcheapest

end Optimum

theorem inverseOne_spec (M : Matrix (Fin 1) (Fin 1) K) (hM : IsUnit M) : M * inverseOne M = 1 := by
  have hne : M 0 0 ≠ 0 := by
    rw [isUnit_iff_isUnit_det, det_fin_one] at hM
    exact hM.ne_zero
  ext i j
  rw [Subsingleton.elim i 0, Subsingleton.elim j 0, Matrix.mul_apply, Fin.sum_univ_one, one_apply_eq]
  exact mul_inv_cancel₀ hne

/-- A reference out of reach: the price of the input holds it at its bound. -/
def boundSolver : TinySolver 1 (Fin 1) (Fin 1) ℚ :=
  let solver : TinySolver 1 (Fin 1) (Fin 1) ℚ :=
    tinySetup 1 inverseOne ⟨fun _ _ => 1, fun _ _ => 1, 0⟩ (fun _ => 0) (fun _ => 0) 1
  let solver := tinySetBoundConstraints solver (fun _ _ => -8) (fun _ _ => 8) (fun _ _ => -0.5) (fun _ _ => 0.5)
  let solver := tinySetX0 (tinySetXRef solver fun i _ => (i : ℕ) * 5) fun _ => 0.25
  let price (j : Fin 1) := 5 * solver.cache.pinf j j + 1.25 - (solver.cache.kinf j j / 4 + 0.5) / solver.cache.quuInv j j
  updateLinearCost { solver with work :=
    { solver.work with vnew := fun i _ => 0.25 + (i : ℕ) * 0.5, znew := fun _ _ => 0.5, y := fun _ => price } }

theorem tinySolve_reproduced_cheapest_bound :
    let s' := iterateOnce (iterateOnce boundSolver)
    s'.work.u = (fun _ _ => 0.5) ∧ ∀ x u, Feasible boundSolver x u →
      tracking boundSolver s'.work.x s'.work.u ≤
        tracking boundSolver x u + residual boundSolver s'.work.x s'.work.u x u := by
  have hsetup : FromSetup inverseOne ⟨fun _ _ => 1, fun _ _ => 1, 0⟩ (fun _ => 0) (fun _ => 0) 1 boundSolver :=
    ⟨rfl, rfl, ⟨rfl, rfl⟩, rfl, rfl⟩
  have hreproduces : Reproduces (iterateOnce boundSolver) (iterateOnce (iterateOnce boundSolver)) :=
    ⟨by decide +kernel, by decide +kernel, by decide +kernel, by decide +kernel⟩
  exact ⟨by decide +kernel, (tinySolve_reproduced_cheapest 1 inverseOne inverseOne_spec _ _ _ 1 (by decide) (by decide)
    (by decide) boundSolver hsetup (by decide +kernel) (by decide +kernel) hreproduces).2⟩

end TinySolver
end SpVision
