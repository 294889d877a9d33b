import Mathlib.Algebra.Algebra.Basic
import Mathlib.Analysis.SpecialFunctions.Complex.Arg
import Mathlib.Analysis.SpecialFunctions.Trigonometric.Inverse
import Mathlib.Tactic.Module
import Mathlib.Tactic.NoncommRing

set_option autoImplicit false

/-!
# Turns about two axes

Two roots of minus one that anticommute are axes at a right angle. Every combination of them is three turns, about the
one, the other and the one again.
-/
namespace SpVision.AxisTurns

open Real

variable {A : Type} [Ring A] [Algebra ℝ A] {p r : A}

/-- The turn about an axis, in half angles. -/
noncomputable def turn (p : A) (θ : ℝ) : A := cos (θ / (2 : ℕ)) • 1 + sin (θ / (2 : ℕ)) • p

/-- Axes at a right angle. -/
structure Crossed (p r : A) : Prop where
  root : p * p = -1
  root' : r * r = -1
  anti : r * p = -(p * r)

theorem turn_eq (θ : ℝ) : turn p θ = cos (θ / 2) • 1 + sin (θ / 2) • p := rfl

theorem turn_add (hp : p * p = -1) (s t : ℝ) : turn p (s + t) = turn p s * turn p t := by
  have hhalf : (s + t) / 2 = s / 2 + t / 2 := add_div s t 2
  simp only [turn_eq]
  rw [hhalf, cos_add, sin_add]
  simp only [mul_add, add_mul, smul_mul_smul_comm, mul_one, one_mul, hp]
  module

theorem turn_zero : turn p 0 = 1 := by
  simp [turn_eq]

/-- Whole turns change no more than the sign. -/
theorem turn_add_turns (t : ℝ) (z : ℤ) : turn p (t + z • (2 * π)) = ((-1 : ℝ) ^ z) • turn p t := by
  have hhalf : (t + z • (2 * π)) / 2 = t / 2 + z * π := by
    rw [zsmul_eq_mul]
    ring
  simp only [turn_eq]
  rw [hhalf, cos_add_int_mul_pi, sin_add_int_mul_pi, smul_add, smul_smul, smul_smul]

theorem neg_one_zpow_cases (z : ℤ) : (-1 : ℝ) ^ z = 1 ∨ (-1 : ℝ) ^ z = -1 :=
  (Int.even_or_odd z).imp Even.neg_one_zpow Odd.neg_one_zpow

theorem turn_quarter : √2 • turn r (π / 2) = 1 + r := by
  have hquarter : π / 2 / 2 = π / 4 := by
    rw [div_div]
    norm_num
  have hone : √2 * (√2 / 2) = 1 := by
    rw [← mul_div_assoc, mul_self_sqrt zero_le_two, div_self two_ne_zero]
  simp only [turn_eq]
  rw [hquarter, cos_pi_div_four, sin_pi_div_four, smul_add, smul_smul, smul_smul, hone, one_smul, one_smul]

theorem turn_smul (t : ℝ) {s : ℝ} (hs : s = 1 ∨ s = -1) : turn (s • p) t = turn p (t * s) := by
  rcases hs with rfl | rfl
  · rw [one_smul, mul_one]
  · simp only [turn_eq]
    rw [mul_neg_one, neg_div, cos_neg, sin_neg, neg_smul, one_smul, smul_neg, neg_smul]

namespace Crossed

variable (h : Crossed p r)
include h

/-- A turn about one axis is turned back by the other. -/
theorem mul_turn (t : ℝ) : r * turn p t = turn p (-t) * r := by
  simp only [turn_eq]
  rw [neg_div, cos_neg, sin_neg, mul_add, add_mul, mul_smul_comm, mul_smul_comm, smul_mul_assoc, smul_mul_assoc, h.anti,
    mul_one, one_mul]
  module

/-- Three turns, by half the sum and half the difference of the outer ones. -/
theorem turns_eq (α θ β : ℝ) : turn p (α - β) * turn r θ * turn p (α + β) =
    cos (θ / 2) • (cos α • 1 + sin α • p) + sin (θ / 2) • (cos β • r - sin β • (p * r)) := by
  have hsum : turn p (α - β) * turn p (α + β) = cos α • 1 + sin α • p := by
    rw [← turn_add h.root, sub_add_add_cancel, turn_eq, add_self_div_two]
  have hdiff : turn p (α - β) * r * turn p (α + β) = cos β • r - sin β • (p * r) := by
    rw [mul_assoc, h.mul_turn, ← mul_assoc, ← turn_add h.root, turn_eq, show (α - β + -(α + β)) / 2 = -β by ring, cos_neg,
      sin_neg, add_mul, smul_mul_assoc, one_mul, smul_mul_assoc, neg_smul, sub_eq_add_neg]
  calc turn p (α - β) * turn r θ * turn p (α + β)
      = cos (θ / 2) • (turn p (α - β) * turn p (α + β)) + sin (θ / 2) • (turn p (α - β) * r * turn p (α + β)) := by
        rw [show turn r θ = cos (θ / 2) • 1 + sin (θ / 2) • r from rfl, mul_add, add_mul, mul_smul_comm, smul_mul_assoc,
          mul_one, mul_smul_comm, smul_mul_assoc]
    _ = _ := by rw [hsum, hdiff]

/-- A quarter turn about the second axis takes the first one to the third. -/
theorem quarter_turn (t : ℝ) : turn r (-(π / 2)) * turn p t = turn (p * r) t * turn r (-(π / 2)) := by
  have hr : (p * r) * r = -p := by
    rw [mul_assoc, h.root', mul_neg_one]
  have hcos : cos (-(π / 2) / 2) = √2 / 2 := by
    rw [neg_div, cos_neg, div_div, show (2 : ℝ) * 2 = 4 by norm_num, cos_pi_div_four]
  have hsin : sin (-(π / 2) / 2) = -(√2 / 2) := by
    rw [neg_div, sin_neg, div_div, show (2 : ℝ) * 2 = 4 by norm_num, sin_pi_div_four]
  simp only [turn_eq]
  rw [hcos, hsin]
  simp only [mul_add, add_mul, smul_mul_smul_comm, mul_one, one_mul, h.anti, hr]
  module

/-- And back. -/
theorem quarter_turn_back (t : ℝ) : turn r (π / 2) * turn (p * r) t = turn p t * turn r (π / 2) := by
  have hround : turn r (π / 2) * turn r (-(π / 2)) = 1 := by
    rw [← turn_add h.root', add_neg_cancel, turn_zero]
  have hround' : turn r (-(π / 2)) * turn r (π / 2) = 1 := by
    rw [← turn_add h.root', neg_add_cancel, turn_zero]
  calc turn r (π / 2) * turn (p * r) t
      = turn r (π / 2) * (turn (p * r) t * turn r (-(π / 2))) * turn r (π / 2) := by
        rw [mul_assoc, mul_assoc (turn (p * r) t), hround', mul_one]
    _ = turn p t * turn r (π / 2) := by rw [← h.quarter_turn, ← mul_assoc, hround, one_mul]

end Crossed

/-! ### The turns of a combination -/

section Angles

variable {a b c d n : ℝ}

theorem cos_arccos_middle (hn : 0 < n) (hsum : n * n = a * a + b * b + (c * c + d * d)) :
    cos (arccos (2 * (a * a + b * b) / (n * n) - 1)) = 2 * (a * a + b * b) / (n * n) - 1 := by
  have hsquare : 0 < n * n := mul_pos hn hn
  have hfirst : 0 ≤ a * a + b * b := add_nonneg (mul_self_nonneg a) (mul_self_nonneg b)
  have hsecond : 0 ≤ c * c + d * d := add_nonneg (mul_self_nonneg c) (mul_self_nonneg d)
  have hlow : 0 ≤ 2 * (a * a + b * b) / (n * n) := div_nonneg (by linarith) hsquare.le
  have hhigh : 2 * (a * a + b * b) / (n * n) ≤ 2 := (div_le_iff₀ hsquare).mpr (by linarith)
  exact cos_arccos (by linarith) (by linarith)

theorem mul_sqrt_div (hn : 0 < n) (m : ℝ) : n * √(m / (n * n)) = √m := by
  rw [sqrt_div' _ (mul_pos hn hn).le, sqrt_mul_self hn.le, mul_div_cancel₀ _ hn.ne']

theorem cos_half_arccos (hn : 0 < n) (hsum : n * n = a * a + b * b + (c * c + d * d)) :
    n * cos (arccos (2 * (a * a + b * b) / (n * n) - 1) / 2) = ‖(⟨a, b⟩ : ℂ)‖ := by
  rw [cos_half ((neg_nonpos.mpr pi_pos.le).trans (arccos_nonneg _)) (arccos_le_pi _), cos_arccos_middle hn hsum,
    Complex.norm_def, Complex.normSq_mk, ← mul_sqrt_div hn (a * a + b * b)]
  congr 2
  ring

theorem sin_half_arccos (hn : 0 < n) (hsum : n * n = a * a + b * b + (c * c + d * d)) :
    n * sin (arccos (2 * (a * a + b * b) / (n * n) - 1) / 2) = ‖(⟨c, d⟩ : ℂ)‖ := by
  have hsquare : n * n ≠ 0 := (mul_pos hn hn).ne'
  rw [sin_half_eq_sqrt (arccos_nonneg _) ((arccos_le_pi _).trans (by linarith [pi_pos])), cos_arccos_middle hn hsum,
    Complex.norm_def, Complex.normSq_mk, ← mul_sqrt_div hn (c * c + d * d)]
  congr 2
  field_simp
  linarith

end Angles

/-- A combination is three turns, up to its length. -/
theorem Crossed.combination_eq (h : Crossed p r) {a b c d n : ℝ} (hn : 0 < n)
    (hsum : n * n = a * a + b * b + (c * c + d * d)) :
    a • 1 + b • p + c • r + d • (p * r) = n • (turn p (Complex.arg ⟨a, b⟩ - Complex.arg ⟨c, -d⟩) *
      turn r (arccos (2 * (a * a + b * b) / (n * n) - 1)) * turn p (Complex.arg ⟨a, b⟩ + Complex.arg ⟨c, -d⟩)) := by
  have hcos := cos_half_arccos hn hsum
  have hsin : n * sin (arccos (2 * (a * a + b * b) / (n * n) - 1) / 2) = ‖(⟨c, -d⟩ : ℂ)‖ := by
    rw [sin_half_arccos hn hsum, Complex.norm_def, Complex.norm_def, Complex.normSq_mk, Complex.normSq_mk, neg_mul_neg]
  rw [h.turns_eq, smul_add, smul_smul, smul_smul, hcos, hsin, smul_add, smul_smul, smul_smul, smul_sub, smul_smul,
    smul_smul, Complex.norm_mul_cos_arg, Complex.norm_mul_sin_arg, Complex.norm_mul_cos_arg, Complex.norm_mul_sin_arg]
  simp only [neg_smul, sub_neg_eq_add]
  abel

end SpVision.AxisTurns
