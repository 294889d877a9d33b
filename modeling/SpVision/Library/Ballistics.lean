import Mathlib.Algebra.QuadraticDiscriminant
import Mathlib.Analysis.SpecialFunctions.Trigonometric.Arctan
import Mathlib.Tactic.FieldSimp
import Mathlib.Tactic.Positivity

set_option autoImplicit false

/-!
# A shot without drag

Where a shot goes through a given point, its slope is a root of a quadratic.
-/
namespace SpVision.Ballistics

open Real

/-- Shot at the elevation `θ` with the speed `v`, the bullet is `d` away and `h` up after the time `t`. -/
def Hits (g v d h θ t : ℝ) : Prop := v * cos θ * t = d ∧ v * sin θ * t - g * t ^ 2 / 2 = h

/-- Half of what the bullet falls on its way if it is shot level. -/
noncomputable def drop (g v d : ℝ) : ℝ := g * d ^ 2 / (2 * v ^ 2)

variable {g v d h θ t : ℝ}

theorem drop_pos (hg : 0 < g) (hv : 0 < v) (hd : 0 < d) : 0 < drop g v d := by
  unfold drop
  positivity

theorem Hits.cos_pos (hv : 0 < v) (hd : 0 < d) (ht : 0 ≤ t) (hhit : Hits g v d h θ t) : 0 < cos θ := by
  by_contra hcos
  have hback : v * cos θ * t ≤ 0 := mul_nonpos_of_nonpos_of_nonneg (mul_nonpos_of_nonneg_of_nonpos hv.le
    (not_lt.mp hcos)) ht
  rw [hhit.1] at hback
  exact absurd hd (not_lt.mpr hback)

/-- The elevation fixes the time, and its slope solves the quadratic. -/
theorem hits_iff (hv : 0 < v) (hcos : 0 < cos θ) :
    Hits g v d h θ t ↔ t = d / (v * cos θ) ∧
      drop g v d * (tan θ * tan θ) + -d * tan θ + (drop g v d + h) = 0 := by
  have hspeed : v * cos θ ≠ 0 := (mul_pos hv hcos).ne'
  have htime : v * cos θ * t = d ↔ t = d / (v * cos θ) := by
    rw [eq_div_iff hspeed, mul_comm]
  rw [Hits, htime]
  refine and_congr_right fun ht => ?_
  have hheight : v * sin θ * t - g * t ^ 2 / 2 = d * tan θ - drop g v d * (1 + tan θ * tan θ) := by
    have hone : 1 + tan θ * tan θ = 1 / cos θ ^ 2 := by
      rw [tan_eq_sin_div_cos]
      field_simp
      rw [add_comm, sin_sq_add_cos_sq]
    rw [hone, ht, tan_eq_sin_div_cos, drop]
    field_simp
  rw [hheight]
  constructor <;> intro heq <;> linarith

/-- The steeper a shot, the longer it flies. -/
theorem flightTime_le {θ' : ℝ} (hv : 0 < v) (hd : 0 ≤ d) (hcos : 0 < cos θ) (hcos' : 0 < cos θ')
    (htan : |tan θ| ≤ |tan θ'|) : d / (v * cos θ) ≤ d / (v * cos θ') := by
  have hle : cos θ' ≤ cos θ := by
    rw [← inv_sqrt_one_add_tan_sq hcos, ← inv_sqrt_one_add_tan_sq hcos']
    have hsq : tan θ ^ 2 ≤ tan θ' ^ 2 := sq_le_sq.mpr htan
    have hpos : 0 < √(1 + tan θ ^ 2) := by positivity
    gcongr
  gcongr

/-- The two slopes, the steeper first. -/
noncomputable def steep (a b s : ℝ) : ℝ := (-b + s) / (2 * a)

noncomputable def flat (a b s : ℝ) : ℝ := (-b - s) / (2 * a)

theorem abs_flat_le_steep {a b s : ℝ} (ha : 0 < a) (hb : b ≤ 0) (hs : 0 ≤ s) : |flat a b s| ≤ |steep a b s| := by
  rw [flat, steep, abs_div, abs_div]
  have hnum : |-b - s| ≤ |-b + s| := by
    rw [abs_of_nonneg (by linarith : (0 : ℝ) ≤ -b + s), abs_le]
    constructor <;> linarith
  gcongr

/-- No other root is flatter. -/
theorem abs_flat_le {a b c x : ℝ} (ha : 0 < a) (hb : b ≤ 0) (hdelta : 0 ≤ b * b - 4 * a * c)
    (hx : a * (x * x) + b * x + c = 0) : |flat a b (√(b * b - 4 * a * c))| ≤ |x| := by
  have hdiscrim : discrim a b c = √(b * b - 4 * a * c) * √(b * b - 4 * a * c) := by
    rw [mul_self_sqrt hdelta, discrim, sq]
  rcases (quadratic_eq_zero_iff ha.ne' hdiscrim x).mp hx with hroot | hroot
  · rw [hroot]
    exact abs_flat_le_steep ha hb (sqrt_nonneg _)
  · rw [hroot]
    exact le_refl _

theorem flat_root {a b c : ℝ} (ha : a ≠ 0) (hdelta : 0 ≤ b * b - 4 * a * c) :
    a * (flat a b (√(b * b - 4 * a * c)) * flat a b (√(b * b - 4 * a * c))) +
      b * flat a b (√(b * b - 4 * a * c)) + c = 0 := by
  have hdiscrim : discrim a b c = √(b * b - 4 * a * c) * √(b * b - 4 * a * c) := by
    rw [mul_self_sqrt hdelta, discrim, sq]
  exact (quadratic_eq_zero_iff ha hdiscrim _).mpr (.inr rfl)

/-- With speed enough for the distance there is a shot. -/
theorem exists_hits (hg : 0 < g) (hv : 0 < v) (hd : 0 < d)
    (hdelta : 0 ≤ -d * -d - 4 * drop g v d * (drop g v d + h)) : ∃ θ t, 0 ≤ t ∧ Hits g v d h θ t := by
  have hroot := flat_root (drop_pos hg hv hd).ne' hdelta
  set slope := flat (drop g v d) (-d) (√(-d * -d - 4 * drop g v d * (drop g v d + h)))
  have hcos := cos_arctan_pos slope
  refine ⟨arctan slope, d / (v * cos (arctan slope)), by positivity, (hits_iff hv hcos).mpr ⟨rfl, ?_⟩⟩
  rwa [tan_arctan]

theorem not_root {a b c : ℝ} (hdelta : b * b - 4 * a * c < 0) (x : ℝ) : a * (x * x) + b * x + c ≠ 0 := by
  refine quadratic_ne_zero_of_discrim_ne_sq (fun s hs => ?_) x
  rw [discrim, sq b] at hs
  exact absurd (sq_nonneg s) (not_le.mpr (hs ▸ hdelta))

end SpVision.Ballistics
