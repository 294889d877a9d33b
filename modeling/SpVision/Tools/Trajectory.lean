import SpVision.Library.Ballistics
import SpVision.Tracker.StateVector

set_option autoImplicit false

/-!
# The trajectory of a bullet

The shot of a given speed that goes through a point, without drag. A member that the constructor leaves
unset is none.
-/
namespace SpVision

/-- The functions of `<cmath>` that the ballistics take. -/
structure Cmath (K : Type) extends Trig K where
  sqrt : K → K
  atan : K → K

/-- `tools::Trajectory` -/
structure Trajectory (K : Type) where
  unsolvable : Bool
  flyTime : Option K
  pitch : Option K

namespace Trajectory

section Model

variable {K : Type} [Field K]

def g (K : Type) [Field K] : K := 9.7833

variable [LinearOrder K]

/-- The constructor `Trajectory::Trajectory`. -/
def init (m : Cmath K) (v0 d h : K) : Trajectory K :=
  let a := g K * d * d / ((2 : ℕ) * v0 * v0)
  let b := -d
  let c := a + h
  let delta := b * b - (4 : ℕ) * a * c
  if delta < 0 then { unsolvable := true, flyTime := none, pitch := none }
  else
    let tanPitch1 := (-b + m.sqrt delta) / ((2 : ℕ) * a)
    let tanPitch2 := (-b - m.sqrt delta) / ((2 : ℕ) * a)
    let pitch1 := m.atan tanPitch1
    let pitch2 := m.atan tanPitch2
    let t1 := d / (v0 * m.cos pitch1)
    let t2 := d / (v0 * m.cos pitch2)
    { unsolvable := false
      flyTime := some (if t1 < t2 then t1 else t2)
      pitch := some (if t1 < t2 then pitch1 else pitch2) }

theorem init_cases (m : Cmath K) (v0 d h : K) :
    ((init m v0 d h).unsolvable = true ∧ (init m v0 d h).flyTime = none ∧ (init m v0 d h).pitch = none) ∨
    (init m v0 d h).unsolvable = false ∧ ∃ t pitch, (init m v0 d h).flyTime = some t ∧
      (init m v0 d h).pitch = some pitch := by
  by_cases hdelta : -d * -d - (4 : ℕ) * (g K * d * d / ((2 : ℕ) * v0 * v0)) *
      (g K * d * d / ((2 : ℕ) * v0 * v0) + h) < 0
  · left
    simp only [init, if_pos hdelta, and_self]
  · right
    simp only [init, if_neg hdelta]
    exact ⟨trivial, _, _, rfl, rfl⟩

/-- With two solutions the second is taken unless the first is the faster one. -/
theorem init_second (m : Cmath K) {v0 d h a delta pitch : K} (ha : g K * d * d / ((2 : ℕ) * v0 * v0) = a)
    (hdelta : -d * -d - (4 : ℕ) * a * (a + h) = delta) (hsolvable : ¬ delta < 0)
    (hpitch : m.atan ((- -d - m.sqrt delta) / ((2 : ℕ) * a)) = pitch)
    (hsecond : ¬ d / (v0 * m.cos (m.atan ((- -d + m.sqrt delta) / ((2 : ℕ) * a)))) < d / (v0 * m.cos pitch)) :
    init m v0 d h = { unsolvable := false, flyTime := some (d / (v0 * m.cos pitch)), pitch := some pitch } := by
  subst ha hdelta hpitch
  simp only [init, if_neg hsolvable, if_neg hsecond]

end Model

/-! ### Over the real numbers -/

open Ballistics

noncomputable def realMath : Cmath ℝ where
  cos := Real.cos
  sin := Real.sin
  atan2 y x := Complex.arg ⟨x, y⟩
  sqrt := Real.sqrt
  atan := Real.arctan

theorem g_pos : 0 < g ℝ := by norm_num [g]

variable {v0 d h : ℝ}

/-- The slope of the flatter shot. -/
noncomputable def slope (v0 d h : ℝ) : ℝ :=
  flat (drop (g ℝ) v0 d) (-d) (Real.sqrt (-d * -d - 4 * drop (g ℝ) v0 d * (drop (g ℝ) v0 d + h)))

theorem init_a (v0 d : ℝ) : g ℝ * d * d / ((2 : ℕ) * v0 * v0) = drop (g ℝ) v0 d := by
  rw [drop]
  push_cast
  ring_nf

theorem init_unsolvable (hdelta : -d * -d - 4 * drop (g ℝ) v0 d * (drop (g ℝ) v0 d + h) < 0) :
    init realMath v0 d h = { unsolvable := true, flyTime := none, pitch := none } := by
  have hfour : ((4 : ℕ) : ℝ) = 4 := by norm_num
  rw [← init_a, ← hfour] at hdelta
  exact if_pos hdelta

/-- The flatter shot is never the slower one. -/
theorem init_flat (hv : 0 < v0) (hd : 0 < d)
    (hdelta : ¬ -d * -d - 4 * drop (g ℝ) v0 d * (drop (g ℝ) v0 d + h) < 0) :
    init realMath v0 d h =
      { unsolvable := false
        flyTime := some (d / (v0 * Real.cos (Real.arctan (slope v0 d h))))
        pitch := some (Real.arctan (slope v0 d h)) } := by
  have htwo : ((2 : ℕ) : ℝ) = 2 := by norm_num
  have hfour : ((4 : ℕ) : ℝ) = 4 := by norm_num
  refine init_second realMath (init_a v0 d) (by rw [hfour]) hdelta (by rw [htwo]; rfl) (not_lt.mpr ?_)
  refine flightTime_le hv hd.le (Real.cos_arctan_pos _) (Real.cos_arctan_pos _) ?_
  change |Real.tan (Real.arctan _)| ≤ |Real.tan (Real.arctan _)|
  rw [Real.tan_arctan, Real.tan_arctan, htwo]
  exact abs_flat_le_steep (drop_pos g_pos hv hd) (neg_nonpos.mpr hd.le) (Real.sqrt_nonneg _)

/-- The trajectory is the fastest of the shots that go through the point, and is missing exactly if none does. -/
theorem trajectory_fastest (v0 d h : ℝ) (hv : 0 < v0) (hd : 0 < d) :
    ((init realMath v0 d h).unsolvable = true ↔ ∀ θ t, 0 ≤ t → ¬ Hits (g ℝ) v0 d h θ t) ∧
    ((init realMath v0 d h).unsolvable = false → ∃ pitch t, (init realMath v0 d h).pitch = some pitch ∧
      (init realMath v0 d h).flyTime = some t ∧ pitch ∈ Set.Ioo (-(Real.pi / 2)) (Real.pi / 2) ∧ 0 < t ∧
      Hits (g ℝ) v0 d h pitch t ∧
      ∀ θ t', 0 ≤ t' → Hits (g ℝ) v0 d h θ t' → t ≤ t' ∧ |Real.tan pitch| ≤ |Real.tan θ|) := by
  have hdrop := drop_pos g_pos hv hd
  by_cases hdelta : -d * -d - 4 * drop (g ℝ) v0 d * (drop (g ℝ) v0 d + h) < 0
  · rw [init_unsolvable hdelta]
    refine ⟨iff_of_true rfl fun θ t ht hhit => ?_, nofun⟩
    exact not_root hdelta _ ((hits_iff hv (hhit.cos_pos hv hd ht)).mp hhit).2
  rw [init_flat hv hd hdelta]
  dsimp only
  have hcos := Real.cos_arctan_pos (slope v0 d h)
  have htime : 0 < d / (v0 * Real.cos (Real.arctan (slope v0 d h))) := div_pos hd (mul_pos hv hcos)
  have hhit : Hits (g ℝ) v0 d h (Real.arctan (slope v0 d h))
      (d / (v0 * Real.cos (Real.arctan (slope v0 d h)))) := by
    rw [hits_iff hv hcos, Real.tan_arctan]
    exact ⟨rfl, flat_root hdrop.ne' (not_lt.mp hdelta)⟩
  constructor
  · exact iff_of_false Bool.false_ne_true fun hnone => hnone _ _ htime.le hhit
  · intro _
    refine ⟨_, _, rfl, rfl, ⟨Real.neg_pi_div_two_lt_arctan _, Real.arctan_lt_pi_div_two _⟩, htime, hhit, ?_⟩
    intro θ t' ht' hhit'
    have hcos' := hhit'.cos_pos hv hd ht'
    obtain ⟨htime', hroot⟩ := (hits_iff hv hcos').mp hhit'
    have hflat : |Real.tan (Real.arctan (slope v0 d h))| ≤ |Real.tan θ| := by
      rw [Real.tan_arctan]
      exact abs_flat_le hdrop (neg_nonpos.mpr hd.le) (not_lt.mp hdelta) hroot
    rw [htime']
    exact ⟨flightTime_le hv hd.le hcos hcos' hflat, hflat⟩

end Trajectory
end SpVision
