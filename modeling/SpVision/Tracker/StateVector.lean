import Mathlib.Data.Fin.VecNotation
import Mathlib.Tactic.FinCases
import Mathlib.Tactic.NormNum
import SpVision.Tracker.Track

set_option autoImplicit false

/-!
# The state of a target's filter

Its entries are `x vx y vy z vz a w r l h`. A prediction moves the mean at constant speed and keeps
the angle `a` in a half-open turn.
-/
namespace SpVision

/-- `CV_PI` -/
def cvPi (K : Type) [Field K] [LinearOrder K] [IsStrictOrderedRing K] : HalfTurn K :=
  ⟨31415926535897932384626433832795 / 10 ^ 31, by positivity⟩

theorem limitRad_cvPi_zero {K : Type} [Field K] [LinearOrder K] [IsStrictOrderedRing K] [FloorRing K] :
    limitRad (cvPi K) 0 = 0 :=
  limitRad_of_mem _ ⟨neg_neg_of_pos (cvPi K).pos, (cvPi K).pos.le⟩

/-- The private part of `Target`; `ekf` is the filter. -/
structure TargetEstimate (ξ : Type) where
  armorNum : ℕ
  ekf : ξ
  t : ℤ
  jumped : Bool := false
  lastId : ℕ := 0
  updateCount : ℕ := 0
  isSwitch : Bool := false
  switchCount : ℕ := 0
  deriving DecidableEq, Repr

/-- The mean of the filter, by bare index. -/
abbrev StateVector (K : Type) := Fin 11 → K

instance neZeroEleven : NeZero (11 : ℕ) := ⟨by decide⟩

/-- The functions of `<cmath>` that turn angles into places and back. -/
structure Trig (K : Type) where
  cos : K → K
  sin : K → K
  atan2 : K → K → K

namespace StateVector

variable {K : Type} [Field K] [LinearOrder K] [IsStrictOrderedRing K] [FloorRing K]

/-- `f` of `Target::predict`: the product with `F`, and the angle brought back. -/
def propagate (x : StateVector K) (dt : K) : StateVector K :=
  ![x 0 + dt * x 1, x 1, x 2 + dt * x 3, x 3, x 4 + dt * x 5, x 5, limitRad (cvPi K) (x 6 + dt * x 7), x 7, x 8, x 9,
    x 10]

/-- The speed of a converged outpost is known. -/
def clampSpin (convergedOutpost : Bool) (x : StateVector K) : StateVector K :=
  if convergedOutpost ∧ |x 7| > (2 : ℕ) then Function.update x 7 (if x 7 > 0 then 2.51 else -2.51) else x

/-- `Target::predict` on the mean. -/
def predict (convergedOutpost : Bool) (x : StateVector K) (dt : K) : StateVector K :=
  (clampSpin convergedOutpost x).propagate dt

theorem limitRad_limitRad_add (half : HalfTurn K) (a b : K) :
    limitRad half (limitRad half a + b) = limitRad half (a + b) := by
  obtain ⟨z, hz⟩ := limitRad_turns half a
  obtain ⟨z', hz'⟩ := limitRad_turns half (a + b)
  apply limitRad_eq half (limitRad_mem half (a + b))
  refine ⟨z' - z, ?_⟩
  rw [sub_smul, ← add_sub_assoc, ← hz', eq_sub_iff_add_eq, add_right_comm, ← hz]

theorem propagate_add (x : StateVector K) (a b : K) : (x.propagate a).propagate b = x.propagate (a + b) := by
  have hmove (p v : K) : p + a * v + b * v = p + (a + b) * v := by
    rw [add_assoc, add_mul]
  have hangle (p v : K) : limitRad (cvPi K) (limitRad (cvPi K) (p + a * v) + b * v) =
      limitRad (cvPi K) (p + (a + b) * v) := by
    rw [limitRad_limitRad_add, hmove]
  change ![x 0 + a * x 1 + b * x 1, x 1, x 2 + a * x 3 + b * x 3, x 3, x 4 + a * x 5 + b * x 5, x 5,
    limitRad (cvPi K) (limitRad (cvPi K) (x 6 + a * x 7) + b * x 7), x 7, x 8, x 9, x 10] = _
  rw [hmove, hmove, hmove, hangle]
  rfl

theorem clampSpin_speed {convergedOutpost : Bool} {x : StateVector K}
    (h : convergedOutpost ∧ |clampSpin convergedOutpost x 7| > (2 : ℕ)) :
    (if clampSpin convergedOutpost x 7 > 0 then 2.51 else -2.51) = clampSpin convergedOutpost x 7 := by
  have hpos : (0 : K) < 2.51 := by norm_num
  by_cases hclamp : convergedOutpost ∧ |x 7| > (2 : ℕ)
  · have hset : clampSpin convergedOutpost x 7 = if x 7 > 0 then 2.51 else -2.51 := by
      rw [clampSpin, if_pos hclamp, Function.update_self]
    rw [hset]
    by_cases hx : x 7 > 0
    · rw [if_pos hx, if_pos hpos]
    · rw [if_neg hx, if_neg (not_lt.mpr (neg_nonpos.mpr hpos.le))]
  · have hsame : clampSpin convergedOutpost x = x := if_neg hclamp
    rw [hsame] at h
    exact absurd h hclamp

theorem clampSpin_propagate (convergedOutpost : Bool) (x : StateVector K) (dt : K) :
    clampSpin convergedOutpost ((clampSpin convergedOutpost x).propagate dt) =
      (clampSpin convergedOutpost x).propagate dt := by
  have hspeed : (clampSpin convergedOutpost x).propagate dt 7 = clampSpin convergedOutpost x 7 := rfl
  by_cases hfast : convergedOutpost ∧ |clampSpin convergedOutpost x 7| > (2 : ℕ)
  · rw [clampSpin.eq_1 convergedOutpost ((clampSpin convergedOutpost x).propagate dt), hspeed, if_pos hfast,
      clampSpin_speed hfast, ← hspeed, Function.update_eq_self]
  · exact if_neg hfast

/-- A prediction in two steps is the prediction in one. -/
theorem predict_predict (convergedOutpost : Bool) (x : StateVector K) (a b : K) :
    predict convergedOutpost (predict convergedOutpost x a) b = predict convergedOutpost x (a + b) := by
  rw [predict, predict, clampSpin_propagate, propagate_add, predict]

/-! ### The plates -/

/-- `Target::h_armor_xyz`; of four plates every other one has its own radius and height. -/
def hArmorXyz (trig : Trig K) (x : StateVector K) (armorNum id : ℕ) : K × K × K :=
  let angle := limitRad (cvPi K) (x 6 + (id * 2 : ℕ) * (cvPi K).val / armorNum)
  let useLH : Bool := armorNum = 4 ∧ (id = 1 ∨ id = 3)
  let r := if useLH then x 8 + x 9 else x 8
  (x 0 - r * trig.cos angle, x 2 - r * trig.sin angle, if useLH then x 4 + x 10 else x 4)

/-- `Target::armor_xyza_list` -/
def armorXyzaList (trig : Trig K) (x : StateVector K) (armorNum : ℕ) : List ((K × K × K) × K) :=
  (List.range armorNum).map fun i =>
    (x.hArmorXyz trig armorNum i, limitRad (cvPi K) (x 6 + (i * 2 : ℕ) * (cvPi K).val / armorNum))

end StateVector
end SpVision
