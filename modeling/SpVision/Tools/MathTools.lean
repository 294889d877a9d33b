import Mathlib.Algebra.Order.Floor.Ring
import Mathlib.Algebra.Order.ToIntervalMod
import Mathlib.Tactic.Linarith

set_option autoImplicit false

/-!
# Math tools

Angles are exact numbers of an ordered field, with the half turn as a parameter.
-/
namespace SpVision

/-- `tools::delta_time`, in nanoseconds. -/
def deltaTime (a b : ℤ) : ℤ := a - b

/-- A half turn in some unit of angle; `CV_PI` in radians. -/
structure HalfTurn (K : Type) [Field K] [LinearOrder K] where
  val : K
  pos : 0 < val

theorem HalfTurn.turn_pos {K : Type} [Field K] [LinearOrder K] [IsStrictOrderedRing K] (half : HalfTurn K) :
    0 < 2 * half.val := mul_pos two_pos half.pos

theorem HalfTurn.neg_add_turn {K : Type} [Field K] [LinearOrder K] (half : HalfTurn K) :
    -half.val + 2 * half.val = half.val := by ring

/-- The first loop of `limit_rad`. -/
def limitRadAbove {K : Type} [Field K] [LinearOrder K] [IsStrictOrderedRing K] [FloorRing K] (half : HalfTurn K)
    (angle : K) : K :=
  if angle > half.val then limitRadAbove half (angle - 2 * half.val) else angle
termination_by ⌈(angle - half.val) / (2 * half.val)⌉₊
decreasing_by
  rename_i hgt
  have hbig : 0 < (angle - half.val) / (2 * half.val) := div_pos (sub_pos.mpr hgt) half.turn_pos
  have hless : (angle - 2 * half.val - half.val) / (2 * half.val) = (angle - half.val) / (2 * half.val) - 1 := by
    rw [sub_right_comm, sub_div _ (2 * half.val), div_self half.turn_pos.ne']
  rw [hless, Nat.ceil_sub_one]
  exact Nat.sub_lt (Nat.ceil_pos.mpr hbig) one_pos

/-- The second loop of `limit_rad`. -/
def limitRadBelow {K : Type} [Field K] [LinearOrder K] [IsStrictOrderedRing K] [FloorRing K] (half : HalfTurn K)
    (angle : K) : K :=
  if angle ≤ -half.val then limitRadBelow half (angle + 2 * half.val) else angle
termination_by ⌊(half.val - angle) / (2 * half.val)⌋₊
decreasing_by
  rename_i hle
  have hbig : 1 ≤ (half.val - angle) / (2 * half.val) := by
    rw [one_le_div half.turn_pos]
    linarith
  have hless : (half.val - (angle + 2 * half.val)) / (2 * half.val) = (half.val - angle) / (2 * half.val) - 1 := by
    rw [← sub_sub, sub_div _ (2 * half.val), div_self half.turn_pos.ne']
  rw [hless, Nat.floor_sub_one]
  exact Nat.sub_lt (Nat.floor_pos.mpr hbig) one_pos

section Angle

variable {K : Type} [Field K] [LinearOrder K] [IsStrictOrderedRing K] [FloorRing K] (half : HalfTurn K)

/-- `tools::limit_rad` -/
def limitRad (angle : K) : K := limitRadBelow half (limitRadAbove half angle)

theorem limitRadAbove_spec (angle : K) :
    limitRadAbove half angle ≤ half.val ∧ ∃ z : ℤ, angle = limitRadAbove half angle + z • (2 * half.val) := by
  fun_induction limitRadAbove half angle with
  | case1 angle hgt ih =>
    obtain ⟨hle, z, hz⟩ := ih
    refine ⟨hle, z + 1, ?_⟩
    rw [add_smul, one_smul, ← add_assoc, ← hz, sub_add_cancel]
  | case2 angle hgt => exact ⟨not_lt.mp hgt, 0, by rw [zero_smul, add_zero]⟩

theorem limitRadBelow_spec (angle : K) (hle : angle ≤ half.val) :
    limitRadBelow half angle ∈ Set.Ioc (-half.val) half.val ∧
      ∃ z : ℤ, angle = limitRadBelow half angle + z • (2 * half.val) := by
  fun_induction limitRadBelow half angle with
  | case1 angle hlow ih =>
    obtain ⟨hmem, z, hz⟩ := ih (by linarith)
    refine ⟨hmem, z - 1, ?_⟩
    rw [sub_smul, one_smul, ← add_sub_assoc, ← hz, add_sub_cancel_right]
  | case2 angle hlow => exact ⟨⟨not_le.mp hlow, hle⟩, 0, by rw [zero_smul, add_zero]⟩

/-- The two loops leave the angle of the same direction in `(-half, half]`. -/
theorem limitRad_eq_toIocMod (angle : K) : limitRad half angle = toIocMod half.turn_pos (-half.val) angle := by
  obtain ⟨hle, z, hz⟩ := limitRadAbove_spec half angle
  obtain ⟨hmem, z', hz'⟩ := limitRadBelow_spec half (limitRadAbove half angle) hle
  symm
  rw [toIocMod_eq_iff]
  refine ⟨?_, z' + z, ?_⟩
  · rw [half.neg_add_turn]
    exact hmem
  · rw [add_smul, ← add_assoc, limitRad, ← hz', ← hz]

theorem limitRad_turns (angle : K) : ∃ z : ℤ, angle = limitRad half angle + z • (2 * half.val) := by
  rw [limitRad_eq_toIocMod]
  exact ⟨_, (toIocMod_add_toIocDiv_zsmul half.turn_pos (-half.val) angle).symm⟩

theorem limitRad_mem (angle : K) : limitRad half angle ∈ Set.Ioc (-half.val) half.val := by
  rw [limitRad_eq_toIocMod]
  have hmem := toIocMod_mem_Ioc half.turn_pos (-half.val) angle
  rwa [half.neg_add_turn] at hmem

theorem limitRad_eq {angle d : K} (hd : d ∈ Set.Ioc (-half.val) half.val)
    (hturns : ∃ z : ℤ, angle = d + z • (2 * half.val)) : limitRad half angle = d := by
  rw [limitRad_eq_toIocMod, toIocMod_eq_iff, half.neg_add_turn]
  exact ⟨hd, hturns⟩

theorem limitRad_of_mem {angle : K} (hangle : angle ∈ Set.Ioc (-half.val) half.val) : limitRad half angle = angle :=
  limitRad_eq half hangle ⟨0, by rw [zero_smul, add_zero]⟩

end Angle

end SpVision
