import Mathlib.Algebra.Order.Round
import SpVision.Driver.Commands
import SpVision.Tools.MathTools

set_option autoImplicit false

/-!
# The relative command of the gimbal

The link and the main loop of `sentry_bp` both turn a target attitude into a difference to the
current one. The second brings the difference into a half turn either way.
-/
namespace SpVision

variable {K : Type} [Field K] [LinearOrder K] [IsStrictOrderedRing K] [FloorRing K]

/-- A conversion of a floating-point number to an integer. -/
def truncate (x : K) : ℤ := if 0 ≤ x then ⌊x⌋ else ⌈x⌉

/-- `std::llround` -/
def llround (x : K) : ℤ := if 0 ≤ x then ⌊x + 0.5⌋ else ⌈x - 0.5⌉

/-- `kRad2Deg` of the link. -/
def rad2Deg (half : HalfTurn K) : K := 180 / half.val

/-- `kRad2Udeg` of `sentry_bp`. -/
def rad2Udeg (half : HalfTurn K) : K := 180 * 1000000 / half.val

structure GimbalPose (K : Type) where
  yaw : K
  pitch : K
  deriving Repr

/-- `LinkImpl::send`; `now` is `now_ns_steady()`. -/
def linkSend (half : HalfTurn K) (isOpen : Bool) (cur : GimbalPose K) (now : UInt64) (control targetValid : Bool)
    (target : GimbalPose K) : Option GimbalDelta :=
  if ¬ isOpen then none
  else
    let dyawRad := if control then target.yaw - cur.yaw else 0
    let dpitchRad := if control then target.pitch - cur.pitch else 0
    some
      { deltaYawUdeg := .ofInt (truncate (dyawRad * rad2Deg half * 1000000))
        deltaPitchUdeg := .ofInt (truncate (dpitchRad * rad2Deg half * 1000000))
        status := if targetValid then 0x0001 else 0
        hostTsNs := now }

/-- The `delta` of the main loop of `sentry_bp`; `timestamp` is that of the image. -/
def sentryDelta (half : HalfTurn K) (gimbal : GimbalPose K) (timestamp : UInt64) (control : Bool)
    (command : GimbalPose K) : GimbalDelta :=
  let dyawRad := if control then limitRad half (command.yaw - gimbal.yaw) else 0
  let dpitchRad := if control then limitRad half (command.pitch - gimbal.pitch) else 0
  { deltaYawUdeg := .ofInt (llround (dyawRad * rad2Udeg half))
    deltaPitchUdeg := .ofInt (llround (dpitchRad * rad2Udeg half))
    status := if control then 0x0001 else 0
    hostTsNs := timestamp }

theorem abs_truncate_sub_lt (x : K) : |(truncate x : K) - x| < 1 := by
  have hfloor := Int.floor_le x
  have hfloor' := Int.lt_floor_add_one x
  have hceil := Int.le_ceil x
  have hceil' := Int.ceil_lt_add_one x
  unfold truncate
  rw [abs_lt]
  split_ifs <;> constructor <;> linarith

theorem abs_llround_sub_le (x : K) : |(llround x : K) - x| ≤ 1 / 2 := by
  have hfloor := Int.floor_le (x + 0.5)
  have hfloor' := Int.lt_floor_add_one (x + 0.5)
  have hceil := Int.le_ceil (x - 0.5)
  have hceil' := Int.ceil_lt_add_one (x - 0.5)
  unfold llround
  rw [abs_le]
  split_ifs <;> constructor <;> linarith

variable (half : HalfTurn K)

theorem rad2Udeg_pos : 0 < rad2Udeg half := div_pos (by norm_num) half.pos

omit [IsStrictOrderedRing K] [FloorRing K] in
theorem turn_mul_rad2Udeg : 2 * half.val * rad2Udeg half = 360000000 := by
  rw [rad2Udeg, mul_div_assoc', div_eq_iff half.pos.ne']
  ring

/-- A difference that is smaller than a turn fits in 32 bits. -/
theorem toInt_ofInt_udeg {angle : K} (hlow : -(2 * half.val) < angle) (hhigh : angle < 2 * half.val) {n : ℤ}
    (hn : |(n : K) - angle * rad2Udeg half| < 1) : (Int32.ofInt n).toInt = n := by
  have hpos := rad2Udeg_pos half
  have hturn := turn_mul_rad2Udeg half
  have hbelow := mul_lt_mul_of_pos_right hlow hpos
  have habove := mul_lt_mul_of_pos_right hhigh hpos
  rw [neg_mul] at hbelow
  obtain ⟨hnlow, hnhigh⟩ := abs_lt.mp hn
  have hleast : (-360000001 : K) < n := by linarith
  have hmost : (n : K) < 360000001 := by linarith
  have hleast' : -360000001 < n := by exact_mod_cast hleast
  have hmost' : n < 360000001 := by exact_mod_cast hmost
  exact Int32.toInt_ofInt_of_le (by omega) (by omega)

/-- The command turns the gimbal the short way round, up to the rounding to micro-degrees. -/
def GimbalDelta.ShortWay (yaw curYaw : K) (cmd : GimbalDelta) : Prop :=
  ∃ d ∈ Set.Ioc (-half.val) half.val, (∃ z : ℤ, yaw - curYaw = d + (2 * z) • half.val) ∧
    cmd.deltaYawUdeg.toInt = truncate (d * rad2Udeg half)

theorem GimbalDelta.shortWay_iff {yaw curYaw : K} {cmd : GimbalDelta} :
    cmd.ShortWay half yaw curYaw ↔
      cmd.deltaYawUdeg.toInt = truncate (limitRad half (yaw - curYaw) * rad2Udeg half) := by
  have hturn : ∀ z : ℤ, (2 * z) • half.val = z • (2 * half.val) := fun z => by
    rw [mul_comm, mul_smul, two_zsmul, two_mul]
  constructor
  · rintro ⟨d, hd, ⟨z, hz⟩, hcmd⟩
    rw [limitRad_eq half hd ⟨z, by rw [hz, hturn]⟩, hcmd]
  · intro hcmd
    obtain ⟨z, hz⟩ := limitRad_turns half (yaw - curYaw)
    exact ⟨_, limitRad_mem half _, ⟨z, by rw [hturn, ← hz]⟩, hcmd⟩

theorem linkSend_deltaYawUdeg {isOpen targetValid : Bool} {cur target : GimbalPose K} {now : UInt64} {cmd : GimbalDelta}
    (hcur : cur.yaw ∈ Set.Ioc (-half.val) half.val) (htarget : target.yaw ∈ Set.Ioc (-half.val) half.val)
    (hcmd : linkSend half isOpen cur now true targetValid target = some cmd) :
    cmd.deltaYawUdeg.toInt = truncate ((target.yaw - cur.yaw) * rad2Udeg half) := by
  have hunits : (target.yaw - cur.yaw) * rad2Deg half * 1000000 = (target.yaw - cur.yaw) * rad2Udeg half := by
    rw [rad2Deg, rad2Udeg]
    ring
  have hopen : ¬ ¬ isOpen = true := by
    intro hclosed
    rw [linkSend, if_pos hclosed] at hcmd
    exact absurd hcmd nofun
  rw [linkSend, if_neg hopen] at hcmd
  obtain rfl := Option.some.inj hcmd
  dsimp only
  rw [if_pos rfl, hunits]
  exact toInt_ofInt_udeg half (by linarith [hcur.2, htarget.1]) (by linarith [hcur.1, htarget.2])
    (abs_truncate_sub_lt _)

theorem sentryDelta_deltaYawUdeg (gimbal command : GimbalPose K) (timestamp : UInt64) :
    (sentryDelta half gimbal timestamp true command).deltaYawUdeg.toInt =
      llround (limitRad half (command.yaw - gimbal.yaw) * rad2Udeg half) := by
  obtain ⟨hlow, hhigh⟩ := limitRad_mem half (command.yaw - gimbal.yaw)
  have hround := abs_llround_sub_le (limitRad half (command.yaw - gimbal.yaw) * rad2Udeg half)
  have hpos := half.pos
  rw [sentryDelta]
  dsimp only
  rw [if_pos rfl]
  generalize limitRad half (command.yaw - gimbal.yaw) = angle at *
  exact toInt_ofInt_udeg half (by linarith) (by linarith) (hround.trans_lt (by norm_num))

/-- The command of the link turns the gimbal the short way, as that of `sentry_bp` does, exactly if the
    difference of the two angles is within a half turn of 0 as it stands. -/
theorem link_send_short_way_iff (isOpen targetValid : Bool) (cur target : GimbalPose K) (now timestamp : UInt64)
    (cmd : GimbalDelta) (hcur : cur.yaw ∈ Set.Ioc (-half.val) half.val)
    (htarget : target.yaw ∈ Set.Ioc (-half.val) half.val)
    (hcmd : linkSend half isOpen cur now true targetValid target = some cmd) :
    cmd.ShortWay half target.yaw cur.yaw ∧
      |cmd.deltaYawUdeg.toInt - (sentryDelta half cur timestamp true target).deltaYawUdeg.toInt| ≤ 1 ↔
    target.yaw - cur.yaw ∈ Set.Ioc (-half.val) half.val := by
  rw [GimbalDelta.shortWay_iff, sentryDelta_deltaYawUdeg, linkSend_deltaYawUdeg half hcur htarget hcmd]
  have hlimited := limitRad_mem half (target.yaw - cur.yaw)
  generalize hangle : target.yaw - cur.yaw = angle
  have htruncate := abs_lt.mp (abs_truncate_sub_lt (angle * rad2Udeg half))
  constructor
  · rintro ⟨hsame, -⟩
    have htruncate' := abs_lt.mp (abs_truncate_sub_lt (limitRad half angle * rad2Udeg half))
    rw [← hsame] at htruncate'
    obtain ⟨z, hz⟩ := limitRad_turns half angle
    have hscaled : angle * rad2Udeg half = limitRad half angle * rad2Udeg half + z * 360000000 := by
      rw [← turn_mul_rad2Udeg half, ← mul_assoc, ← zsmul_eq_mul (2 * half.val) z, ← add_mul, ← hz]
    -- angles a turn or more apart are not rounded to the same number
    have hlow : (-2 : K) < z * 360000000 := by linarith
    have hhigh : (z * 360000000 : K) < 2 := by linarith
    have hlow' : -2 < z * 360000000 := by exact_mod_cast hlow
    have hhigh' : z * 360000000 < 2 := by exact_mod_cast hhigh
    have hzero : z = 0 := by omega
    rw [hz, hzero, zero_smul, add_zero]
    exact hangle ▸ hlimited
  · intro hmem
    rw [limitRad_of_mem half hmem]
    refine ⟨rfl, ?_⟩
    have hround := abs_le.mp (abs_llround_sub_le (angle * rad2Udeg half))
    have hnear : |((truncate (angle * rad2Udeg half) - llround (angle * rad2Udeg half) : ℤ) : K)| < 2 := by
      rw [Int.cast_sub, abs_lt]
      constructor <;> linarith
    have hnear' : |truncate (angle * rad2Udeg half) - llround (angle * rad2Udeg half)| < 2 := by exact_mod_cast hnear
    exact Int.lt_add_one_iff.mp hnear'

def halfTurnDeg : HalfTurn ℚ := ⟨180, by norm_num⟩

/-- From 170 to -170 degrees the link turns back by 340. -/
theorem link_send_long_way : ∃ cmd, linkSend halfTurnDeg true ⟨170, 0⟩ 0 true true ⟨-170, 0⟩ = some cmd ∧
    cmd.deltaYawUdeg = -340000000 ∧
    (sentryDelta halfTurnDeg ⟨170, 0⟩ 0 true ⟨-170, 0⟩).deltaYawUdeg = 20000000 ∧
    ¬ cmd.ShortWay halfTurnDeg (-170) 170 := by
  have hlimited : limitRad halfTurnDeg (-170 - 170) = 20 :=
    limitRad_eq halfTurnDeg ⟨by decide +kernel, by decide +kernel⟩ ⟨-1, by decide +kernel⟩
  refine ⟨_, rfl, by decide +kernel, ?_, ?_⟩
  · rw [← Int32.toInt_inj, sentryDelta_deltaYawUdeg, hlimited]
    decide +kernel
  · rw [GimbalDelta.shortWay_iff, hlimited]
    decide +kernel

theorem link_send_short_way : ∃ cmd, linkSend halfTurnDeg true ⟨10, 0⟩ 0 true true ⟨-10, 0⟩ = some cmd ∧
    cmd.ShortWay halfTurnDeg (-10) 10 := by
  refine ⟨_, rfl, ?_⟩
  refine ((link_send_short_way_iff halfTurnDeg true true ⟨10, 0⟩ ⟨-10, 0⟩ 0 0 _ ?_ ?_ rfl).mpr ?_).1
  · constructor <;> decide +kernel
  · constructor <;> decide +kernel
  · constructor <;> decide +kernel

end SpVision
