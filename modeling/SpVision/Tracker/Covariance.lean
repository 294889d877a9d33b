import Mathlib.Analysis.SpecialFunctions.Log.Basic
import SpVision.Tracker.Estimate

set_option autoImplicit false

/-!
# The covariance of a target
-/
namespace SpVision

open Matrix Kalman

namespace StateVector

/-! ### The noises -/

theorem processNoise_symm (v1 v2 dt : ℝ) : (processNoise v1 v2 dt)ᵀ = processNoise v1 v2 dt := by
  ext i j
  fin_cases i <;> fin_cases j <;> rfl

/-- Each axis has a random acceleration over the step. -/
theorem processNoise_quad (v1 v2 dt : ℝ) (w : Fin 11 → ℝ) : w ⬝ᵥ processNoise v1 v2 dt *ᵥ w =
    v1 * (dt ^ 2 / 2 * w 0 + dt * w 1) ^ 2 + v1 * (dt ^ 2 / 2 * w 2 + dt * w 3) ^ 2 +
      v1 * (dt ^ 2 / 2 * w 4 + dt * w 5) ^ 2 + v2 * (dt ^ 2 / 2 * w 6 + dt * w 7) ^ 2 := by
  simp [processNoise, dotProduct, mulVec, Fin.sum_univ_succ]
  ring

theorem processNoise_posSemidef {v1 v2 : ℝ} (hv1 : 0 ≤ v1) (hv2 : 0 ≤ v2) (dt : ℝ) :
    (processNoise v1 v2 dt).PosSemidef := by
  refine .of_dotProduct_mulVec_nonneg ?_ fun w => ?_
  · rw [IsHermitian, conjTranspose_eq_transpose_of_trivial, processNoise_symm]
  · rw [star_trivial, processNoise_quad]
    positivity

/-- The entries `l` and `h` are not moved by a prediction. -/
theorem transition_fixes {k : Fin 11} (hk : k = 9 ∨ k = 10) (dt : ℝ) :
    Pi.single k 1 ᵥ* transition dt = Pi.single k 1 ∧ transition dt *ᵥ Pi.single k 1 = Pi.single k 1 := by
  rw [single_one_vecMul, mulVec_single_one]
  rcases hk with rfl | rfl <;> constructor <;> funext j <;> fin_cases j <;> rfl

theorem processNoise_fixes {k : Fin 11} (hk : k = 9 ∨ k = 10) (v1 v2 dt : ℝ) :
    Pi.single k 1 ᵥ* processNoise v1 v2 dt = 0 := by
  rw [single_one_vecMul]
  rcases hk with rfl | rfl <;> funext j <;> fin_cases j <;> rfl

/-- Only the plates of a target with four show `l` and `h`. -/
theorem hJacobian_blind (m : FilterMath ℝ) {k : Fin 11} (hk : k = 9 ∨ k = 10) (x : StateVector ℝ) {armorNum : ℕ}
    (hfour : armorNum ≠ 4) (id : ℕ) : x.hJacobian m armorNum id *ᵥ Pi.single k 1 = 0 := by
  have huse : decide (armorNum = 4 ∧ (id = 1 ∨ id = 3)) = false := decide_eq_false fun h => hfour h.1
  unfold hJacobian
  simp only [huse]
  rw [← mulVec_mulVec, mulVec_single_one]
  refine (congrArg _ ?_).trans (mulVec_zero _)
  rcases hk with rfl | rfl <;> funext j <;> fin_cases j <;> rfl

end StateVector

theorem SolvedArmor.measurementNoise_posDef (armor : SolvedArmor ℝ) :
    (armor.measurementNoise realFilterMath).PosDef := by
  have hlog (a : ℝ) : 0 ≤ Real.log (|a| + 1) := Real.log_nonneg (le_add_of_nonneg_left (abs_nonneg a))
  refine .diagonal fun i => ?_
  fin_cases i
  · norm_num
  · norm_num
  · exact add_pos_of_nonneg_of_pos (hlog _) one_pos
  · exact add_pos_of_nonneg_of_pos (div_nonneg (hlog _) (Nat.cast_nonneg _)) (by norm_num)

/-! ### What a target keeps -/

namespace TargetState

/-- What every target keeps whose updates stay in its list of plates. -/
structure Sound (armorNum : ℕ) (state : TargetState ℝ) : Prop where
  covariance : state.filter.P.PosSemidef
  xAdd : state.filter.xAdd = StateVector.xAdd
  counts : ∃ history, state.filter.Counts history
  alike : armorNum ≠ 4 → ∀ k : Fin 11, k = 9 ∨ k = 10 →
    state.filter.x k = 0 ∧ Isolated state.filter.P (Pi.single k 1)

variable {armorNum : ℕ} {state : TargetState ℝ}

theorem init_sound (armor : Armor (SolvedArmor ℝ)) (radius : ℚ) {p0Dig : List ℚ} (hp0 : ∀ p ∈ p0Dig, 0 ≤ p) :
    Sound armorNum (init realFilterMath.toTrig armor radius p0Dig) := by
  have hdiagonal (i : Fin 11) : 0 ≤ p0Dig.getD i 0 := by
    rw [List.getD_eq_getElem?_getD]
    cases hget : p0Dig[(i : ℕ)]? with
    | none => exact le_rfl
    | some p => exact hp0 p (List.mem_of_getElem? hget)
  refine ⟨.diagonal fun i => Rat.cast_nonneg.mpr (hdiagonal i), rfl, ⟨[], ExtendedKalmanFilter.init_counts _ _ _⟩,
    fun _ k hk => ⟨?_, ((p0Dig.getD k 0 : ℚ) : ℝ), ?_⟩⟩
  · rcases hk with rfl | rfl <;> rfl
  · change Pi.single k 1 ᵥ* diagonal _ = _
    rw [single_vecMul_diagonal, one_mul, ← Pi.single_smul, smul_eq_mul, mul_one]

theorem variances_nonneg (name : ArmorName) : 0 ≤ (variances name : ℝ × ℝ).1 ∧ 0 ≤ (variances name : ℝ × ℝ).2 := by
  unfold variances
  split_ifs <;> constructor <;> norm_num

theorem clampSpin_of_ne (convergedOutpost : Bool) (x : StateVector ℝ) {k : Fin 11} (hk : k ≠ 7) :
    x.clampSpin convergedOutpost k = x k := by
  unfold StateVector.clampSpin
  split
  · exact Function.update_of_ne hk _ _
  · rfl

theorem Sound.predict {est : TargetEstimate (TargetState ℝ)} (h : Sound armorNum est.ekf) (name : ArmorName) (t : ℤ) :
    Sound armorNum (TargetState.predict name est t) := by
  obtain ⟨history, hcounts⟩ := h.counts
  refine ⟨?_, h.xAdd, ⟨history, hcounts.windowSize, hcounts.recent, hcounts.nisCount, hcounts.totalCount, hcounts.nisFail⟩,
    fun hfour k hk => ?_⟩
  · exact predicted_posSemidef h.covariance
      (StateVector.processNoise_posSemidef (variances_nonneg name).1 (variances_nonneg name).2 _) _
  · obtain ⟨hzero, hisolated⟩ := h.alike hfour k hk
    obtain ⟨hleft, hright⟩ := StateVector.transition_fixes hk ((deltaTime t est.t : ℤ) / (10 ^ 9 : ℕ))
    refine ⟨?_, hisolated.predicted hleft hright (StateVector.processNoise_fixes hk _ _ _)⟩
    change StateVector.propagateBy _ _ k = 0
    rw [StateVector.propagateBy_eq, ← hzero]
    have hne : k ≠ 7 := by
      rintro rfl
      exact absurd hk (by decide)
    rcases hk with rfl | rfl <;> exact clampSpin_of_ne _ _ hne

variable (inverse : {n : ℕ} → Matrix (Fin n) (Fin n) ℝ → Matrix (Fin n) (Fin n) ℝ)

theorem Sound.update (h : Sound armorNum state) (armor : Armor (SolvedArmor ℝ)) (id : ℕ) :
    Sound armorNum (updateYpda realFilterMath inverse state armorNum armor id) := by
  obtain ⟨history, hcounts⟩ := h.counts
  refine ⟨?_, h.xAdd, ⟨_, hcounts.update inverse _ _ _ _ _⟩, fun hfour k hk => ?_⟩
  · exact corrected_posSemidef h.covariance armor.view.measurementNoise_posDef.posSemidef _ _
  · obtain ⟨hzero, hisolated⟩ := h.alike hfour k hk
    have hblind := StateVector.hJacobian_blind realFilterMath hk state.ekfX hfour id
    have hgain : Pi.single k 1 ᵥ* state.filter.gain inverse (state.ekfX.hJacobian realFilterMath armorNum id)
        (armor.view.measurementNoise realFilterMath) = 0 := hisolated.gain hblind _
    refine ⟨?_, hisolated.corrected hblind hgain _⟩
    have hne : k ≠ 6 := by
      rintro rfl
      exact absurd hk (by decide)
    have hstill (v : Fin 4 → ℝ) : (state.filter.gain inverse (state.ekfX.hJacobian realFilterMath armorNum id)
        (armor.view.measurementNoise realFilterMath) *ᵥ v) k = 0 := by
      refine (single_one_dotProduct k _).symm.trans ?_
      rw [dotProduct_mulVec, hgain, zero_dotProduct]
    change state.filter.xAdd state.filter.x (_ *ᵥ _) k = 0
    rw [h.xAdd, StateVector.xAdd, Function.update_of_ne hne, Pi.add_apply, hzero, hstill, add_zero]

/-! ### In every run of the tracker -/

def IsBalance (type : ArmorType) (name : ArmorName) : Prop :=
  type = .big ∧ (name = .three ∨ name = .four ∨ name = .five)

/-- A target is sound unless it is a balance infantry. -/
def TargetSound (target : Target (TargetEstimate (TargetState ℝ))) : Prop :=
  ¬ IsBalance target.armorType target.name →
    3 ≤ target.estimate.armorNum ∧ Sound target.estimate.armorNum target.estimate.ekf

variable (sort : ComparisonSort)
  (astray : Target (TargetEstimate (TargetState ℝ)) → Armor (SolvedArmor ℝ) → TargetEstimate (TargetState ℝ))

theorem p0Dig_nonneg (armor : Armor (SolvedArmor ℝ)) : ∀ p ∈ (targetSetup armor).p0Dig, 0 ≤ p := by
  unfold targetSetup
  split_ifs <;> decide +kernel

theorem update_sound {target : Target (TargetEstimate (TargetState ℝ))} (armor : Armor (SolvedArmor ℝ))
    (hplates : 3 ≤ target.estimate.armorNum) (hsound : Sound target.estimate.armorNum target.estimate.ekf) :
    3 ≤ ((targetModel realFilterMath inverse sort astray).update target armor).armorNum ∧
      Sound ((targetModel realFilterMath inverse sort astray).update target armor).armorNum
        ((targetModel realFilterMath inverse sort astray).update target armor).ekf := by
  obtain ⟨id, -, hmatch⟩ := (targetFilter realFilterMath inverse).matchId?_of_readable sort hplates
    (targetFilter_readable realFilterMath inverse _ armor)
  simp only [targetModel, TargetFilter.update?, hmatch, Option.map_some, Option.getD_some]
  exact ⟨hplates, hsound.update inverse armor id⟩

theorem targetModel_keeps : (targetModel realFilterMath inverse sort astray).Keeps TargetSound where
  init armor t hbalance := by
    have hplates := (targetSetup_armorNum armor).not.mpr hbalance
    exact ⟨not_lt.mp hplates, init_sound armor _ (p0Dig_nonneg armor)⟩
  predict target t h hbalance := by
    obtain ⟨hplates, hsound⟩ := h hbalance
    exact ⟨hplates, hsound.predict target.name t⟩
  update target armor h hbalance := by
    obtain ⟨hplates, hsound⟩ := h hbalance
    exact update_sound inverse sort astray armor hplates hsound
  convergened target h hbalance := by
    obtain ⟨hplates, hsound⟩ := h hbalance
    exact ⟨hplates, hsound.covariance, hsound.xAdd, hsound.counts, hsound.alike⟩

theorem not_diverged {x : StateVector ℝ} (h : x.diverged = false) :
    (0.05 < x 8 ∧ x 8 < 0.5) ∧ 0.05 < x 8 + x 9 ∧ x 8 + x 9 < 0.5 :=
  not_not.mp (of_decide_eq_false h)

/-- In every run of the tracker, with any plates seen at any times, a target that it reports has a covariance, so that
    the matrix that an update inverts is definite for every plate and measurement. Its radii are plausible, few of its
    last updates failed, and only a target of four plates has plates that differ. A balance infantry is left out. -/
theorem tracker_reports_sound (cfg : TrackerConfig) (first : Target (TargetEstimate (TargetState ℝ))) (now : ℤ)
    (inputs : List (TrackerInput (SolvedArmor ℝ))) (input : TrackerInput (SolvedArmor ℝ))
    (target : Target (TargetEstimate (TargetState ℝ)))
    (hreport : target ∈ ((Tracker.init cfg first now).run cfg (targetModel realFilterMath inverse sort astray)
      inputs).reports cfg (targetModel realFilterMath inverse sort astray) input)
    (hbalance : ¬ IsBalance target.armorType target.name) :
    let state := target.estimate.ekf
    state.filter.P.PosSemidef ∧
      (∀ (id : ℕ) (armor : SolvedArmor ℝ), (innovation state.filter.P (state.ekfX.hJacobian realFilterMath
        target.estimate.armorNum id) (armor.measurementNoise realFilterMath)).PosDef) ∧
      ((0.05 < state.ekfX 8 ∧ state.ekfX 8 < 0.5) ∧
        0.05 < state.ekfX 8 + state.ekfX 9 ∧ state.ekfX 8 + state.ekfX 9 < 0.5) ∧
      state.filter.recentNisFailures.length ≤ 100 ∧
      ((∃ frame, input = .track frame) → state.filter.recentNisFailures.sum < 40) ∧
      (target.estimate.armorNum ≠ 4 → state.ekfX 9 = 0 ∧ state.ekfX 10 = 0) := by
  intro state
  have hheld : Tracker.Held TargetSound (Tracker.init cfg first now) := .inl rfl
  obtain ⟨hinv, hdiverged, hbad⟩ := ((hheld.run cfg (targetModel_keeps inverse sort astray) inputs).step cfg
    (targetModel_keeps inverse sort astray) input).2 target hreport
  obtain ⟨-, hsound⟩ := hinv hbalance
  obtain ⟨history, hcounts⟩ := hsound.counts
  refine ⟨hsound.covariance, fun id armor => ?_, not_diverged hdiverged, ?_, fun htrack => ?_, fun hfour => ?_⟩
  · exact innovation_posDef hsound.covariance armor.measurementNoise_posDef _
  · rw [hcounts.recent, List.rtake, List.length_drop]
    omega
  · have hfew := not_le.mp (of_decide_eq_false (hbad htrack))
    rw [hcounts.windowSize] at hfew
    have hsum : (state.filter.recentNisFailures.sum : ℝ) < (40 : ℕ) := hfew.trans_eq (by norm_num)
    exact_mod_cast hsum
  · exact ⟨(hsound.alike hfour 9 (.inl rfl)).1, (hsound.alike hfour 10 (.inr rfl)).1⟩

/-- A hero three metres ahead. -/
noncomputable def seenArmor : Armor (SolvedArmor ℝ) :=
  ⟨.blue, .big, .one, .first, ⟨0, (3.0, 0, 0), (0, 0, 0), (0, 0, 3.0)⟩⟩

noncomputable def seenModel : TargetModel (SolvedArmor ℝ) (TargetEstimate (TargetState ℝ)) :=
  targetModel realFilterMath (fun M => M⁻¹) .insertion fun target _ => target.estimate

noncomputable def seenTarget : Target (TargetEstimate (TargetState ℝ)) :=
  .ofArmor seenModel seenArmor 0 (targetSetup seenArmor)

/-- The state of that hero. -/
noncomputable def seenState : StateVector ℝ := ![3.2, 0, 0, 0, 0, 0, 0, 0, 0.2, 0, 0]

theorem seenState_propagate (dt : ℝ) : seenState.propagate dt = seenState := by
  funext i
  fin_cases i <;> simp [StateVector.propagate, seenState, limitRad_cvPi_zero]

theorem seenState_plate (i : ℕ) :
    let a := limitRad (cvPi ℝ) ((i * 2 : ℕ) * (cvPi ℝ).val / (4 : ℕ))
    seenState.hArmorXyz realFilterMath.toTrig 4 i = (3.2 - 0.2 * Real.cos a, -(0.2 * Real.sin a), 0) := by
  simp [StateVector.hArmorXyz, seenState, realFilterMath, Trajectory.realMath]

/-- Only the first of four plates looks straight ahead. -/
theorem plateAngle_ne_zero {i : ℕ} (hi : i < 4) (hother : i ≠ 0) :
    limitRad (cvPi ℝ) ((i * 2 : ℕ) * (cvPi ℝ).val / (4 : ℕ)) ≠ 0 := by
  intro hzero
  obtain ⟨z, hz⟩ := limitRad_turns (cvPi ℝ) ((i * 2 : ℕ) * (cvPi ℝ).val / (4 : ℕ))
  rw [hzero, zero_add, zsmul_eq_mul] at hz
  have hpos := (cvPi ℝ).pos
  have hwhole : (i : ℝ) = (4 * z : ℤ) := by
    push_cast at hz ⊢
    field_simp at hz
    linarith
  have hwhole' : (i : ℤ) = 4 * z := by exact_mod_cast hwhole
  omega

theorem seenState_distance (i : ℕ) :
    let a := limitRad (cvPi ℝ) ((i * 2 : ℕ) * (cvPi ℝ).val / (4 : ℕ))
    (xyz2ypd realFilterMath.toCmath (seenState.hArmorXyz realFilterMath.toTrig 4 i)).2.2 =
      √(10.28 - 1.28 * Real.cos a) := by
  intro a
  rw [seenState_plate]
  have hone := Real.sin_sq_add_cos_sq a
  change √(_ * _ + _ * _ + 0 * 0) = _
  congr 1
  linear_combination 0.04 * hone

theorem frontAngle_zero : limitRad (cvPi ℝ) ((0 * 2 : ℕ) * (cvPi ℝ).val / (4 : ℕ)) = 0 := by
  rw [zero_mul, Nat.cast_zero, zero_mul, zero_div, limitRad_cvPi_zero]

theorem seenState_front : seenState.hArmorXyz realFilterMath.toTrig 4 0 = (3, 0, 0) := by
  rw [seenState_plate, frontAngle_zero, Real.cos_zero, Real.sin_zero]
  norm_num

theorem arg_three : Complex.arg ⟨3, 0⟩ = 0 := Complex.arg_ofReal_of_nonneg (by norm_num)

theorem seenState_nearest {i : ℕ} (hi : i < 4) (hother : i ≠ 0) :
    (xyz2ypd realFilterMath.toCmath (seenState.hArmorXyz realFilterMath.toTrig 4 0)).2.2 <
      (xyz2ypd realFilterMath.toCmath (seenState.hArmorXyz realFilterMath.toTrig 4 i)).2.2 := by
  rw [seenState_distance, seenState_distance]
  have hne := plateAngle_ne_zero hi hother
  obtain ⟨hlow, hhigh⟩ := limitRad_mem (cvPi ℝ) ((i * 2 : ℕ) * (cvPi ℝ).val / (4 : ℕ))
  generalize limitRad (cvPi ℝ) ((i * 2 : ℕ) * (cvPi ℝ).val / (4 : ℕ)) = a at hne hlow hhigh ⊢
  have hpi := Real.two_le_pi
  have hbound : (cvPi ℝ).val < 4 := by
    rw [cvPi]
    norm_num
  have hless : Real.cos a < 1 := (Real.cos_le_one a).lt_of_ne fun hone =>
    hne ((Real.cos_eq_one_iff_of_lt_of_lt (by linarith) (by linarith)).mp hone)
  rw [frontAngle_zero, Real.cos_zero]
  exact Real.sqrt_lt_sqrt (by norm_num) (by linarith)

theorem seenTarget_x : seenTarget.estimate.ekf.ekfX = seenState := by
  change (![(3.0 : ℝ) + ((0.2 : ℚ) : ℝ) * Real.cos 0, 0, 0 + ((0.2 : ℚ) : ℝ) * Real.sin 0, 0, 0, 0, 0, 0,
    ((0.2 : ℚ) : ℝ), 0, 0] : StateVector ℝ) = _
  rw [Real.cos_zero, Real.sin_zero, seenState]
  norm_num

theorem seenTarget_predicted (t : ℤ) : (seenModel.predict seenTarget t).ekf.ekfX = seenState := by
  have hname : decide (seenTarget.name = .outpost) = false := rfl
  change StateVector.propagateBy _ (seenTarget.estimate.ekf.ekfX.clampSpin
    (convergened seenTarget.name seenTarget.estimate && decide (seenTarget.name = .outpost))) = _
  rw [hname, Bool.and_false, StateVector.clampSpin, if_neg (by simp), StateVector.propagateBy_eq, seenTarget_x,
    seenState_propagate]

theorem seenTarget_matched (sort : ComparisonSort) (t : ℤ) :
    (targetFilter realFilterMath (fun M => M⁻¹)).matchId? sort (seenModel.predict seenTarget t) seenArmor = some 0 := by
  set f := targetFilter realFilterMath (fun M => M⁻¹) with hf
  have hx : f.ekfX (seenModel.predict seenTarget t).ekf = fun i => some (seenState i) := by
    rw [← seenTarget_predicted t]
    rfl
  have hxyz := f.hArmorXyz_of_numbers hx
  have hdistance (i : ℕ) : f.distance (f.hArmorXyz (seenModel.predict seenTarget t) i) =
      some (xyz2ypd realFilterMath.toCmath (seenState.hArmorXyz realFilterMath.toTrig 4 i)).2.2 := by
    rw [hxyz i]
    rfl
  have hplates : (seenModel.predict seenTarget t).armorNum = 4 := rfl
  refine f.matchId?_of_nearest sort (by rw [hplates]; omega) (targetFilter_readable _ _ _ _) (by rw [hplates]; omega)
    ?_ ?_
  · intro i hi hother
    change nanLt (f.distance (f.hArmorXyz _ 0)) (f.distance (f.hArmorXyz _ i)) = true
    rw [hdistance, hdistance]
    exact decide_eq_true (seenState_nearest hi hother)
  · have hangle : f.plateAngle (seenModel.predict seenTarget t) 0 = some 0 := by
      rw [TargetFilter.plateAngle, hx, hplates]
      change some (limitRad (cvPi ℝ) (0 + _)) = _
      rw [zero_add, frontAngle_zero]
    have hazimuth : f.azimuth (f.hArmorXyz (seenModel.predict seenTarget t) 0) = some 0 := by
      rw [hxyz 0, hplates]
      change some (Complex.arg ⟨(seenState.hArmorXyz realFilterMath.toTrig 4 0).1,
        (seenState.hArmorXyz realFilterMath.toTrig 4 0).2.1⟩) = _
      rw [seenState_front, arg_three]
    change Option.map₂ _ (Option.map₂ _ (some 0) (f.plateAngle _ 0))
      (Option.map₂ _ (some 0) (f.azimuth (f.hArmorXyz _ 0))) = some 0
    rw [hangle, hazimuth]
    change some (|limitRad (cvPi ℝ) (0 - 0)| + |limitRad (cvPi ℝ) (0 - 0)|) = _
    rw [sub_zero, limitRad_cvPi_zero, abs_zero, add_zero]

theorem seenState_measured :
    zSubtract seenArmor.view.measured (StateVector.measure realFilterMath.toCmath 4 0 seenState) = 0 := by
  have hmeasure : StateVector.measure realFilterMath.toCmath 4 0 seenState = ![0, 0, 3, 0] := by
    have hroot : √((3 : ℝ) * 3 + 0 * 0) = 3 := by
      rw [mul_zero, add_zero, Real.sqrt_mul_self (by norm_num)]
    have hroot' : √((3 : ℝ) * 3 + 0 * 0 + 0 * 0) = 3 := by
      rw [mul_zero, add_zero, add_zero, Real.sqrt_mul_self (by norm_num)]
    have hypd : xyz2ypd realFilterMath.toCmath (3, 0, 0) = (0, 0, 3) := by
      change (Complex.arg ⟨3, 0⟩, Complex.arg ⟨√((3 : ℝ) * 3 + 0 * 0), 0⟩, √((3 : ℝ) * 3 + 0 * 0 + 0 * 0)) = _
      rw [hroot, hroot', arg_three]
    have hangle : limitRad (cvPi ℝ) (seenState 6 + (0 * 2 : ℕ) * (cvPi ℝ).val / (4 : ℕ)) = 0 := by
      change limitRad (cvPi ℝ) (0 + _) = _
      rw [zero_add, frontAngle_zero]
    unfold StateVector.measure
    rw [seenState_front, hypd, hangle]
  rw [hmeasure]
  funext i
  fin_cases i <;> norm_num [zSubtract, SolvedArmor.measured, seenArmor, limitRad_cvPi_zero]

theorem seenTarget_update (t : ℤ) :
    let updated := seenModel.update { seenTarget with estimate := seenModel.predict seenTarget t } seenArmor
    updated.ekf.ekfX = seenState ∧ updated.ekf.filter.recentNisFailures.sum ≤ 1 ∧ updated.ekf.filter.windowSize = 100 ∧
      updated.ekf.filter.totalCount = 1 ∧ updated.updateCount = 1 ∧ updated.t = t := by
  have hupdate : seenModel.update { seenTarget with estimate := seenModel.predict seenTarget t } seenArmor =
      { seenModel.predict seenTarget t with
        updateCount := 1
        ekf := updateYpda realFilterMath (fun M => M⁻¹) (seenModel.predict seenTarget t).ekf 4 seenArmor 0 } := by
    change ((((targetFilter realFilterMath fun M => M⁻¹).matchId? _ (seenModel.predict seenTarget t) seenArmor).map
      _).getD _) = _
    rw [seenTarget_matched]
    rfl
  intro updated
  rw [show updated = _ from hupdate]
  have hx : (seenModel.predict seenTarget t).ekf.filter.x = seenState := seenTarget_predicted t
  refine ⟨?_, ?_, rfl, rfl, rfl, rfl⟩
  · change StateVector.xAdd (seenModel.predict seenTarget t).ekf.filter.x (_ *ᵥ zSubtract seenArmor.view.measured
      (StateVector.measure realFilterMath.toCmath 4 0 (seenModel.predict seenTarget t).ekf.filter.x)) = _
    rw [hx, seenState_measured, mulVec_zero, StateVector.xAdd, add_zero]
    change Function.update seenState 6 (limitRad (cvPi ℝ) 0) = _
    rw [limitRad_cvPi_zero]
    exact Function.update_eq_self 6 seenState
  · change ([0, if _ > _ then 1 else 0] : List ℕ).sum ≤ 1
    split_ifs <;> decide

/-- The calls of two frames, ten milliseconds apart. -/
noncomputable def firstFrame : Frame (SolvedArmor ℝ) := ⟨[seenArmor], 0, true, Armor.view⟩

noncomputable def secondFrame : Frame (SolvedArmor ℝ) := ⟨[seenArmor], 10000000, true, Armor.view⟩

theorem not_diverged_seen {target : Target (TargetEstimate (TargetState ℝ))}
    (hx : target.estimate.ekf.ekfX = seenState) : seenModel.diverged target = false := by
  refine decide_eq_false (not_not.mpr ?_)
  rw [hx]
  change ((0.2 : ℝ) > 0.05 ∧ (0.2 : ℝ) < 0.5) ∧ (0.2 : ℝ) + 0 > 0.05 ∧ (0.2 : ℝ) + 0 < 0.5
  norm_num

theorem seenTarget_entered :
    (Tracker.init ⟨.blue, 5, 15, 75⟩ seenTarget 0).track ⟨.blue, 5, 15, 75⟩ seenModel firstFrame =
      ((Tracker.init ⟨.blue, 5, 15, 75⟩ seenTarget 0).stateMachine ⟨.blue, 5, 15, 75⟩ true, [seenArmor],
        [seenTarget]) := by
  have hchoose : ((Tracker.init ⟨.blue, 5, 15, 75⟩ seenTarget 0).largeDt firstFrame.t).chooseTarget seenModel
      firstFrame = (Tracker.init ⟨.blue, 5, 15, 75⟩ seenTarget 0, [seenArmor], true) := rfl
  have hlost : ((Tracker.init ⟨.blue, 5, 15, 75⟩ seenTarget 0).stateMachine ⟨.blue, 5, 15, 75⟩ true).state ≠ .lost :=
    nofun
  have hbad : seenModel.badConverge seenTarget = false := targetModel_fresh _ _ _ _ _ _ _
  exact Tracker.track_of_chosen _ _ hchoose rfl (not_diverged_seen seenTarget_x) hbad hlost

theorem seenTarget_tracked : ((Tracker.init ⟨.blue, 5, 15, 75⟩ seenTarget 0).track ⟨.blue, 5, 15, 75⟩ seenModel
    ⟨[seenArmor], 0, true, Armor.view⟩).2.2 = [seenTarget] :=
  congrArg (fun r => r.2.2) seenTarget_entered

/-- The hero, predicted and updated with the second frame. -/
noncomputable def followedTarget : Target (TargetEstimate (TargetState ℝ)) :=
  { seenTarget with estimate :=
    seenModel.update { seenTarget with estimate := seenModel.predict seenTarget 10000000 } seenArmor }

theorem followedTarget_badConverge : seenModel.badConverge followedTarget = false := by
  obtain ⟨-, hfew, hwindow, -⟩ := seenTarget_update 10000000
  have hfew' : ((followedTarget.estimate.ekf.filter.recentNisFailures.sum : ℕ) : ℝ) ≤ 1 := by exact_mod_cast hfew
  refine decide_eq_false (not_le.mpr ?_)
  change ((followedTarget.estimate.ekf.filter.recentNisFailures.sum : ℕ) : ℝ) <
    0.4 * (followedTarget.estimate.ekf.filter.windowSize : ℝ)
  have hwindow' : followedTarget.estimate.ekf.filter.windowSize = 100 := hwindow
  rw [hwindow']
  exact hfew'.trans_lt (by norm_num)

theorem seenTarget_followed :
    (((Tracker.init ⟨.blue, 5, 15, 75⟩ seenTarget 0).stateMachine ⟨.blue, 5, 15, 75⟩ true).track ⟨.blue, 5, 15, 75⟩
      seenModel secondFrame).2.2 = [followedTarget] := by
  have hchoose : (((Tracker.init ⟨.blue, 5, 15, 75⟩ seenTarget 0).stateMachine ⟨.blue, 5, 15, 75⟩ true).largeDt
      secondFrame.t).chooseTarget seenModel secondFrame =
        ({ (Tracker.init ⟨.blue, 5, 15, 75⟩ seenTarget 0).stateMachine ⟨.blue, 5, 15, 75⟩ true with
            lastTimestamp := 10000000, target := followedTarget }, [seenArmor], true) := rfl
  have hlost : (Tracker.stateMachine ⟨.blue, 5, 15, 75⟩
      { (Tracker.init ⟨.blue, 5, 15, 75⟩ seenTarget 0).stateMachine ⟨.blue, 5, 15, 75⟩ true with
        lastTimestamp := 10000000, target := followedTarget } true).state ≠ .lost := nofun
  have htrack := Tracker.track_of_chosen _ _ hchoose rfl (not_diverged_seen (seenTarget_update 10000000).1)
    followedTarget_badConverge hlost
  rw [htrack]

theorem tracker_reports_sound_first :
    let tr := (Tracker.init ⟨.blue, 5, 15, 75⟩ seenTarget 0).run ⟨.blue, 5, 15, 75⟩ seenModel [.track firstFrame]
    followedTarget ∈ tr.reports ⟨.blue, 5, 15, 75⟩ seenModel (.track secondFrame) ∧
      followedTarget.estimate.t = 10000000 ∧ followedTarget.estimate.updateCount = 1 ∧
      followedTarget.estimate.ekf.filter.totalCount = 1 ∧ followedTarget.estimate.ekf.filter.P.PosSemidef ∧
      followedTarget.estimate.ekf.filter.recentNisFailures.sum < 40 := by
  intro tr
  have hreported : followedTarget ∈ tr.reports ⟨.blue, 5, 15, 75⟩ seenModel (.track secondFrame) := by
    have htr : tr = (Tracker.init ⟨.blue, 5, 15, 75⟩ seenTarget 0).stateMachine ⟨.blue, 5, 15, 75⟩ true :=
      congrArg Prod.fst seenTarget_entered
    change _ ∈ (tr.track ⟨.blue, 5, 15, 75⟩ seenModel secondFrame).2.2
    rw [htr, seenTarget_followed]
    exact List.mem_singleton_self _
  have hsound := tracker_reports_sound (fun M => M⁻¹) .insertion (fun target _ => target.estimate) ⟨.blue, 5, 15, 75⟩
    seenTarget 0 [.track firstFrame] (.track secondFrame) followedTarget hreported
    fun h => by rcases h.2 with h | h | h <;> cases h
  obtain ⟨-, -, -, htotal, hcount, htime⟩ := seenTarget_update 10000000
  exact ⟨hreported, htime, hcount, htotal, hsound.1, hsound.2.2.2.2.1 ⟨_, rfl⟩⟩

end TargetState

end SpVision
