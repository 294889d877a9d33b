import SpVision.Tracker.Estimate

set_option autoImplicit false

/-!
# The Jacobian of a measurement

Where the angle of a plate is not at the end of its turn and the plate is off the cut of its yaw, the
matrix that linearises a measurement is its derivative.
-/
namespace SpVision

open Spherical

/-- An angle that is not at the end of its turn is brought back by a constant. -/
theorem limitRad_hasFDerivAt {n : ℕ} (half : HalfTurn ℝ) {g : (Fin n → ℝ) → ℝ} {g' : (Fin n → ℝ) →L[ℝ] ℝ}
    {v : Fin n → ℝ} (hg : HasFDerivAt g g' v) (hinside : limitRad half (g v) ≠ half.val) :
    HasFDerivAt (fun w => limitRad half (g w)) g' v := by
  obtain ⟨z, hz⟩ := limitRad_turns half (g v)
  obtain ⟨hlow, hhigh⟩ := limitRad_mem half (g v)
  have hvalue : g v - z • (2 * half.val) = limitRad half (g v) := sub_eq_of_eq_add hz
  have hnear : ∀ᶠ w in nhds v, limitRad half (g w) = g w - z • (2 * half.val) := by
    have hcontinuous := (hg.sub_const (z • (2 * half.val))).continuousAt
    have hopen : Set.Ioo (-half.val) half.val ∈ nhds (g v - z • (2 * half.val)) := by
      rw [hvalue]
      exact Ioo_mem_nhds hlow (lt_of_le_of_ne hhigh hinside)
    filter_upwards [hcontinuous hopen] with w hw
    exact limitRad_eq half ⟨hw.1, hw.2.le⟩ ⟨z, (sub_add_cancel _ _).symm⟩
  exact (hg.sub_const _).congr_of_eventuallyEq hnear

namespace StateVector

/-- The place of a plate and its angle. -/
noncomputable def plateXyza (armorNum id : ℕ) (x : StateVector ℝ) : Fin 4 → ℝ :=
  let xyz := x.hArmorXyz realFilterMath.toTrig armorNum id
  ![xyz.1, xyz.2.1, xyz.2.2, limitRad (cvPi ℝ) (x 6 + (id * 2 : ℕ) * (cvPi ℝ).val / armorNum)]

/-- Places to directions, and the angle as it is. -/
noncomputable def ypda (v : Fin 4 → ℝ) : Fin 4 → ℝ :=
  let ypd := xyz2ypd realFilterMath.toCmath (v 0, v 1, v 2)
  ![ypd.1, ypd.2.1, ypd.2.2, v 3]

variable {armorNum id : ℕ} {x : StateVector ℝ}

theorem angle_hasFDerivAt
    (hangle : limitRad (cvPi ℝ) (x 6 + (id * 2 : ℕ) * (cvPi ℝ).val / armorNum) ≠ (cvPi ℝ).val) :
    HasFDerivAt (fun w : StateVector ℝ => limitRad (cvPi ℝ) (w 6 + (id * 2 : ℕ) * (cvPi ℝ).val / armorNum))
      (coord 6) x :=
  limitRad_hasFDerivAt _ ((hasFDerivAt_coord x 6).add_const _) hangle

/-- The Jacobian of the places, with or without `l` and `h`. -/
theorem place_hasJacobian (useLH : Bool) {θ : StateVector ℝ → ℝ} (hturn : HasFDerivAt θ (coord 6) x) :
    HasJacobian (fun w : StateVector ℝ => ![w 0 - (if useLH then w 8 + w 9 else w 8) * Real.cos (θ w),
        w 2 - (if useLH then w 8 + w 9 else w 8) * Real.sin (θ w), if useLH then w 4 + w 10 else w 4, θ w])
      !![1, 0, 0, 0, 0, 0, (if useLH then x 8 + x 9 else x 8) * Real.sin (θ x), 0, -Real.cos (θ x),
          if useLH then -Real.cos (θ x) else 0, 0;
        0, 0, 1, 0, 0, 0, -(if useLH then x 8 + x 9 else x 8) * Real.cos (θ x), 0, -Real.sin (θ x),
          if useLH then -Real.sin (θ x) else 0, 0;
        0, 0, 0, 0, 1, 0, 0, 0, 0, 0, if useLH then 1 else 0;
        0, 0, 0, 0, 0, 0, 1, 0, 0, 0, 0] x := by
  have hradius : HasFDerivAt (fun w : StateVector ℝ => if useLH then w 8 + w 9 else w 8)
      (if useLH then coord 8 + coord 9 else coord 8) x := by
    cases useLH
    · exact hasFDerivAt_coord x 8
    · exact (hasFDerivAt_coord x 8).add (hasFDerivAt_coord x 9)
  have hheight : HasFDerivAt (fun w : StateVector ℝ => if useLH then w 4 + w 10 else w 4)
      (if useLH then coord 4 + coord 10 else coord 4) x := by
    cases useLH
    · exact hasFDerivAt_coord x 4
    · exact (hasFDerivAt_coord x 4).add (hasFDerivAt_coord x 10)
  rw [hasJacobian_iff]
  intro i
  fin_cases i
  · refine ((hasFDerivAt_coord x 0).sub (hradius.mul hturn.cos)).congr_fderiv (ContinuousLinearMap.ext fun w => ?_)
    cases useLH <;> simp [Fin.sum_univ_succ] <;> ring
  · refine ((hasFDerivAt_coord x 2).sub (hradius.mul hturn.sin)).congr_fderiv (ContinuousLinearMap.ext fun w => ?_)
    cases useLH <;> simp [Fin.sum_univ_succ] <;> ring
  · refine hheight.congr_fderiv (ContinuousLinearMap.ext fun w => ?_)
    cases useLH <;> simp [Fin.sum_univ_succ]
  · refine hturn.congr_fderiv (ContinuousLinearMap.ext fun w => ?_)
    simp [Fin.sum_univ_succ]

/-- The Jacobian of the directions, with the angle as it is. -/
theorem ypda_hasJacobian {v : Fin 4 → ℝ} (hslit : (⟨v 0, v 1⟩ : ℂ) ∈ Complex.slitPlane) :
    let J := xyz2ypdJacobian realFilterMath (v 0, v 1, v 2)
    HasJacobian ypda !![J 0 0, J 0 1, J 0 2, 0; J 1 0, J 1 1, J 1 2, 0; J 2 0, J 2 1, J 2 2, 0; 0, 0, 0, 1] v := by
  intro J
  have hplace : HasJacobian (fun w : Fin 4 → ℝ => ![w 0, w 1, w 2]) !![1, 0, 0, 0; 0, 1, 0, 0; 0, 0, 1, 0] v := by
    rw [hasJacobian_iff]
    intro i
    fin_cases i
    · exact (hasFDerivAt_coord v 0).congr_fderiv (ContinuousLinearMap.ext fun w => by simp [Fin.sum_univ_four])
    · exact (hasFDerivAt_coord v 1).congr_fderiv (ContinuousLinearMap.ext fun w => by simp [Fin.sum_univ_four])
    · exact (hasFDerivAt_coord v 2).congr_fderiv (ContinuousLinearMap.ext fun w => by simp [Fin.sum_univ_four])
  have hdirection := hasJacobian_iff.mp (HasJacobian.comp (f := fun w : Fin 4 → ℝ => ![w 0, w 1, w 2])
    (xyz2ypd_hasJacobian (v := ![v 0, v 1, v 2]) hslit) hplace)
  rw [hasJacobian_iff]
  intro i
  fin_cases i
  · refine (hdirection 0).congr_fderiv (ContinuousLinearMap.ext fun w => ?_)
    simp [Fin.sum_univ_four, Matrix.mul_apply, Fin.sum_univ_three, ofVec, J]
  · refine (hdirection 1).congr_fderiv (ContinuousLinearMap.ext fun w => ?_)
    simp [Fin.sum_univ_four, Matrix.mul_apply, Fin.sum_univ_three, ofVec, J]
  · refine (hdirection 2).congr_fderiv (ContinuousLinearMap.ext fun w => ?_)
    simp [Fin.sum_univ_four, Matrix.mul_apply, Fin.sum_univ_three, ofVec, J]
  · refine (hasFDerivAt_coord v 3).congr_fderiv (ContinuousLinearMap.ext fun w => ?_)
    simp [Fin.sum_univ_four]

/-- Off the ends of its turn and the cut of its yaw, a plate's measurement has the Jacobian of the update as its
    derivative. -/
theorem measure_hasJacobian (armorNum id : ℕ) (x : StateVector ℝ)
    (hangle : limitRad (cvPi ℝ) (x 6 + (id * 2 : ℕ) * (cvPi ℝ).val / armorNum) ≠ (cvPi ℝ).val)
    (hslit : (⟨(x.hArmorXyz realFilterMath.toTrig armorNum id).1,
      (x.hArmorXyz realFilterMath.toTrig armorNum id).2.1⟩ : ℂ) ∈ Complex.slitPlane) :
    HasJacobian (measure realFilterMath.toCmath armorNum id) (x.hJacobian realFilterMath armorNum id) x :=
  HasJacobian.comp (f := plateXyza armorNum id) (ypda_hasJacobian (v := plateXyza armorNum id x) hslit)
    (place_hasJacobian _ (angle_hasFDerivAt hangle))

/-- A plate that faces the gun, five metres away. -/
noncomputable def facingState : StateVector ℝ := ![5.0, 0, 0, 0, 0, 0, 0, 0, 0.2, 0, 0]

theorem facingState_angle :
    limitRad (cvPi ℝ) (facingState 6 + (0 * 2 : ℕ) * (cvPi ℝ).val / (4 : ℕ)) = 0 := by
  have hzero : facingState 6 + (0 * 2 : ℕ) * (cvPi ℝ).val / (4 : ℕ) = 0 := by
    change (0 : ℝ) + (0 * 2 : ℕ) * (cvPi ℝ).val / (4 : ℕ) = 0
    norm_num
  rw [hzero]
  exact limitRad_of_mem _ ⟨neg_lt_zero.mpr (cvPi ℝ).pos, (cvPi ℝ).pos.le⟩

theorem measure_hasJacobian_facing :
    HasJacobian (measure realFilterMath.toCmath 4 0) (facingState.hJacobian realFilterMath 4 0) facingState := by
  refine measure_hasJacobian 4 0 facingState ?_ (.inl ?_)
  · rw [facingState_angle]
    exact (cvPi ℝ).pos.ne
  · change 0 < (5.0 : ℝ) - 0.2 * Real.cos (limitRad (cvPi ℝ) (facingState 6 + (0 * 2 : ℕ) * (cvPi ℝ).val / (4 : ℕ)))
    rw [facingState_angle, Real.cos_zero]
    norm_num

end StateVector

end SpVision
