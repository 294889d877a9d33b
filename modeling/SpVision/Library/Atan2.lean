import Mathlib.Analysis.CStarAlgebra.Classes
import Mathlib.Analysis.SpecialFunctions.Complex.LogDeriv

set_option autoImplicit false

/-!
# The angle of a point in the plane

Off the negative half axis the angle has the derivative that the usual formula says.
-/
namespace SpVision.Atan2

open Complex

variable {E : Type} [NormedAddCommGroup E] [NormedSpace ℝ E] {f g : E → ℝ} {f' g' : E →L[ℝ] ℝ} {v : E}

theorem hasFDerivAt_mk (hf : HasFDerivAt f f' v) (hg : HasFDerivAt g g' v) :
    HasFDerivAt (fun w => (⟨g w, f w⟩ : ℂ)) (ofRealCLM.comp g' + I • ofRealCLM.comp f') v := by
  have hreal := (ofRealCLM.hasFDerivAt (x := g v)).comp v hg
  have himag := ((ofRealCLM.hasFDerivAt (x := f v)).comp v hf).const_smul I
  refine (hreal.add himag).congr_of_eventuallyEq (Filter.Eventually.of_forall fun w => ?_)
  change (⟨g w, f w⟩ : ℂ) = g w + I * f w
  rw [mk_eq_add_mul_I, mul_comm I]

/-- `atan2(f, g)` -/
theorem hasFDerivAt_arg (hf : HasFDerivAt f f' v) (hg : HasFDerivAt g g' v) (hslit : (⟨g v, f v⟩ : ℂ) ∈ slitPlane) :
    HasFDerivAt (fun w => arg ⟨g w, f w⟩) ((g v * g v + f v * f v)⁻¹ • (g v • f' - f v • g')) v := by
  have hlog := (hasStrictFDerivAt_log_real hslit).hasFDerivAt.comp v (hasFDerivAt_mk hf hg)
  have him := imCLM.hasFDerivAt.comp v hlog
  refine (him.congr_of_eventuallyEq (Filter.Eventually.of_forall fun w => (log_im _).symm)).congr_fderiv ?_
  ext w
  have hnorm : normSq (⟨g v, f v⟩ : ℂ) = g v * g v + f v * f v := normSq_mk _ _
  simp [Complex.inv_im, Complex.inv_re, hnorm]
  ring

end SpVision.Atan2
