import Mathlib.Algebra.Order.Star.Real
import Mathlib.Data.List.DropRight
import SpVision.Library.Kalman

set_option autoImplicit false

/-!
# The extended Kalman filter

The inverse of a matrix is a parameter, and a measurement has the four entries that the statistics
name. Each update is tested against a threshold, and the tests of the last updates are kept.
-/
namespace SpVision

open Matrix

instance neZeroFour : NeZero (4 : ℕ) := ⟨by decide⟩

/-- The entries of `data`. -/
structure FilterData (K : Type) where
  residualYaw : K
  residualPitch : K
  residualDistance : K
  residualAngle : K
  nis : K
  nees : K
  nisFail : K
  neesFail : K
  recentNisFailures : K

/-- `tools::ExtendedKalmanFilter`; `lastNis` is none until it is assigned. -/
structure ExtendedKalmanFilter (n : ℕ) (K : Type) where
  x : Fin n → K
  P : Matrix (Fin n) (Fin n) K
  xAdd : (Fin n → K) → (Fin n → K) → Fin n → K
  data : FilterData K
  recentNisFailures : List ℕ := [0]
  windowSize : ℕ := 100
  lastNis : Option K := none
  neesCount : ℕ := 0
  nisCount : ℕ := 0
  totalCount : ℕ := 0

/-- What a filter is told. -/
inductive FilterInput (n : ℕ) (K : Type)
  | predict (F Q : Matrix (Fin n) (Fin n) K) (f : (Fin n → K) → Fin n → K)
  | update (z : Fin 4 → K) (H : Matrix (Fin 4) (Fin n) K) (R : Matrix (Fin 4) (Fin 4) K)
    (h : (Fin n → K) → Fin 4 → K) (zSubtract : (Fin 4 → K) → (Fin 4 → K) → Fin 4 → K)

namespace ExtendedKalmanFilter

variable {n : ℕ} {K : Type} [Field K] [LinearOrder K]

/-- The constructor of `ExtendedKalmanFilter`. -/
def init (x0 : Fin n → K) (P0 : Matrix (Fin n) (Fin n) K) (xAdd : (Fin n → K) → (Fin n → K) → Fin n → K) :
    ExtendedKalmanFilter n K :=
  { x := x0, P := P0, xAdd, data := ⟨0, 0, 0, 0, 0, 0, 0, 0, 0⟩ }

/-- `ExtendedKalmanFilter::predict` -/
def predict (ekf : ExtendedKalmanFilter n K) (F Q : Matrix (Fin n) (Fin n) K) (f : (Fin n → K) → Fin n → K) :
    ExtendedKalmanFilter n K :=
  { ekf with P := F * ekf.P * Fᵀ + Q, x := f ekf.x }

variable (inverse : {m : ℕ} → Matrix (Fin m) (Fin m) K → Matrix (Fin m) (Fin m) K)

/-- `K` of an update. -/
def gain (ekf : ExtendedKalmanFilter n K) (H : Matrix (Fin 4) (Fin n) K) (R : Matrix (Fin 4) (Fin 4) K) :
    Matrix (Fin n) (Fin 4) K :=
  ekf.P * Hᵀ * inverse (H * ekf.P * Hᵀ + R)

/-- The first half of an update: the covariance and the mean. -/
def correct (ekf : ExtendedKalmanFilter n K) (z : Fin 4 → K) (H : Matrix (Fin 4) (Fin n) K)
    (R : Matrix (Fin 4) (Fin 4) K) (h : (Fin n → K) → Fin 4 → K)
    (zSubtract : (Fin 4 → K) → (Fin 4 → K) → Fin 4 → K) : ExtendedKalmanFilter n K :=
  let gain := ekf.gain inverse H R
  { ekf with
    P := (1 - gain * H) * ekf.P * (1 - gain * H)ᵀ + gain * R * gainᵀ
    x := ekf.xAdd ekf.x (gain *ᵥ zSubtract z (h ekf.x)) }

/-- `nis_threshold` and `nees_threshold` -/
def threshold (K : Type) [Field K] : K := 0.711

/-- `recent_nis_failures` after one more test. -/
def recent (ekf : ExtendedKalmanFilter n K) (nis : K) : List ℕ :=
  let pushed := ekf.recentNisFailures ++ [if nis > threshold K then 1 else 0]
  if pushed.length > ekf.windowSize then pushed.tail else pushed

/-- The second half of an update: the test of the mean that is left, which keeps the statistics. -/
def test (ekf : ExtendedKalmanFilter n K) (xPrior : Fin n → K) (z : Fin 4 → K) (H : Matrix (Fin 4) (Fin n) K)
    (R : Matrix (Fin 4) (Fin 4) K) (h : (Fin n → K) → Fin 4 → K)
    (zSubtract : (Fin 4 → K) → (Fin 4 → K) → Fin 4 → K) : ExtendedKalmanFilter n K :=
  let residual := zSubtract z (h ekf.x)
  let S := H * ekf.P * Hᵀ + R
  let nis := residual ⬝ᵥ inverse S *ᵥ residual
  let nees := (ekf.x - xPrior) ⬝ᵥ inverse ekf.P *ᵥ (ekf.x - xPrior)
  { ekf with
    nisCount := if nis > threshold K then ekf.nisCount + 1 else ekf.nisCount
    neesCount := if nees > threshold K then ekf.neesCount + 1 else ekf.neesCount
    totalCount := ekf.totalCount + 1
    lastNis := some nis
    recentNisFailures := ekf.recent nis
    data :=
      { residualYaw := residual 0
        residualPitch := residual 1
        residualDistance := residual 2
        residualAngle := residual 3
        nis
        nees
        nisFail := if nis > threshold K then 1 else ekf.data.nisFail
        neesFail := if nees > threshold K then 1 else ekf.data.neesFail
        recentNisFailures := ((ekf.recent nis).sum : K) / (ekf.recent nis).length } }

/-- `ExtendedKalmanFilter::update` -/
def update (ekf : ExtendedKalmanFilter n K) (z : Fin 4 → K) (H : Matrix (Fin 4) (Fin n) K)
    (R : Matrix (Fin 4) (Fin 4) K) (h : (Fin n → K) → Fin 4 → K)
    (zSubtract : (Fin 4 → K) → (Fin 4 → K) → Fin 4 → K) : ExtendedKalmanFilter n K :=
  (ekf.correct inverse z H R h zSubtract).test inverse ekf.x z H R h zSubtract

def step (ekf : ExtendedKalmanFilter n K) : FilterInput n K → ExtendedKalmanFilter n K
  | .predict F Q f => ekf.predict F Q f
  | .update z H R h zSubtract => ekf.update inverse z H R h zSubtract

def run (ekf : ExtendedKalmanFilter n K) (inputs : List (FilterInput n K)) : ExtendedKalmanFilter n K :=
  inputs.foldl (step inverse) ekf

/-- The outcomes of the tests of a run, in order. -/
def tests (ekf : ExtendedKalmanFilter n K) : List (FilterInput n K) → List ℕ
  | [] => []
  | .predict F Q f :: rest => tests (ekf.predict F Q f) rest
  | .update z H R h zSubtract :: rest =>
    (if (ekf.update inverse z H R h zSubtract).data.nis > threshold K then 1 else 0) ::
      tests (ekf.update inverse z H R h zSubtract) rest

/-! ### Runs -/

/-- A list that grows at its end, cut to its last entries each time, holds the last entries of all. -/
theorem rtake_push {α : Type} (history : List α) (a : α) {w : ℕ} (hw : 0 < w) :
    (if (history.rtake w ++ [a]).length > w then (history.rtake w ++ [a]).tail else history.rtake w ++ [a]) =
      (history ++ [a]).rtake w := by
  obtain ⟨w, rfl⟩ := Nat.exists_eq_succ_of_ne_zero hw.ne'
  rw [List.rtake_concat_succ, List.rtake, List.rtake]
  split_ifs with hlong
  · rw [List.length_append, List.length_drop, List.length_singleton] at hlong
    have hdrop : history.length - w = history.length - w.succ + 1 := by omega
    have hne : history.drop (history.length - w.succ) ≠ [] := by
      intro hnil
      have hlength := List.length_drop.symm.trans (congrArg List.length hnil)
      rw [List.length_nil] at hlength
      omega
    rw [List.tail_append_of_ne_nil hne, List.tail_drop, hdrop]
  · rw [List.length_append, List.length_drop, List.length_singleton] at hlong
    have hzero : history.length - w.succ = 0 := by omega
    have hzero' : history.length - w = 0 := by omega
    rw [hzero, hzero']

/-- What a run keeps of the tests so far. -/
structure Counts (ekf : ExtendedKalmanFilter n K) (history : List ℕ) : Prop where
  windowSize : ekf.windowSize = 100
  recent : ekf.recentNisFailures = (0 :: history).rtake 100
  nisCount : ekf.nisCount = history.sum
  totalCount : ekf.totalCount = history.length
  nisFail : ekf.data.nisFail = if 1 ∈ history then 1 else 0

omit [LinearOrder K] in
theorem init_counts (x0 : Fin n → K) (P0 : Matrix (Fin n) (Fin n) K)
    (xAdd : (Fin n → K) → (Fin n → K) → Fin n → K) : (init x0 P0 xAdd).Counts [] :=
  ⟨rfl, rfl, rfl, rfl, rfl⟩

variable {ekf : ExtendedKalmanFilter n K} {history : List ℕ}

theorem Counts.update (hcounts : ekf.Counts history) (z : Fin 4 → K) (H : Matrix (Fin 4) (Fin n) K)
    (R : Matrix (Fin 4) (Fin 4) K) (h : (Fin n → K) → Fin 4 → K)
    (zSubtract : (Fin 4 → K) → (Fin 4 → K) → Fin 4 → K) :
    (ekf.update inverse z H R h zSubtract).Counts
      (history ++ [if (ekf.update inverse z H R h zSubtract).data.nis > threshold K then 1 else 0]) := by
  have hrecent : (ekf.update inverse z H R h zSubtract).recentNisFailures =
      ekf.recent (ekf.update inverse z H R h zSubtract).data.nis := rfl
  generalize hnext : ekf.update inverse z H R h zSubtract = next at hrecent ⊢
  constructor
  · rw [← hnext]
    exact hcounts.windowSize
  · rw [hrecent, ExtendedKalmanFilter.recent, hcounts.windowSize, hcounts.recent, ← List.cons_append]
    exact rtake_push _ _ (by decide)
  · have hcount : next.nisCount = if next.data.nis > threshold K then ekf.nisCount + 1 else ekf.nisCount := by
      rw [← hnext]
      rfl
    rw [hcount, List.sum_append, List.sum_singleton, hcounts.nisCount]
    split_ifs <;> rfl
  · have hcount : next.totalCount = ekf.totalCount + 1 := by
      rw [← hnext]
      rfl
    rw [hcount, List.length_append, List.length_singleton, hcounts.totalCount]
  · have hfail : next.data.nisFail = if next.data.nis > threshold K then 1 else ekf.data.nisFail := by
      rw [← hnext]
      rfl
    rw [hfail, hcounts.nisFail]
    split_ifs with hnow hbefore <;> simp_all

theorem Counts.run (hcounts : ekf.Counts history) (inputs : List (FilterInput n K)) :
    (ekf.run inverse inputs).Counts (history ++ ekf.tests inverse inputs) := by
  induction inputs generalizing ekf history with
  | nil =>
    rw [tests, List.append_nil]
    exact hcounts
  | cons input rest ih =>
    cases input with
    | predict F Q f => exact ih ⟨hcounts.windowSize, hcounts.recent, hcounts.nisCount, hcounts.totalCount, hcounts.nisFail⟩
    | update z H R h zSubtract =>
      have hrest := ih (hcounts.update inverse z H R h zSubtract)
      rw [List.append_assoc] at hrest
      exact hrest

end ExtendedKalmanFilter

/-! ### Over the real numbers -/

namespace ExtendedKalmanFilter

open Kalman

variable {n : ℕ} (inverse : {m : ℕ} → Matrix (Fin m) (Fin m) ℝ → Matrix (Fin m) (Fin m) ℝ)

/-- The noises are covariances, and no entry of a measurement is free of noise. -/
def Noisy : FilterInput n ℝ → Prop
  | .predict _ Q _ => Q.PosSemidef
  | .update _ _ R _ _ => R.PosDef

variable {ekf : ExtendedKalmanFilter n ℝ}

theorem step_posSemidef (hP : ekf.P.PosSemidef) {input : FilterInput n ℝ} (hnoisy : Noisy input) :
    (ekf.step inverse input).P.PosSemidef := by
  cases input with
  | predict F Q f => exact predicted_posSemidef hP hnoisy F
  | update z H R h zSubtract =>
    have hR : R.PosDef := hnoisy
    exact corrected_posSemidef hP hR.posSemidef H _

theorem run_posSemidef (hP : ekf.P.PosSemidef) {inputs : List (FilterInput n ℝ)}
    (hnoisy : ∀ input ∈ inputs, Noisy input) : (ekf.run inverse inputs).P.PosSemidef := by
  induction inputs generalizing ekf with
  | nil => exact hP
  | cons input rest ih =>
    exact ih (step_posSemidef inverse hP (hnoisy input (List.mem_cons_self ..)))
      fun later hlater => hnoisy later (List.mem_cons_of_mem _ hlater)

/-- The gain solves its equation, since the matrix that it inverts is definite. -/
theorem gain_mul (hinverse : ∀ {m : ℕ} (M : Matrix (Fin m) (Fin m) ℝ), IsUnit M → inverse M * M = 1)
    (hP : ekf.P.PosSemidef) (H : Matrix (Fin 4) (Fin n) ℝ) {R : Matrix (Fin 4) (Fin 4) ℝ} (hR : R.PosDef) :
    ekf.gain inverse H R * innovation ekf.P H R = ekf.P * Hᵀ := by
  rw [gain, Matrix.mul_assoc, ← innovation, hinverse _ (innovation_posDef hP hR H).isUnit, Matrix.mul_one]

/-- In every run the covariance stays one, an update corrects with the gain that leaves the least uncertainty in
    every direction, and the recorded tests are those of the last hundred updates, a success before the first. -/
theorem run_least (hinverse : ∀ {m : ℕ} (M : Matrix (Fin m) (Fin m) ℝ), IsUnit M → inverse M * M = 1)
    (x0 : Fin n → ℝ) (P0 : Matrix (Fin n) (Fin n) ℝ) (xAdd : (Fin n → ℝ) → (Fin n → ℝ) → Fin n → ℝ)
    (hP0 : P0.PosSemidef) (inputs : List (FilterInput n ℝ)) (hnoisy : ∀ input ∈ inputs, Noisy input) :
    let ekf := (init x0 P0 xAdd).run inverse inputs
    ekf.P.PosSemidef ∧
      (∀ z H R h zSubtract, R.PosDef → ∀ L,
        (corrected ekf.P H R L - (ekf.update inverse z H R h zSubtract).P).PosSemidef) ∧
      ekf.Counts ((init x0 P0 xAdd).tests inverse inputs) := by
  intro ekf
  have hP : ekf.P.PosSemidef := run_posSemidef inverse hP0 hnoisy
  refine ⟨hP, fun z H R h zSubtract hR L => ?_, ?_⟩
  · exact corrected_least hP hR (gain_mul inverse hinverse hP H hR) L
  · exact (init_counts x0 P0 xAdd).run inverse inputs

theorem run_least_once : ∃ ekf : ExtendedKalmanFilter 1 ℝ, ekf.P.PosSemidef ∧
    ∀ z H h zSubtract, ∀ L, (corrected ekf.P H 1 L - (ekf.update (fun M => M⁻¹) z H 1 h zSubtract).P).PosSemidef := by
  have hinverse {m : ℕ} (M : Matrix (Fin m) (Fin m) ℝ) (hM : IsUnit M) : M⁻¹ * M = 1 :=
    nonsing_inv_mul M ((isUnit_iff_isUnit_det M).mp hM)
  let inputs : List (FilterInput 1 ℝ) :=
    [.predict 1 1 id, .update (fun _ => 1) (fun _ _ => 1) 1 (fun x _ => x 0) fun z y => z - y]
  obtain ⟨hP, hleast, -⟩ := run_least (fun M => M⁻¹) hinverse (fun _ => 0) 1 (fun x y => x + y) Matrix.PosSemidef.one
    inputs fun input hinput => by
      rcases List.mem_cons.mp hinput with rfl | hinput
      · exact Matrix.PosSemidef.one
      · rw [List.mem_singleton.mp hinput]
        exact Matrix.PosDef.one
  exact ⟨_, hP, fun z H h zSubtract L => hleast z H 1 h zSubtract Matrix.PosDef.one L⟩

end ExtendedKalmanFilter

end SpVision
