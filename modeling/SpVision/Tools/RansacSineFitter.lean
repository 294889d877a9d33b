import Mathlib.Analysis.SpecialFunctions.Complex.Arg
import SpVision.Library.Runs

set_option autoImplicit false

/-!
# The sine fitter

Samples are pairs of a time and a value. The random choices of a fit are its input, and what
`Eigen` and the floating-point library compute is a parameter.
-/
namespace SpVision

/-- The parameters of `A * sin(omega * t + phi) + C`. -/
structure SineModel (K : Type) where
  A : K
  omega : K
  phi : K
  C : K
  deriving DecidableEq, Repr

structure SineResult (K : Type) extends SineModel K where
  inliers : ℕ
  deriving DecidableEq, Repr

/-- The settings of a fitter, and the functions it calls. -/
structure SineSolver (K : Type) where
  maxIterations : ℕ
  threshold : K
  minOmega : K
  maxOmega : K
  sin : K → K
  sqrt : K → K
  atan2 : K → K → K
  fitPartialModel : List (K × K) → K → Option (K × K × K)

/-- What one iteration draws: the shuffled indices and a frequency. -/
structure SineDraw (K : Type) where
  indices : List ℕ
  omega : K
  deriving DecidableEq, Repr

structure RansacSineFitter (K : Type) where
  bestResult : SineResult K
  fitData : List (K × K) := []
  deriving DecidableEq, Repr

inductive FitterInput (K : Type)
  | addData (t v : K)
  | fit (draws : List (SineDraw K))
  deriving DecidableEq, Repr

variable {K : Type} [Field K] [LinearOrder K]

def SineResult.initial : SineResult K := { A := 0, omega := 0, phi := 0, C := 0, inliers := 0 }

namespace SineSolver

variable (solver : SineSolver K)

def sineFunction (t : K) (m : SineModel K) : K := m.A * solver.sin (m.omega * t + m.phi) + m.C

def evaluateInliers (fitData : List (K × K)) (m : SineModel K) : ℕ :=
  fitData.countP fun p => |p.2 - solver.sineFunction p.1 m| < solver.threshold

/-- The model of three samples, if it can be solved. -/
def sampledModel (fitData : List (K × K)) (draw : SineDraw K) : Option (SineModel K) :=
  let sample := (draw.indices.take 3).filterMap fun i => fitData[i]?
  (solver.fitPartialModel sample draw.omega).map fun (A1, A2, C) =>
    { A := solver.sqrt (A1 * A1 + A2 * A2), omega := draw.omega, phi := solver.atan2 A2 A1, C := C }

/-- One turn of the loop of `fit`. -/
def iterate (fitData : List (K × K)) (best : SineResult K) (draw : SineDraw K) : SineResult K :=
  match solver.sampledModel fitData draw with
  | none => best
  | some model =>
    let inlierCount := solver.evaluateInliers fitData model
    if inlierCount > best.inliers then { model with inliers := inlierCount } else best

end SineSolver

namespace RansacSineFitter

def clears (s : RansacSineFitter K) (t : K) : Bool := (s.fitData.getLast?).any fun p => t - p.1 > (5 : ℕ)

def addData (s : RansacSineFitter K) (t v : K) : RansacSineFitter K :=
  { s with fitData := (if s.clears t then [] else s.fitData) ++ [(t, v)] }

def fit (solver : SineSolver K) (s : RansacSineFitter K) (draws : List (SineDraw K)) : RansacSineFitter K :=
  if s.fitData.length < 3 then s
  else
    { bestResult := draws.foldl (solver.iterate s.fitData) s.bestResult
      fitData := if s.fitData.length > 150 then s.fitData.tail else s.fitData }

def step (solver : SineSolver K) (s : RansacSineFitter K) : FitterInput K → RansacSineFitter K
  | .addData t v => s.addData t v
  | .fit draws => s.fit solver draws

/-- What the generator can draw. -/
def Legal (solver : SineSolver K) (s : RansacSineFitter K) : FitterInput K → Prop
  | .addData _ _ => True
  | .fit draws => s.fitData.length < 3 ∨ draws.length = solver.maxIterations ∧ ∀ draw ∈ draws,
      draw.indices.Perm (List.range s.fitData.length) ∧ solver.minOmega ≤ draw.omega ∧ draw.omega < solver.maxOmega

end RansacSineFitter

/-! ### One fit -/

namespace SineSolver

variable (solver : SineSolver K)

/-- Some draw gives a model that more of the samples lie on. -/
def FindsBetter (fitData : List (K × K)) (best : SineResult K) (draws : List (SineDraw K)) : Prop :=
  ∃ draw ∈ draws, ∃ model, solver.sampledModel fitData draw = some model ∧
    best.inliers < solver.evaluateInliers fitData model

variable {solver}

theorem FindsBetter.cons {fitData : List (K × K)} {best : SineResult K} {draws : List (SineDraw K)}
    (h : solver.FindsBetter fitData best draws) (draw : SineDraw K) :
    solver.FindsBetter fitData best (draw :: draws) := by
  obtain ⟨later, hmem, model, hmodel, hlt⟩ := h
  exact ⟨later, List.mem_cons_of_mem _ hmem, model, hmodel, hlt⟩

theorem iterate_of_le {fitData : List (K × K)} {best : SineResult K} {draw : SineDraw K}
    (h : ∀ model, solver.sampledModel fitData draw = some model →
      solver.evaluateInliers fitData model ≤ best.inliers) : solver.iterate fitData best draw = best := by
  unfold iterate
  cases hmodel : solver.sampledModel fitData draw with
  | none => rfl
  | some model => exact if_neg (Nat.not_lt.mpr (h model hmodel))

theorem iterate_of_lt {fitData : List (K × K)} {best : SineResult K} {draw : SineDraw K} {model : SineModel K}
    (hmodel : solver.sampledModel fitData draw = some model)
    (h : best.inliers < solver.evaluateInliers fitData model) :
    solver.iterate fitData best draw = { model with inliers := solver.evaluateInliers fitData model } := by
  rw [iterate, hmodel]
  exact if_pos h

variable (solver)

/-- The loop either keeps the result, or it replaces it by one with more inliers and counts them in the window. -/
theorem iterations_cases (fitData : List (K × K)) (best : SineResult K) (draws : List (SineDraw K)) :
    ¬ solver.FindsBetter fitData best draws ∧ draws.foldl (solver.iterate fitData) best = best ∨
    solver.FindsBetter fitData best draws ∧ ∃ model,
      draws.foldl (solver.iterate fitData) best =
        { model with inliers := solver.evaluateInliers fitData model } ∧
      best.inliers < solver.evaluateInliers fitData model := by
  induction draws generalizing best with
  | nil =>
    left
    refine ⟨?_, rfl⟩
    rintro ⟨draw, hmem, -⟩
    cases hmem
  | cons draw draws ih =>
    rw [List.foldl_cons]
    by_cases hfirst : ∃ model, solver.sampledModel fitData draw = some model ∧
        best.inliers < solver.evaluateInliers fitData model
    · obtain ⟨model, hmodel, hlt⟩ := hfirst
      have hfinds : solver.FindsBetter fitData best (draw :: draws) :=
        ⟨draw, List.mem_cons_self .., model, hmodel, hlt⟩
      right
      refine ⟨hfinds, ?_⟩
      rw [iterate_of_lt hmodel hlt]
      rcases ih { model with inliers := solver.evaluateInliers fitData model } with
        ⟨-, hkept⟩ | ⟨-, later, hlater, hless⟩
      · exact ⟨model, hkept, hlt⟩
      · exact ⟨later, hlater, hlt.trans hless⟩
    · have hle : ∀ model, solver.sampledModel fitData draw = some model →
          solver.evaluateInliers fitData model ≤ best.inliers :=
        fun model hmodel => Nat.not_lt.mp fun hlt => hfirst ⟨model, hmodel, hlt⟩
      rw [iterate_of_le hle]
      rcases ih best with ⟨hnone, hkept⟩ | ⟨hfinds, hlater⟩
      · left
        refine ⟨?_, hkept⟩
        rintro ⟨found, hmem, model, hmodel, hlt⟩
        rcases List.mem_cons.mp hmem with rfl | hmem
        · exact hfirst ⟨model, hmodel, hlt⟩
        · exact hnone ⟨found, hmem, model, hmodel, hlt⟩
      · exact .inr ⟨hfinds.cons draw, hlater⟩

end SineSolver

/-! ### The history of a fitter -/

/-- A fitter with what has happened since its window was last cleared: every content that `fit_data_` has had, how
    many samples were added, and the result that was reported when it was cleared. -/
structure WatchedFitter (K : Type) where
  fitter : RansacSineFitter K
  windows : List (List (K × K))
  added : ℕ
  atClear : SineResult K

namespace WatchedFitter

def start : WatchedFitter K :=
  { fitter := { bestResult := .initial }, windows := [[]], added := 0, atClear := .initial }

def watch (g : WatchedFitter K) (fitter : RansacSineFitter K) (added : ℕ) : WatchedFitter K :=
  { g with fitter := fitter, windows := fitter.fitData :: g.windows, added := g.added + added }

/-- `clear()` leaves an empty window. -/
def clear (g : WatchedFitter K) : WatchedFitter K :=
  { g with windows := [[]], added := 0, atClear := g.fitter.bestResult }

def step (solver : SineSolver K) (g : WatchedFitter K) : FitterInput K → WatchedFitter K
  | .addData t v => (if g.fitter.clears t then g.clear else g).watch (g.fitter.addData t v) 1
  | .fit draws => g.watch (g.fitter.fit solver draws) 0

/-- The reported model was fitted before the window was cleared. -/
def Stale (g : WatchedFitter K) : Prop := 0 < g.atClear.inliers ∧ g.fitter.bestResult = g.atClear

structure DescribesWindow (solver : SineSolver K) (g : WatchedFitter K) : Prop where
  counted : ∃ window ∈ g.windows,
    g.fitter.bestResult.inliers = solver.evaluateInliers window g.fitter.bestResult.toSineModel
  le_added : g.fitter.bestResult.inliers ≤ g.added
  fresh : ¬ g.Stale

structure Inv (solver : SineSolver K) (g : WatchedFitter K) : Prop where
  window : g.fitter.fitData ∈ g.windows
  empty : [] ∈ g.windows
  le_added : ∀ window ∈ g.windows, window.length ≤ g.added
  replaced : g.fitter.bestResult ≠ g.atClear → g.atClear.inliers < g.fitter.bestResult.inliers ∧
    ∃ window ∈ g.windows, g.fitter.bestResult.inliers = solver.evaluateInliers window g.fitter.bestResult.toSineModel

theorem inv_start (solver : SineSolver K) : Inv solver (start : WatchedFitter K) where
  window := List.mem_singleton_self _
  empty := List.mem_singleton_self _
  le_added window hwindow := by
    rw [List.mem_singleton.mp hwindow]
    exact Nat.zero_le _
  replaced hne := absurd rfl hne

variable {solver : SineSolver K} {g : WatchedFitter K}

theorem clear_inv (g : WatchedFitter K) :
    Inv solver { g.clear with fitter := { g.fitter with fitData := [] } } where
  window := List.mem_singleton_self _
  empty := List.mem_singleton_self _
  le_added window hwindow := by
    rw [List.mem_singleton.mp hwindow]
    exact Nat.zero_le _
  replaced hne := absurd rfl hne

/-- More samples in the window. -/
theorem Inv.watch (h : Inv solver g) {fitData : List (K × K)} {added : ℕ}
    (hlen : fitData.length ≤ g.fitter.fitData.length + added) :
    Inv solver (g.watch { g.fitter with fitData := fitData } added) where
  window := List.mem_cons_self ..
  empty := List.mem_cons_of_mem _ h.empty
  le_added window hwindow := by
    have hnow := h.le_added _ h.window
    change window.length ≤ g.added + added
    rcases List.mem_cons.mp hwindow with rfl | hwindow
    · exact hlen.trans (Nat.add_le_add_right hnow added)
    · exact (h.le_added window hwindow).trans (Nat.le_add_right ..)
  replaced hne := by
    obtain ⟨hmore, window, hwindow, hcount⟩ := h.replaced hne
    exact ⟨hmore, window, List.mem_cons_of_mem _ hwindow, hcount⟩

theorem Inv.atClear_le (h : Inv solver g) : g.atClear.inliers ≤ g.fitter.bestResult.inliers := by
  by_cases hsame : g.fitter.bestResult = g.atClear
  · rw [hsame]
  · exact (h.replaced hsame).1.le

/-- A model with more inliers in the window. -/
theorem Inv.renew (h : Inv solver g) {model : SineModel K}
    (hlt : g.fitter.bestResult.inliers < solver.evaluateInliers g.fitter.fitData model) :
    Inv solver { g with fitter := { g.fitter with
      bestResult := { model with inliers := solver.evaluateInliers g.fitter.fitData model } } } where
  window := h.window
  empty := h.empty
  le_added := h.le_added
  replaced _ := ⟨h.atClear_le.trans_lt hlt, g.fitter.fitData, h.window, rfl⟩

theorem fit_eq (draws : List (SineDraw K)) (hlen : 3 ≤ g.fitter.fitData.length) : g.fitter.fit solver draws =
    { bestResult := draws.foldl (solver.iterate g.fitter.fitData) g.fitter.bestResult
      fitData := if g.fitter.fitData.length > 150 then g.fitter.fitData.tail else g.fitter.fitData } :=
  if_neg (Nat.not_lt.mpr hlen)

theorem trimmed_length {α : Type} (fitData : List α) :
    (if fitData.length > 150 then fitData.tail else fitData).length ≤ fitData.length + 0 := by
  split_ifs
  · rw [List.length_tail]
    omega
  · exact le_rfl

theorem step_inv (h : Inv solver g) (input : FitterInput K) : Inv solver (g.step solver input) := by
  cases input with
  | addData t v =>
    rw [step, RansacSineFitter.addData]
    split_ifs
    · exact (clear_inv g).watch le_rfl
    · exact h.watch (List.length_append ..).le
  | fit draws =>
    rw [step]
    by_cases hlen : 3 ≤ g.fitter.fitData.length
    · rw [fit_eq draws hlen]
      rcases solver.iterations_cases g.fitter.fitData g.fitter.bestResult draws with
        ⟨-, hkept⟩ | ⟨-, model, hmodel, hlt⟩
      · rw [hkept]
        exact h.watch (trimmed_length _)
      · rw [hmodel]
        exact (h.renew hlt).watch (trimmed_length _)
    · rw [RansacSineFitter.fit, if_pos (Nat.not_le.mp hlen)]
      exact h.watch le_rfl

theorem run_inv (h : Inv solver g) (inputs : List (FitterInput K)) :
    Inv solver (inputs.foldl (WatchedFitter.step solver) g) := by
  induction inputs generalizing g with
  | nil => exact h
  | cons input inputs ih => exact ih (step_inv h input)

/-- In every state of a run, what is reported describes the window unless it is older than that. -/
theorem describesWindow_iff (h : Inv solver g) : DescribesWindow solver g ↔ ¬ g.Stale := by
  constructor
  · exact DescribesWindow.fresh
  intro hfresh
  have hcounted : ∃ window ∈ g.windows,
      g.fitter.bestResult.inliers = solver.evaluateInliers window g.fitter.bestResult.toSineModel := by
    by_cases hsame : g.fitter.bestResult = g.atClear
    · have hzero : g.fitter.bestResult.inliers = 0 := by
        rw [hsame]
        exact Nat.eq_zero_of_not_pos fun hpos => hfresh ⟨hpos, hsame⟩
      exact ⟨[], h.empty, hzero⟩
    · exact (h.replaced hsame).2
  obtain ⟨window, hwindow, hcount⟩ := hcounted
  refine ⟨⟨window, hwindow, hcount⟩, ?_, hfresh⟩
  calc
    g.fitter.bestResult.inliers = solver.evaluateInliers window g.fitter.bestResult.toSineModel := hcount
    _ ≤ window.length := List.countP_le_length
    _ ≤ g.added := h.le_added window hwindow

theorem stale_fit_iff (h : Inv solver g) (draws : List (SineDraw K)) (hlen : 3 ≤ g.fitter.fitData.length) :
    (g.step solver (.fit draws)).Stale ↔
      g.Stale ∧ ¬ solver.FindsBetter g.fitter.fitData g.fitter.bestResult draws := by
  rw [step, fit_eq draws hlen]
  rcases solver.iterations_cases g.fitter.fitData g.fitter.bestResult draws with
    ⟨hnone, hkept⟩ | ⟨hfinds, model, hmodel, hlt⟩
  · rw [hkept, and_iff_left hnone]
    rfl
  · rw [hmodel]
    refine iff_of_false ?_ fun hstale => hstale.2 hfinds
    rintro ⟨-, hsame⟩
    have hequal := congrArg SineResult.inliers hsame
    exact (h.atClear_le.trans_lt hlt).ne' hequal

/-! ### Runs -/

/-- After a fit with at least three samples. -/
def FitDescribes (solver : SineSolver K) (g : WatchedFitter K) : FitterInput K → Prop
  | .addData _ _ => True
  | .fit draws => 3 ≤ g.fitter.fitData.length → DescribesWindow solver (g.step solver (.fit draws))

/-- A fit over a window that was cleared finds a model that is better than the one from before. -/
def FitRenews (solver : SineSolver K) (g : WatchedFitter K) : FitterInput K → Prop
  | .addData _ _ => True
  | .fit draws => 3 ≤ g.fitter.fitData.length → g.Stale →
      solver.FindsBetter g.fitter.fitData g.fitter.bestResult draws

/-- The window is only cleared while no model has an inlier. -/
def ClearsUnfitted (g : WatchedFitter K) : FitterInput K → Prop
  | .addData t _ => g.fitter.clears t → g.fitter.bestResult.inliers = 0
  | .fit _ => True

theorem fitDescribes_iff (h : Inv solver g) (input : FitterInput K) :
    FitDescribes solver g input ↔ FitRenews solver g input := by
  cases input with
  | addData t v => exact Iff.rfl
  | fit draws =>
    refine forall_congr' fun hlen => ?_
    rw [describesWindow_iff (step_inv h _), stale_fit_iff h draws hlen, not_and, not_not]

theorem fresh_step_iff (h : Inv solver g) (hfresh : ¬ g.Stale) (input : FitterInput K) :
    ¬ (g.step solver input).Stale ↔ g.ClearsUnfitted input := by
  cases input with
  | addData t v =>
    rw [step, ClearsUnfitted]
    split_ifs with hclears
    · have hstale : (g.clear.watch (g.fitter.addData t v) 1).Stale ↔ 0 < g.fitter.bestResult.inliers :=
        and_iff_left rfl
      rw [hstale, Nat.pos_iff_ne_zero, not_not, forall_prop_of_true hclears]
    · exact iff_of_true hfresh fun hclears' => absurd hclears' hclears
  | fit draws =>
    refine iff_of_true ?_ trivial
    by_cases hlen : 3 ≤ g.fitter.fitData.length
    · rw [stale_fit_iff h draws hlen]
      exact fun hstale => hfresh hstale.1
    · rw [step, RansacSineFitter.fit, if_pos (Nat.not_le.mp hlen)]
      exact hfresh

end WatchedFitter

open WatchedFitter AllRuns

/-- The fits of a run describe the samples since the last gap exactly if each of them that starts from an older
    result finds a better one. No older result is reported at any time exactly if no gap follows a model. -/
theorem ransac_describes_window_iff (solver : SineSolver K) (inputs : List (FitterInput K)) :
    (EachStep (WatchedFitter.step solver) (FitDescribes solver) start inputs ↔
      EachStep (WatchedFitter.step solver) (FitRenews solver) start inputs) ∧
    (Always (WatchedFitter.step solver) (fun g => ¬ g.Stale) start inputs ↔
      EachStep (WatchedFitter.step solver) ClearsUnfitted start inputs) := by
  have hinv : ∀ g input, Inv solver g → Inv solver (WatchedFitter.step solver g input) :=
    fun _ input h => step_inv h input
  constructor
  · exact eachStep_congr _ hinv (fun _ input h => fitDescribes_iff h input) (inv_start solver) inputs
  · have hgood : ∀ g : WatchedFitter K, Inv solver g ∧ ¬ g.Stale → ¬ g.Stale := fun _ h => h.2
    have hkeeps : ∀ (g : WatchedFitter K) (input : FitterInput K), Inv solver g ∧ ¬ g.Stale → True →
        (¬ (g.step solver input).Stale ↔ g.ClearsUnfitted input) :=
      fun _ input h _ => fresh_step_iff h.1 h.2 input
    have hnext : ∀ (g : WatchedFitter K) (input : FitterInput K), Inv solver g ∧ ¬ g.Stale →
        ¬ (g.step solver input).Stale → Inv solver (g.step solver input) ∧ ¬ (g.step solver input).Stale :=
      fun _ input h hfresh => ⟨step_inv h.1 input, hfresh⟩
    have hstart : Inv solver (start : WatchedFitter K) ∧ ¬ (start : WatchedFitter K).Stale :=
      ⟨inv_start solver, fun h => absurd h.1 (Nat.lt_irrefl 0)⟩
    exact always_iff _ hgood hkeeps hnext hstart (legalRun_true _ _ _)

/-! ### A result that outlives its samples -/

/-- A solver that is right on samples of one value. -/
noncomputable def levelSolver : SineSolver ℝ where
  maxIterations := 1
  threshold := 0.5
  minOmega := 0
  maxOmega := 2.0
  sin := Real.sin
  sqrt := Real.sqrt
  atan2 y x := Complex.arg ⟨x, y⟩
  fitPartialModel sample _ := sample.head?.map fun p => (0, 0, p.2)

/-- Four samples at one level and a fit, and eight seconds later three samples at another level. -/
noncomputable def levelChange : List (FitterInput ℝ) :=
  [.addData 0 1, .addData 0.1 1, .addData 0.2 1, .addData 0.3 1, .fit [⟨[0, 1, 2, 3], 1⟩], .addData 8.3 2.5,
    .addData 8.4 2.5, .addData 8.5 2.5]

noncomputable def levelFit : FitterInput ℝ := .fit [⟨[0, 1, 2], 1⟩]

theorem levelChange_fitter : (levelChange.foldl (WatchedFitter.step levelSolver) start).fitter =
      { bestResult := ⟨⟨0, 1, 0, 1⟩, 4⟩, fitData := [(8.3, 2.5), (8.4, 2.5), (8.5, 2.5)] } ∧
    (levelChange.foldl (WatchedFitter.step levelSolver) start).atClear = ⟨⟨0, 1, 0, 1⟩, 4⟩ := by
  have hzero : (⟨0, 0⟩ : ℂ) = 0 := rfl
  norm_num [levelChange, WatchedFitter.step, RansacSineFitter.addData, RansacSineFitter.clears,
    RansacSineFitter.fit, SineSolver.iterate, SineSolver.sampledModel, SineSolver.evaluateInliers,
    SineSolver.sineFunction, levelSolver, start, watch, clear, SineResult.initial, hzero]

theorem levelChange_legal : LegalRun (RansacSineFitter.step levelSolver) (RansacSineFitter.Legal levelSolver)
    { bestResult := .initial } (levelChange ++ [levelFit]) := by
  norm_num [levelChange, levelFit, LegalRun, RansacSineFitter.Legal, RansacSineFitter.step,
    RansacSineFitter.addData, RansacSineFitter.clears, RansacSineFitter.fit, levelSolver, List.range_succ]

/-- After the fit the result still counts the four samples from before the gap. -/
theorem fit_reports_old_samples :
    LegalRun (RansacSineFitter.step levelSolver) (RansacSineFitter.Legal levelSolver)
      { bestResult := .initial } (levelChange ++ [levelFit]) ∧
    ¬ EachStep (WatchedFitter.step levelSolver) (FitDescribes levelSolver) start (levelChange ++ [levelFit]) := by
  refine ⟨levelChange_legal, fun hall => ?_⟩
  obtain ⟨hfitter, hclear⟩ := levelChange_fitter
  have hstale : (levelChange.foldl (WatchedFitter.step levelSolver) start).Stale := by
    rw [Stale, hfitter, hclear]
    exact ⟨by norm_num, rfl⟩
  have hfit := hall levelChange levelFit (List.prefix_refl _)
  have hinv : Inv levelSolver (levelChange.foldl (WatchedFitter.step levelSolver) start) :=
    run_inv (inv_start levelSolver) levelChange
  obtain ⟨draw, hmem, model, hmodel, hmore⟩ := (fitDescribes_iff hinv _).mp hfit (by simp [hfitter]) hstale
  rw [hfitter] at hmodel hmore
  obtain rfl := List.mem_singleton.mp hmem
  norm_num [SineSolver.sampledModel, levelSolver] at hmodel
  rw [← hmodel] at hmore
  norm_num [SineSolver.evaluateInliers, SineSolver.sineFunction, levelSolver] at hmore

end SpVision
