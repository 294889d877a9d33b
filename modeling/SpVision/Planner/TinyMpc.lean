import SpVision.Library.Loops
import SpVision.Library.Lqr

set_option autoImplicit false

/-!
# The solver of the planner

Alternating directions: a feedback rolled out, a projection onto the bounds, and prices for the
difference of the two. Matrices over the horizon are kept by columns, `n` is one less than their number,
and `inverse` is that of the matrix library.
-/
namespace SpVision

open Matrix

/-- Columns over a horizon. -/
abbrev Columns (n : ℕ) (ι K : Type) := Fin n → ι → K

/-- `cwiseAbs().maxCoeff()` -/
def maxAbs {n : ℕ} {ι K : Type} [Fintype ι] [Field K] [LinearOrder K] (m : Columns n ι K) : K :=
  (Finset.univ : Finset (Fin n × ι)).fold max 0 fun e => |m e.1 e.2|

structure TinySettings (K : Type) where
  absPriTol : K
  absDuaTol : K
  maxIter : ℕ
  checkTermination : ℕ
  enStateBound : Bool
  enInputBound : Bool
  deriving DecidableEq, Repr

structure TinyCache (ι κ K : Type) where
  rho : K
  kinf : Matrix κ ι K
  pinf : Matrix ι ι K
  quuInv : Matrix κ κ K
  amBKt : Matrix ι ι K
  aPf : ι → K
  bPf : κ → K

structure TinyWorkspace (n : ℕ) (ι κ K : Type) where
  x : Columns (n + 1) ι K
  u : Columns n κ K
  q : Columns (n + 1) ι K
  r : Columns n κ K
  p : Columns (n + 1) ι K
  d : Columns n κ K
  v : Columns (n + 1) ι K
  vnew : Columns (n + 1) ι K
  z : Columns n κ K
  znew : Columns n κ K
  g : Columns (n + 1) ι K
  y : Columns n κ K
  xMin : Columns (n + 1) ι K
  xMax : Columns (n + 1) ι K
  uMin : Columns n κ K
  uMax : Columns n κ K
  Q : ι → K
  R : κ → K
  plant : Lqr.Plant ι κ K
  xref : Columns (n + 1) ι K
  uref : Columns n κ K
  primalResidualState : K
  primalResidualInput : K
  dualResidualState : K
  dualResidualInput : K
  status : ℤ
  iter : ℕ

structure TinySolution (n : ℕ) (ι κ K : Type) where
  iter : ℕ
  solved : Bool
  x : Columns (n + 1) ι K
  u : Columns n κ K

structure TinySolver (n : ℕ) (ι κ K : Type) where
  solution : TinySolution n ι κ K
  settings : TinySettings K
  cache : TinyCache ι κ K
  work : TinyWorkspace n ι κ K

section Model

variable {n : ℕ} {ι κ K : Type} [Fintype ι] [Fintype κ] [Field K]

/-- One turn of `backward_pass_grad`. -/
def backwardPassGradAt (i : Fin n) (solver : TinySolver n ι κ K) : TinySolver n ι κ K :=
  let work := solver.work
  let cache := solver.cache
  { solver with work :=
    { work with
      d := Function.update work.d i (cache.quuInv *ᵥ (work.plant.Bᵀ *ᵥ work.p i.succ + work.r i + cache.bPf))
      p := Function.update work.p i.castSucc
        (work.q i.castSucc + cache.amBKt *ᵥ work.p i.succ - cache.kinfᵀ *ᵥ work.r i + cache.aPf) } }

def backwardPassGrad (solver : TinySolver n ι κ K) : TinySolver n ι κ K :=
  (List.finRange n).foldr backwardPassGradAt solver

/-- One turn of `forward_pass`. -/
def forwardPassAt (solver : TinySolver n ι κ K) (i : Fin n) : TinySolver n ι κ K :=
  let work := solver.work
  let u := -(solver.cache.kinf *ᵥ work.x i.castSucc) - work.d i
  { solver with work :=
    { work with
      u := Function.update work.u i u
      x := Function.update work.x i.succ
        (work.plant.A *ᵥ work.x i.castSucc + work.plant.B *ᵥ u + work.plant.f) } }

def forwardPass (solver : TinySolver n ι κ K) : TinySolver n ι κ K := (List.finRange n).foldl forwardPassAt solver

/-- `update_dual` -/
def updateDual (solver : TinySolver n ι κ K) : TinySolver n ι κ K :=
  { solver with work :=
    { solver.work with
      g := solver.work.g + solver.work.x - solver.work.vnew
      y := solver.work.y + solver.work.u - solver.work.znew } }

/-- `update_linear_cost` -/
def updateLinearCost (solver : TinySolver n ι κ K) : TinySolver n ι κ K :=
  let work := solver.work
  let cache := solver.cache
  { solver with work :=
    { work with
      q := fun i => -(work.xref i * work.Q) - cache.rho • (work.vnew i - work.g i)
      r := fun i => -(work.uref i * work.R) - cache.rho • (work.znew i - work.y i)
      p := Function.update work.p (Fin.last n)
        (-(work.xref (Fin.last n) ᵥ* cache.pinf) -
          cache.rho • (work.vnew (Fin.last n) - work.g (Fin.last n))) } }

/-- `tiny_set_x0` -/
def tinySetX0 (solver : TinySolver n ι κ K) (x0 : ι → K) : TinySolver n ι κ K :=
  { solver with work := { solver.work with x := Function.update solver.work.x 0 x0 } }

omit [Fintype ι] [Fintype κ] [Field K] in
@[simp]
theorem tinySetX0_x (solver : TinySolver n ι κ K) (x0 : ι → K) : (tinySetX0 solver x0).work.x 0 = x0 := by
  simp only [tinySetX0, Function.update_self]

/-- `tiny_set_x_ref` -/
def tinySetXRef (solver : TinySolver n ι κ K) (xref : Columns (n + 1) ι K) : TinySolver n ι κ K :=
  { solver with work := { solver.work with xref := xref } }

/-- `tiny_set_bound_constraints` -/
def tinySetBoundConstraints (solver : TinySolver n ι κ K) (xMin xMax : Columns (n + 1) ι K)
    (uMin uMax : Columns n κ K) : TinySolver n ι κ K :=
  { solver with work := { solver.work with xMin := xMin, xMax := xMax, uMin := uMin, uMax := uMax } }

variable [LinearOrder K]

omit [Fintype ι] [Field K] in
/-- `xMax.cwiseMin(xMin.cwiseMax(m))` -/
def clampTo (low high m : Columns n ι K) : Columns n ι K := fun i j => min (high i j) (max (low i j) (m i j))

/-- `update_slack` -/
def updateSlack (solver : TinySolver n ι κ K) : TinySolver n ι κ K :=
  let work := solver.work
  let settings := solver.settings
  let vnew := work.x + work.g
  let znew := work.u + work.y
  { solver with work :=
    { work with
      vnew := if settings.enStateBound then clampTo work.xMin work.xMax vnew else vnew
      znew := if settings.enInputBound then clampTo work.uMin work.uMax znew else znew } }

/-- `termination_condition`, with the residuals that it stores. -/
def terminationCondition (solver : TinySolver n ι κ K) : Bool × TinySolver n ι κ K :=
  let work := solver.work
  let settings := solver.settings
  if work.iter % settings.checkTermination = 0 then
    let primalResidualState := maxAbs (work.x - work.vnew)
    let dualResidualState := maxAbs (work.v - work.vnew) * solver.cache.rho
    let primalResidualInput := maxAbs (work.u - work.znew)
    let dualResidualInput := maxAbs (work.z - work.znew) * solver.cache.rho
    (primalResidualState < settings.absPriTol ∧ primalResidualInput < settings.absPriTol ∧
        dualResidualState < settings.absDuaTol ∧ dualResidualInput < settings.absDuaTol,
      { solver with work := { work with
        primalResidualState, dualResidualState, primalResidualInput, dualResidualInput } })
  else (false, solver)

/-- The body of the loop of `solve`, up to the test. -/
def iterateOnce (solver : TinySolver n ι κ K) : TinySolver n ι κ K :=
  let solver := updateLinearCost (updateDual (updateSlack (forwardPass (backwardPassGrad solver))))
  { solver with work := { solver.work with iter := solver.work.iter + 1 } }

/-- `solution`, as it is left on both ways out. -/
def saveSolution (solved : Bool) (solver : TinySolver n ι κ K) : TinySolver n ι κ K :=
  { solver with solution :=
    { iter := solver.work.iter, solved, x := solver.work.vnew, u := solver.work.znew } }

/-- The loop of `solve`. -/
def solveLoop : ℕ → TinySolver n ι κ K → Bool × TinySolver n ι κ K
  | 0, solver => (false, saveSolution false solver)
  | fuel + 1, solver =>
    let (stop, solver) := terminationCondition (iterateOnce solver)
    if stop then (true, saveSolution true { solver with work := { solver.work with status := 1 } })
    else solveLoop fuel { solver with work :=
      { solver.work with v := solver.work.vnew, z := solver.work.znew } }

/-- `tiny_solve`; it returns 0 where the first component is true. -/
def tinySolve (solver : TinySolver n ι κ K) : Bool × TinySolver n ι κ K :=
  solveLoop solver.settings.maxIter
    { solver with
      solution := { solver.solution with solved := false, iter := 0 }
      work := { solver.work with status := 11, iter := 0 } }

/-! ### Setting up -/

/-- One turn of the Riccati recursion. -/
def riccati (inverse : Matrix κ κ K → Matrix κ κ K) (plant : Lqr.Plant ι κ K) (Q1 : Matrix ι ι K) (R1 : Matrix κ κ K)
    (ptp1 : Matrix ι ι K) : Matrix κ ι K × Matrix ι ι K :=
  let kinf := inverse (R1 + plant.Bᵀ * ptp1 * plant.B) * plant.Bᵀ * ptp1 * plant.A
  (kinf, Q1 + plant.Aᵀ * ptp1 * (plant.A - plant.B * kinf))

/-- The largest entry of a matrix, without its sign. -/
def maxAbsMatrix (m : Matrix κ ι K) : K := (Finset.univ : Finset (κ × ι)).fold max 0 fun e => |m e.1 e.2|

/-- The loop of `tiny_precompute_and_set_cache`; `kinf` and `pinf` are those of the turn before. -/
def riccatiLoop (inverse : Matrix κ κ K → Matrix κ κ K) (plant : Lqr.Plant ι κ K) (Q1 : Matrix ι ι K)
    (R1 : Matrix κ κ K) : ℕ → Matrix κ ι K × Matrix ι ι K → Matrix κ ι K × Matrix ι ι K → Matrix κ ι K × Matrix ι ι K
  | 0, _, inf => inf
  | fuel + 1, tp1, _ =>
    let inf := riccati inverse plant Q1 R1 tp1.2
    if maxAbsMatrix (inf.1 - tp1.1) < 1e-5 then inf else riccatiLoop inverse plant Q1 R1 fuel inf inf

variable [DecidableEq ι] [DecidableEq κ]

/-- `tiny_precompute_and_set_cache` -/
def tinyPrecomputeAndSetCache (inverse : Matrix κ κ K → Matrix κ κ K) (plant : Lqr.Plant ι κ K) (Q : Matrix ι ι K)
    (R : Matrix κ κ K) (rho : K) : TinyCache ι κ K :=
  let Q1 := Q + rho • 1
  let R1 := R + rho • 1
  let inf := riccatiLoop inverse plant Q1 R1 1000 (0, diagonal fun _ => rho) (0, 0)
  let amBKt := (plant.A - plant.B * inf.1)ᵀ
  { rho := rho
    kinf := inf.1
    pinf := inf.2
    quuInv := inverse (R1 + plant.Bᵀ * inf.2 * plant.B)
    amBKt := amBKt
    aPf := (amBKt * inf.2) *ᵥ plant.f
    bPf := (plant.Bᵀ * inf.2) *ᵥ plant.f }

/-- `tiny_set_default_settings` -/
def tinyDefaultSettings (K : Type) [Field K] : TinySettings K :=
  { absPriTol := 1e-3, absDuaTol := 1e-3, maxIter := 1000, checkTermination := 1, enStateBound := true,
    enInputBound := true }

/-- `tiny_setup`; the weights are the diagonals of `Q` and `R`, and bounds are not set yet. -/
def tinySetup (n : ℕ) (inverse : Matrix κ κ K → Matrix κ κ K) (plant : Lqr.Plant ι κ K) (Q : ι → K) (R : κ → K)
    (rho : K) : TinySolver n ι κ K :=
  let workQ : ι → K := fun j => Q j + rho
  let workR : κ → K := fun j => R j + rho
  { solution := { iter := 0, solved := false, x := 0, u := 0 }
    settings := tinyDefaultSettings K
    cache := tinyPrecomputeAndSetCache inverse plant (diagonal workQ) (diagonal workR) rho
    work :=
      { x := 0, u := 0, q := 0, r := 0, p := 0, d := 0, v := 0, vnew := 0, z := 0, znew := 0, g := 0, y := 0
        xMin := 0, xMax := 0, uMin := 0, uMax := 0
        Q := workQ, R := workR, plant := plant, xref := 0, uref := 0
        primalResidualState := 0, primalResidualInput := 0, dualResidualState := 0, dualResidualInput := 0
        status := 0, iter := 0 } }

end Model

end SpVision
