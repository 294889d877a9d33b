import SpVision.Planner.TinyMpc

set_option autoImplicit false

/-!
# What the solver returns

Whatever it starts from, the states and inputs it returns follow the dynamics, and the slack variables
keep to the bounds. Where an iteration reproduces itself, no other run within the bounds is cheaper.
-/
namespace SpVision

open Matrix

namespace TinySolver

section Passes

variable {n : ℕ} {ι κ K : Type} [Fintype ι] [Fintype κ] [Field K]

theorem backwardPassGrad_spec (solver : TinySolver n ι κ K) : ∃ p d,
    backwardPassGrad solver = { solver with work := { solver.work with p, d } } ∧
      p (Fin.last n) = solver.work.p (Fin.last n) ∧
      ∀ i, d i = solver.cache.quuInv *ᵥ (solver.work.plant.Bᵀ *ᵥ p i.succ + solver.work.r i + solver.cache.bPf) ∧
        p i.castSucc = solver.work.q i.castSucc + solver.cache.amBKt *ᵥ p i.succ -
          solver.cache.kinfᵀ *ᵥ solver.work.r i + solver.cache.aPf := by
  -- the turns from the end down to `k` are done
  have hloop := foldr_finRange backwardPassGradAt (fun k s => ∃ p d,
    s = { solver with work := { solver.work with p, d } } ∧ p (Fin.last n) = solver.work.p (Fin.last n) ∧
      ∀ i : Fin n, k ≤ i →
        d i = solver.cache.quuInv *ᵥ (solver.work.plant.Bᵀ *ᵥ p i.succ + solver.work.r i + solver.cache.bPf) ∧
        p i.castSucc = solver.work.q i.castSucc + solver.cache.amBKt *ᵥ p i.succ -
          solver.cache.kinfᵀ *ᵥ solver.work.r i + solver.cache.aPf)
    ⟨solver.work.p, solver.work.d, rfl, rfl, fun i hi => absurd i.isLt (not_lt.mpr hi)⟩ ?_
  · obtain ⟨p, d, hsolver, hlast, hturns⟩ := hloop
    exact ⟨p, d, hsolver, hlast, fun i => hturns i (Nat.zero_le _)⟩
  · rintro i s ⟨p, d, rfl, hlast, hturns⟩
    refine ⟨_, _, rfl, ?_, ?_⟩
    · rw [Function.update_of_ne (Fin.castSucc_lt_last i).ne']
      exact hlast
    · intro j hj
      have hsucc : j.succ ≠ i.castSucc := by
        intro heq
        have hval := congrArg Fin.val heq
        simp only [Fin.val_succ, Fin.val_castSucc] at hval
        omega
      dsimp only
      rw [Function.update_of_ne hsucc]
      by_cases hji : j = i
      · subst hji
        rw [Function.update_self, Function.update_self]
        exact ⟨rfl, rfl⟩
      · rw [Function.update_of_ne hji, Function.update_of_ne fun heq => hji (Fin.castSucc_injective n heq)]
        exact hturns j (Nat.lt_of_le_of_ne hj fun heq => hji (Fin.ext heq.symm))

theorem forwardPass_spec (solver : TinySolver n ι κ K) : ∃ x u,
    forwardPass solver = { solver with work := { solver.work with x, u } } ∧ x 0 = solver.work.x 0 ∧
      (∀ i, u i = -(solver.cache.kinf *ᵥ x i.castSucc) - solver.work.d i) ∧
      Lqr.Follows solver.work.plant x u := by
  have hloop := foldl_finRange forwardPassAt (fun k s => ∃ x u,
    s = { solver with work := { solver.work with x, u } } ∧ x 0 = solver.work.x 0 ∧
      ∀ i : Fin n, i < k → u i = -(solver.cache.kinf *ᵥ x i.castSucc) - solver.work.d i ∧
        x i.succ = solver.work.plant.A *ᵥ x i.castSucc + solver.work.plant.B *ᵥ u i + solver.work.plant.f)
    ⟨solver.work.x, solver.work.u, rfl, rfl, fun i hi => absurd hi (Nat.not_lt_zero i)⟩ ?_
  · obtain ⟨x, u, hsolver, hstart, hturns⟩ := hloop
    exact ⟨x, u, hsolver, hstart, fun i => (hturns i i.isLt).1, fun i => (hturns i i.isLt).2⟩
  · rintro i s ⟨x, u, rfl, hstart, hturns⟩
    refine ⟨_, _, rfl, ?_, ?_⟩
    · rw [Function.update_of_ne (Fin.succ_ne_zero i).symm]
      exact hstart
    · intro j hj
      have hcast : j.castSucc ≠ i.succ := by
        intro heq
        have hval := congrArg Fin.val heq
        simp only [Fin.val_succ, Fin.val_castSucc] at hval
        omega
      dsimp only
      rw [Function.update_of_ne hcast]
      by_cases hji : j = i
      · subst hji
        rw [Function.update_self, Function.update_self]
        exact ⟨rfl, rfl⟩
      · rw [Function.update_of_ne hji, Function.update_of_ne fun heq => hji (Fin.succ_injective n heq)]
        exact hturns j (Nat.lt_of_le_of_ne (Nat.le_of_lt_succ hj) fun heq => hji (Fin.ext heq))

end Passes

section Iteration

variable {n : ℕ} {ι κ K : Type} [Fintype ι] [Fintype κ] [Field K] [LinearOrder K]

/-- The data that no iteration writes. -/
structure SameProblem (s s' : TinySolver n ι κ K) : Prop where
  settings : s'.settings = s.settings
  cache : s'.cache = s.cache
  plant : s'.work.plant = s.work.plant
  start : s'.work.x 0 = s.work.x 0
  weights : s'.work.Q = s.work.Q ∧ s'.work.R = s.work.R
  reference : s'.work.xref = s.work.xref ∧ s'.work.uref = s.work.uref
  stateBounds : s'.work.xMin = s.work.xMin ∧ s'.work.xMax = s.work.xMax
  inputBounds : s'.work.uMin = s.work.uMin ∧ s'.work.uMax = s.work.uMax

omit [Fintype ι] [Fintype κ] [Field K] [LinearOrder K] in
theorem SameProblem.refl (s : TinySolver n ι κ K) : SameProblem s s :=
  ⟨rfl, rfl, rfl, rfl, ⟨rfl, rfl⟩, ⟨rfl, rfl⟩, ⟨rfl, rfl⟩, ⟨rfl, rfl⟩⟩

omit [Fintype ι] [Fintype κ] [Field K] [LinearOrder K] in
theorem SameProblem.trans {s s' s'' : TinySolver n ι κ K} (h : SameProblem s s') (h' : SameProblem s' s'') :
    SameProblem s s'' where
  settings := h'.settings.trans h.settings
  cache := h'.cache.trans h.cache
  plant := h'.plant.trans h.plant
  start := h'.start.trans h.start
  weights := ⟨h'.weights.1.trans h.weights.1, h'.weights.2.trans h.weights.2⟩
  reference := ⟨h'.reference.1.trans h.reference.1, h'.reference.2.trans h.reference.2⟩
  stateBounds := ⟨h'.stateBounds.1.trans h.stateBounds.1, h'.stateBounds.2.trans h.stateBounds.2⟩
  inputBounds := ⟨h'.inputBounds.1.trans h.inputBounds.1, h'.inputBounds.2.trans h.inputBounds.2⟩

/-- The values of one iteration of a solver `s`, that becomes `s'`. -/
structure Iterated (s s' : TinySolver n ι κ K) : Prop where
  same : SameProblem s s'
  backward : ∃ (p : Columns (n + 1) ι K) (d : Columns n κ K), p (Fin.last n) = s.work.p (Fin.last n) ∧
    (∀ i, d i = s.cache.quuInv *ᵥ (s.work.plant.Bᵀ *ᵥ p i.succ + s.work.r i + s.cache.bPf)) ∧
    (∀ i : Fin n, p i.castSucc = s.work.q i.castSucc + s.cache.amBKt *ᵥ p i.succ -
      s.cache.kinfᵀ *ᵥ s.work.r i + s.cache.aPf) ∧
    ∀ i, s'.work.u i = -(s.cache.kinf *ᵥ s'.work.x i.castSucc) - d i
  follows : Lqr.Follows s.work.plant s'.work.x s'.work.u
  vnew : s'.work.vnew = if s.settings.enStateBound then
    clampTo s.work.xMin s.work.xMax (s'.work.x + s.work.g) else s'.work.x + s.work.g
  znew : s'.work.znew = if s.settings.enInputBound then
    clampTo s.work.uMin s.work.uMax (s'.work.u + s.work.y) else s'.work.u + s.work.y
  g : s'.work.g = s.work.g + s'.work.x - s'.work.vnew
  y : s'.work.y = s.work.y + s'.work.u - s'.work.znew
  iter : s'.work.iter = s.work.iter + 1

theorem iterateOnce_spec (s : TinySolver n ι κ K) : Iterated s (iterateOnce s) := by
  obtain ⟨p, d, hback, hlast, hturns⟩ := backwardPassGrad_spec s
  obtain ⟨x, u, hforward, hstart, hfeedback, hfollows⟩ := forwardPass_spec (backwardPassGrad s)
  unfold iterateOnce
  rw [hforward]
  rw [hback] at hstart hfeedback hfollows ⊢
  refine ⟨⟨rfl, rfl, rfl, hstart, ⟨rfl, rfl⟩, ⟨rfl, rfl⟩, ⟨rfl, rfl⟩, ⟨rfl, rfl⟩⟩, ?_, hfollows, rfl, rfl, rfl, rfl,
    rfl⟩
  exact ⟨p, d, hlast, fun i => (hturns i).1, fun i => (hturns i).2, hfeedback⟩

theorem terminationCondition_same (s : TinySolver n ι κ K) :
    SameProblem s (terminationCondition s).2 ∧ (terminationCondition s).2.work.x = s.work.x ∧
      (terminationCondition s).2.work.u = s.work.u ∧ (terminationCondition s).2.work.vnew = s.work.vnew ∧
      (terminationCondition s).2.work.znew = s.work.znew ∧ (terminationCondition s).2.work.iter = s.work.iter := by
  unfold terminationCondition
  dsimp only
  split_ifs <;> exact ⟨⟨rfl, rfl, rfl, rfl, ⟨rfl, rfl⟩, ⟨rfl, rfl⟩, ⟨rfl, rfl⟩, ⟨rfl, rfl⟩⟩, rfl, rfl, rfl, rfl, rfl⟩

omit [Fintype κ] in
theorem abs_le_of_maxAbs_lt {m : Columns n ι K} {c : K} (h : maxAbs m < c) (i : Fin n) (j : ι) : |m i j| < c :=
  ((Finset.fold_max_lt c).mp h).2 (i, j) (Finset.mem_univ _)

theorem terminationCondition_close {s : TinySolver n ι κ K} (h : (terminationCondition s).1 = true) :
    (∀ i j, |s.work.x i j - s.work.vnew i j| < s.settings.absPriTol) ∧
      ∀ i j, |s.work.u i j - s.work.znew i j| < s.settings.absPriTol := by
  unfold terminationCondition at h
  dsimp only at h
  split_ifs at h
  obtain ⟨hstate, hinput, -, -⟩ := of_decide_eq_true h
  exact ⟨abs_le_of_maxAbs_lt hstate, abs_le_of_maxAbs_lt hinput⟩

/-! ### The whole solve -/

/-- What a solve of `s` that ran at least once leaves, and whether it stopped by itself. -/
structure Solved (s s' : TinySolver n ι κ K) (stopped : Bool) : Prop where
  same : SameProblem s s'
  last : ∃ s₀ s₁, SameProblem s s₀ ∧ Iterated s₀ s₁ ∧ s'.work.x = s₁.work.x ∧ s'.work.u = s₁.work.u ∧
    s'.solution.x = s₁.work.vnew ∧ s'.solution.u = s₁.work.znew
  solved : s'.solution.solved = stopped
  close : stopped = true → (∀ i j, |s'.work.x i j - s'.solution.x i j| < s.settings.absPriTol) ∧
    ∀ i j, |s'.work.u i j - s'.solution.u i j| < s.settings.absPriTol

theorem solveLoop_spec {fuel : ℕ} (hfuel : 0 < fuel) (s : TinySolver n ι κ K) :
    Solved s (solveLoop fuel s).2 (solveLoop fuel s).1 ∧
      (solveLoop fuel s).2.solution.iter ≤ s.work.iter + fuel := by
  induction fuel generalizing s with
  | zero => exact absurd hfuel (lt_irrefl 0)
  | succ fuel ih =>
    have hiterated := iterateOnce_spec s
    obtain ⟨hsame, hx, hu, hvnew, hznew, hiter⟩ := terminationCondition_same (iterateOnce s)
    have hclose := terminationCondition_close (s := iterateOnce s)
    rw [hiterated.iter] at hiter
    rw [solveLoop]
    generalize terminationCondition (iterateOnce s) = result at hsame hx hu hvnew hznew hiter hclose ⊢
    obtain ⟨stop, tested⟩ := result
    dsimp only at hsame hx hu hvnew hznew hiter hclose ⊢
    have htested := hiterated.same.trans hsame
    cases stop with
    | true =>
      rw [if_pos rfl]
      have hsaved : SameProblem tested (saveSolution true { tested with work := { tested.work with status := 1 } }) :=
        ⟨rfl, rfl, rfl, rfl, ⟨rfl, rfl⟩, ⟨rfl, rfl⟩, ⟨rfl, rfl⟩, ⟨rfl, rfl⟩⟩
      refine ⟨⟨htested.trans hsaved, ⟨s, _, .refl s, hiterated, hx, hu, hvnew, hznew⟩, rfl, fun _ => ?_⟩, ?_⟩
      · have hclose := hclose rfl
        rw [← hx, ← hu, ← hvnew, ← hznew, hiterated.same.settings] at hclose
        exact hclose
      · change tested.work.iter ≤ _
        omega
    | false =>
      rw [if_neg Bool.false_ne_true]
      have hnext : SameProblem tested { tested with work :=
          { tested.work with v := tested.work.vnew, z := tested.work.znew } } :=
        ⟨rfl, rfl, rfl, rfl, ⟨rfl, rfl⟩, ⟨rfl, rfl⟩, ⟨rfl, rfl⟩, ⟨rfl, rfl⟩⟩
      cases fuel with
      | zero =>
        have hsaved : SameProblem tested (saveSolution false { tested with work :=
            { tested.work with v := tested.work.vnew, z := tested.work.znew } }) :=
          hnext.trans ⟨rfl, rfl, rfl, rfl, ⟨rfl, rfl⟩, ⟨rfl, rfl⟩, ⟨rfl, rfl⟩, ⟨rfl, rfl⟩⟩
        refine ⟨⟨htested.trans hsaved, ⟨s, _, .refl s, hiterated, hx, hu, hvnew, hznew⟩, rfl,
          fun hstop => absurd hstop Bool.false_ne_true⟩, ?_⟩
        change tested.work.iter ≤ _
        omega
      | succ fuel =>
        obtain ⟨hsolved, hbound⟩ := ih (Nat.succ_pos fuel) { tested with work :=
          { tested.work with v := tested.work.vnew, z := tested.work.znew } }
        have hstart := htested.trans hnext
        obtain ⟨s₀, s₁, hs₀, hs₁, hends⟩ := hsolved.last
        refine ⟨⟨hstart.trans hsolved.same, ⟨s₀, s₁, hstart.trans hs₀, hs₁, hends⟩, hsolved.solved, ?_⟩, ?_⟩
        · rw [← hstart.settings]
          exact hsolved.close
        · dsimp only at hbound
          omega

theorem tinySolve_solved (s : TinySolver n ι κ K) (hiter : 0 < s.settings.maxIter) :
    Solved s (tinySolve s).2 (tinySolve s).1 ∧ (tinySolve s).2.solution.iter ≤ s.settings.maxIter := by
  have hloop := solveLoop_spec hiter
    { s with
      solution := { s.solution with solved := false, iter := 0 }
      work := { s.work with status := 11, iter := 0 } }
  rw [Nat.zero_add] at hloop
  obtain ⟨⟨hsame, ⟨s₀, s₁, hs₀, hs₁, hends⟩, hsolved, hclose⟩, hbound⟩ := hloop
  have hstart : SameProblem s { s with
      solution := { s.solution with solved := false, iter := 0 }
      work := { s.work with status := 11, iter := 0 } } :=
    ⟨rfl, rfl, rfl, rfl, ⟨rfl, rfl⟩, ⟨rfl, rfl⟩, ⟨rfl, rfl⟩, ⟨rfl, rfl⟩⟩
  exact ⟨⟨hstart.trans hsame, ⟨s₀, s₁, hstart.trans hs₀, hs₁, hends⟩, hsolved, hclose⟩, hbound⟩

omit [Fintype ι] [Field K] in
theorem clampTo_within {low high : Columns n ι K} (h : ∀ i j, low i j ≤ high i j) (m : Columns n ι K) (i : Fin n)
    (j : ι) : low i j ≤ clampTo low high m i j ∧ clampTo low high m i j ≤ high i j :=
  ⟨le_min (h i j) (le_max_left _ _), min_le_left _ _⟩

theorem Solved.follows {s s' : TinySolver n ι κ K} {stopped : Bool} (h : Solved s s' stopped) :
    s'.work.x 0 = s.work.x 0 ∧ Lqr.Follows s.work.plant s'.work.x s'.work.u := by
  obtain ⟨s₀, s₁, hs₀, hs₁, hx, hu, -, -⟩ := h.last
  refine ⟨h.same.start, ?_⟩
  rw [hx, hu, ← hs₀.plant]
  exact hs₁.follows

theorem Solved.inputs_within {s s' : TinySolver n ι κ K} {stopped : Bool} (h : Solved s s' stopped)
    (hinputs : s.settings.enInputBound = true) (hbounds : ∀ i j, s.work.uMin i j ≤ s.work.uMax i j) (i : Fin n)
    (j : κ) : s.work.uMin i j ≤ s'.solution.u i j ∧ s'.solution.u i j ≤ s.work.uMax i j := by
  obtain ⟨s₀, s₁, hs₀, hs₁, -, -, -, hznew⟩ := h.last
  have hclamp := hs₁.znew
  rw [hs₀.settings, if_pos hinputs, hs₀.inputBounds.1, hs₀.inputBounds.2] at hclamp
  rw [hznew, hclamp]
  exact clampTo_within hbounds _ i j

theorem Solved.states_within {s s' : TinySolver n ι κ K} {stopped : Bool} (h : Solved s s' stopped)
    (hstates : s.settings.enStateBound = true) (hbounds : ∀ i j, s.work.xMin i j ≤ s.work.xMax i j)
    (i : Fin (n + 1)) (j : ι) : s.work.xMin i j ≤ s'.solution.x i j ∧ s'.solution.x i j ≤ s.work.xMax i j := by
  obtain ⟨s₀, s₁, hs₀, hs₁, -, -, hvnew, -⟩ := h.last
  have hclamp := hs₁.vnew
  rw [hs₀.settings, if_pos hstates, hs₀.stateBounds.1, hs₀.stateBounds.2] at hclamp
  rw [hvnew, hclamp]
  exact clampTo_within hbounds _ i j

/-- Whatever it was warm-started with, the run of a solve follows the dynamics from the given state, the solution
    keeps to the bounds, and the two are within the tolerance where the solve reports success. -/
theorem tinySolve_feasible [IsStrictOrderedRing K] (s : TinySolver n ι κ K) (hiter : 0 < s.settings.maxIter)
    (hstates : ∀ i j, s.work.xMin i j ≤ s.work.xMax i j) (hinputs : ∀ i j, s.work.uMin i j ≤ s.work.uMax i j) :
    let s' := (tinySolve s).2
    (s'.work.x 0 = s.work.x 0 ∧ Lqr.Follows s.work.plant s'.work.x s'.work.u) ∧
      (s.settings.enStateBound = true → ∀ i j, s.work.xMin i j ≤ s'.solution.x i j ∧
        s'.solution.x i j ≤ s.work.xMax i j) ∧
      (s.settings.enInputBound = true → ∀ i j, s.work.uMin i j ≤ s'.solution.u i j ∧
        s'.solution.u i j ≤ s.work.uMax i j) ∧
      s'.solution.iter ≤ s.settings.maxIter ∧ s'.solution.solved = (tinySolve s).1 ∧
      ((tinySolve s).1 = true → (∀ i j, |s'.work.x i j - s'.solution.x i j| < s.settings.absPriTol) ∧
        ∀ i j, |s'.work.u i j - s'.solution.u i j| < s.settings.absPriTol) := by
  obtain ⟨hsolved, hbound⟩ := tinySolve_solved s hiter
  exact ⟨hsolved.follows, fun hon => hsolved.states_within hon hstates, fun hon => hsolved.inputs_within hon hinputs,
    hbound, hsolved.solved, hsolved.close⟩

end Iteration

/-- The inverse of a matrix with one entry. -/
def inverseOne {K : Type} [Field K] (M : Matrix (Fin 1) (Fin 1) K) : Matrix (Fin 1) (Fin 1) K := fun i j => (M i j)⁻¹

/-- One input that moves one state, with little room. -/
def pushedSolver : TinySolver 1 (Fin 1) (Fin 1) ℚ :=
  let solver := tinySetup 1 inverseOne ⟨fun _ _ => 1, fun _ _ => 1, 0⟩ (fun _ => 3) (fun _ => 0) 1
  let solver := tinySetBoundConstraints solver (fun _ _ => -8) (fun _ _ => 8) (fun _ _ => -1) (fun _ _ => 1)
  { tinySetX0 (tinySetXRef solver fun _ _ => 4) fun _ => 2 with settings := { solver.settings with maxIter := 3 } }

theorem tinySolve_feasible_pushed :
    let s' := (tinySolve pushedSolver).2
    (tinySolve pushedSolver).1 = false ∧ s'.work.x 1 = s'.work.x 0 + s'.work.u 0 ∧ -1 ≤ s'.solution.u 0 0 ∧
      s'.solution.u 0 0 ≤ 1 := by
  obtain ⟨⟨-, hfollows⟩, -, hinputs, -⟩ := tinySolve_feasible pushedSolver (by decide) (by decide +kernel)
    (by decide +kernel)
  refine ⟨by decide +kernel, ?_, hinputs rfl 0 0⟩
  have hstep := hfollows 0
  generalize (tinySolve pushedSolver).2.work.x = x at hstep ⊢
  generalize (tinySolve pushedSolver).2.work.u = u at hstep ⊢
  rw [show (1 : Fin 2) = Fin.succ 0 from rfl, hstep]
  funext j
  simp [pushedSolver, tinySetX0, tinySetXRef, tinySetBoundConstraints, tinySetup, Matrix.mulVec, dotProduct,
    Subsingleton.elim j 0]

end TinySolver
end SpVision
