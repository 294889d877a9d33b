import SpVision.Tracker.StateVector

set_option autoImplicit false

/-!
# The reference trajectory of the planner

The target is moved back before the horizon and then forward step by step. `predict` and `aim` are
those of a target and of the planner; `aim` is none where the trajectory of the bullet is unsolvable.
-/
namespace SpVision
namespace Planner

def dt (K : Type) [Field K] : K := 0.01

def halfHorizon : ℕ := 50

def horizon : ℕ := halfHorizon * 2

/-- A column of `Trajectory`. -/
structure Column (K : Type) where
  yaw : K
  yawVel : K
  pitch : K
  pitchVel : K
  deriving DecidableEq, Repr

/-- The locals of the loop; `traj` holds the columns that are filled. -/
structure Sliding (σ K : Type) where
  target : σ
  yawPitchLast : K × K
  yawPitch : K × K
  traj : List (Column K) := []

section Trajectory

variable {σ K : Type} [Field K] [LinearOrder K] [IsStrictOrderedRing K] [FloorRing K]

/-- What one turn writes to its column. -/
def column (yaw0 : K) (yawPitchLast yawPitch yawPitchNext : K × K) : Column K :=
  { yaw := limitRad (cvPi K) (yawPitch.1 - yaw0)
    yawVel := limitRad (cvPi K) (yawPitchNext.1 - yawPitchLast.1) / ((2 : ℕ) * dt K)
    pitch := yawPitch.2
    pitchVel := (yawPitchNext.2 - yawPitchLast.2) / ((2 : ℕ) * dt K) }

variable (predict : σ → K → σ) (aim : σ → K → Option (K × K)) (yaw0 bulletSpeed : K)

def turn (s : Sliding σ K) : Option (Sliding σ K) := do
  let target := predict s.target (dt K)
  let yawPitchNext ← aim target bulletSpeed
  some
    { target := target
      yawPitchLast := s.yawPitch
      yawPitch := yawPitchNext
      traj := s.traj ++ [column yaw0 s.yawPitchLast s.yawPitch yawPitchNext] }

/-- `Planner::get_trajectory`, with the target as it leaves it. -/
def getTrajectory (target : σ) : Option (List (Column K) × σ) := do
  let target := predict target (-dt K * (halfHorizon + 1 : ℕ))
  let yawPitchLast ← aim target bulletSpeed
  let target := predict target (dt K)
  let yawPitch ← aim target bulletSpeed
  let s ← (List.range horizon).foldlM (fun s _ => turn predict aim yaw0 bulletSpeed s)
    { target, yawPitchLast, yawPitch }
  some (s.traj, s.target)

/-! ### The samples -/

/-- What is aimed at `k` steps after the entry. -/
def aimAt (target : σ) (k : ℤ) : Option (K × K) := aim (predict target (k * dt K)) bulletSpeed

/-- A column is the aim at its step, and its speeds are central differences. -/
def Aligned (target : σ) (k : ℤ) (c : Column K) : Prop :=
  ∃ last now next, aimAt predict aim bulletSpeed target (k - 1) = some last ∧
    aimAt predict aim bulletSpeed target k = some now ∧
    aimAt predict aim bulletSpeed target (k + 1) = some next ∧
    c.yaw = limitRad (cvPi K) (now.1 - yaw0) ∧
    c.yawVel = limitRad (cvPi K) (next.1 - last.1) / ((2 : ℕ) * dt K) ∧
    c.pitch = now.2 ∧ c.pitchVel = (next.2 - last.2) / ((2 : ℕ) * dt K)

/-- The locals before turn `n`. -/
structure Inv (target : σ) (n : ℕ) (s : Sliding σ K) : Prop where
  target_eq : s.target = predict target (((n : ℤ) - halfHorizon : ℤ) * dt K)
  last : aimAt predict aim bulletSpeed target (n - halfHorizon - 1) = some s.yawPitchLast
  now : aimAt predict aim bulletSpeed target (n - halfHorizon) = some s.yawPitch
  length : s.traj.length = n
  aligned : ∀ (i : ℕ) (c : Column K), s.traj[i]? = some c →
    Aligned predict aim yaw0 bulletSpeed target (i - halfHorizon) c

variable {predict aim yaw0 bulletSpeed} {target : σ}

theorem turn_cases (hadd : ∀ s a b, predict (predict s a) b = predict s (a + b)) {n : ℕ} {s : Sliding σ K}
    (h : Inv predict aim yaw0 bulletSpeed target n s) :
    turn predict aim yaw0 bulletSpeed s = none ∧
      aimAt predict aim bulletSpeed target (n + 1 - halfHorizon) = none ∨
    ∃ s', turn predict aim yaw0 bulletSpeed s = some s' ∧
      Inv predict aim yaw0 bulletSpeed target (n + 1) s' := by
  have htarget : predict s.target (dt K) = predict target (((n : ℤ) + 1 - halfHorizon : ℤ) * dt K) := by
    rw [h.target_eq, hadd]
    congr 1
    push_cast
    ring
  cases hnext : aim (predict s.target (dt K)) bulletSpeed with
  | none =>
    left
    constructor
    · rw [turn, hnext]
      rfl
    · rw [aimAt, ← htarget, hnext]
  | some yawPitchNext =>
    right
    have hnow : aimAt predict aim bulletSpeed target (n + 1 - halfHorizon) = some yawPitchNext := by
      rw [aimAt, ← htarget, hnext]
    have hstep : (n : ℤ) + 1 - halfHorizon = n - halfHorizon + 1 := by ring
    have hback : ((n + 1 : ℕ) : ℤ) - halfHorizon - 1 = n - halfHorizon := by push_cast; ring
    refine ⟨_, by rw [turn, hnext]; rfl, ?_⟩
    constructor
    · exact htarget
    · rw [hback]
      exact h.now
    · exact hnow
    · rw [List.length_append, h.length]
      rfl
    · intro i c hc
      rw [List.getElem?_append, h.length] at hc
      split_ifs at hc with hi
      · exact h.aligned i c hc
      · obtain rfl : i = n := by
          have hlt : i - n < 1 := (List.getElem?_eq_some_iff.mp hc).1
          omega
        rw [Nat.sub_self] at hc
        obtain rfl := Option.some.inj hc
        rw [hstep] at hnow
        exact ⟨_, _, _, h.last, h.now, hnow, rfl, rfl, rfl, rfl⟩

theorem turns_cases (hadd : ∀ s a b, predict (predict s a) b = predict s (a + b)) {s : Sliding σ K}
    (h : Inv predict aim yaw0 bulletSpeed target 0 s) (n : ℕ) :
    (List.range n).foldlM (fun s _ => turn predict aim yaw0 bulletSpeed s) s = none ∧
      (∃ i < n, aimAt predict aim bulletSpeed target (i + 1 - halfHorizon) = none) ∨
    ∃ s', (List.range n).foldlM (fun s _ => turn predict aim yaw0 bulletSpeed s) s = some s' ∧
      Inv predict aim yaw0 bulletSpeed target n s' := by
  induction n with
  | zero => exact .inr ⟨s, rfl, h⟩
  | succ n ih =>
    rw [List.range_succ, List.foldlM_append]
    rcases ih with ⟨hnone, i, hi, hfail⟩ | ⟨s', hsome, hinv⟩
    · left
      rw [hnone]
      exact ⟨rfl, i, Nat.lt_succ_of_lt hi, hfail⟩
    · have hlast : (some s' >>= fun s => [n].foldlM (fun s _ => turn predict aim yaw0 bulletSpeed s) s) =
          turn predict aim yaw0 bulletSpeed s' := by simp
      rw [hsome, hlast]
      rcases turn_cases hadd hinv with ⟨hnone, hfail⟩ | hnext
      · exact .inl ⟨hnone, n, Nat.lt_succ_self n, hfail⟩
      · exact .inr hnext

variable (predict aim yaw0 bulletSpeed) in
/-- Either one of the samples from one step before the horizon to its end cannot be aimed at, or every column is
    aligned. -/
theorem getTrajectory_cases (hadd : ∀ s a b, predict (predict s a) b = predict s (a + b)) (target : σ) :
    getTrajectory predict aim yaw0 bulletSpeed target = none ∧
      (∃ k : ℤ, -halfHorizon - 1 ≤ k ∧ k ≤ halfHorizon ∧ aimAt predict aim bulletSpeed target k = none) ∨
    ∃ s, getTrajectory predict aim yaw0 bulletSpeed target = some (s.traj, s.target) ∧
      Inv predict aim yaw0 bulletSpeed target horizon s := by
  have hback : predict target (-dt K * (halfHorizon + 1 : ℕ)) =
      predict target (((-halfHorizon - 1 : ℤ) : K) * dt K) := by
    congr 1
    push_cast
    ring
  have hfirst : predict (predict target (-dt K * (halfHorizon + 1 : ℕ))) (dt K) =
      predict target (((-halfHorizon : ℤ) : K) * dt K) := by
    rw [hadd]
    congr 1
    push_cast
    ring
  cases hlast : aimAt predict aim bulletSpeed target (-halfHorizon - 1) with
  | none =>
    left
    refine ⟨?_, -halfHorizon - 1, le_rfl, by omega, hlast⟩
    rw [aimAt, ← hback] at hlast
    rw [getTrajectory, hlast]
    rfl
  | some yawPitchLast =>
    cases hnow : aimAt predict aim bulletSpeed target (-halfHorizon) with
    | none =>
      left
      refine ⟨?_, -halfHorizon, by omega, by omega, hnow⟩
      rw [aimAt, ← hback] at hlast
      rw [aimAt, ← hfirst] at hnow
      rw [getTrajectory, hlast]
      dsimp only [Option.bind_eq_bind, Option.bind_some]
      rw [hnow]
      rfl
    | some yawPitch =>
      have hinv : Inv predict aim yaw0 bulletSpeed target 0
          { target := predict target (((-halfHorizon : ℤ) : K) * dt K), yawPitchLast, yawPitch } := by
        constructor
        · rw [Nat.cast_zero, zero_sub]
        · rw [Nat.cast_zero, zero_sub]
          exact hlast
        · rw [Nat.cast_zero, zero_sub]
          exact hnow
        · rfl
        · exact nofun
      have hloop : getTrajectory predict aim yaw0 bulletSpeed target =
          ((List.range horizon).foldlM (fun s _ => turn predict aim yaw0 bulletSpeed s)
            { target := predict target (((-halfHorizon : ℤ) : K) * dt K), yawPitchLast, yawPitch }).map
            fun s => (s.traj, s.target) := by
        rw [aimAt, ← hback] at hlast
        rw [aimAt, ← hfirst] at hnow
        rw [getTrajectory, hlast]
        dsimp only [Option.bind_eq_bind, Option.bind_some]
        rw [hnow, hfirst]
        exact Option.map_eq_bind.symm
      rw [hloop]
      rcases turns_cases hadd hinv horizon with ⟨hnone, i, hi, hfail⟩ | ⟨s, hsome, hs⟩
      · left
        rw [hnone]
        refine ⟨rfl, i + 1 - halfHorizon, by omega, ?_, hfail⟩
        rw [horizon] at hi
        omega
      · right
        rw [hsome]
        exact ⟨s, rfl, hs⟩

theorem Inv.aimAt_ne_none {s : Sliding σ K} (h : Inv predict aim yaw0 bulletSpeed target horizon s) {k : ℤ}
    (hlow : -halfHorizon - 1 ≤ k) (hhigh : k ≤ halfHorizon) : aimAt predict aim bulletSpeed target k ≠ none := by
  have hcolumn (i : ℕ) (hi : i < horizon) : ∃ c, Aligned predict aim yaw0 bulletSpeed target (i - halfHorizon) c :=
    ⟨_, h.aligned i _ (List.getElem?_eq_getElem (h.length.symm ▸ hi))⟩
  obtain hfirst | hmiddle | hlast : k = -halfHorizon - 1 ∨ (-halfHorizon ≤ k ∧ k < halfHorizon) ∨ k = halfHorizon := by
    omega
  · obtain ⟨c, last, now, next, haim, -⟩ := hcolumn 0 (by decide)
    rw [Nat.cast_zero, zero_sub, ← hfirst] at haim
    exact Option.ne_none_iff_exists'.mpr ⟨last, haim⟩
  · obtain ⟨c, last, now, next, -, haim, -⟩ := hcolumn (k + halfHorizon).toNat (by unfold horizon; omega)
    have hk : ((k + halfHorizon).toNat : ℤ) - halfHorizon = k := by omega
    rw [hk] at haim
    exact Option.ne_none_iff_exists'.mpr ⟨now, haim⟩
  · have hend : (horizon : ℤ) - halfHorizon = k := by rw [hlast]; rfl
    have haim := h.now
    rw [hend] at haim
    exact Option.ne_none_iff_exists'.mpr ⟨_, haim⟩

/-- The middle column is the entry. -/
theorem Inv.entry {s : Sliding σ K} (h : Inv predict aim yaw0 bulletSpeed target horizon s)
    (hstill : predict target 0 = target) : ∃ now c, aim target bulletSpeed = some now ∧
      s.traj[halfHorizon]? = some c ∧ c.yaw = limitRad (cvPi K) (now.1 - yaw0) ∧ c.pitch = now.2 := by
  have hmiddle : halfHorizon < s.traj.length := by
    rw [h.length]
    decide
  have hcolumn := List.getElem?_eq_getElem hmiddle
  obtain ⟨last, now, next, -, haim, -, hyaw, -, hpitch, -⟩ := h.aligned _ _ hcolumn
  rw [sub_self, aimAt, Int.cast_zero, zero_mul, hstill] at haim
  exact ⟨now, _, haim, hcolumn, hyaw, hpitch⟩

variable (predict aim yaw0 bulletSpeed)

/-- The reference covers the horizon around the entry, and is missing exactly if a sample cannot be aimed at. -/
theorem getTrajectory_aligned (hadd : ∀ s a b, predict (predict s a) b = predict s (a + b)) (target : σ) :
    (getTrajectory predict aim yaw0 bulletSpeed target = none ↔
      ∃ k : ℤ, -halfHorizon - 1 ≤ k ∧ k ≤ halfHorizon ∧ aimAt predict aim bulletSpeed target k = none) ∧
    ∀ traj target', getTrajectory predict aim yaw0 bulletSpeed target = some (traj, target') →
      traj.length = horizon ∧ target' = predict target (halfHorizon * dt K) ∧
      (∀ (i : ℕ) (c : Column K), traj[i]? = some c →
        Aligned predict aim yaw0 bulletSpeed target (i - halfHorizon) c) ∧
      (predict target 0 = target → ∃ now c, aim target bulletSpeed = some now ∧ traj[halfHorizon]? = some c ∧
        c.yaw = limitRad (cvPi K) (now.1 - yaw0) ∧ c.pitch = now.2) := by
  rcases getTrajectory_cases predict aim yaw0 bulletSpeed hadd target with
    ⟨hnone, hfail⟩ | ⟨s, hsome, hs⟩
  · refine ⟨iff_of_true hnone hfail, fun traj target' h => ?_⟩
    rw [hnone] at h
    cases h
  constructor
  · refine iff_of_false (by rw [hsome]; exact Option.some_ne_none _) ?_
    rintro ⟨k, hlow, hhigh, hfail⟩
    exact hs.aimAt_ne_none hlow hhigh hfail
  · intro traj target' h
    rw [hsome] at h
    obtain ⟨rfl, rfl⟩ := Prod.mk.inj (Option.some.inj h)
    refine ⟨hs.length, ?_, hs.aligned, fun hstill => ?_⟩
    · have htarget := hs.target_eq
      have hhalf : (horizon : ℤ) - halfHorizon = (halfHorizon : ℤ) := rfl
      rwa [hhalf, Int.cast_natCast] at htarget
    · exact hs.entry hstill

end Trajectory

/-- Aims along the angle of the target, at the height of its centre. -/
def levelAim (x : StateVector ℚ) (_ : ℚ) : Option (ℚ × ℚ) := some (limitRad (cvPi ℚ) (x 6), x 4)

theorem getTrajectory_spinning : ∃ traj target',
    getTrajectory (StateVector.predict false) levelAim 0 22 ![4, 1, 0, 0, 0, 0, 0, 3, 0.2, 0, 0] =
      some (traj, target') ∧ traj.length = horizon := by
  obtain ⟨hnone, hsome⟩ := getTrajectory_aligned (StateVector.predict false) levelAim 0 22
    (StateVector.predict_predict false) ![4, 1, 0, 0, 0, 0, 0, 3, 0.2, 0, 0]
  have hexists : getTrajectory (StateVector.predict false) levelAim 0 22 ![4, 1, 0, 0, 0, 0, 0, 3, 0.2, 0, 0] ≠
      none := by
    rw [ne_eq, hnone]
    rintro ⟨k, -, -, hfail⟩
    cases hfail
  obtain ⟨⟨traj, target'⟩, htraj⟩ := Option.ne_none_iff_exists'.mp hexists
  exact ⟨traj, target', htraj, (hsome traj target' htraj).1⟩

end Planner
end SpVision
