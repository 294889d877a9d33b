import SpVision.Programs.MpcRuns

set_option autoImplicit false

/-!
# How `standard_mpc` leaves off

Once the mode or the flag says so, the plan thread sends no more than what it has begun, and it never waits for a
target. So the program ends, and what it sends last is neutral.
-/
namespace SpVision.Mpc

open Logs

section Effects

variable {K : Type} {x y : Mpc K}

/-- Whether the plan thread may still send for what it has read, or is about to read. -/
def due : PlanPhase K → ℕ
  | .front | .planning _ | .checking _ | .sending _ => 1
  | .looping | .queue | .mode | .firing _ | .ended => 0

/-- Whether it may still send before it looks at the flag. -/
def dueRound : PlanPhase K → ℕ
  | .queue | .mode => 1
  | phase => due phase

/-- How many steps it has left once the flag is set. -/
def planLeft : PlanPhase K → ℕ
  | .ended => 0
  | .looping => 1
  | .firing _ => 2
  | .sending _ => 3
  | .checking _ => 4
  | .planning _ => 5
  | .front => 6
  | .mode => 7
  | .queue => 8

/-- How many steps the main loop has left once the plan thread has ended. -/
def mainLeft : MainPhase K → ℕ
  | .joining => 3
  | .sending _ => 2
  | .firing _ => 1
  | .looping | .mode | .frame | .pushing _ | .ended => 0

def isPlanSent : MpcEvent K → Bool
  | .sent .plan _ => true
  | _ => false

/-- What a step does to the mode, to what the plan thread has to send and to what is left to do. -/
structure Effect (x y : Mpc K) (moves : List (MpcMove K)) (es : List (MpcEvent K)) : Prop where
  log : y.log = x.log ++ es
  idle : x.mode = .idle → (∀ e ∈ es, e ≠ .mode .autoAim) → y.mode = .idle ∧ due y.plan + es.countP isPlanSent ≤ due x.plan
  quit : x.quit = true → y.quit = true ∧ dueRound y.plan + es.countP isPlanSent ≤ dueRound x.plan
  plan : x.quit = true → planLeft y.plan ≤ planLeft x.plan - moves.countP (·.thread = .plan)
  main : x.quit = true → x.plan = .ended →
    y.plan = .ended ∧ mainLeft y.main ≤ mainLeft x.main - moves.countP (·.thread = .main)

theorem due_le_dueRound (phase : PlanPhase K) : due phase ≤ dueRound phase := by
  cases phase <;> simp [due, dueRound]

theorem dueRound_le (phase : PlanPhase K) : dueRound phase ≤ 1 := by
  cases phase <;> simp [due, dueRound]

theorem planLeft_le (phase : PlanPhase K) : planLeft phase ≤ 8 := by
  cases phase <;> simp [planLeft]

theorem mainLeft_le (phase : MainPhase K) : mainLeft phase ≤ 3 := by
  cases phase <;> simp [mainLeft]

theorem ended_of_planLeft {phase : PlanPhase K} (h : planLeft phase = 0) : phase = .ended := by
  cases phase with
  | ended => rfl
  | _ => cases h

theorem ended_of_mainLeft {phase : MainPhase K} (hstopping : phase.stopping = true) (hleft : mainLeft phase = 0) :
    phase = .ended := by
  cases phase with
  | ended => rfl
  | joining => cases hleft
  | sending last => cases hleft
  | firing last => cases hleft
  | _ => cases hstopping

theorem Effect.refl (x : Mpc K) : Effect x x [] [] where
  log := (List.append_nil _).symm
  idle h _ := ⟨h, le_rfl⟩
  quit h := ⟨h, le_rfl⟩
  plan _ := le_rfl
  main _ h := ⟨h, le_rfl⟩

theorem Effect.trans {z : Mpc K} {moves moves' : List (MpcMove K)} {es es' : List (MpcEvent K)}
    (h : Effect x y moves es) (h' : Effect y z moves' es') : Effect x z (moves ++ moves') (es ++ es') where
  log := by rw [h'.log, h.log, List.append_assoc]
  idle hidle hquiet := by
    obtain ⟨hmode, hdue⟩ := h.idle hidle fun e he => hquiet e (List.mem_append_left _ he)
    obtain ⟨hmode', hdue'⟩ := h'.idle hmode fun e he => hquiet e (List.mem_append_right _ he)
    refine ⟨hmode', ?_⟩
    rw [List.countP_append]
    omega
  quit hquit := by
    obtain ⟨hquit', hdue⟩ := h.quit hquit
    obtain ⟨hquit'', hdue'⟩ := h'.quit hquit'
    refine ⟨hquit'', ?_⟩
    rw [List.countP_append]
    omega
  plan hquit := by
    have hfirst := h.plan hquit
    have hsecond := h'.plan (h.quit hquit).1
    rw [List.countP_append]
    omega
  main hquit hended := by
    obtain ⟨hended', hfirst⟩ := h.main hquit hended
    obtain ⟨hended'', hsecond⟩ := h'.main (h.quit hquit).1 hended'
    refine ⟨hended'', ?_⟩
    rw [List.countP_append]
    omega

/-- A step of the plan thread that has not ended: it moves on, and the main loop stays. -/
theorem Effect.ofPlan {es : List (MpcEvent K)} (o : MpcInput K) (hlog : y.log = x.log ++ es) (hmode : y.mode = x.mode)
    (hquit : y.quit = x.quit) (hplan : x.plan ≠ .ended)
    (hdue : x.mode = .idle → due y.plan + es.countP isPlanSent ≤ due x.plan)
    (hround : x.quit = true → dueRound y.plan + es.countP isPlanSent ≤ dueRound x.plan)
    (hleft : x.quit = true → planLeft y.plan < planLeft x.plan) :
    Effect x y [.plan o] es where
  log := hlog
  idle hidle _ := ⟨hmode.trans hidle, hdue hidle⟩
  quit hset := ⟨hquit.trans hset, hround hset⟩
  plan hset := by
    have hmove : List.countP (fun move : MpcMove K => decide (move.thread = .plan)) [.plan o] = 1 := rfl
    rw [hmove]
    have hnext := hleft hset
    omega
  main _ hended := absurd hended hplan

/-- A step of the main loop: the plan thread stays where it is. -/
theorem Effect.ofMain {es : List (MpcEvent K)} (o : MpcInput K) (hlog : y.log = x.log ++ es) (hplan : y.plan = x.plan)
    (hsent : es.countP isPlanSent = 0) (hmode : x.mode = .idle → (∀ e ∈ es, e ≠ .mode .autoAim) → y.mode = .idle)
    (hquit : x.quit = true → y.quit = true)
    (hleft : x.quit = true → x.plan = .ended → mainLeft y.main ≤ mainLeft x.main - 1) : Effect x y [.main o] es where
  log := hlog
  idle hidle hquiet := ⟨hmode hidle hquiet, by rw [hplan, hsent, Nat.add_zero]⟩
  quit hset := ⟨hquit hset, by rw [hplan, hsent, Nat.add_zero]⟩
  plan _ := by
    rw [hplan]
    exact le_rfl
  main hset hended := ⟨hplan.trans hended, hleft hset hended⟩

end Effects

section Steps

variable {K : Type} [Field K] [LinearOrder K] [IsStrictOrderedRing K] [FloorRing K] {config : MpcConfig K} {x y : Mpc K}

theorem PlanDoes.effect (h : PlanDoes config x y) (hqueue : x.queue.queue ≠ []) (o : MpcInput K) :
    ∃ es, Effect x y [.plan o] es := by
  cases h with
  | leave hplan hquit =>
    exact ⟨[], .ofPlan o (by simp) rfl rfl (by simp [hplan]) (by simp [due]) (by simp [dueRound, due])
      (by simp [hplan, planLeft])⟩
  | enter hplan hquit =>
    have hrunning : x.quit ≠ true := by simp [hquit]
    exact ⟨[], .ofPlan o (by simp) rfl rfl (by simp [hplan]) (by simp [due]) (absurd · hrunning) (absurd · hrunning)⟩
  | look hplan =>
    exact ⟨[], .ofPlan o (by simp) rfl rfl (by simp [hplan]) (by simp [due]) (by simp [hplan, dueRound])
      (by simp [hplan, planLeft])⟩
  | turn hplan =>
    refine ⟨[], .ofPlan o (by simp) rfl rfl ?_ (by simp [due]) (by simp [dueRound, due]) ?_⟩
    · rcases hplan with hplan | hplan <;> simp [hplan]
    · rcases hplan with hplan | hplan <;> simp [hplan, planLeft]
  | allow hplan hmode =>
    exact ⟨[], .ofPlan o (by simp) rfl rfl (by simp [hplan]) (by simp [hmode]) (by simp [hplan, dueRound, due])
      (by simp [hplan, planLeft])⟩
  | await hplan hempty => exact absurd hempty hqueue
  | read hplan hread =>
    exact ⟨[.read _], .ofPlan o rfl rfl rfl (by simp [hplan]) (by simp [hplan, due, isPlanSent])
      (by simp [hplan, dueRound, due, isPlanSent]) (by simp [hplan, planLeft])⟩
  | plan o' hplan hplanned =>
    exact ⟨[.planned _], .ofPlan o rfl rfl rfl (by simp [hplan]) (by simp [hplan, due, isPlanSent])
      (by simp [hplan, dueRound, due, isPlanSent]) (by simp [hplan, planLeft])⟩
  | check o' hplan =>
    exact ⟨[.checked _], .ofPlan o rfl rfl rfl (by simp [hplan]) (by simp [hplan, due, isPlanSent])
      (by simp [hplan, dueRound, due, isPlanSent]) (by simp [hplan, planLeft])⟩
  | send hplan =>
    exact ⟨[.sent .plan _], .ofPlan o rfl rfl rfl (by simp [hplan]) (by simp [hplan, due, isPlanSent])
      (by simp [hplan, dueRound, due, isPlanSent]) (by simp [hplan, planLeft])⟩
  | fire o' hplan =>
    exact ⟨[x.fireEvent .plan _ _ o'], .ofPlan o rfl rfl rfl (by simp [hplan]) (by simp [due, isPlanSent, fireEvent])
      (by simp [dueRound, due, isPlanSent, fireEvent]) (by simp [hplan, planLeft])⟩
  | rest hplan =>
    exact ⟨[], by simp, by simp, by simp, by simp [hplan, planLeft], by simp [hplan, MpcMove.thread]⟩

omit [LinearOrder K] [IsStrictOrderedRing K] [FloorRing K] in
theorem MainDoes.effect (h : MainDoes config x y) (hstopping : x.quit = x.main.stopping) (o : MpcInput K) :
    ∃ es, Effect x y [.main o] es := by
  have hrunning (hstop : x.main.stopping = false) (hquit : x.quit = true) : False := by
    rw [hstopping, hstop] at hquit
    cases hquit
  cases h with
  | quit hmain =>
    exact ⟨[.quit], .ofMain o rfl rfl rfl (fun hidle _ => hidle) (fun _ => rfl)
      fun hquit => (hrunning (by rw [hmain]; rfl) hquit).elim⟩
  | enter hmain =>
    exact ⟨[], .ofMain o (by simp) rfl rfl (fun hidle _ => hidle) id
      fun hquit => (hrunning (by rw [hmain]; rfl) hquit).elim⟩
  | mode hmain =>
    refine ⟨[.mode x.link.mode], .ofMain o rfl rfl rfl (fun _ hquiet => ?_) id
      fun hquit => (hrunning (by rw [hmain]; rfl) hquit).elim⟩
    cases hmode : x.link.mode with
    | idle => rfl
    | autoAim => exact absurd (congrArg MpcEvent.mode hmode) (hquiet _ (List.mem_singleton_self _))
  | track now frame hmain =>
    exact ⟨[.tracked now _ frame _], .ofMain o rfl rfl rfl (fun hidle _ => hidle) id
      fun hquit => (hrunning (by rw [hmain]; rfl) hquit).elim⟩
  | skip hmain =>
    exact ⟨[], .ofMain o (by simp) rfl rfl (fun hidle _ => hidle) id
      fun hquit => (hrunning (by rw [hmain]; rfl) hquit).elim⟩
  | push hmain =>
    exact ⟨[.pushed _], .ofMain o rfl rfl rfl (fun hidle _ => hidle) id
      fun hquit => (hrunning (by rw [hmain]; rfl) hquit).elim⟩
  | send hmain =>
    exact ⟨[.sent .main _], .ofMain o rfl rfl rfl (fun hidle _ => hidle) id (by simp [hmain, mainLeft])⟩
  | @fire last o' hmain =>
    refine ⟨[x.fireEvent .main _ _ o'], .ofMain o rfl rfl rfl (fun hidle _ => hidle) id ?_⟩
    cases last <;> simp [hmain, mainLeft]
  | join hmain hplan =>
    exact ⟨[], .ofMain o (by simp) rfl rfl (fun hidle _ => hidle) id (by simp [hmain, mainLeft])⟩
  | wait hmain hplan =>
    exact ⟨[], .ofMain o (by simp) rfl rfl (fun hidle _ => hidle) id fun _ hended => absurd hended hplan⟩
  | rest hmain =>
    exact ⟨[], .ofMain o (by simp) rfl rfl (fun hidle _ => hidle) id (by simp [hmain, mainLeft])⟩

variable {start : Tracker (TargetEstimate (TargetState K))}

theorem Inv.effect (h : Inv config start x) {move : MpcMove K} (hstep : x.step? config move = some y) :
    ∃ es, Effect x y [move] es := by
  cases move with
  | link now data =>
    obtain rfl := Option.some.inj hstep
    exact ⟨[.received now data], rfl, by simp [isPlanSent], by simp [isPlanSent], by simp [MpcMove.thread],
      by simp +contextual [MpcMove.thread]⟩
  | main o =>
    obtain rfl := Option.some.inj hstep
    exact (mainStep_does x o).effect h.stopping o
  | plan o =>
    have hqueue : x.queue.queue ≠ [] := by
      rw [h.queue]
      exact List.cons_ne_nil _ _
    exact (planStep_does hstep).effect hqueue o

theorem Inv.effects (h : Inv config start x) {moves : List (MpcMove K)}
    (hrun : run? config x moves = some y) : ∃ es, Effect x y moves es := by
  induction moves generalizing x with
  | nil =>
    obtain rfl := Option.some.inj hrun
    exact ⟨[], .refl x⟩
  | cons move moves ih =>
    obtain ⟨next, hstep, hrest⟩ := Option.bind_eq_some_iff.mp hrun
    obtain ⟨es, heffect⟩ := h.effect hstep
    obtain ⟨es', heffects⟩ := ih (h.step hstep) hrest
    exact ⟨es ++ es', heffect.trans heffects⟩

/-- However the threads take turns. The plan thread never waits for a target; while the mode stays idle, and once the
    flag is set, it sends no more than once; it ends within eight steps of its own, and then the main loop within
    three; and after the end, what was sent last was neutral and no shot. -/
theorem standardMpc_stops (config : MpcConfig K) (first : MpcTarget K) (now : ℤ) {moves : List (MpcMove K)} {x : Mpc K}
    (hrun : run? config (init config first now) moves = some x) :
    x.queue.queue ≠ [] ∧ x.queue.asleep = 0 ∧
    (∀ later y, run? config x later = some y → ∃ es, y.log = x.log ++ es ∧
      (x.mode = .idle → (∀ e ∈ es, e ≠ .mode .autoAim) → es.countP isPlanSent ≤ 1) ∧
      (x.quit = true → es.countP isPlanSent ≤ 1) ∧
      (x.quit = true → 8 ≤ later.countP (·.thread = .plan) → y.plan = .ended) ∧
      (x.quit = true → x.plan = .ended → 3 ≤ later.countP (·.thread = .main) → y.main = .ended)) ∧
    (x.main = .ended → x.plan = .ended ∧ Closed x.log) := by
  have hinv := (init_inv first now).run hrun
  refine ⟨?_, hinv.awake, fun later y hlater => ?_, fun hended => ?_⟩
  · rw [hinv.queue]
    exact List.cons_ne_nil _ _
  · obtain ⟨es, heffect⟩ := hinv.effects hlater
    have hdue := (due_le_dueRound x.plan).trans (dueRound_le x.plan)
    refine ⟨es, heffect.log, fun hidle hquiet => ?_, fun hquit => ?_, fun hquit hsteps => ?_, fun hquit hplan hsteps => ?_⟩
    · have hsent := (heffect.idle hidle hquiet).2
      omega
    · have hsent := (heffect.quit hquit).2
      have hround := dueRound_le x.plan
      omega
    · have hleft := heffect.plan hquit
      have htotal := planLeft_le x.plan
      exact ended_of_planLeft (by omega)
    · have hleft := (heffect.main hquit hplan).2
      have htotal := mainLeft_le x.main
      have hstopping := (hinv.run hlater).stopping
      rw [(heffect.quit hquit).1] at hstopping
      exact ended_of_mainLeft hstopping.symm (by omega)
  · have hmain := hinv.main
    rw [hended] at hmain
    exact ⟨hinv.joined (by rw [hended]; rfl), hmain⟩

end Steps

/-- The main loop is told to quit when the plan thread has read a target. -/
noncomputable def quitMoves : List (MpcMove ℝ) := seenMoves ++ [.main (mpcInput true)]

/-- The plan thread shoots once more and ends, and then the main loop. -/
noncomputable def endMoves : List (MpcMove ℝ) :=
  shootingMoves seenInput 5000000 allowedFrame ++ (.plan (mpcInput true) :: List.replicate 3 (.main (mpcInput true)))

theorem run?_quitting (config : MpcConfig ℝ) {x : Mpc ℝ} (hmain : x.main = .looping) :
    ∃ y, run? config x [.main (mpcInput true)] = some y ∧ y.quit = true ∧ y.main = .joining ∧ y.plan = x.plan ∧
      y.planner = x.planner ∧ y.link = x.link := by
  refine ⟨{ x with quit := true, main := .joining, log := x.log ++ [.quit] }, ?_, rfl, rfl, rfl, rfl, rfl⟩
  change some (mainStep config x (mpcInput true)) = _
  rw [mainStep, hmain]
  rfl

theorem run?_ending (config : MpcConfig ℝ) (o : MpcInput ℝ) {x : Mpc ℝ} (hplan : x.plan = .looping)
    (hmain : x.main = .joining) (hquit : x.quit = true) :
    ∃ y, run? config x (.plan o :: List.replicate 3 (.main o)) = some y ∧ y.main = .ended := by
  obtain ⟨link, mode, quit, queue, tracker, planner, main, plan, log⟩ := x
  dsimp only at hplan hmain hquit
  subst hplan hmain hquit
  exact ⟨_, rfl, rfl⟩

theorem run?_append (config : MpcConfig ℝ) {x y z : Mpc ℝ} {moves later : List (MpcMove ℝ)}
    (hrun : run? config x moves = some y) (hlater : run? config y later = some z) :
    run? config x (moves ++ later) = some z := by
  rw [run?, List.foldlM_append]
  exact Option.bind_eq_some_iff.mpr ⟨y, hrun, hlater⟩

/-- It is told to quit in the middle of a round. -/
theorem standardMpc_stops_quit : ∃ fireThresh x y es,
    run? (mpcConfig fireThresh) (init (mpcConfig fireThresh) TargetState.seenTarget 0) quitMoves = some x ∧
    x.quit = true ∧ x.plan = .planning (some TargetState.seenTarget) ∧
    run? (mpcConfig fireThresh) x endMoves = some y ∧ y.log = x.log ++ es ∧ es.countP isPlanSent ≤ 1 ∧
    y.main = .ended ∧ Closed y.log := by
  obtain ⟨fireThresh, x, plan, planner, haiming⟩ := exists_aiming
  obtain ⟨x', hquit, hset, hjoining, hphase, hplanner, hlink⟩ := run?_quitting (mpcConfig fireThresh) haiming.main
  have hplanned := haiming.planned
  have hallowed := haiming.allowed
  rw [← hplanner, ← hlink] at hplanned
  rw [← hlink] at hallowed
  obtain ⟨y, before, call, cmd, hshoot, -, -, hplan, hmain, hset'⟩ := run?_shootingMoves (mpcConfig fireThresh) rfl
    (hphase.trans haiming.phase) hplanned haiming.controls haiming.fires hallowed
  obtain ⟨z, hend, hended⟩ := run?_ending (mpcConfig fireThresh) (mpcInput true) hplan (hmain.trans hjoining)
    (hset'.trans hset)
  have hfirst := run?_append _ haiming.run hquit
  have hlast := run?_append _ hshoot hend
  obtain ⟨-, -, hlater, -⟩ := standardMpc_stops (mpcConfig fireThresh) TargetState.seenTarget 0 hfirst
  obtain ⟨es, heslog, -, hes, -⟩ := hlater _ z hlast
  obtain ⟨-, -, -, hclosed⟩ := standardMpc_stops (mpcConfig fireThresh) TargetState.seenTarget 0
    (run?_append _ hfirst hlast)
  exact ⟨fireThresh, x', z, es, hfirst, hset, hphase.trans haiming.phase, hlast, heslog, hes hset, hended,
    (hclosed hended).2⟩

end SpVision.Mpc
