import SpVision.Comm.Delivery

set_option autoImplicit false

/-!
# Turns among equal priorities

The loop over the registered slots begins at one cursor for all priorities. Channels of
equal priority take turns as long as no service of a higher priority moves the cursor
between them.
-/
namespace SpVision
open Aging

variable {σ : Type} {send : SendNotify σ} {m : ChannelManager} {i j w : Fin chMax}

/-! ### Who is served -/

/-- The loop is reached, and `w` is the first slot that it can serve. -/
def ServedByTurn (m : ChannelManager) (b : ChUprotoBind) (w : Fin chMax) : Prop :=
  ∃ best prio, findBest m b = some (best, prio) ∧ (findAged m b prio).1 = none ∧ findTurn m b prio = some w

def ServedByAge (m : ChannelManager) (b : ChUprotoBind) (w : Fin chMax) : Prop :=
  ∃ best prio, findBest m b = some (best, prio) ∧ (findAged m b prio).1 = some w

/-- The loop serves a slot of higher priority that it meets after `j` and before `i`. -/
def TurnBetween (m : ChannelManager) (b : ChUprotoBind) (i j : Fin chMax) : Prop :=
  ∃ w, ServedByTurn m b w ∧ m.prio j < m.prio w ∧ (b.queue m).rank j < (b.queue m).rank w ∧
    (b.queue m).rank w < (b.queue m).rank i

/-- The starvation guard serves `i`, which the loop would meet before `j`. -/
def AgedAhead (m : ChannelManager) (b : ChUprotoBind) (i j : Fin chMax) : Prop :=
  ServedByAge m b i ∧ (b.queue m).rank i < (b.queue m).rank j

inductive NextBy (m : ChannelManager) (b : ChUprotoBind) (w : Fin chMax) : ℕ → Prop
  | aged (h : ServedByAge m b w) : NextBy m b w b.rrCursor
  | turn (h : ServedByTurn m b w) : NextBy m b w (w.val + 1)

theorem findNextReadyIndex_nextBy {b : ChUprotoBind} (hm : b.mgr = some m) {rrCursor : ℕ}
    (h : findNextReadyIndex b = (some w, { bumpAges m b with rrCursor := rrCursor })) :
    NextBy m (bumpAges m b) w rrCursor := by
  have hslot : (findNextReadyIndex b).1 = some w := congrArg Prod.fst h
  have hcursor : (findNextReadyIndex b).2.rrCursor = rrCursor := congrArg (fun r => r.2.rrCursor) h
  unfold findNextReadyIndex at hslot hcursor
  rw [hm] at hslot hcursor
  dsimp only at hslot hcursor
  have hisBest := findBest_isBest m (bumpAges m b)
  cases hbest : findBest m (bumpAges m b) with
  | none =>
    rw [hbest] at hslot
    cases hslot
  | some best =>
    obtain ⟨best, prio⟩ := best
    rw [hbest] at hslot hcursor hisBest
    dsimp only at hslot hcursor
    cases haged : (findAged m (bumpAges m b) prio).1 with
    | some idx =>
      rw [haged] at hslot hcursor
      cases hslot
      exact hcursor ▸ .aged ⟨best, prio, hbest, haged⟩
    | none =>
      rw [haged] at hslot hcursor
      dsimp only at hslot hcursor
      cases hturn : findTurn m (bumpAges m b) prio with
      | none =>
        cases hisBest with
        | some _ ch hmem hused hch htop =>
          exact absurd hturn (findTurn_ne_none (m.mem_indices.mp hmem) hused (m.prio_eq hch))
      | some idx =>
        rw [hturn] at hslot hcursor
        cases hslot
        exact hcursor ▸ .turn ⟨best, prio, hbest, haged, hturn⟩

/-! ### The order of turns -/

theorem rank_of_lt (b : ChUprotoBind) (hi : i.val < m.count) :
    (b.queue m).rank i = cycleOffset m.count (b.rrCursor % m.count) i := if_pos hi

theorem rank_ne (b : ChUprotoBind) (hi : i.val < m.count) (hj : j.val < m.count) (hij : i ≠ j) :
    (b.queue m).rank i ≠ (b.queue m).rank j := by
  rw [rank_of_lt b hi, rank_of_lt b hj]
  intro hrank
  exact hij (Fin.ext (cycleOffset_inj (Nat.mod_lt _ (by omega)) hi hj hrank))

theorem rank_next_lt_iff (b : ChUprotoBind) (hw : w.val < m.count) (hi : i.val < m.count)
    (hj : j.val < m.count) (hji : (b.queue m).rank j < (b.queue m).rank i) :
    ({ b with rrCursor := w.val + 1 }.queue m).rank j < ({ b with rrCursor := w.val + 1 }.queue m).rank i ↔
      ¬ ((b.queue m).rank j ≤ (b.queue m).rank w ∧ (b.queue m).rank w < (b.queue m).rank i) := by
  rw [rank_of_lt _ hi, rank_of_lt _ hj] at hji
  rw [rank_of_lt _ hi, rank_of_lt _ hj, rank_of_lt _ hi, rank_of_lt _ hj, rank_of_lt _ hw]
  exact cycleOffset_next_lt_iff (Nat.mod_lt _ (by omega)) hw hj hi hji

theorem ServedByTurn.unique {b : ChUprotoBind} (h : ServedByTurn m b w) (h' : ServedByTurn m b i) : w = i := by
  obtain ⟨best, prio, hbest, -, hturn⟩ := h
  obtain ⟨best', prio', hbest', -, hturn'⟩ := h'
  rw [hbest] at hbest'
  cases hbest'
  exact Option.some.inj (hturn.symm.trans hturn')

theorem ServedByAge.not_turn {b : ChUprotoBind} (h : ServedByAge m b w) : ¬ ServedByTurn m b i := by
  rintro ⟨best', prio', hbest', hnone, -⟩
  obtain ⟨best, prio, hbest, haged⟩ := h
  rw [hbest] at hbest'
  cases hbest'
  exact Option.some_ne_none w (haged.symm.trans hnone)

theorem ServedByTurn.spec {b : ChUprotoBind} (h : ServedByTurn m b w) : w.val < m.count ∧
    (b.pending w).used ∧ (∀ i, i.val < m.count → (b.pending i).used → m.prio i ≤ m.prio w) ∧
      ∀ i, i.val < m.count → (b.pending i).used → m.prio i = m.prio w → i ≠ w →
        (b.queue m).rank w < (b.queue m).rank i := by
  obtain ⟨best, prio, hbest, -, hturn⟩ := h
  have hisBest := findBest_isBest m b
  rw [hbest] at hisBest
  cases hisBest with
  | some _ ch hmem hused hch htop =>
    obtain ⟨hlt, hwused, hprio, hfirst⟩ := findTurn_some hturn
    rw [hprio]
    exact ⟨hlt, hwused, fun i hi hi' => htop i (m.mem_indices.mpr hi) hi', hfirst⟩

/-- While `j` waits, precisely a service of higher priority between them puts `i` before `j`. -/
theorem NextBy.before_iff {b : ChUprotoBind} {rrCursor : ℕ} (h : NextBy m b w rrCursor)
    (hi : i.val < m.count) (hj : j.val < m.count) (hused : (b.pending j).used)
    (hwj : w ≠ j) (hbefore : (b.queue m).rank j < (b.queue m).rank i) :
    ({ b with rrCursor := rrCursor }.queue m).rank j < ({ b with rrCursor := rrCursor }.queue m).rank i ↔
      ¬ TurnBetween m b i j := by
  cases h with
  | aged h => exact iff_of_true hbefore fun ⟨_, hturn, _⟩ => h.not_turn hturn
  | turn h =>
    obtain ⟨hw, -, htop, hfirst⟩ := h.spec
    rw [rank_next_lt_iff b hw hi hj hbefore, not_iff_not]
    constructor
    · rintro ⟨hjw, hwi⟩
      have hlt := Nat.lt_of_le_of_ne hjw (rank_ne b hj hw hwj.symm)
      refine ⟨w, h, Nat.lt_of_le_of_ne (htop j hj hused) fun hprio => ?_, hlt, hwi⟩
      exact Nat.lt_asymm hlt (hfirst j hj hused hprio hwj.symm)
    · rintro ⟨w', h', -, hjw, hwi⟩
      cases h.unique h'
      exact ⟨hjw.le, hwi⟩

/-- Once `i` is served, it comes after `j`, unless its age brought it forward. -/
theorem NextBy.before_self {b : ChUprotoBind} {rrCursor : ℕ} (h : NextBy m b i rrCursor)
    (hi : i.val < m.count) (hj : j.val < m.count) (hij : i ≠ j) (hused : (b.pending j).used)
    (hprio : m.prio i = m.prio j) (hout : ¬ AgedAhead m b i j) :
    ({ b with rrCursor := rrCursor }.queue m).rank j < ({ b with rrCursor := rrCursor }.queue m).rank i := by
  cases h with
  | aged h =>
    have hle := Nat.le_of_not_lt fun hlt => hout ⟨h, hlt⟩
    exact Nat.lt_of_le_of_ne hle (rank_ne b hj hi hij.symm)
  | turn h =>
    obtain ⟨-, -, -, hfirst⟩ := h.spec
    exact (cursor_rotates b hi j (hfirst j hj hused hprio.symm hij.symm)).1

/-! ### Runs -/

def SendsSucceed (log : List MuxObs) : Prop :=
  ∀ slot hdr buf err, .notify slot hdr buf err ∈ log → err = .ok

theorem SendsSucceed.of_suffix {log before : List MuxObs} (h : SendsSucceed log) (hbefore : before <:+ log) :
    SendsSucceed before :=
  fun slot hdr buf err hmem => h slot hdr buf err (hbefore.subset hmem)

namespace MuxLink

/-- A tick in this state sends from slot `w`. -/
def Serves (send : SendNotify σ) (x : MuxLink σ) (w : Fin chMax) : Prop :=
  ∃ hdr buf err, (x.step send .arbiterTick).log = .notify w hdr buf err :: x.log

/-- Since slot `i` was served with `j` waiting, `j` has not been served. -/
structure Owed (send : SendNotify σ) (x : MuxLink σ) (i j : Fin chMax) (mid : List MuxInput) : Prop where
  waiting : (x.bind.pending j).used
  served : x.Serves send i
  unserved : ∀ mid₁ mid₂, mid = mid₁ ++ .arbiterTick :: mid₂ →
    ¬ (x.run send (.arbiterTick :: mid₁)).Serves send j

variable {x : MuxLink σ}

theorem Serves.unique (hi : x.Serves send i) (hj : x.Serves send j) : i = j := by
  obtain ⟨_, _, _, hi⟩ := hi
  obtain ⟨_, _, _, hj⟩ := hj
  cases List.head_eq_of_cons_eq (hi.symm.trans hj)
  rfl

/-- What a tick that serves slot `w` does to the queue. -/
inductive QueueServed (m : ChannelManager) (x y : MuxLink σ) (w : Fin chMax) : Prop
  | intro (rrCursor : ℕ) (hw : (x.bind.queue m).waiting w) (hnext : NextBy m (bumpAges m x.bind) w rrCursor)
      (hchoose : Chooses m.prio chArbFairAge (x.bind.queue m).older w
        ({ bumpAges m x.bind with rrCursor := rrCursor }.queue m).rank)
      (hqueue : y.bind.queue m = (x.bind.queue m).older.serve w
        ({ bumpAges m x.bind with rrCursor := rrCursor }.queue m).rank)

theorem tick_served (hx : x.Delivering m) (hfair : x.bind.Fair m)
    (hsent : SendsSucceed (x.step send .arbiterTick).log) :
    ((x.step send .arbiterTick).log = x.log ∧ (x.step send .arbiterTick).bind.queue m = x.bind.queue m) ∨
      ∃ w, x.Serves send w ∧ QueueServed m x (x.step send .arbiterTick) w := by
  have hticked := chUprotoArbiterTick_ticked send hx.slots.mgr hx.slots.used_lt
  unfold Serves
  change SendsSucceed (chUprotoArbiterTick send x).log at hsent
  change ((chUprotoArbiterTick send x).log = x.log ∧ (chUprotoArbiterTick send x).bind.queue m = _) ∨
    ∃ w, (∃ hdr buf err, (chUprotoArbiterTick send x).log = .notify w hdr buf err :: x.log) ∧
      QueueServed m x (chUprotoArbiterTick send x) w
  generalize chUprotoArbiterTick send x = y at hticked hsent ⊢
  cases hticked with
  | off hctx => exact .inl ⟨rfl, rfl⟩
  | idle hctx hidle => exact .inl ⟨rfl, hfair.queue_idle hidle⟩
  | dropped w rrCursor hctx hnext hw hchoose hbuf => exact absurd hbuf (hx.slots.older.nextHdr_fits w)
  | sent w rrCursor hctx hnext hw hchoose buf hbuf err transport hsend =>
    have hok := hsent _ _ _ _ List.mem_cons_self
    refine .inr ⟨w, ⟨_, _, _, rfl⟩, rrCursor, ?_, findNextReadyIndex_nextBy hx.slots.mgr hnext, ?_, ?_⟩
    · rw [hfair.bumpAges_pending] at hw
      exact hw
    · rw [← hfair.queue_bumpAges]
      exact hchoose
    · dsimp only
      rw [if_pos hok, ← hfair.queue_bumpAges, ChUprotoBind.Fair.queue_serve]
      rfl

theorem Serves.queueServed (hserves : x.Serves send w) (hx : x.Delivering m) (hfair : x.bind.Fair m)
    (hsent : SendsSucceed (x.step send .arbiterTick).log) :
    QueueServed m x (x.step send .arbiterTick) w := by
  rcases tick_served hx hfair hsent with ⟨hlog, -⟩ | ⟨i, hi, hqueue⟩
  · obtain ⟨hdr, buf, err, hnotify⟩ := hserves
    exact absurd (hnotify.symm.trans hlog) (List.cons_ne_self _ _)
  · rwa [hserves.unique hi]

theorem not_serves_of_owes (hx : x.Delivering m) (hfair : x.bind.Fair m)
    (hsent : SendsSucceed (x.step send .arbiterTick).log) (hprio : m.prio i = m.prio j)
    (howes : Owes (x.bind.queue m) i j) : ¬ x.Serves send i := by
  intro hi
  obtain ⟨rrCursor, hwaiting, -, hchoose, -⟩ := hi.queueServed hx hfair hsent
  exact howes.ne_chosen hprio hwaiting hchoose rfl

theorem owes_step (hx : x.Delivering m) (hfair : x.bind.Fair m) (input : MuxInput)
    (hsent : SendsSucceed (x.step send input).log) (hi : i.val < m.count)
    (howes : Owes (x.bind.queue m) i j)
    (htick : input = .arbiterTick → ¬ x.Serves send j ∧ ¬ TurnBetween m (bumpAges m x.bind) i j) :
    Owes ((x.step send input).bind.queue m) i j := by
  have hused : (x.bind.pending j).used := howes.waiting
  have hj : j.val < m.count := hfair.used_lt j hused
  cases input with
  | queueNotify chId sid flags payload len =>
    rcases step_queueNotify send hx.slots.mgr ⟨chId, sid, flags, payload, len⟩ with
      heq | ⟨k, -, -, heq⟩
    · rw [heq]
      exact howes
    · rw [heq]
      dsimp only
      rw [hfair.queue_replaced]
      exact howes.join k
  | arbiterTick =>
    obtain ⟨hunserved, hout⟩ := htick rfl
    rcases tick_served hx hfair hsent with ⟨-, hqueue⟩ | ⟨w, hw, rrCursor, -, hnext, -, hqueue⟩
    · rw [hqueue]
      exact howes
    · have hwj : w ≠ j := fun hwj => hunserved (hwj ▸ hw)
      rw [hqueue]
      refine howes.serve hwj ((hnext.before_iff hi hj ?_ hwj ?_).mpr hout)
      · rw [hfair.bumpAges_pending]
        exact hused
      · rw [hfair.queue_bumpAges]
        exact howes.rank

theorem owes_served (hx : x.Delivering m) (hfair : x.bind.Fair m)
    (hsent : SendsSucceed (x.step send .arbiterTick).log) (hi : i.val < m.count) (hij : i ≠ j)
    (hprio : m.prio i = m.prio j) (hused : (x.bind.pending j).used) (hserved : x.Serves send i)
    (hout : ¬ AgedAhead m (bumpAges m x.bind) i j) :
    Owes ((x.step send .arbiterTick).bind.queue m) i j := by
  obtain ⟨rrCursor, -, hnext, -, hqueue⟩ := hserved.queueServed hx hfair hsent
  rw [hqueue]
  refine .start hused hij (hnext.before_self hi (hfair.used_lt j hused) hij ?_ hprio hout)
  rw [hfair.bumpAges_pending]
  exact hused

theorem owes_run (hx : x.Delivering m) (hfair : x.bind.Fair m) (mid : List MuxInput)
    (hsent : SendsSucceed (x.run send mid).log) (hi : i.val < m.count)
    (howes : Owes (x.bind.queue m) i j)
    (htick : ∀ mid₁ mid₂, mid = mid₁ ++ .arbiterTick :: mid₂ →
      ¬ (x.run send mid₁).Serves send j ∧ ¬ TurnBetween m (bumpAges m (x.run send mid₁).bind) i j) :
    Owes ((x.run send mid).bind.queue m) i j := by
  induction mid using List.reverseRecOn with
  | nil => exact howes
  | append_singleton mid input ih =>
    rw [run_append] at hsent ⊢
    have hbefore : SendsSucceed (x.run send mid).log := hsent.of_suffix ((x.run send mid).step_log send input)
    have hmid := ih hbefore fun mid₁ mid₂ hsplit => htick mid₁ (mid₂ ++ [input]) (by rw [hsplit]; simp)
    refine owes_step (hx.run mid) (run_fair hfair mid hbefore) input hsent hi hmid fun hinput => ?_
    exact htick mid [] (by rw [hinput])

end MuxLink

/-- Equal priorities take turns. If the cursor is never moved between two channels by a higher
    priority while the second is owed its turn, and the first is never served for its age ahead of
    the second, then between two services of the first the waiting second is served. -/
theorem chUprotoArbiterTick_takesTurns (send : SendNotify σ) (m : ChannelManager) (ctx : Bool)
    (msgType : UInt8) (transport : σ) (inputs : List MuxInput) (i j : Fin chMax) (hij : i ≠ j)
    (hi : i.val < m.count) (hprio : m.prio i = m.prio j)
    (hsent : SendsSucceed ((muxStart ctx msgType m transport).run send inputs).log)
    (hturn : ∀ pre mid post, inputs = pre ++ .arbiterTick :: (mid ++ .arbiterTick :: post) →
      ((muxStart ctx msgType m transport).run send pre).Owed send i j mid →
        ¬ TurnBetween m (bumpAges m
          ((muxStart ctx msgType m transport).run send (pre ++ .arbiterTick :: mid)).bind) i j)
    (haged : ∀ pre post, inputs = pre ++ .arbiterTick :: post →
      let b := ((muxStart ctx msgType m transport).run send pre).bind
      (b.pending j).used → ¬ AgedAhead m (bumpAges m b) i j) :
    ∀ pre mid post, inputs = pre ++ .arbiterTick :: (mid ++ .arbiterTick :: post) →
      let x := (muxStart ctx msgType m transport).run send pre
      (x.bind.pending j).used → x.Serves send i → (x.run send (.arbiterTick :: mid)).Serves send i →
        ∃ mid₁ mid₂, mid = mid₁ ++ .arbiterTick :: mid₂ ∧
          (x.run send (.arbiterTick :: mid₁)).Serves send j := by
  intro pre mid post hsplit x hused hserved hagain
  by_contra hnever
  push Not at hnever
  have hend : (muxStart ctx msgType m transport).run send inputs =
      (((x.step send .arbiterTick).run send mid).step send .arbiterTick).run send post := by
    rw [hsplit, MuxLink.run_append, MuxLink.run_cons, MuxLink.run_append, MuxLink.run_cons]
  rw [hend] at hsent
  have hagainOk := hsent.of_suffix (MuxLink.run_log send _ post)
  have hmidOk := hagainOk.of_suffix (MuxLink.step_log send _ .arbiterTick)
  have htickOk := hmidOk.of_suffix (MuxLink.run_log send _ mid)
  have hxOk := htickOk.of_suffix (x.step_log send .arbiterTick)
  have hx : x.Delivering m := (muxStart_delivering ctx msgType m transport).run pre
  have hfair : x.bind.Fair m := MuxLink.run_fair (chUprotoBind_fair ctx msgType m) pre hxOk
  have hfair' : (x.step send .arbiterTick).bind.Fair m := MuxLink.step_fair hfair .arbiterTick htickOk
  have howes : Owes ((x.step send .arbiterTick).bind.queue m) i j :=
    MuxLink.owes_served hx hfair htickOk hi hij hprio hused hserved (haged pre _ hsplit hused)
  have hmid : Owes (((x.step send .arbiterTick).run send mid).bind.queue m) i j := by
    refine MuxLink.owes_run (hx.step _) hfair' mid hmidOk hi howes fun mid₁ mid₂ hmid => ?_
    refine ⟨hnever mid₁ mid₂ hmid, ?_⟩
    have hout := hturn pre mid₁ (mid₂ ++ .arbiterTick :: post) (by rw [hsplit, hmid]; simp)
      ⟨hused, hserved, fun mid₃ mid₄ hmid₁ => hnever mid₃ (mid₄ ++ .arbiterTick :: mid₂) (by
        rw [hmid, hmid₁]
        simp)⟩
    rwa [MuxLink.run_append, MuxLink.run_cons] at hout
  exact MuxLink.not_serves_of_owes ((hx.step _).run mid) (MuxLink.run_fair hfair' mid hmidOk) hagainOk hprio
    hmid hagain

def MuxObs.slot? : MuxObs → Option (Fin chMax)
  | .notify slot _ _ _ => some slot
  | _ => none

theorem MuxLink.serves_of_head {x : MuxLink σ} (hlog : (x.step send .arbiterTick).log ≠ x.log)
    (hhead : (x.step send .arbiterTick).log.head?.bind MuxObs.slot? = some w) : x.Serves send w := by
  rcases x.step_logs send .arbiterTick with heq | ⟨o, hlogs, heq⟩
  · exact absurd heq hlog
  · rw [heq] at hhead
    cases hlogs with
    | sent slot hdr buf err =>
      cases hhead
      exact ⟨hdr, buf, err, heq⟩

/-- Two channels of priority 1, and one of priority 5 between them. -/
def partedChannels : ChannelManager :=
  ((chmgrRegister chmgrInit ⟨1, 1⟩).bind fun m =>
    (chmgrRegister m ⟨3, 5⟩).bind fun m => chmgrRegister m ⟨2, 1⟩).getD chmgrInit

def betweenTurns : List MuxInput :=
  [.queueNotify 1 0 0 (some [7]) 1, .queueNotify 3 0 0 (some [9]) 1, .arbiterTick, .arbiterTick]

def partedInputs : List MuxInput :=
  [.queueNotify 1 0 0 (some [7]) 1, .queueNotify 2 0 0 (some [8]) 1, .arbiterTick] ++ betweenTurns ++ [.arbiterTick]

theorem partedChannels_no_turn_between (b : ChUprotoBind) : ¬ TurnBetween partedChannels b 0 2 := by
  rintro ⟨w, -, hhigher, hafter, hbefore⟩
  have hone : ∀ w : Fin chMax, partedChannels.prio 2 < partedChannels.prio w → w = 1 := by decide +kernel
  rw [hone w hhigher] at hafter hbefore
  have hcount : partedChannels.count = 3 := by decide +kernel
  rw [rank_of_lt b (by rw [hcount]; decide), rank_of_lt b (by rw [hcount]; decide), hcount] at hafter hbefore
  have hcycle : ∀ cursor < 3, cycleOffset 3 cursor 2 < cycleOffset 3 cursor 1 →
      ¬ cycleOffset 3 cursor 1 < cycleOffset 3 cursor 0 := by decide
  exact hcycle _ (Nat.mod_lt _ (Nat.succ_pos 2)) hafter hbefore

/-- The channel of priority 5 is served between two services of the first, and so is the second. -/
theorem chUprotoArbiterTick_takesTurns_two :
    let start := muxStart true 0x25 partedChannels (⟨uprotoInit true true none, 0, []⟩ : Link)
    let send := uprotoNotify quietEnv
    let x := start.run send [.queueNotify 1 0 0 (some [7]) 1, .queueNotify 2 0 0 (some [8]) 1]
    SendsSucceed (start.run send partedInputs).log ∧ (x.bind.pending 2).used ∧ x.Serves send 0 ∧
      (x.run send (.arbiterTick :: betweenTurns)).Serves send 0 ∧
      (x.run send (.arbiterTick :: betweenTurns.take 2)).Serves send 1 ∧
      ∃ mid₁ mid₂, betweenTurns = mid₁ ++ .arbiterTick :: mid₂ ∧ (x.run send (.arbiterTick :: mid₁)).Serves send 2 := by
  intro start send x
  have hall : ((start.run send partedInputs).log.all MuxObs.sentOk) = true := by decide +kernel
  have hsent : SendsSucceed (start.run send partedInputs).log := fun slot hdr buf err hmem =>
    of_decide_eq_true (List.all_eq_true.mp hall _ hmem)
  have hyoung : ∀ n ≤ partedInputs.length, let b := bumpAges partedChannels (start.run send (partedInputs.take n)).bind
      (findBest partedChannels b).all fun best => (findAged partedChannels b best.2).1.isNone := by decide +kernel
  have hused : (x.bind.pending 2).used := by decide +kernel
  have hserved : x.Serves send 0 := MuxLink.serves_of_head (by decide +kernel) (by decide +kernel)
  have hagain : (x.run send (.arbiterTick :: betweenTurns)).Serves send 0 :=
    MuxLink.serves_of_head (by decide +kernel) (by decide +kernel)
  refine ⟨hsent, hused, hserved, hagain, MuxLink.serves_of_head (by decide +kernel) (by decide +kernel), ?_⟩
  refine chUprotoArbiterTick_takesTurns send partedChannels true 0x25 _ partedInputs 0 2 (by decide) (by decide +kernel)
    (by decide +kernel) hsent (fun _ _ _ _ _ => partedChannels_no_turn_between _) ?_ _ betweenTurns [] rfl hused hserved
    hagain
  rintro pre post hsplit b - ⟨haged, -⟩
  obtain ⟨best, prio, hbest, haged⟩ := haged
  have hpre : partedInputs.take pre.length = pre := by rw [hsplit, List.take_left]
  have hnone := hyoung pre.length (by rw [hsplit, List.length_append]; exact Nat.le_add_right _ _)
  dsimp only at hnone
  rw [hpre] at hnone
  rw [hbest, Option.all_some, haged] at hnone
  exact absurd hnone (by decide)

/-- Two channels of priority 1 and, after them, one of priority 5. -/
def threeChannels : ChannelManager :=
  ((chmgrRegister chmgrInit ⟨1, 1⟩).bind fun m =>
    (chmgrRegister m ⟨2, 1⟩).bind fun m => chmgrRegister m ⟨3, 5⟩).getD chmgrInit

/-- The channel of priority 5 is served between, and the cursor begins again at the first channel. -/
theorem chUprotoArbiterTick_passes_over :
    let start := muxStart true 0x25 threeChannels (⟨uprotoInit true true none, 0, []⟩ : Link)
    let send := uprotoNotify quietEnv
    let pre : List MuxInput := [.queueNotify 1 0 0 (some [7]) 1, .queueNotify 2 0 0 (some [8]) 1]
    let mid : List MuxInput := [.queueNotify 3 0 0 (some [9]) 1, .arbiterTick, .queueNotify 1 0 0 (some [7]) 1]
    let x := start.run send pre
    threeChannels.prio 0 = threeChannels.prio 1 ∧
      SendsSucceed (x.run send (.arbiterTick :: (mid ++ [.arbiterTick]))).log ∧
      (x.bind.pending 1).used ∧ x.Serves send 0 ∧ (x.run send (.arbiterTick :: mid)).Serves send 0 ∧
      ((x.run send (.arbiterTick :: (mid ++ [.arbiterTick]))).bind.pending 1).used ∧
      ∀ mid₁ mid₂, mid = mid₁ ++ .arbiterTick :: mid₂ → ¬ (x.run send (.arbiterTick :: mid₁)).Serves send 1 := by
  intro start send pre mid x
  have hall : ((x.run send (.arbiterTick :: (mid ++ [.arbiterTick]))).log.all MuxObs.sentOk) = true := by
    decide +kernel
  refine ⟨by decide +kernel, fun slot hdr buf err hmem => of_decide_eq_true (List.all_eq_true.mp hall _ hmem),
    by decide +kernel, MuxLink.serves_of_head (by decide +kernel) (by decide +kernel),
    MuxLink.serves_of_head (by decide +kernel) (by decide +kernel), by decide +kernel, ?_⟩
  intro mid₁ mid₂ hmid
  have hthird : (x.run send [.arbiterTick, .queueNotify 3 0 0 (some [9]) 1]).Serves send 2 :=
    MuxLink.serves_of_head (by decide +kernel) (by decide +kernel)
  change [_, _, _] = mid₁ ++ _ at hmid
  -- the only tick in between comes second
  obtain _ | ⟨o, _ | ⟨o', _ | ⟨o'', mid₁⟩⟩⟩ := mid₁
  · cases hmid
  · cases hmid
    exact fun hserves => absurd (hserves.unique hthird) (by decide)
  · cases hmid
  · simp at hmid

end SpVision
