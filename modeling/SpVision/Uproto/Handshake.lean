import SpVision.Uproto.CleanStream

set_option autoImplicit false

/-!
# Two endpoints and the handshake

The channel may lose, delay, reorder and repeat the frames that an endpoint has
written, and makes up none. The application keeps to the message types that are
left to it.
-/
namespace SpVision

def userTypes : Set UInt8 := {type | uprotoMsgUserBase ≤ type}

theorem helloAck_not_mem_wireTypes : uprotoMsgHelloAck ∉ wireTypes userTypes := by
  simp only [wireTypes, userTypes, Set.mem_union, Set.mem_ofPred_eq, Set.mem_insert_iff,
    Set.mem_singleton_iff]
  decide

/-! ### Who writes a `HELLO_ACK` -/

variable {env : Env} {app : Set UInt8}

/-- Only an endpoint that is established has written a `HELLO_ACK`. -/
structure Session.Honest (app : Set UInt8) (s : Session) : Prop where
  slots : ∀ i, (s.slots i).state ≠ .free → wireType (s.slots i).txData ∈ wireTypes app
  writes : ∀ index data sent, .write index data sent ∈ s.log →
    wireType data = uprotoMsgHelloAck → s.state = .established

namespace Session.Honest

variable {s : Session}

theorem observe (h : s.Honest app) {o : UprotoObs} (ho : ∀ index data sent, o ≠ .write index data sent) :
    ({ s with log := o :: s.log } : Session).Honest app where
  slots := h.slots
  writes index data sent hmem := by
    rcases List.mem_cons.mp hmem with heq | hmem
    · exact absurd heq.symm (ho index data sent)
    · exact h.writes index data sent hmem

theorem write (h : s.Honest app) (hack : uprotoMsgHelloAck ∉ wireTypes app) {data : List UInt8}
    (htype : wireType data ∈ wireTypes app) (asked index sent : ℕ) :
    ({ s with asked := asked, log := .write index data sent :: s.log } : Session).Honest app where
  slots := h.slots
  writes index' data' sent' hmem hdata := by
    rcases List.mem_cons.mp hmem with heq | hmem
    · cases heq
      rw [hdata] at htype
      exact absurd htype hack
    · exact h.writes index' data' sent' hmem hdata

theorem update (h : s.Honest app) (slot : Fin uprotoMaxTransactions) (txn : UprotoTransaction)
    (htxn : txn.state ≠ .free → wireType txn.txData ∈ wireTypes app) :
    ({ s with slots := Function.update s.slots slot txn } : Session).Honest app where
  slots i := by
    dsimp only
    by_cases hi : i = slot
    · rw [hi, Function.update_self]
      exact htxn
    · rw [Function.update_of_ne hi]
      exact h.slots i
  writes := h.writes

/-- A state that is not established has no `HELLO_ACK` to account for. -/
theorem leave (h : s.Honest app) (hstate : s.state ≠ .established) (state : UprotoState) :
    ({ s with state := state } : Session).Honest app where
  slots := h.slots
  writes index data sent hmem hdata := absurd (h.writes index data sent hmem hdata) hstate

theorem callStep (h : s.Honest app) (hack : uprotoMsgHelloAck ∉ wireTypes app) {s' : Session}
    (hstep : CallStep env app s s') : s'.Honest app := by
  cases hstep with
  | ask => exact ⟨h.slots, h.writes⟩
  | send data sent htype => exact h.write hack htype _ _ _
  | issue => exact ⟨h.slots, (h.observe (o := .issue s.nextTxnId) nofun).writes⟩
  | prepare slot txn hslot htxn => exact h.update slot txn fun hne => absurd htxn hne
  | accept slot txn sentAt readAt hslot htxn hretry hid htype =>
    exact (h.update slot txn fun _ => htype).observe nofun
  | startHandshake hstate => exact h.leave (by rw [hstate]; decide) _

theorem step (h : s.Honest app) (hack : uprotoMsgHelloAck ∉ wireTypes app) {s' : Session}
    (hstep : SessionStep env app s s') : s'.Honest app := by
  cases hstep with
  | call hcall => exact h.callStep hack hcall
  | hello data sent htype => exact ⟨h.slots, fun _ _ _ _ _ => rfl⟩
  | establish => exact ⟨h.slots, fun _ _ _ _ _ => rfl⟩
  | lapse hstate => exact h.leave (by rw [hstate]; decide) _
  | crcError => exact ⟨h.slots, h.writes⟩
  | retransmit slot readAt sent ht hretry =>
    have htype := h.slots slot (by rw [ht.waiting]; decide)
    have hslot := h.update slot { s.slots slot with
      retryCount := (s.slots slot).retryCount + 1
      lastTxTime := stamp env s.timeNowMs readAt } fun _ => htype
    exact (hslot.observe (o := .retransmit slot readAt s.asked) nofun).write hack htype _ _ _
  | release slot hslot =>
    exact (h.update slot { s.slots slot with state := .free } fun hne => absurd rfl hne).observe nofun
  | event | handler | expire | complete | invoke | handle | handled => exact h.observe nofun

theorem runs (h : s.Honest app) (hack : uprotoMsgHelloAck ∉ wireTypes app) {s' : Session}
    (hruns : Runs env app s s') : s'.Honest app :=
  hruns.invariant (P := Session.Honest app) (fun _ _ hstep hs => hs.step hack hstep) h

end Session.Honest

theorem Endpoint.init_honest (portWrite timeNowMs : Bool) (config : Option UprotoConfig) :
    (init portWrite timeNowMs config).link.session.Honest app where
  slots _ hne := absurd rfl hne
  writes _ _ _ hmem := nomatch hmem

/-! ### What a `HELLO_ACK` does to the state -/

theorem uprotoCompleteTransaction_established (env : Env) (slot : Fin uprotoMaxTransactions)
    (err : UprotoError) (rsp : Option (List UInt8)) (l : Link) :
    (uprotoCompleteTransaction env slot err rsp l).ctx.state = .established ↔
      l.ctx.state = .established := by
  unfold uprotoCompleteTransaction
  dsimp only
  cases (l.ctx.transactions slot).callback with
  | none => exact Iff.rfl
  | some cb =>
    exact (callback_undisturbed env ((l.observe (.complete slot _ err rsp)).observe
      (.invoke slot cb (l.ctx.transactions slot).user err rsp))).established

theorem uprotoAnswer_established (env : Env) (frame : UprotoFrame) (rsp : Option (List UInt8)) (l : Link) :
    (uprotoAnswer env frame rsp l).ctx.state = .established ↔ l.ctx.state = .established := by
  unfold uprotoAnswer
  cases uprotoFindTransaction l.ctx frame.txnId with
  | none => exact Iff.rfl
  | some slot => exact uprotoCompleteTransaction_established env slot .ok rsp l

theorem uprotoRouteFrame_helloAck {frame : UprotoFrame} (htype : frame.type = uprotoMsgHelloAck) (l : Link) :
    (uprotoRouteFrame env frame l).ctx.state = .established ↔ l.ctx.state ≠ .idle := by
  unfold uprotoRouteFrame
  rw [if_neg (by rw [htype]; decide), if_pos htype, uprotoAnswer_established]
  split_ifs with hstate
  · have hfire : (uprotoFireEvent env .handshakeCompleted (l.setState .established)).ctx.state =
        .established := (uprotoFireEvent_undisturbed env .handshakeCompleted _).established.mpr rfl
    rw [hfire, hstate]
    decide
  · cases hcase : l.ctx.state
    · decide
    · exact absurd hcase hstate
    · decide

theorem uprotoHandleFrame_helloAck {frame : UprotoFrame} (htype : frame.type = uprotoMsgHelloAck) (l : Link) :
    (uprotoHandleFrame env frame l).ctx.state = .established ↔ l.ctx.state ≠ .idle := by
  unfold uprotoHandleFrame
  dsimp only
  have hctx := uprotoNow_ctx env ((l.observe (.handle frame)).modifyStats
    fun s => { s with rxFrames := s.rxFrames + 1 })
  generalize uprotoNow env _ = reading at hctx ⊢
  refine (uprotoRouteFrame_helloAck htype _).trans (not_congr ?_)
  dsimp only
  rw [hctx]
  rfl

/-! ### The network -/

inductive Side
  | near | far
  deriving DecidableEq, Repr

def Side.peer : Side → Side
  | .near => .far
  | .far => .near

theorem Side.peer_ne (side : Side) : side.peer ≠ side := by
  cases side <;> decide

abbrev Net : Type := Side → Endpoint

/-- The application of one side calls or ticks its context, or a frame arrives there. -/
inductive NetMove
  | call (side : Side) (c : UprotoCall)
  | tick (side : Side)
  | deliver (side : Side) (frame : TxFrame)

namespace NetMove

def side : NetMove → Side
  | call side _ | tick side | deliver side _ => side

def input : NetMove → UprotoInput
  | call _ c => .call c
  | tick _ => .tick
  | deliver _ frame => .rxBytes frame.bytes

end NetMove

namespace Net

def step (envs : Side → Env) (n : Net) (m : NetMove) : Net :=
  Function.update n m.side ((n m.side).step (envs m.side) m.input)

/-- A frame that arrives was written by the other side. -/
def Permits (n : Net) : NetMove → Prop
  | .call _ c => c.Uses userTypes
  | .tick _ => True
  | .deliver side frame =>
    ∃ index, .write index frame.bytes frame.bytes.length ∈ (n side.peer).link.log

def Genuine (envs : Side → Env) : Net → List NetMove → Prop
  | _, [] => True
  | n, m :: ms => n.Permits m ∧ Genuine envs (n.step envs m) ms

end Net

/-- The states before and after a `HELLO_ACK` completed a `HELLO`, and the peer's after it. -/
structure HelloCompletion where
  before : UprotoState
  after : UprotoState
  peer : UprotoState
  deriving DecidableEq, Repr

def UprotoObs.completesHello : UprotoObs → Bool
  | .complete _ txn err _ => txn.type = uprotoMsgHello ∧ err = .ok
  | _ => false

def Link.since (l l' : Link) : List UprotoObs := l'.log.take (l'.log.length - l.log.length)

namespace Net

def helloCompletion (envs : Side → Env) (n : Net) (m : NetMove) : Option HelloCompletion :=
  match m with
  | .deliver side frame =>
    let n' := n.step envs m
    if frame.type = uprotoMsgHelloAck ∧
        (((n side).link.since (n' side).link).any UprotoObs.completesHello) then
      some ⟨(n side).link.ctx.state, (n' side).link.ctx.state, (n' side.peer).link.ctx.state⟩
    else none
  | _ => none

def helloCompletions (envs : Side → Env) : Net → List NetMove → List HelloCompletion
  | _, [] => []
  | n, m :: ms => (n.helloCompletion envs m).toList ++ helloCompletions envs (n.step envs m) ms

end Net

/-! ### Runs of the network -/

/-- The bytes of a frame that arrives at an empty buffer are handled as that frame. -/
theorem Endpoint.onRxBytes_frame (env : Env) {e : Endpoint} (hquiet : e.rx.bytes = []) (f : TxFrame) :
    (e.onRxBytes env f.bytes).rx.bytes = [] ∧
      (e.onRxBytes env f.bytes).link = uprotoHandleFrame env f.frame e.link := by
  have hfit : ([] : List UInt8).length + f.bytes.length ≤ uprotoRxBufferSize := by
    have hpay := f.payload_le
    simp only [uprotoMaxPayload] at hpay
    rw [List.length_nil, f.bytes_length, uprotoRxBufferSize]
    omega
  have hone : [] ++ f.bytes = frameBytes [f] ++ [] := by simp [frameBytes]
  have hcall := rxRead_call_frames 0 [f] [] hfit hone (.nil [])
  obtain ⟨hbytes, hlink⟩ := uprotoOnRxBytes_call (rxSink env) f.bytes e.rx e.link 0
  rw [hquiet, hcall] at hbytes hlink
  exact ⟨hbytes, hlink⟩

namespace Net

structure Settled (e : Endpoint) : Prop where
  quiet : e.rx.bytes = []
  resting : completing e.link.log = none
  honest : e.link.session.Honest userTypes

theorem Settled.init (portWrite timeNowMs : Bool) (config : Option UprotoConfig) :
    Settled (Endpoint.init portWrite timeNowMs config) :=
  ⟨Endpoint.init_bytes portWrite timeNowMs config, rfl, Endpoint.init_honest portWrite timeNowMs config⟩

theorem Settled.step {e : Endpoint} (h : Settled e) {env : Env} (henv : env.Uses userTypes)
    {input : UprotoInput} (hinput : input.Uses userTypes)
    (hframe : ∀ data, input = .rxBytes data → ∃ f : TxFrame, f.bytes = data) :
    Settled (e.step env input) := by
  have hreached : Reached env userTypes e.link.session e.link := ⟨.refl, h.resting⟩
  have hstep := hreached.step henv hinput
  refine ⟨?_, hstep.resting, h.honest.runs helloAck_not_mem_wireTypes hstep.runs⟩
  cases input with
  | call c =>
    rw [Endpoint.step_call]
    exact h.quiet
  | tick =>
    rw [Endpoint.step_tick]
    exact h.quiet
  | rxBytes data =>
    obtain ⟨f, rfl⟩ := hframe data rfl
    exact (Endpoint.onRxBytes_frame env h.quiet f).1

variable {envs : Side → Env}

theorem Permits.uses {n : Net} {m : NetMove} (h : n.Permits m) : m.input.Uses userTypes := by
  cases m with
  | call side c => exact h
  | tick side => trivial
  | deliver side frame => trivial

theorem settled_step {n : Net} (hn : ∀ side, Settled (n side)) (henvs : ∀ side, (envs side).Uses userTypes)
    {m : NetMove} (hm : n.Permits m) (side : Side) : Settled (n.step envs m side) := by
  unfold step
  by_cases hside : side = m.side
  · subst hside
    rw [Function.update_self]
    apply (hn m.side).step (henvs m.side) hm.uses
    intro data hdata
    cases m with
    | deliver side frame =>
      cases hdata
      exact ⟨frame, rfl⟩
    | call | tick => cases hdata
  · rw [Function.update_of_ne hside]
    exact hn side

theorem step_side (envs : Side → Env) (n : Net) (m : NetMove) :
    n.step envs m m.side = (n m.side).step (envs m.side) m.input := Function.update_self _ _ _

theorem step_peer (envs : Side → Env) (n : Net) (m : NetMove) :
    n.step envs m m.side.peer = n m.side.peer := Function.update_of_ne m.side.peer_ne _ _

theorem helloCompletion_agreed {n : Net} (hn : ∀ side, Settled (n side)) {m : NetMove}
    (hm : n.Permits m) {c : HelloCompletion} (hc : n.helloCompletion envs m = some c) :
    c.after = .established ∧ c.peer = .established ↔ c.before ≠ .idle := by
  cases m with
  | call | tick => cases hc
  | deliver side frame =>
    obtain ⟨index, hwrite⟩ := hm
    unfold helloCompletion at hc
    dsimp only at hc
    split_ifs at hc with hack
    cases hc
    have hside := step_side envs n (.deliver side frame)
    have hpeer := step_peer envs n (.deliver side frame)
    dsimp only [NetMove.side, NetMove.input] at hside hpeer
    dsimp only
    have hpeerState := (hn side.peer).honest.writes _ _ _ hwrite hack.1
    rw [Link.session_state] at hpeerState
    rw [hside, hpeer, hpeerState, and_iff_left rfl]
    have hlink := (Endpoint.onRxBytes_frame (envs side) (hn side).quiet frame).2
    have htype : frame.frame.type = uprotoMsgHelloAck := hack.1
    have hstate := @uprotoHandleFrame_helloAck (envs side) frame.frame htype (n side).link
    rw [← hstate, ← hlink]
    rfl

theorem helloCompletions_agreed {n : Net} (hn : ∀ side, Settled (n side))
    (henvs : ∀ side, (envs side).Uses userTypes) {ms : List NetMove} (hms : n.Genuine envs ms) :
    ∀ c ∈ n.helloCompletions envs ms,
      c.after = .established ∧ c.peer = .established ↔ c.before ≠ .idle := by
  induction ms generalizing n with
  | nil => exact nofun
  | cons m ms ih =>
    obtain ⟨hm, hms⟩ := hms
    intro c hc
    rcases List.mem_append.mp hc with hc | hc
    · exact helloCompletion_agreed hn hm (Option.mem_toList.mp hc)
    · exact ih (settled_step hn henvs hm) hms c hc

end Net

/-- The arguments of `uproto_init` on one side. -/
structure SideConfig where
  portWrite : Bool
  timeNowMs : Bool
  config : Option UprotoConfig

def Net.init (sides : Side → SideConfig) : Net := fun side =>
  Endpoint.init (sides side).portWrite (sides side).timeNowMs (sides side).config

/-- Whenever a `HELLO` is completed by a `HELLO_ACK`, both ends are established, exactly if the
    end that receives it was not idle. -/
theorem uprotoHelloAck_agreement_iff (envs : Side → Env) (henvs : ∀ side, (envs side).Uses userTypes)
    (sides : Side → SideConfig) (moves : List NetMove) (hmoves : (Net.init sides).Genuine envs moves) :
    ∀ c ∈ (Net.init sides).helloCompletions envs moves,
      c.after = .established ∧ c.peer = .established ↔ c.before ≠ .idle :=
  Net.helloCompletions_agreed (fun _ => .init _ _ _) henvs hmoves

def handshakeSide : SideConfig :=
  ⟨true, true, some { handshakeTimeoutMs := 1000, heartbeatIntervalMs := 0, defaultTimeoutMs := 3000
                      defaultRetries := 3, eventCb := false }⟩

def helloFrame : TxFrame := ⟨uprotoFlagRequest, uprotoMsgHello, 1, 0, 0, [], Nat.zero_le _⟩

def helloAckFrame : TxFrame := ⟨uprotoFlagResponse, uprotoMsgHelloAck, 1, 0, 0, [], Nat.zero_le _⟩

def promptMoves : List NetMove :=
  [.call .near .startHandshake, .deliver .far helloFrame, .deliver .near helloAckFrame]

theorem uprotoHelloAck_agreement_iff_prompt :
    let c : HelloCompletion := ⟨.handshaking, .established, .established⟩
    c ∈ (Net.init fun _ => handshakeSide).helloCompletions (fun _ => quietEnv) promptMoves ∧
      (c.after = .established ∧ c.peer = .established ↔ c.before ≠ .idle) := by
  have hmem : ⟨.handshaking, .established, .established⟩ ∈
      (Net.init fun _ => handshakeSide).helloCompletions (fun _ => quietEnv) promptMoves := by
    decide +kernel
  exact ⟨hmem, uprotoHelloAck_agreement_iff (fun _ => quietEnv) (fun _ _ _ hc => nomatch hc)
    (fun _ => handshakeSide) promptMoves
    ⟨trivial, ⟨1, by decide +kernel⟩, ⟨1, by decide +kernel⟩, trivial⟩ _ hmem⟩

def lateEnv : Env :=
  ⟨fun index => if index < 3 then 0 else 1001, fun _ data => data.length, fun _ => []⟩

def lateMoves : List NetMove :=
  [.call .near .startHandshake, .tick .near, .deliver .far helloFrame, .deliver .near helloAckFrame]

/-- The tick reports the handshake timeout and retransmits the `HELLO`; the answer completes it
    and leaves the context idle. -/
theorem uprotoHelloAck_after_timeout : ∃ envs sides moves, (∀ side, (envs side).Uses userTypes) ∧
    (Net.init sides).Genuine envs moves ∧
    ∃ c ∈ (Net.init sides).helloCompletions envs moves,
      ¬ (c.after = .established ∧ c.peer = .established) := by
  refine ⟨fun _ => lateEnv, fun _ => handshakeSide, lateMoves, (fun _ _ _ hc => nomatch hc),
    ⟨trivial, trivial, ⟨4, by decide +kernel⟩, ⟨1, by decide +kernel⟩, trivial⟩,
    ⟨.idle, .idle, .established⟩, by decide +kernel, by decide⟩

end SpVision
