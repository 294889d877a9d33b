import SpVision.Uproto.RxParse
import SpVision.Uproto.SessionRuns

set_option autoImplicit false

/-!
# A whole context, and its runs

The context with its receive buffer, driven by API calls, ticks and received
bytes in any order.
-/
namespace SpVision
open Incremental

structure Endpoint where
  link : Link
  rx : RxBuffer

def rxSink (env : Env) : RxSink Link := ⟨uprotoHandleFrame env, uprotoCrcError env⟩

inductive UprotoInput
  | call (c : UprotoCall)
  | rxBytes (data : List UInt8)
  | tick

def UprotoInput.Uses (app : Set UInt8) : UprotoInput → Prop
  | .call c => c.Uses app
  | _ => True

namespace Endpoint

def init (portWrite timeNowMs : Bool) (config : Option UprotoConfig) : Endpoint :=
  ⟨⟨uprotoInit portWrite timeNowMs config, 0, []⟩, .empty⟩

def onRxBytes (env : Env) (e : Endpoint) (data : List UInt8) : Endpoint :=
  let p := uprotoOnRxBytes (rxSink env) data e.rx e.link
  ⟨p.2, p.1⟩

def step (env : Env) (e : Endpoint) : UprotoInput → Endpoint
  | .call c => { e with link := uprotoCall env e.link c }
  | .rxBytes data => e.onRxBytes env data
  | .tick => { e with link := uprotoTick env e.link }

def run (env : Env) (e : Endpoint) (inputs : List UprotoInput) : Endpoint := inputs.foldl (step env) e

end Endpoint

variable {env : Env} {app : Set UInt8}

/-! ### Runs of an endpoint are runs of the transition system -/

theorem Reached.segment {s : Session} {l : Link} (h : Reached env app s l) (henv : env.Uses app)
    (seg : RxSegment) : Reached env app s ((rxSink env).segment l seg) := by
  cases seg with
  | noise => exact h
  | badLength => exact h
  | block start len result =>
    cases result with
    | ok frame => exact h.handleFrame henv frame
    | error err =>
      cases err
      case crc => exact h.crcError henv
      all_goals exact h

theorem Reached.segments {s : Session} {l : Link} (h : Reached env app s l) (henv : env.Uses app)
    (segs : List RxSegment) : Reached env app s (segs.foldl (rxSink env).segment l) := by
  induction segs generalizing l with
  | nil => exact h
  | cons seg segs ih => exact ih (h.segment henv seg)

theorem Reached.onRxBytes {s : Session} {e : Endpoint} (h : Reached env app s e.link)
    (henv : env.Uses app) (data : List UInt8) : Reached env app s (e.onRxBytes env data).link := by
  have hcall := (uprotoOnRxBytes_call (rxSink env) data e.rx e.link 0).2
  unfold Endpoint.onRxBytes
  dsimp only
  rw [hcall]
  exact h.segments henv _

theorem Reached.step {s : Session} {e : Endpoint} (h : Reached env app s e.link)
    (henv : env.Uses app) {input : UprotoInput} (hinput : input.Uses app) :
    Reached env app s (e.step env input).link := by
  unfold Endpoint.step
  cases input with
  | call c => exact h.calls (Calls.call .refl hinput)
  | rxBytes data => exact h.onRxBytes henv data
  | tick =>
    dsimp only
    exact h.tick henv

theorem Reached.run {s : Session} {e : Endpoint} (h : Reached env app s e.link)
    (henv : env.Uses app) {inputs : List UprotoInput} (hinputs : ∀ i ∈ inputs, i.Uses app) :
    Reached env app s (e.run env inputs).link := by
  induction inputs generalizing e with
  | nil => exact h
  | cons i is ih =>
    exact ih (h.step henv (hinputs i List.mem_cons_self))
      fun j hj => hinputs j (List.mem_cons_of_mem _ hj)

theorem UprotoInput.uses_univ (input : UprotoInput) : input.Uses Set.univ := by
  cases input with
  | call c => cases c <;> trivial
  | rxBytes => trivial
  | tick => trivial

theorem Endpoint.init_reached (env : Env) (app : Set UInt8) (portWrite timeNowMs : Bool)
    (config : Option UprotoConfig) :
    Reached env app (init portWrite timeNowMs config).link.session (init portWrite timeNowMs config).link :=
  ⟨.refl, rfl⟩

/-! ### What a tick adds to the log -/

/-- `log'` is `log` with entries of one kind on top. -/
def Adds (kind : UprotoObs → Bool) (log log' : List UprotoObs) : Prop :=
  ∃ new, log' = new ++ log ∧ ∀ o ∈ new, kind o

namespace Adds

variable {kind kind' : UprotoObs → Bool} {log log' log'' : List UprotoObs}

theorem refl (kind : UprotoObs → Bool) (log : List UprotoObs) : Adds kind log log := ⟨[], rfl, nofun⟩

theorem cons (h : Adds kind log log') {o : UprotoObs} (ho : kind o) : Adds kind log (o :: log') := by
  obtain ⟨new, rfl, hnew⟩ := h
  exact ⟨o :: new, rfl, List.forall_mem_cons.mpr ⟨ho, hnew⟩⟩

theorem trans (h : Adds kind log log') (h' : Adds kind log' log'') : Adds kind log log'' := by
  obtain ⟨new, rfl, hnew⟩ := h
  obtain ⟨new', rfl, hnew'⟩ := h'
  exact ⟨new' ++ new, (List.append_assoc _ _ _).symm, List.forall_mem_append.mpr ⟨hnew', hnew⟩⟩

theorem mono (h : Adds kind log log') (hkind : ∀ o, kind o → kind' o) : Adds kind' log log' := by
  obtain ⟨new, hlog, hnew⟩ := h
  exact ⟨new, hlog, fun o ho => hkind o (hnew o ho)⟩

theorem handledFrames (h : Adds kind log log') (hkind : ∀ o, kind o → o.frame? = none) :
    handledFrames log' = handledFrames log := by
  obtain ⟨new, rfl, hnew⟩ := h
  induction new with
  | nil => rfl
  | cons o new ih =>
    obtain ⟨ho, hnew⟩ := List.forall_mem_cons.mp hnew
    rw [List.cons_append, handledFrames_cons, hkind o ho, ih hnew]
    simp

end Adds

theorem Calls.adds {s s' : Session} (h : Calls env app s s') : Adds UprotoObs.isCall s.log s'.log := by
  induction h with
  | refl => exact .refl _ _
  | tail _ hstep ih =>
    cases hstep with
    | ask | prepare | startHandshake => exact ih
    | send | issue | accept => exact ih.cons rfl

theorem callback_adds (env : Env) (l : Link) : Adds UprotoObs.isCall l.log (callback env l).log :=
  (Calls.callback (.refl : Calls env Set.univ _ l.session) env.uses_univ).adds

theorem uprotoFireEvent_adds (env : Env) (event : UprotoEvent) (l : Link) :
    Adds UprotoObs.isCall l.log (uprotoFireEvent env event l).log := by
  unfold uprotoFireEvent
  split_ifs
  · have hevent : Adds UprotoObs.isCall l.log (l.observe (.event event)).log := (Adds.refl _ _).cons rfl
    exact hevent.trans (callback_adds env _)
  · exact .refl _ _

/-- Entries of application calls, retransmissions and time-outs. -/
def UprotoObs.isTick : UprotoObs → Bool
  | .retransmit _ _ _ | .expire _ _ _ | .complete _ _ .timeout _ | .invoke _ _ _ _ _ | .release _ => true
  | o => o.isCall

theorem UprotoObs.isTick_of_isCall (o : UprotoObs) (ho : o.isCall) : o.isTick := by
  cases o <;> first | rfl | cases ho

theorem uprotoCompleteTransaction_adds (env : Env) (slot : Fin uprotoMaxTransactions)
    (rsp : Option (List UInt8)) (l : Link) :
    Adds UprotoObs.isTick l.log (uprotoCompleteTransaction env slot .timeout rsp l).log := by
  have hbegin : Adds UprotoObs.isTick l.log
      (l.observe (.complete slot (l.ctx.transactions slot) .timeout rsp)).log := (Adds.refl _ _).cons rfl
  unfold uprotoCompleteTransaction
  dsimp only
  refine Adds.cons ?_ rfl
  cases (l.ctx.transactions slot).callback with
  | none => exact hbegin
  | some cb => exact (hbegin.cons rfl).trans ((callback_adds env _).mono UprotoObs.isTick_of_isCall)

theorem uprotoTickTransaction_adds (env : Env) (now : UInt32) (readAt : ℕ) (l : Link)
    (slot : Fin uprotoMaxTransactions) :
    Adds UprotoObs.isTick l.log (uprotoTickTransaction env now readAt l slot).log := by
  have hevent : ∀ event (l' : Link), Adds UprotoObs.isTick l'.log (uprotoFireEvent env event l').log :=
    fun event l' => (uprotoFireEvent_adds env event l').mono UprotoObs.isTick_of_isCall
  unfold uprotoTickTransaction
  dsimp only
  split_ifs
  · exact .refl _ _
  · refine Adds.trans ?_ (hevent .retry _)
    exact ((Adds.refl _ _).cons rfl).cons rfl
  · have hexpire : Adds UprotoObs.isTick l.log ((l.modifyStats fun c =>
        { c with timeouts := c.timeouts + 1 }).observe (.expire slot readAt l.step)).log :=
      (Adds.refl _ _).cons rfl
    exact (hexpire.trans (hevent .timeout _)).trans (uprotoCompleteTransaction_adds env slot none _)
  · exact .refl _ _

theorem uprotoTick_adds (env : Env) (l : Link) : Adds UprotoObs.isTick l.log (uprotoTick env l).log := by
  have hslots : ∀ now readAt (slots : List (Fin uprotoMaxTransactions)) (l : Link),
      Adds UprotoObs.isTick l.log (slots.foldl (uprotoTickTransaction env now readAt) l).log := by
    intro now readAt slots
    induction slots with
    | nil => exact fun l => .refl _ _
    | cons slot slots ih =>
      exact fun l => (uprotoTickTransaction_adds env now readAt l slot).trans (ih _)
  have hshake : ∀ now (l : Link), Adds UprotoObs.isCall l.log (uprotoTickHandshake env now l).log := by
    intro now l
    unfold uprotoTickHandshake
    split_ifs
    · exact uprotoFireEvent_adds env .handshakeTimeout (l.setState .idle)
    · exact .refl _ _
  have hbeat : ∀ now (l : Link), Adds UprotoObs.isCall l.log (uprotoTickHeartbeat env now l).log := by
    intro now l
    unfold uprotoTickHeartbeat
    split_ifs
    · have htype : uprotoMsgPing ∈ wireTypes Set.univ := .inl (Set.mem_univ _)
      exact (Calls.sendRequest (.refl : Calls env Set.univ _ l.session) htype _ _ _ _ _ _).adds
    · exact .refl _ _
  have hnow : Adds UprotoObs.isCall l.log (uprotoNow env l).2.log := by
    rw [uprotoNow_log]
    exact .refl _ _
  unfold uprotoTick
  have hstart := (hnow.trans (hshake (uprotoNow env l).1 _)).mono UprotoObs.isTick_of_isCall
  exact (hstart.trans (hslots _ _ _ _)).trans ((hbeat _ _).mono UprotoObs.isTick_of_isCall)

/-! ### Frames handled and checksum errors counted -/

/-- No frame was handled and no checksum error counted in between. -/
structure Session.SameTraffic (s s' : Session) : Prop where
  frames : handledFrames s'.log = handledFrames s.log
  crcErrors : s'.crcErrors = s.crcErrors

theorem Session.Undisturbed.sameTraffic {s s' : Session} (h : s.Undisturbed s') : s.SameTraffic s' :=
  ⟨h.frames, h.crcErrors⟩

theorem Session.SameTraffic.trans {s s' s'' : Session} (h : s.SameTraffic s')
    (h' : s'.SameTraffic s'') : s.SameTraffic s'' :=
  ⟨h'.frames.trans h.frames, h'.crcErrors.trans h.crcErrors⟩

theorem Link.observe_sameTraffic (l : Link) {o : UprotoObs} (ho : o.frame? = none) :
    l.session.SameTraffic (l.observe o).session := by
  refine ⟨?_, rfl⟩
  change handledFrames (o :: l.log) = handledFrames l.log
  rw [handledFrames_cons, ho]
  simp

theorem uprotoCompleteTransaction_sameTraffic (env : Env) (slot : Fin uprotoMaxTransactions)
    (err : UprotoError) (rsp : Option (List UInt8)) (l : Link) :
    l.session.SameTraffic (uprotoCompleteTransaction env slot err rsp l).session := by
  unfold uprotoCompleteTransaction
  dsimp only
  have hbegin := l.observe_sameTraffic (o := .complete slot (l.ctx.transactions slot) err rsp) rfl
  have hrelease : ∀ l' : Link, l'.session.SameTraffic
      ((l'.setTransaction slot { l'.ctx.transactions slot with state := .free }).observe
        (.release slot)).session := fun l' => ⟨by
      change handledFrames (_ :: l'.log) = handledFrames l'.log
      simp [UprotoObs.frame?], rfl⟩
  cases (l.ctx.transactions slot).callback with
  | none => exact hbegin.trans (hrelease _)
  | some cb =>
    have hinvoke := hbegin.trans (Link.observe_sameTraffic _
      (o := .invoke slot cb (l.ctx.transactions slot).user err rsp) rfl)
    exact (hinvoke.trans (callback_undisturbed env _).sameTraffic).trans (hrelease _)

theorem uprotoAnswer_sameTraffic (env : Env) (frame : UprotoFrame) (rsp : Option (List UInt8))
    (l : Link) : l.session.SameTraffic (uprotoAnswer env frame rsp l).session := by
  unfold uprotoAnswer
  cases uprotoFindTransaction l.ctx frame.txnId with
  | none => exact ⟨rfl, rfl⟩
  | some slot => exact uprotoCompleteTransaction_sameTraffic env slot .ok rsp l

theorem uprotoRouteFrame_sameTraffic (env : Env) (frame : UprotoFrame) (l : Link) :
    l.session.SameTraffic (uprotoRouteFrame env frame l).session := by
  have hsend : ∀ flags type txnId payload len, l.session.SameTraffic
      (uprotoSendFrame env flags type txnId payload len l).2.session := fun _ _ _ _ _ =>
    (uprotoSendFrame_undisturbed env _ _ _ _ _ l).sameTraffic
  have hup : ∀ l' : Link, l.session.SameTraffic l'.session → l.session.SameTraffic
      (uprotoFireEvent env .handshakeCompleted (l'.setState .established)).session := fun l' h =>
    h.trans ((⟨rfl, rfl⟩ : l'.session.SameTraffic (l'.setState .established).session).trans
      (uprotoFireEvent_undisturbed env _ _).sameTraffic)
  unfold uprotoRouteFrame
  dsimp only
  split_ifs
  · exact hup _ (hsend _ _ _ _ _)
  · exact hsend _ _ _ _ _
  · exact (hup l ⟨rfl, rfl⟩).trans (uprotoAnswer_sameTraffic env frame _ _)
  · exact uprotoAnswer_sameTraffic env frame _ l
  · exact hsend _ _ _ _ _
  · exact uprotoAnswer_sameTraffic env frame _ l
  · exact uprotoAnswer_sameTraffic env frame _ l
  · split
    · exact (l.observe_sameTraffic (o := .handler _ frame.txnId frame.payload) rfl).trans
        (callback_undisturbed env _).sameTraffic
    · exact ⟨rfl, rfl⟩
  · split
    · exact (l.observe_sameTraffic (o := .handler _ frame.txnId frame.payload) rfl).trans
        (callback_undisturbed env _).sameTraffic
    · exact hsend _ _ _ _ _

theorem uprotoHandleFrame_traffic (env : Env) (frame : UprotoFrame) (l : Link) :
    handledFrames (uprotoHandleFrame env frame l).log = handledFrames l.log ++ [frame] ∧
      (uprotoHandleFrame env frame l).ctx.stats.crcErrors = l.ctx.stats.crcErrors := by
  unfold uprotoHandleFrame
  dsimp only
  have hlog := uprotoNow_log env ((l.observe (.handle frame)).modifyStats
    fun c => { c with rxFrames := c.rxFrames + 1 })
  have hctx := uprotoNow_ctx env ((l.observe (.handle frame)).modifyStats
    fun c => { c with rxFrames := c.rxFrames + 1 })
  generalize uprotoNow env _ = reading at hlog hctx ⊢
  generalize hl' : ({ reading.2 with ctx :=
    { reading.2.ctx with lastRxTime := reading.1, remoteSeq := frame.seq } } : Link) = l'
  have hroute := uprotoRouteFrame_sameTraffic env frame l'
  constructor
  · have hframes : handledFrames l'.log = handledFrames l.log ++ [frame] := by
      rw [← hl', hlog]
      exact handledFrames_cons _ _
    have hend := (uprotoRouteFrame env frame l').observe_sameTraffic (o := .handled) rfl
    exact (hend.frames.trans hroute.frames).trans hframes
  · have hcrc : l'.ctx.stats.crcErrors = l.ctx.stats.crcErrors := by
      rw [← hl']
      change reading.2.ctx.stats.crcErrors = _
      rw [hctx]
      rfl
    exact hroute.crcErrors.trans hcrc

theorem uprotoCrcError_frames (env : Env) (l : Link) :
    handledFrames (uprotoCrcError env l).log = handledFrames l.log :=
  (uprotoFireEvent_undisturbed env .crcError _).frames

theorem uprotoTick_frames (env : Env) (l : Link) :
    handledFrames (uprotoTick env l).log = handledFrames l.log := by
  refine (uprotoTick_adds env l).handledFrames fun o ho => ?_
  cases o <;> first | rfl | cases ho

/-- The frames handled while segments are processed are the deliveries among them. -/
theorem handledFrames_segments (env : Env) (segs : List RxSegment) (l : Link) :
    handledFrames (segs.foldl (rxSink env).segment l).log =
      handledFrames l.log ++ (deliveries segs).map Prod.snd := by
  induction segs generalizing l with
  | nil => simp [deliveries]
  | cons seg segs ih =>
    rw [List.foldl_cons, ih]
    cases seg with
    | noise => rfl
    | badLength => rfl
    | block start len result =>
      cases result with
      | ok frame =>
        change handledFrames (uprotoHandleFrame env frame l).log ++ _ = _
        rw [(uprotoHandleFrame_traffic env frame l).1]
        simp [deliveries, RxSegment.delivery]
      | error err =>
        cases err
        case crc =>
          change handledFrames (uprotoCrcError env l).log ++ _ = _
          rw [uprotoCrcError_frames]
          rfl
        all_goals rfl

/-! ### Received bytes -/

namespace Endpoint

def feed (env : Env) (e : Endpoint) (chunks : List (List UInt8)) : Endpoint :=
  let p := rxFeed (rxSink env) chunks e.rx e.link
  ⟨p.2, p.1⟩

theorem feed_cons (env : Env) (e : Endpoint) (data : List UInt8) (chunks : List (List UInt8)) :
    e.feed env (data :: chunks) = (e.onRxBytes env data).feed env chunks := rfl

theorem feed_append (env : Env) (e : Endpoint) (chunks chunks' : List (List UInt8)) :
    e.feed env (chunks ++ chunks') = (e.feed env chunks).feed env chunks' := by
  unfold feed rxFeed
  rw [List.foldl_append]

/-- `rx_pos` plus the length of the chunk is within the buffer at every call. -/
def Fits (env : Env) : Endpoint → List (List UInt8) → Prop
  | _, [] => True
  | e, data :: chunks => e.rx.rxPos + data.length ≤ uprotoRxBufferSize ∧
      Fits env (e.onRxBytes env data) chunks

theorem fits_cons (env : Env) (e : Endpoint) (data : List UInt8) (chunks : List (List UInt8)) :
    e.Fits env (data :: chunks) ↔ e.rx.rxPos + data.length ≤ uprotoRxBufferSize ∧
      (e.onRxBytes env data).Fits env chunks := Iff.rfl

theorem fits_iff (env : Env) (e : Endpoint) (chunks : List (List UInt8)) (offset : ℕ) :
    Fits env e chunks ↔ rxRead.Fits uprotoRxBufferSize offset e.rx.bytes chunks := by
  induction chunks generalizing e offset with
  | nil => rfl
  | cons data chunks ih =>
    have hbytes := (uprotoOnRxBytes_call (rxSink env) data e.rx e.link offset).1
    unfold Fits Reader.Fits
    rw [ih _ (rxRead.call uprotoRxBufferSize offset e.rx.bytes data).offset, ← hbytes,
      e.rx.bytes_length]
    rfl

theorem feed_frames (env : Env) (e : Endpoint) (chunks : List (List UInt8)) (offset : ℕ) :
    handledFrames (e.feed env chunks).link.log = handledFrames e.link.log ++
      (deliveries (rxRead.feed uprotoRxBufferSize offset e.rx.bytes chunks).out).map Prod.snd := by
  rw [← handledFrames_segments env, ← (rxFeed_feed (rxSink env) chunks e.rx e.link offset).2]
  rfl

theorem feed_bytes (env : Env) (e : Endpoint) (chunks : List (List UInt8)) (offset : ℕ) :
    (e.feed env chunks).rx.bytes = (rxRead.feed uprotoRxBufferSize offset e.rx.bytes chunks).rest :=
  (rxFeed_feed (rxSink env) chunks e.rx e.link offset).1

@[simp] theorem init_bytes (portWrite timeNowMs : Bool) (config : Option UprotoConfig) :
    (init portWrite timeNowMs config).rx.bytes = [] := RxBuffer.empty_bytes

theorem step_call (env : Env) (e : Endpoint) (c : UprotoCall) :
    e.step env (.call c) = ⟨uprotoCall env e.link c, e.rx⟩ := rfl

theorem step_tick (env : Env) (e : Endpoint) : e.step env .tick = ⟨uprotoTick env e.link, e.rx⟩ := rfl

def received (inputs : List UprotoInput) : List (List UInt8) :=
  inputs.filterMap fun
    | .rxBytes data => some data
    | _ => none

/-- Whatever else happens in a run, the frames handled depend on the received bytes alone. -/
theorem run_frames (env : Env) (e : Endpoint) (inputs : List UprotoInput) (offset : ℕ) :
    handledFrames (e.run env inputs).link.log = handledFrames e.link.log ++
      (deliveries (rxRead.feed uprotoRxBufferSize offset e.rx.bytes (received inputs)).out).map
        Prod.snd := by
  induction inputs generalizing e offset with
  | nil => simp [run, received, Reader.feed, deliveries]
  | cons input inputs ih =>
    have hrun : e.run env (input :: inputs) = (e.step env input).run env inputs := rfl
    rw [hrun]
    cases input with
    | call c =>
      have hcall : Calls env Set.univ e.link.session (uprotoCall env e.link c).session :=
        Calls.call .refl (UprotoInput.uses_univ (.call c))
      have hframes : handledFrames (uprotoCall env e.link c).log = handledFrames e.link.log :=
        hcall.undisturbed.frames
      rw [ih _ offset, step_call]
      dsimp only
      rw [hframes]
      rfl
    | tick =>
      rw [ih _ offset, step_tick]
      dsimp only
      rw [uprotoTick_frames]
      rfl
    | rxBytes data =>
      have hbytes := (uprotoOnRxBytes_call (rxSink env) data e.rx e.link offset).1
      have hlink := (uprotoOnRxBytes_call (rxSink env) data e.rx e.link offset).2
      have hframes := handledFrames_segments env
        (rxRead.call uprotoRxBufferSize offset e.rx.bytes data).out e.link
      rw [← hlink] at hframes
      rw [ih _ (rxRead.call uprotoRxBufferSize offset e.rx.bytes data).offset]
      change handledFrames (uprotoOnRxBytes (rxSink env) data e.rx e.link).2.log ++
        (deliveries (rxRead.feed _ _ (uprotoOnRxBytes (rxSink env) data e.rx e.link).1.bytes _).out).map
          Prod.snd = _
      rw [hframes, hbytes, List.append_assoc, ← List.map_append, ← deliveries_append]
      rfl

end Endpoint

def pingFrame : TxFrame := ⟨uprotoFlagRequest, uprotoMsgPing, 1, 0, 0, [], Nat.zero_le _⟩

end SpVision
