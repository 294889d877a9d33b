import SpVision.Library.Runs
import SpVision.Uproto.Handshake
import SpVision.Uproto.Wire

set_option autoImplicit false

/-!
# Two endpoints on a line

Each port feeds a stream of bytes to the other side, where it arrives in chunks of
any size. The calls, ticks and arrivals of the two sides come in any order.
-/
namespace SpVision
open AllRuns

/-! ### What has gone out -/

def UprotoObs.output : UprotoObs → List UInt8
  | .write _ data sent => data.take sent
  | _ => []

def outputBytes (log : List UprotoObs) : List UInt8 := (log.reverse.map UprotoObs.output).flatten

/-- The frame in a buffer that the port took whole. -/
def UprotoObs.sentFrame? : UprotoObs → Option UprotoFrame
  | .write _ data sent =>
    if sent = data.length then (uprotoDecodeFrame data data.length).toOption else none
  | _ => none

def sentFrames (log : List UprotoObs) : List UprotoFrame := log.reverse.filterMap UprotoObs.sentFrame?

theorem outputBytes_append (new log : List UprotoObs) :
    outputBytes (new ++ log) = outputBytes log ++ outputBytes new := by
  simp [outputBytes]

/-- Of a framed log the bytes are those of the frames, one behind the other. -/
structure Output (log : List UprotoObs) (fs : List TxFrame) : Prop where
  bytes : outputBytes log = frameBytes fs
  frames : sentFrames log = fs.map TxFrame.frame

theorem UprotoObs.exists_output {o : UprotoObs} (ho : ∀ index data sent, o = .write index data sent →
    (∃ f : TxFrame, f.bytes = data) ∧ (sent = data.length ∨ sent = 0)) :
    ∃ fs : List TxFrame, o.output = frameBytes fs ∧ o.sentFrame?.toList = fs.map TxFrame.frame := by
  cases o with
  | write index data sent =>
    obtain ⟨⟨f, rfl⟩, hwhole | hnone⟩ := ho index data sent rfl
    · refine ⟨[f], ?_, ?_⟩
      · simp [output, hwhole, frameBytes]
      · have hdecode := f.decode_bytes []
        rw [List.append_nil] at hdecode
        rw [sentFrame?, if_pos hwhole, hdecode]
        rfl
    · have hshort : sent ≠ f.bytes.length := by
        rw [hnone, f.bytes_length]
        omega
      refine ⟨[], ?_, ?_⟩
      · simp [output, hnone, frameBytes]
      · rw [sentFrame?, if_neg hshort]
        rfl
  | _ => exact ⟨[], rfl, rfl⟩

theorem exists_output {log : List UprotoObs} (hlog : ∀ index data sent, .write index data sent ∈ log →
    (∃ f : TxFrame, f.bytes = data) ∧ (sent = data.length ∨ sent = 0)) : ∃ fs, Output log fs := by
  induction log with
  | nil => exact ⟨[], rfl, rfl⟩
  | cons o log ih =>
    obtain ⟨fs, hfs⟩ := ih fun index data sent hmem => hlog index data sent (List.mem_cons_of_mem _ hmem)
    obtain ⟨gs, hbytes, hframes⟩ := o.exists_output fun index data sent heq =>
      hlog index data sent (heq ▸ List.mem_cons_self)
    refine ⟨fs ++ gs, ?_, ?_⟩
    · rw [frameBytes_append, ← hfs.bytes, ← hbytes]
      simp [outputBytes]
    · rw [List.map_append, ← hfs.frames, ← hframes, sentFrames, List.reverse_cons, List.filterMap_append]
      cases ho : o.sentFrame? <;> simp [sentFrames, ho]

/-- What goes out later comes behind what went out before. -/
theorem Output.extend {new log : List UprotoObs} {fs : List TxFrame} (h : Output log fs)
    (hnew : ∀ index data sent, .write index data sent ∈ new →
      (∃ f : TxFrame, f.bytes = data) ∧ (sent = data.length ∨ sent = 0)) :
    ∃ gs, Output (new ++ log) (fs ++ gs) := by
  obtain ⟨gs, hgs⟩ := exists_output hnew
  refine ⟨gs, ?_, ?_⟩
  · rw [outputBytes_append, frameBytes_append, h.bytes, hgs.bytes]
  · rw [List.map_append, ← h.frames, ← hgs.frames]
    simp [sentFrames]

theorem Partway.append {fs : List TxFrame} {p : List UInt8} (h : Partway fs p) (gs : List TxFrame) :
    Partway (fs ++ gs) p where
  isPrefix := by
    rw [frameBytes_append]
    exact h.isPrefix.trans (List.prefix_append _ _)
  short f hf := by
    cases fs with
    | nil =>
      rw [List.prefix_nil.mp h.isPrefix, f.bytes_length, List.length_nil]
      omega
    | cons g fs => exact h.short f hf

/-! ### Logs only grow -/

variable {env : Env} {app : Set UInt8}

theorem SessionStep.log_suffix {s s' : Session} (h : SessionStep env app s s') : s.log <:+ s'.log := by
  cases h with
  | call h => cases h <;> first | exact List.suffix_rfl | exact List.suffix_cons _ _
  | retransmit => exact (List.suffix_cons _ _).trans (List.suffix_cons _ _)
  | establish | lapse | crcError => exact List.suffix_rfl
  | _ => exact List.suffix_cons _ _

theorem Runs.log_suffix {s s' : Session} (h : Runs env app s s') : s.log <:+ s'.log :=
  h.invariant (P := fun t => s.log <:+ t.log) (fun _ _ hstep ht => ht.trans hstep.log_suffix) List.suffix_rfl

/-! ### A tick counts no checksum error -/

theorem uprotoTickTransaction_sameTraffic (env : Env) (now : UInt32) (readAt : ℕ) (l : Link)
    (slot : Fin uprotoMaxTransactions) :
    l.session.SameTraffic (uprotoTickTransaction env now readAt l slot).session := by
  unfold uprotoTickTransaction
  dsimp only
  split_ifs
  · exact ⟨rfl, rfl⟩
  · refine Session.SameTraffic.trans ?_ (uprotoFireEvent_undisturbed env .retry _).sameTraffic
    refine ⟨?_, rfl⟩
    change handledFrames (.write _ _ _ :: .retransmit _ _ _ :: l.log) = handledFrames l.log
    simp [UprotoObs.frame?]
  · refine Session.SameTraffic.trans ?_ (uprotoCompleteTransaction_sameTraffic env slot .timeout none _)
    refine Session.SameTraffic.trans ?_ (uprotoFireEvent_undisturbed env .timeout _).sameTraffic
    exact Link.observe_sameTraffic (l.modifyStats fun c => { c with timeouts := c.timeouts + 1 })
      (o := .expire slot readAt l.step) rfl
  · exact ⟨rfl, rfl⟩

theorem uprotoTick_sameTraffic (env : Env) (l : Link) : l.session.SameTraffic (uprotoTick env l).session := by
  have hslots (now : UInt32) (readAt : ℕ) (slots : List (Fin uprotoMaxTransactions)) (l' : Link) :
      l'.session.SameTraffic (slots.foldl (uprotoTickTransaction env now readAt) l').session := by
    induction slots generalizing l' with
    | nil => exact ⟨rfl, rfl⟩
    | cons slot slots ih => exact (uprotoTickTransaction_sameTraffic env now readAt l' slot).trans (ih _)
  have hshake (now : UInt32) (l' : Link) :
      l'.session.SameTraffic (uprotoTickHandshake env now l').session := by
    unfold uprotoTickHandshake
    split_ifs
    · have hidle : l'.session.SameTraffic (l'.setState .idle).session := ⟨rfl, rfl⟩
      exact hidle.trans (uprotoFireEvent_undisturbed env .handshakeTimeout _).sameTraffic
    · exact ⟨rfl, rfl⟩
  have hbeat (now : UInt32) (l' : Link) :
      l'.session.SameTraffic (uprotoTickHeartbeat env now l').session := by
    unfold uprotoTickHeartbeat
    split_ifs
    · have htype : uprotoMsgPing ∈ wireTypes Set.univ := .inl (Set.mem_univ _)
      exact (Calls.sendRequest (.refl : Calls env Set.univ _ l'.session)
        htype _ _ _ _ _ _).undisturbed.sameTraffic
    · exact ⟨rfl, rfl⟩
  have hnow : l.session.SameTraffic (uprotoNow env l).2.session := by
    refine ⟨?_, ?_⟩
    · change handledFrames (uprotoNow env l).2.log = _
      rw [uprotoNow_log]
      rfl
    · change (uprotoNow env l).2.ctx.stats.crcErrors = _
      rw [uprotoNow_ctx]
      rfl
  have hstart := hnow.trans (hshake (uprotoNow env l).1 _)
  exact (hstart.trans (hslots (uprotoNow env l).1 l.step (List.finRange uprotoMaxTransactions) _)).trans
    (hbeat (uprotoNow env l).1 _)

/-- Calls and ticks leave the received traffic alone. -/
theorem Endpoint.step_sameTraffic (env : Env) (e : Endpoint) {input : UprotoInput}
    (hinput : ∀ data, input ≠ .rxBytes data) :
    e.link.session.SameTraffic (e.step env input).link.session ∧ (e.step env input).rx = e.rx := by
  cases input with
  | call c =>
    have hcall : Calls env Set.univ e.link.session (uprotoCall env e.link c).session :=
      Calls.call .refl (UprotoInput.uses_univ (.call c))
    rw [Endpoint.step_call]
    exact ⟨hcall.undisturbed.sameTraffic, rfl⟩
  | tick =>
    rw [Endpoint.step_tick]
    dsimp only
    exact ⟨uprotoTick_sameTraffic env e.link, rfl⟩
  | rxBytes data => exact absurd rfl (hinput data)

/-- What every step keeps, and what its output is. -/
theorem Endpoint.step_output {e : Endpoint} (henv : env.Sound) (hrest : completing e.link.log = none)
    (hframed : e.link.Framed) {input : UprotoInput} (hinput : input.Readable) :
    completing (e.step env input).link.log = none ∧ (e.step env input).link.Framed ∧
      ∀ fs, Output e.link.log fs → ∃ gs, Output (e.step env input).link.log (fs ++ gs) := by
  have hreached : Reached env Set.univ e.link.session e.link := ⟨.refl, hrest⟩
  have hstep := hreached.step env.uses_univ input.uses_univ
  have hframed' := e.step_framed henv hframed hinput
  refine ⟨hstep.resting, hframed', fun fs hfs => ?_⟩
  obtain ⟨new, hnew⟩ := hstep.runs.log_suffix
  rw [Link.session_log, Link.session_log] at hnew
  rw [← hnew]
  exact hfs.extend fun index data sent hmem =>
    hframed'.written index data sent (hnew ▸ List.mem_append_left _ hmem)

/-! ### The line -/

/-- `arrived` counts the bytes of the peer's output that have reached a side. -/
structure Line where
  ends : Net
  arrived : Side → ℕ

inductive LineMove
  | call (side : Side) (c : UprotoCall)
  | tick (side : Side)
  | arrive (side : Side) (n : ℕ)

namespace Line

def underWay (n : Line) (side : Side) : List UInt8 :=
  (outputBytes (n.ends side.peer).link.log).drop (n.arrived side)

def stepEnd (envs : Side → Env) (n : Line) (side : Side) (input : UprotoInput) : Line :=
  { n with ends := Function.update n.ends side ((n.ends side).step (envs side) input) }

def step (envs : Side → Env) (n : Line) : LineMove → Line
  | .call side c => n.stepEnd envs side (.call c)
  | .tick side => n.stepEnd envs side .tick
  | .arrive side k =>
    let chunk := (n.underWay side).take k
    { n.stepEnd envs side (.rxBytes chunk) with
      arrived := Function.update n.arrived side (n.arrived side + chunk.length) }

/-- Pointers are good and a chunk fits the receive buffer. -/
def Permits (n : Line) : LineMove → Prop
  | .call _ c => c.Readable
  | .tick _ => True
  | .arrive side k => (n.ends side).rx.rxPos + ((n.underWay side).take k).length ≤ uprotoRxBufferSize

def init (sides : Side → SideConfig) : Line := ⟨Net.init sides, fun _ => 0⟩

/-! ### The invariant -/

/-- What `side` has handled is the first part of what its peer has sent; the rest is in its receive
    buffer, up to a part of one frame, and under way. -/
structure Received (n : Line) (side : Side) (done todo : List TxFrame) : Prop where
  sent : Output (n.ends side.peer).link.log (done ++ todo)
  handled : handledFrames (n.ends side).link.log = done.map TxFrame.frame
  crcErrors : (n.ends side).link.ctx.stats.crcErrors = 0
  arrived : n.arrived side ≤ (outputBytes (n.ends side.peer).link.log).length
  stream : (n.ends side).rx.bytes ++ n.underWay side = frameBytes todo
  partway : Partway todo (n.ends side).rx.bytes

structure Good (n : Line) : Prop where
  resting : ∀ side, completing (n.ends side).link.log = none
  framed : ∀ side, (n.ends side).link.Framed
  received : ∀ side, ∃ done todo, n.Received side done todo

theorem init_good (sides : Side → SideConfig) : (init sides).Good where
  resting _ := rfl
  framed side := Endpoint.init_framed _ _ _
  received side := by
    refine ⟨[], [], ⟨rfl, rfl⟩, rfl, rfl, Nat.zero_le _, ?_, ?_⟩
    · exact congrArg (· ++ []) (Endpoint.init_bytes _ _ _)
    · change Partway [] (Endpoint.init _ _ _).rx.bytes
      rw [Endpoint.init_bytes]
      exact .nil []

variable {envs : Side → Env} {n : Line}

theorem stepEnd_self (side : Side) (input : UprotoInput) :
    (n.stepEnd envs side input).ends side = (n.ends side).step (envs side) input :=
  Function.update_self _ _ _

theorem stepEnd_of_ne {side other : Side} (h : other ≠ side) (input : UprotoInput) :
    (n.stepEnd envs side input).ends other = n.ends other := Function.update_of_ne h _ _

theorem Received.peer_grows {n' : Line} {side : Side} {done todo gs : List TxFrame}
    (h : n.Received side done todo) (hend : n'.ends side = n.ends side)
    (harrived : n'.arrived side = n.arrived side)
    (hsent : Output (n'.ends side.peer).link.log (done ++ todo ++ gs)) :
    n'.Received side done (todo ++ gs) := by
  have hgrown : outputBytes (n'.ends side.peer).link.log =
      outputBytes (n.ends side.peer).link.log ++ frameBytes gs := by
    rw [hsent.bytes, h.sent.bytes, frameBytes_append]
  have hway : n'.underWay side = n.underWay side ++ frameBytes gs := by
    rw [underWay, hgrown, harrived, List.drop_append_of_le_length h.arrived]
    rfl
  refine ⟨by rw [← List.append_assoc]; exact hsent, by rw [hend]; exact h.handled,
    by rw [hend]; exact h.crcErrors, ?_, ?_, ?_⟩
  · rw [hgrown, harrived, List.length_append]
    exact h.arrived.trans (Nat.le_add_right _ _)
  · rw [hend, hway, ← List.append_assoc, h.stream, frameBytes_append]
  · rw [hend]
    exact h.partway.append gs

/-- The receive buffer never holds more than a part of one frame. -/
theorem Received.rxPos_lt {side : Side} {done todo : List TxFrame} (h : n.Received side done todo) :
    (n.ends side).rx.rxPos < 274 := by
  rw [← RxBuffer.bytes_length]
  cases todo with
  | nil =>
    rw [List.prefix_nil.mp h.partway.isPrefix]
    decide
  | cons f fs =>
    have hshort := h.partway.short f rfl
    have hpay := f.payload_le
    rw [f.bytes_length] at hshort
    simp only [uprotoMaxPayload] at hpay
    omega

/-- A chunk that arrives completes some frames, which are handled at once, in order. -/
theorem Received.arrive {n' : Line} {side : Side} {done todo : List TxFrame} {k : ℕ}
    (h : n.Received side done todo) (hfit : n.Permits (.arrive side k))
    (hend : n'.ends side = (n.ends side).step (envs side) (.rxBytes ((n.underWay side).take k)))
    (hpeer : n'.ends side.peer = n.ends side.peer)
    (harrived : n'.arrived side = n.arrived side + ((n.underWay side).take k).length) :
    ∃ done' todo', n'.Received side done' todo' := by
  have hstream : (n.ends side).rx.bytes ++ (n.underWay side).take k <+: frameBytes todo := by
    rw [← h.stream]
    exact (List.prefix_append_right_inj _).mpr (List.take_prefix _ _)
  obtain ⟨gs, hs, p, rfl, hcut, hp⟩ := exists_partway hstream
  have hfit' : (n.ends side).rx.bytes.length + ((n.underWay side).take k).length ≤ uprotoRxBufferSize := by
    rw [RxBuffer.bytes_length]
    exact hfit
  have hread := rxRead_call_frames 0 gs hs hfit' hcut hp
  obtain ⟨hbytes, hlink⟩ := uprotoOnRxBytes_call (rxSink (envs side)) ((n.underWay side).take k)
    (n.ends side).rx (n.ends side).link 0
  rw [hread] at hbytes hlink
  have hway : n'.underWay side = (n.underWay side).drop k := by
    rw [underWay, hpeer, harrived, ← List.drop_drop]
    change (n.underWay side).drop _ = _
    rw [List.length_take]
    rcases Nat.le_total k (n.underWay side).length with hk | hk
    · rw [Nat.min_eq_left hk]
    · rw [Nat.min_eq_right hk, List.drop_of_length_le hk, List.drop_length]
  have hlink' : (n'.ends side).link =
      (frameSegments 0 gs).foldl (rxSink (envs side)).segment (n.ends side).link := by
    rw [hend]
    exact hlink
  have hbytes' : (n'.ends side).rx.bytes = p := by
    rw [hend]
    exact hbytes
  refine ⟨done ++ gs, hs, ?_, ?_, ?_, ?_, ?_, ?_⟩
  · rw [hpeer, List.append_assoc]
    exact h.sent
  · rw [hlink', handledFrames_segments, h.handled, deliveries_frameSegments, List.map_append]
  · rw [hlink', rxSink_frames_crcErrors]
    exact h.crcErrors
  · rw [hpeer, harrived]
    have htaken : ((n.underWay side).take k).length ≤ (n.underWay side).length := List.length_take_le' _ _
    have harr := h.arrived
    simp only [underWay, List.length_drop] at htaken ⊢
    omega
  · have hall := h.stream
    rw [← List.take_append_drop k (n.underWay side), ← List.append_assoc, hcut, List.append_assoc,
      frameBytes_append] at hall
    rw [hbytes', hway]
    exact List.append_cancel_left hall
  · rw [hbytes']
    exact hp

theorem Good.stepEnd (h : n.Good) (henvs : ∀ side, (envs side).Sound) (side : Side) (input : UprotoInput)
    (hinput : input.Readable) {n' : Line} (hends : n'.ends = (n.stepEnd envs side input).ends)
    (harrived : n'.arrived side.peer = n.arrived side.peer)
    (hself : ∃ done todo, n'.Received side done todo) : n'.Good := by
  have hend : n'.ends side = (n.ends side).step (envs side) input := by
    rw [hends, stepEnd_self]
  have hpeer : n'.ends side.peer = n.ends side.peer := by
    rw [hends, stepEnd_of_ne side.peer_ne]
  obtain ⟨hrest, hframed, hout⟩ := Endpoint.step_output (henvs side) (h.resting side) (h.framed side) hinput
  have hsides {P : Side → Prop} (hs : P side) (hp : P side.peer) : ∀ other, P other := by
    intro other
    rcases eq_or_ne other side with rfl | hne
    · exact hs
    · obtain rfl : other = side.peer := by cases other <;> cases side <;> first | rfl | exact absurd rfl hne
      exact hp
  refine ⟨hsides ?_ ?_, hsides ?_ ?_, hsides hself ?_⟩
  · rw [hend]
    exact hrest
  · rw [hpeer]
    exact h.resting _
  · rw [hend]
    exact hframed
  · rw [hpeer]
    exact h.framed _
  · obtain ⟨done, todo, hreceived⟩ := h.received side.peer
    have hpp : side.peer.peer = side := by cases side <;> rfl
    have hsent := hreceived.sent
    rw [hpp] at hsent
    obtain ⟨gs, hgs⟩ := hout _ hsent
    refine ⟨done, todo ++ gs, hreceived.peer_grows hpeer harrived ?_⟩
    rw [hpp, hend]
    exact hgs

theorem Received.same {n' : Line} {side : Side} {done todo : List TxFrame} (h : n.Received side done todo)
    (htraffic : (n.ends side).link.session.SameTraffic (n'.ends side).link.session)
    (hrx : (n'.ends side).rx = (n.ends side).rx) (hpeer : n'.ends side.peer = n.ends side.peer)
    (harrived : n'.arrived side = n.arrived side) : n'.Received side done todo where
  sent := by
    rw [hpeer]
    exact h.sent
  handled := htraffic.frames.trans h.handled
  crcErrors := htraffic.crcErrors.trans h.crcErrors
  arrived := by
    rw [hpeer, harrived]
    exact h.arrived
  stream := by
    rw [underWay, hpeer, harrived, hrx]
    exact h.stream
  partway := by
    rw [hrx]
    exact h.partway

theorem Good.step (h : n.Good) (henvs : ∀ side, (envs side).Sound) {m : LineMove} (hm : n.Permits m) :
    (n.step envs m).Good := by
  have hact (side : Side) (input : UprotoInput) (hinput : input.Readable)
      (hquiet : ∀ data, input ≠ .rxBytes data) : (n.stepEnd envs side input).Good := by
    refine h.stepEnd henvs side input hinput rfl rfl ?_
    obtain ⟨done, todo, hreceived⟩ := h.received side
    obtain ⟨htraffic, hrx⟩ := (n.ends side).step_sameTraffic (envs side) hquiet
    refine ⟨done, todo, hreceived.same ?_ ?_ (stepEnd_of_ne side.peer_ne input) rfl⟩
    · rw [stepEnd_self]
      exact htraffic
    · rw [stepEnd_self]
      exact hrx
  cases m with
  | call side c => exact hact side (.call c) hm nofun
  | tick side => exact hact side .tick trivial nofun
  | arrive side k =>
    refine h.stepEnd henvs side (.rxBytes ((n.underWay side).take k)) trivial rfl ?_ ?_
    · exact Function.update_of_ne side.peer_ne _ _
    · obtain ⟨done, todo, hreceived⟩ := h.received side
      exact hreceived.arrive hm (stepEnd_self side _) (stepEnd_of_ne side.peer_ne _) (Function.update_self _ _ _)

end Line

/-- Nothing is lost, repeated, reordered or made up on the line. In every state of every run the frames
    that a side has handled are the first of those that its peer has sent, all of them once no byte is
    under way, and no checksum error is counted. A chunk of up to 239 bytes always fits. -/
theorem uprotoLine_lossless (envs : Side → Env) (henvs : ∀ side, (envs side).Sound)
    (sides : Side → SideConfig) (moves : List LineMove)
    (hmoves : LegalRun (Line.step envs) Line.Permits (Line.init sides) moves) (side : Side) :
    let n := moves.foldl (Line.step envs) (Line.init sides)
    handledFrames (n.ends side).link.log <+: sentFrames (n.ends side.peer).link.log ∧
      (n.ends side).link.ctx.stats.crcErrors = 0 ∧
      (∀ k ≤ 239, n.Permits (.arrive side k)) ∧
      (n.underWay side = [] →
        handledFrames (n.ends side).link.log = sentFrames (n.ends side.peer).link.log ∧
          (n.ends side).rx.rxPos = 0) := by
  intro n
  have hgood : n.Good := inv_foldl (Line.step envs) Line.Good (fun _ _ hn hm => hn.step henvs hm)
    (Line.init_good sides) hmoves
  obtain ⟨done, todo, h⟩ := hgood.received side
  have hsent := h.sent.frames
  refine ⟨?_, h.crcErrors, ?_, ?_⟩
  · rw [h.handled, hsent, List.map_append]
    exact List.prefix_append _ _
  · intro k hk
    have hpos := h.rxPos_lt
    have htake : ((n.underWay side).take k).length ≤ k := List.length_take_le k _
    simp only [Line.Permits, uprotoRxBufferSize]
    omega
  · intro hempty
    have hstream := h.stream
    rw [hempty, List.append_nil] at hstream
    obtain rfl := (hstream ▸ h.partway : Partway todo (frameBytes todo)).eq_nil
    rw [List.append_nil] at hsent
    refine ⟨h.handled.trans hsent.symm, ?_⟩
    rw [← RxBuffer.bytes_length, hstream]
    rfl

theorem quietEnv_sound : quietEnv.Sound := ⟨fun _ _ => .inl rfl, nofun⟩

def cutMoves : List LineMove :=
  [.call .near .startHandshake, .arrive .far 10, .arrive .far 239, .arrive .near 17, .tick .near, .arrive .near 9]

theorem uprotoLine_lossless_cut :
    let n := cutMoves.foldl (Line.step fun _ => quietEnv) (Line.init fun _ => handshakeSide)
    n.underWay .near = [] ∧ (n.ends .near).link.ctx.state = .established ∧
      handledFrames (n.ends .near).link.log = sentFrames (n.ends .far).link.log ∧
      (n.ends .near).rx.rxPos = 0 := by
  have hlegal : LegalRun (Line.step fun _ => quietEnv) Line.Permits (Line.init fun _ => handshakeSide)
      cutMoves := by
    refine ⟨trivial, ?_, ?_, ?_, trivial, ?_, trivial⟩ <;> unfold Line.Permits <;> decide +kernel
  obtain ⟨-, -, -, hall⟩ := uprotoLine_lossless (fun _ => quietEnv) (fun _ => quietEnv_sound)
    (fun _ => handshakeSide) cutMoves hlegal .near
  have hempty : (cutMoves.foldl (Line.step fun _ => quietEnv)
      (Line.init fun _ => handshakeSide)).underWay .near = [] := by decide +kernel
  exact ⟨hempty, by decide +kernel, hall hempty⟩

end SpVision
