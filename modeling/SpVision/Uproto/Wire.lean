import SpVision.Uproto.CleanStream
import SpVision.Uproto.EncoderImage

set_option autoImplicit false

/-!
# What a context puts on the wire

Every buffer that the library passes to `port.write` is one encoded frame, also in a
retransmission and in an answer of its own, as long as the application's payload
pointers are good for the lengths it passes with them.
-/
namespace SpVision

/-- The payload pointer is good for `len` bytes; it may be null for an empty payload. -/
def PayloadReadable (payload : Option (List UInt8)) (len : ℕ) : Prop :=
  0 < len → ∃ p, payload = some p ∧ len ≤ p.length

def UprotoCall.Readable : UprotoCall → Prop
  | .sendRequest _ payload len _ _ _ _ | .sendResponse _ _ payload len | .sendNotify _ payload len =>
    PayloadReadable payload len
  | .startHandshake | .registerHandler _ _ _ => True

def UprotoInput.Readable : UprotoInput → Prop
  | .call c => c.Readable
  | .rxBytes _ | .tick => True

/-- The port takes a buffer whole or not at all, and callbacks pass good pointers. -/
structure Env.Sound (env : Env) : Prop where
  write : ∀ i data, env.write i data = data.length ∨ env.write i data = 0
  calls : ∀ i, ∀ c ∈ env.calls i, c.Readable

theorem payloadReadable_zero (payload : Option (List UInt8)) : PayloadReadable payload 0 := nofun

theorem uprotoEncodeFrame_framed {payload : Option (List UInt8)} {len : ℕ} (hlen : len ≤ uprotoMaxPayload)
    (hread : PayloadReadable payload len) (flags type : UInt8) (txnId seq ack : UInt16) :
    ∃ f : TxFrame, f.bytes = uprotoEncodeFrame flags type txnId seq ack payload len ∧ f.flags = flags ∧
      f.type = type ∧ f.txnId = txnId ∧ f.payload = (payload.getD []).take len := by
  by_cases hzero : len = 0
  · subst hzero
    refine ⟨⟨flags, type, txnId, seq, ack, [], Nat.zero_le _⟩, ?_, rfl, rfl, rfl, rfl⟩
    cases payload <;> rfl
  · obtain ⟨p, rfl, hp⟩ := hread (Nat.pos_of_ne_zero hzero)
    have htake : (p.take len).length = len := List.length_take_of_le hp
    refine ⟨⟨flags, type, txnId, seq, ack, p.take len, htake.trans_le hlen⟩, ?_, rfl, rfl, rfl, rfl⟩
    unfold TxFrame.bytes uprotoEncodeFrame
    dsimp only
    rw [uprotoPayloadBytes_some, uprotoPayloadBytes_some, htake, List.take_take, Nat.min_self]

/-! ### The invariant -/

/-- What was written, and what a slot in use would retransmit, are encoded frames; each went out
    whole or not at all. -/
structure Link.Framed (l : Link) : Prop where
  written : ∀ index data sent, .write index data sent ∈ l.log →
    (∃ f : TxFrame, f.bytes = data) ∧ (sent = data.length ∨ sent = 0)
  slots : ∀ i, (l.ctx.transactions i).state ≠ .free →
    ∃ f : TxFrame, f.bytes = (l.ctx.transactions i).txData

theorem Endpoint.init_framed (portWrite timeNowMs : Bool) (config : Option UprotoConfig) :
    (init portWrite timeNowMs config).link.Framed where
  written _ _ _ hmem := nomatch hmem
  slots _ hne := absurd rfl hne

namespace Link.Framed

variable {env : Env} {l : Link}

/-- The counters, the state and the clock readings are not part of the invariant. -/
theorem congr (h : l.Framed) {l' : Link} (hlog : l'.log = l.log)
    (hslots : l'.ctx.transactions = l.ctx.transactions) : l'.Framed where
  written := hlog ▸ h.written
  slots := hslots ▸ h.slots

theorem setState (h : l.Framed) (state : UprotoState) : (l.setState state).Framed := h.congr rfl rfl

theorem setLastTxTime (h : l.Framed) (now : UInt32) : (l.setLastTxTime now).Framed := h.congr rfl rfl

theorem modifyStats (h : l.Framed) (f : UprotoStats → UprotoStats) : (l.modifyStats f).Framed :=
  h.congr rfl rfl

theorem observe (h : l.Framed) (o : UprotoObs) (ho : o.written? = none) : (l.observe o).Framed where
  written index data sent hmem := by
    rcases List.mem_cons.mp hmem with heq | hmem
    · rw [← heq] at ho
      cases ho
    · exact h.written index data sent hmem
  slots := h.slots

theorem setTransaction (h : l.Framed) (slot : Fin uprotoMaxTransactions) (txn : UprotoTransaction)
    (htxn : txn.state ≠ .free → ∃ f : TxFrame, f.bytes = txn.txData) : (l.setTransaction slot txn).Framed where
  written := h.written
  slots i := by
    simp only [Link.setTransaction]
    by_cases hi : i = slot
    · subst hi
      rw [Function.update_self]
      exact htxn
    · rw [Function.update_of_ne hi]
      exact h.slots i

theorem now (h : l.Framed) (env : Env) : (uprotoNow env l).2.Framed :=
  h.congr (uprotoNow_log env l) (congrArg UprotoContext.transactions (uprotoNow_ctx env l))

variable (henv : env.Sound)
include henv

theorem portWrite (h : l.Framed) {data : List UInt8} (hdata : ∃ f : TxFrame, f.bytes = data) :
    (portWrite env data l).2.Framed where
  written index data' sent hmem := by
    rcases List.mem_cons.mp hmem with heq | hmem
    · cases heq
      exact ⟨hdata, henv.write _ _⟩
    · exact h.written index data' sent hmem
  slots := h.slots

/-! ### The functions of `uproto.c` -/

theorem sendFrame (h : l.Framed) {payload : Option (List UInt8)} {len : ℕ} (hlen : len ≤ uprotoMaxPayload)
    (hread : PayloadReadable payload len) (flags type : UInt8) (txnId : UInt16) :
    (uprotoSendFrame env flags type txnId payload len l).2.Framed := by
  obtain ⟨f, hf, -⟩ := uprotoEncodeFrame_framed hlen hread flags type txnId l.ctx.localSeq 0
  unfold uprotoSendFrame
  by_cases hport : ¬ l.ctx.portWrite
  · rw [if_pos hport]
    exact h
  rw [if_neg hport]
  have hseq : ({ l with ctx := { l.ctx with localSeq := l.ctx.localSeq + 1 } } : Link).Framed := h.congr rfl rfl
  have hwrite := hseq.portWrite henv ⟨f, hf⟩
  dsimp only
  split_ifs
  · exact ((hwrite.modifyStats _).now env).setLastTxTime _
  · exact hwrite

theorem answer (h : l.Framed) (type : UInt8) (txnId : UInt16) :
    (uprotoSendFrame env uprotoFlagResponse type txnId none 0 l).2.Framed :=
  h.sendFrame henv (Nat.zero_le _) (payloadReadable_zero none) _ _ _

theorem sendRequest (h : l.Framed) (type : UInt8) {payload : Option (List UInt8)} {len : ℕ}
    (hread : PayloadReadable payload len) (timeoutMs : UInt32) (retries : UInt8) (cb : Option ℕ) (user : ℕ) :
    (uprotoSendRequest env type payload len timeoutMs retries cb user l).2.Framed := by
  have hcases := uprotoSendRequest_cases env type payload len timeoutMs retries cb user l
  by_cases hlen : len > uprotoMaxPayload
  · unfold uprotoSendRequest
    rw [if_pos hlen]
    exact h
  obtain ⟨f, hf, -⟩ := uprotoEncodeFrame_framed (Nat.le_of_not_lt hlen) hread uprotoFlagRequest type
    l.ctx.nextTxnId l.ctx.localSeq 0
  generalize uprotoEncodeFrame uprotoFlagRequest type l.ctx.nextTxnId l.ctx.localSeq 0 payload len =
    txData at hcases hf
  have hoffer (slot : Fin uprotoMaxTransactions) : (l.offered env slot txData).Framed := by
    have hissue : (l.observe (.issue l.ctx.nextTxnId)).Framed := h.observe _ rfl
    have hdrawn : ({ l.observe (.issue l.ctx.nextTxnId) with ctx :=
        { l.ctx with nextTxnId := l.ctx.nextTxnId + 1, localSeq := l.ctx.localSeq + 1 } } : Link).Framed :=
      hissue.congr rfl rfl
    have hslot := hdrawn.setTransaction slot { l.ctx.transactions slot with txData := txData }
      fun _ => ⟨f, hf⟩
    exact hslot.portWrite henv ⟨f, hf⟩
  generalize uprotoSendRequest env type payload len timeoutMs retries cb user l = result at hcases ⊢
  cases hcases with
  | refused err herr hrefused => exact h
  | full slot halloc hfull => exact (hoffer slot).setTransaction slot _ fun hne => absurd rfl hne
  | sent slot txn halloc hsent hstate hid hretry hdata hstamp =>
    have hslot := ((hoffer slot).now env).setTransaction slot txn fun _ => ⟨f, hf.trans hdata.symm⟩
    have hrequest := hslot.observe (.request slot txn l.step (l.offered env slot txData).step) rfl
    exact (hrequest.modifyStats _).setLastTxTime _

theorem startHandshake (h : l.Framed) : (uprotoStartHandshake env l).2.Framed := by
  unfold uprotoStartHandshake
  by_cases hstate : l.ctx.state ≠ .idle
  · rw [if_pos hstate]
    exact h
  rw [if_neg hstate]
  have hnow := (h.setState .handshaking).now env
  dsimp only
  generalize uprotoNow env (l.setState .handshaking) = reading at hnow ⊢
  have hstart : ({ reading.2 with ctx := { reading.2.ctx with handshakeStartTime := reading.1 } } : Link).Framed :=
    hnow.congr rfl rfl
  exact hstart.sendRequest henv _ (payloadReadable_zero none) _ _ _ _

theorem call (h : l.Framed) {c : UprotoCall} (hc : c.Readable) : (uprotoCall env l c).Framed := by
  cases c with
  | sendRequest type payload len timeoutMs retries cb user => exact h.sendRequest henv type hc _ _ _ _
  | startHandshake => exact h.startHandshake henv
  | sendResponse txnId type payload len =>
    simp only [uprotoCall, uprotoSendResponse]
    split_ifs with hlen
    · exact h
    · exact h.sendFrame henv (Nat.le_of_not_lt hlen) hc _ _ _
  | sendNotify type payload len =>
    simp only [uprotoCall, uprotoSendNotify]
    split_ifs with hlen
    · exact h
    · exact h.sendFrame henv (Nat.le_of_not_lt hlen) hc _ _ _
  | registerHandler type handler user =>
    simp only [uprotoCall, uprotoRegisterHandler]
    split_ifs
    · exact h
    · exact h.congr rfl rfl

theorem callback (h : l.Framed) : (callback env l).Framed := by
  have hcalls := henv.calls l.step
  have hask : ({ l with step := l.step + 1 } : Link).Framed := h.congr rfl rfl
  unfold SpVision.callback
  generalize env.calls l.step = cs at hcalls
  generalize ({ l with step := l.step + 1 } : Link) = l' at hask
  induction cs generalizing l' with
  | nil => exact hask
  | cons c cs ih =>
    obtain ⟨hc, hcs⟩ := List.forall_mem_cons.mp hcalls
    exact ih hcs _ (hask.call henv hc)

theorem fireEvent (h : l.Framed) (event : UprotoEvent) : (uprotoFireEvent env event l).Framed := by
  unfold uprotoFireEvent
  split_ifs
  · have hevent : (l.observe (.event event)).Framed := h.observe _ rfl
    exact hevent.callback henv
  · exact h

theorem completeTransaction (h : l.Framed) (slot : Fin uprotoMaxTransactions) (err : UprotoError)
    (rsp : Option (List UInt8)) : (uprotoCompleteTransaction env slot err rsp l).Framed := by
  have hbegin : (l.observe (.complete slot (l.ctx.transactions slot) err rsp)).Framed := h.observe _ rfl
  have hrelease (l' : Link) (h' : l'.Framed) :
      ((l'.setTransaction slot { l'.ctx.transactions slot with state := .free }).observe
        (.release slot)).Framed :=
    (h'.setTransaction slot _ fun hne => absurd rfl hne).observe _ rfl
  unfold uprotoCompleteTransaction
  dsimp only
  cases (l.ctx.transactions slot).callback with
  | none => exact hrelease _ hbegin
  | some cb =>
    have hinvoke := hbegin.observe (.invoke slot cb (l.ctx.transactions slot).user err rsp) rfl
    exact hrelease _ (hinvoke.callback henv)

theorem answerFrame (h : l.Framed) (frame : UprotoFrame) (rsp : Option (List UInt8)) :
    (uprotoAnswer env frame rsp l).Framed := by
  unfold uprotoAnswer
  cases uprotoFindTransaction l.ctx frame.txnId with
  | none => exact h
  | some slot => exact h.completeTransaction henv slot .ok rsp

theorem handler (h : l.Framed) (frame : UprotoFrame) (entry : UprotoHandlerEntry) :
    (uprotoHandler env frame entry l).Framed := by
  have hentry : (l.observe (.handler entry frame.txnId frame.payload)).Framed := h.observe _ rfl
  exact hentry.callback henv

theorem establish (h : l.Framed) :
    (uprotoFireEvent env .handshakeCompleted (l.setState .established)).Framed := by
  exact (h.setState .established).fireEvent henv _

theorem routeFrame (h : l.Framed) (frame : UprotoFrame) : (uprotoRouteFrame env frame l).Framed := by
  unfold uprotoRouteFrame
  dsimp only
  split_ifs
  · exact (h.answer henv _ _).establish henv
  · exact h.answer henv _ _
  · exact (h.establish henv).answerFrame henv frame _
  · exact h.answerFrame henv frame _
  · exact h.answer henv _ _
  · exact h.answerFrame henv frame _
  · exact h.answerFrame henv frame _
  · split
    · exact h.handler henv frame _
    · exact h
  · split
    · exact h.handler henv frame _
    · exact h.answer henv _ _

theorem handleFrame (h : l.Framed) (frame : UprotoFrame) : (uprotoHandleFrame env frame l).Framed := by
  have hcount := (h.observe (.handle frame) rfl).modifyStats fun s => { s with rxFrames := s.rxFrames + 1 }
  have hnow := hcount.now env
  unfold uprotoHandleFrame
  dsimp only
  generalize uprotoNow env _ = reading at hnow ⊢
  have hstamp : ({ reading.2 with ctx :=
      { reading.2.ctx with lastRxTime := reading.1, remoteSeq := frame.seq } } : Link).Framed :=
    hnow.congr rfl rfl
  exact (hstamp.routeFrame henv frame).observe _ rfl

theorem crcError (h : l.Framed) : (uprotoCrcError env l).Framed :=
  (h.modifyStats _).fireEvent henv _

theorem tickTransaction (h : l.Framed) (now : UInt32) (readAt : ℕ) (slot : Fin uprotoMaxTransactions) :
    (uprotoTickTransaction env now readAt l slot).Framed := by
  unfold uprotoTickTransaction
  dsimp only
  by_cases hwaiting : (l.ctx.transactions slot).state ≠ .waiting
  · rw [if_pos hwaiting]
    exact h
  rw [if_neg hwaiting]
  have hframe := h.slots slot (by rw [not_not.mp hwaiting]; decide)
  split_ifs
  · have hslot := h.setTransaction slot { l.ctx.transactions slot with
      retryCount := (l.ctx.transactions slot).retryCount + 1, lastTxTime := now } fun _ => hframe
    have hagain := (hslot.observe (.retransmit slot readAt l.step) rfl).portWrite henv hframe
    exact (hagain.modifyStats _).fireEvent henv _
  · have hexpire := (h.modifyStats fun s => { s with timeouts := s.timeouts + 1 }).observe
      (.expire slot readAt l.step) rfl
    exact (hexpire.fireEvent henv _).completeTransaction henv slot .timeout none
  · exact h

theorem tick (h : l.Framed) : (uprotoTick env l).Framed := by
  have hslots (now : UInt32) (readAt : ℕ) (slots : List (Fin uprotoMaxTransactions)) (l' : Link)
      (h' : l'.Framed) : (slots.foldl (uprotoTickTransaction env now readAt) l').Framed := by
    induction slots generalizing l' with
    | nil => exact h'
    | cons slot slots ih => exact ih _ (h'.tickTransaction henv now readAt slot)
  have hshake (now : UInt32) (l' : Link) (h' : l'.Framed) : (uprotoTickHandshake env now l').Framed := by
    unfold uprotoTickHandshake
    split_ifs
    · exact (h'.setState .idle).fireEvent henv _
    · exact h'
  have hbeat (now : UInt32) (l' : Link) (h' : l'.Framed) : (uprotoTickHeartbeat env now l').Framed := by
    unfold uprotoTickHeartbeat
    split_ifs
    · exact h'.sendRequest henv _ (payloadReadable_zero none) _ _ _ _
    · exact h'
  exact hbeat _ _ (hslots _ _ _ _ (hshake _ _ (h.now env)))

theorem segments (h : l.Framed) (segs : List RxSegment) : (segs.foldl (rxSink env).segment l).Framed := by
  induction segs generalizing l with
  | nil => exact h
  | cons seg segs ih =>
    apply ih
    cases seg with
    | noise => exact h
    | badLength => exact h
    | block start len result =>
      cases result with
      | ok frame => exact h.handleFrame henv frame
      | error err =>
        cases err
        case crc => exact h.crcError henv
        all_goals exact h

end Link.Framed

theorem Endpoint.step_framed {env : Env} (henv : env.Sound) {e : Endpoint} (h : e.link.Framed)
    {input : UprotoInput} (hinput : input.Readable) : (e.step env input).link.Framed := by
  cases input with
  | call c =>
    rw [Endpoint.step_call]
    exact h.call henv hinput
  | tick =>
    rw [Endpoint.step_tick]
    dsimp only
    exact h.tick henv
  | rxBytes data =>
    have hcall := (uprotoOnRxBytes_call (rxSink env) data e.rx e.link 0).2
    unfold Endpoint.step Endpoint.onRxBytes
    dsimp only
    rw [hcall]
    exact h.segments henv _

end SpVision
