import SpVision.Uproto.Endpoint

set_option autoImplicit false

/-!
# Which frames reach a registered handler

A context hands a frame to the first handler registered for its type, unless the frame
is a response or of a type of the protocol itself. Nothing else calls a handler, and a
registration is never undone.
-/
namespace SpVision

/-- The message types that `uproto_handle_frame` keeps for itself. -/
def IsControl (type : UInt8) : Prop :=
  type = uprotoMsgHello ∨ type = uprotoMsgHelloAck ∨ type = uprotoMsgPing ∨ type = uprotoMsgPong

instance (type : UInt8) : Decidable (IsControl type) := inferInstanceAs (Decidable (_ ∨ _))

/-- A frame that goes to the handlers of its type. -/
def UprotoFrame.IsServed (f : UprotoFrame) (type : UInt8) : Prop :=
  f.type = type ∧ f.flags &&& uprotoFlagResponse = 0

instance (f : UprotoFrame) (type : UInt8) : Decidable (f.IsServed type) := inferInstanceAs (Decidable (_ ∧ _))

def UprotoObs.servedBy? (entry : UprotoHandlerEntry) : UprotoObs → Option (UInt16 × List UInt8)
  | .handler e txnId payload => if e = entry then some (txnId, payload) else none
  | _ => none

/-- The arguments of the calls of a handler, the earliest first. -/
def handlerCalls (entry : UprotoHandlerEntry) (log : List UprotoObs) : List (UInt16 × List UInt8) :=
  log.reverse.filterMap (UprotoObs.servedBy? entry)

theorem handlerCalls_cons (entry : UprotoHandlerEntry) (o : UprotoObs) (log : List UprotoObs) :
    handlerCalls entry (o :: log) = handlerCalls entry log ++ (o.servedBy? entry).toList := by
  cases h : o.servedBy? entry <;> simp [handlerCalls, List.filterMap_append, h]

def UprotoContext.handlerFor (ctx : UprotoContext) (type : UInt8) : Option UprotoHandlerEntry :=
  ctx.handlers.find? fun entry => entry.type = type

/-- The handler stays the one for its type and is not called in between. -/
structure Link.Idles (entry : UprotoHandlerEntry) (l l' : Link) : Prop where
  handler : l.ctx.handlerFor entry.type = some entry → l'.ctx.handlerFor entry.type = some entry
  calls : handlerCalls entry l'.log = handlerCalls entry l.log

namespace Link.Idles

variable {entry : UprotoHandlerEntry} {env : Env} {l l' l'' : Link}

theorem refl (l : Link) : l.Idles entry l := ⟨id, rfl⟩

theorem trans (h : l.Idles entry l') (h' : l'.Idles entry l'') : l.Idles entry l'' :=
  ⟨h'.handler ∘ h.handler, h'.calls.trans h.calls⟩

theorem congr (hhandlers : l'.ctx.handlers = l.ctx.handlers) (hlog : l'.log = l.log) : l.Idles entry l' where
  handler h := by
    rw [UprotoContext.handlerFor, hhandlers]
    exact h
  calls := congrArg (handlerCalls entry) hlog

theorem observe (l : Link) (o : UprotoObs) (ho : o.servedBy? entry = none) : l.Idles entry (l.observe o) where
  handler := id
  calls := by
    change handlerCalls entry (o :: l.log) = _
    rw [handlerCalls_cons, ho]
    exact List.append_nil _

theorem modifyStats (h : l.Idles entry l') (f : UprotoStats → UprotoStats) : l.Idles entry (l'.modifyStats f) :=
  h.trans (.congr rfl rfl)

theorem now (env : Env) (l : Link) : l.Idles entry (uprotoNow env l).2 :=
  .congr (congrArg UprotoContext.handlers (uprotoNow_ctx env l)) (uprotoNow_log env l)

theorem portWrite (env : Env) (data : List UInt8) (l : Link) : l.Idles entry (portWrite env data l).2 :=
  have hstep : l.Idles entry { l with step := l.step + 1 } := .congr rfl rfl
  hstep.trans (.observe _ _ rfl)

theorem sendFrame (flags type : UInt8) (txnId : UInt16) (payload : Option (List UInt8)) (len : ℕ) (l : Link) :
    l.Idles entry (uprotoSendFrame env flags type txnId payload len l).2 := by
  unfold uprotoSendFrame
  by_cases hport : ¬ l.ctx.portWrite
  · rw [if_pos hport]
    exact .refl l
  rw [if_neg hport]
  have hseq : l.Idles entry { l with ctx := { l.ctx with localSeq := l.ctx.localSeq + 1 } } := .congr rfl rfl
  have hwrite := hseq.trans (.portWrite env
    (uprotoEncodeFrame flags type txnId l.ctx.localSeq 0 payload len) _)
  dsimp only
  split_ifs
  · exact ((hwrite.modifyStats _).trans (.now env _)).trans (.congr rfl rfl)
  · exact hwrite

theorem sendRequest (type : UInt8) (payload : Option (List UInt8)) (len : ℕ) (timeoutMs : UInt32)
    (retries : UInt8) (cb : Option ℕ) (user : ℕ) (l : Link) :
    l.Idles entry (uprotoSendRequest env type payload len timeoutMs retries cb user l).2 := by
  have hcases := uprotoSendRequest_cases env type payload len timeoutMs retries cb user l
  generalize uprotoEncodeFrame uprotoFlagRequest type l.ctx.nextTxnId l.ctx.localSeq 0 payload len =
    txData at hcases
  have hoffer (slot : Fin uprotoMaxTransactions) : l.Idles entry (l.offered env slot txData) := by
    have hissue : l.Idles entry (l.observe (.issue l.ctx.nextTxnId)) := .observe l _ rfl
    have hdraw : l.Idles entry (l.drawRequest slot txData) := hissue.trans (.congr rfl rfl)
    exact hdraw.trans (.portWrite env txData _)
  generalize uprotoSendRequest env type payload len timeoutMs retries cb user l = result at hcases ⊢
  cases hcases with
  | refused err herr hrefused => exact .refl l
  | full slot halloc hfull => exact (hoffer slot).trans (.congr rfl rfl)
  | sent slot txn halloc hsent hstate hid hretry hdata hstamp =>
    have hnow := (hoffer slot).trans (.now env _)
    have hslot : l.Idles entry (Link.setTransaction _ slot txn) := hnow.trans (.congr rfl rfl)
    have hrequest := hslot.trans (.observe _ (.request slot txn l.step (l.offered env slot txData).step) rfl)
    exact hrequest.trans (.congr rfl rfl)

theorem startHandshake (l : Link) : l.Idles entry (uprotoStartHandshake env l).2 := by
  unfold uprotoStartHandshake
  by_cases hstate : l.ctx.state ≠ .idle
  · rw [if_pos hstate]
    exact .refl l
  rw [if_neg hstate]
  have hset : l.Idles entry (l.setState .handshaking) := .congr rfl rfl
  have hnow := hset.trans (.now env _)
  dsimp only
  generalize uprotoNow env (l.setState .handshaking) = reading at hnow ⊢
  have hstart : l.Idles entry { reading.2 with ctx :=
      { reading.2.ctx with handshakeStartTime := reading.1 } } := hnow.trans (.congr rfl rfl)
  exact hstart.trans (Link.Idles.sendRequest _ _ _ _ _ _ _ _)

theorem call (c : UprotoCall) (l : Link) : l.Idles entry (uprotoCall env l c) := by
  cases c with
  | sendRequest type payload len timeoutMs retries cb user => exact .sendRequest _ _ _ _ _ _ _ l
  | startHandshake => exact .startHandshake l
  | sendResponse txnId type payload len =>
    simp only [uprotoCall, uprotoSendResponse]
    split_ifs
    · exact .refl l
    · exact .sendFrame _ _ _ _ _ l
  | sendNotify type payload len =>
    simp only [uprotoCall, uprotoSendNotify]
    split_ifs
    · exact .refl l
    · exact .sendFrame _ _ _ _ _ l
  | registerHandler type handler user =>
    simp only [uprotoCall, uprotoRegisterHandler]
    split_ifs
    · exact .refl l
    · refine ⟨fun h => ?_, rfl⟩
      -- a later registration does not come before an earlier one
      unfold UprotoContext.handlerFor at h ⊢
      rw [List.find?_append, h]
      rfl

theorem callback (env : Env) (l : Link) : l.Idles entry (callback env l) := by
  have hask : l.Idles entry { l with step := l.step + 1 } := .congr rfl rfl
  unfold SpVision.callback
  generalize env.calls l.step = cs
  generalize ({ l with step := l.step + 1 } : Link) = l' at hask
  induction cs generalizing l' with
  | nil => exact hask
  | cons c cs ih => exact ih _ (hask.trans (.call c l'))

theorem fireEvent (env : Env) (event : UprotoEvent) (l : Link) : l.Idles entry (uprotoFireEvent env event l) := by
  unfold uprotoFireEvent
  split_ifs
  · have hevent : l.Idles entry (l.observe (.event event)) := .observe l _ rfl
    exact hevent.trans (.callback env _)
  · exact .refl l

theorem completeTransaction (slot : Fin uprotoMaxTransactions) (err : UprotoError) (rsp : Option (List UInt8))
    (l : Link) : l.Idles entry (uprotoCompleteTransaction env slot err rsp l) := by
  have hbegin : l.Idles entry (l.observe (.complete slot (l.ctx.transactions slot) err rsp)) := .observe l _ rfl
  have hrelease (l' : Link) : l'.Idles entry
      ((l'.setTransaction slot { l'.ctx.transactions slot with state := .free }).observe (.release slot)) := by
    have hset : l'.Idles entry (l'.setTransaction slot { l'.ctx.transactions slot with state := .free }) :=
      .congr rfl rfl
    exact hset.trans (.observe _ _ rfl)
  unfold uprotoCompleteTransaction
  dsimp only
  cases (l.ctx.transactions slot).callback with
  | none => exact hbegin.trans (hrelease _)
  | some cb =>
    have hinvoke := hbegin.trans (.observe _ (.invoke slot cb (l.ctx.transactions slot).user err rsp) rfl)
    exact (hinvoke.trans (.callback env _)).trans (hrelease _)

theorem answer (frame : UprotoFrame) (rsp : Option (List UInt8)) (l : Link) :
    l.Idles entry (uprotoAnswer env frame rsp l) := by
  unfold uprotoAnswer
  cases uprotoFindTransaction l.ctx frame.txnId with
  | none => exact .refl l
  | some slot => exact .completeTransaction slot .ok rsp l

theorem establish (l : Link) :
    l.Idles entry (uprotoFireEvent env .handshakeCompleted (l.setState .established)) := by
  have hset : l.Idles entry (l.setState .established) := .congr rfl rfl
  exact hset.trans (.fireEvent env _ _)

/-- A handler of another type may be called. -/
theorem otherHandler {e : UprotoHandlerEntry} (he : e ≠ entry) (frame : UprotoFrame) (l : Link) :
    l.Idles entry (uprotoHandler env frame e l) := by
  have hentry : l.Idles entry (l.observe (.handler e frame.txnId frame.payload)) := .observe l _ (if_neg he)
  exact hentry.trans (.callback env _)

theorem routeFrame (env : Env) {frame : UprotoFrame} (hcontrol : ¬ IsControl entry.type)
    (hframe : ¬ frame.IsServed entry.type) (l : Link) : l.Idles entry (uprotoRouteFrame env frame l) := by
  unfold uprotoRouteFrame
  dsimp only
  split_ifs with hhello hidle hack hstate hping hpong hresponse hrequest
  · exact (Link.Idles.sendFrame _ _ _ _ _ l).trans (.establish _)
  · exact .sendFrame _ _ _ _ _ l
  · exact (Link.Idles.establish l).trans (.answer _ _ _)
  · exact .answer _ _ l
  · exact .sendFrame _ _ _ _ _ l
  · exact .answer _ _ l
  · exact .answer _ _ l
  all_goals
    split
    · rename_i e hfind
      have htype := List.find?_some hfind
      simp only [decide_eq_true_eq] at htype
      refine .otherHandler ?_ frame l
      rintro rfl
      exact hframe ⟨htype.symm, by simpa using hresponse⟩
    · first | exact .refl l | exact .sendFrame _ _ _ _ _ l

theorem tickTransaction (now : UInt32) (readAt : ℕ) (slot : Fin uprotoMaxTransactions) (l : Link) :
    l.Idles entry (uprotoTickTransaction env now readAt l slot) := by
  unfold uprotoTickTransaction
  dsimp only
  split_ifs
  · exact .refl l
  · have hslot : l.Idles entry (l.setTransaction slot { l.ctx.transactions slot with
        retryCount := (l.ctx.transactions slot).retryCount + 1, lastTxTime := now }) := .congr rfl rfl
    have hnote := hslot.trans (.observe _ (.retransmit slot readAt l.step) rfl)
    have hagain := hnote.trans (.portWrite env (l.ctx.transactions slot).txData _)
    exact (hagain.modifyStats _).trans (.fireEvent env _ _)
  · have hcount : l.Idles entry (l.modifyStats fun s => { s with timeouts := s.timeouts + 1 }) := .congr rfl rfl
    have hexpire := hcount.trans (.observe _ (.expire slot readAt l.step) rfl)
    exact (hexpire.trans (.fireEvent env .timeout _)).trans (.completeTransaction _ _ _ _)
  · exact .refl l

theorem tick (l : Link) : l.Idles entry (uprotoTick env l) := by
  have hslots (now : UInt32) (readAt : ℕ) (slots : List (Fin uprotoMaxTransactions)) (l' : Link) :
      l'.Idles entry (slots.foldl (uprotoTickTransaction env now readAt) l') := by
    induction slots generalizing l' with
    | nil => exact .refl l'
    | cons slot slots ih => exact (Link.Idles.tickTransaction now readAt slot l').trans (ih _)
  have hshake (now : UInt32) (l' : Link) : l'.Idles entry (uprotoTickHandshake env now l') := by
    unfold uprotoTickHandshake
    split_ifs
    · have hidle : l'.Idles entry (l'.setState .idle) := .congr rfl rfl
      exact hidle.trans (.fireEvent env _ _)
    · exact .refl l'
  have hbeat (now : UInt32) (l' : Link) : l'.Idles entry (uprotoTickHeartbeat env now l') := by
    unfold uprotoTickHeartbeat
    split_ifs
    · exact .sendRequest _ _ _ _ _ _ _ l'
    · exact .refl l'
  have hstart := (Link.Idles.now env l).trans (hshake (uprotoNow env l).1 _)
  exact (hstart.trans (hslots (uprotoNow env l).1 l.step (List.finRange uprotoMaxTransactions) _)).trans
    (hbeat (uprotoNow env l).1 _)

theorem crcError (l : Link) : l.Idles entry (uprotoCrcError env l) :=
  ((Link.Idles.refl l).modifyStats _).trans (.fireEvent env _ _)

end Link.Idles

/-! ### What a handler is called with -/

/-- The frames handled so far that go to the handlers of a type. -/
def servedFrames (type : UInt8) (log : List UprotoObs) : List (UInt16 × List UInt8) :=
  (handledFrames log).filterMap fun f => if f.IsServed type then some (f.txnId, f.payload) else none

/-- The entry is the one for its type, and since the log was `start` it has been called once for each frame of the
    type. -/
structure Link.Serving (entry : UprotoHandlerEntry) (start : List UprotoObs) (l : Link) : Prop where
  handler : l.ctx.handlerFor entry.type = some entry
  calls : ∃ calls, handlerCalls entry l.log = handlerCalls entry start ++ calls ∧
    servedFrames entry.type l.log = servedFrames entry.type start ++ calls

namespace Link.Serving

variable {entry : UprotoHandlerEntry} {start : List UprotoObs} {env : Env} {l l' : Link}

theorem idles (h : l.Serving entry start) (hidles : l.Idles entry l')
    (hframes : handledFrames l'.log = handledFrames l.log) : l'.Serving entry start where
  handler := hidles.handler h.handler
  calls := by
    rw [hidles.calls, servedFrames, hframes]
    exact h.calls

theorem routeFrame_handler {frame : UprotoFrame} (hcontrol : ¬ IsControl entry.type)
    (hhandler : l.ctx.handlerFor entry.type = some entry) (hframe : frame.IsServed entry.type) :
    uprotoRouteFrame env frame l = uprotoHandler env frame entry l := by
  obtain ⟨htype, hflags⟩ := hframe
  simp only [IsControl, not_or, ← htype] at hcontrol
  unfold uprotoRouteFrame
  rw [if_neg hcontrol.1, if_neg hcontrol.2.1, if_neg hcontrol.2.2.1, if_neg hcontrol.2.2.2,
    if_neg (not_not.mpr hflags)]
  rw [UprotoContext.handlerFor, ← htype] at hhandler
  rw [hhandler]

theorem handleFrame_eq (entry : UprotoHandlerEntry) (env : Env) (frame : UprotoFrame) (l : Link) : ∃ l₁, l.Idles entry l₁ ∧
    uprotoHandleFrame env frame l = (uprotoRouteFrame env frame l₁).observe .handled := by
  have hcount : l.Idles entry ((l.observe (.handle frame)).modifyStats fun s =>
      { s with rxFrames := s.rxFrames + 1 }) :=
    (Link.Idles.observe l (.handle frame) rfl).modifyStats _
  have hnow := hcount.trans (.now env _)
  unfold uprotoHandleFrame
  dsimp only
  generalize uprotoNow env _ = reading at hnow ⊢
  refine ⟨_, ?_, rfl⟩
  exact hnow.trans (.congr rfl rfl)

theorem handleFrame (h : l.Serving entry start) (hcontrol : ¬ IsControl entry.type) (frame : UprotoFrame) :
    (uprotoHandleFrame env frame l).Serving entry start := by
  have hframes := (uprotoHandleFrame_traffic env frame l).1
  have hserved : servedFrames entry.type (uprotoHandleFrame env frame l).log =
      servedFrames entry.type l.log ++
        if frame.IsServed entry.type then [(frame.txnId, frame.payload)] else [] := by
    unfold servedFrames
    rw [hframes, List.filterMap_append]
    split_ifs with hframe <;> simp [hframe]
  obtain ⟨calls, hcallsBefore, hservedBefore⟩ := h.calls
  obtain ⟨l₁, hstart, heq⟩ := handleFrame_eq entry env frame l
  have hregistered := hstart.handler h.handler
  have hend (l₂ : Link) : l₂.Idles entry (l₂.observe .handled) := .observe l₂ _ rfl
  rw [heq] at hserved ⊢
  by_cases hframe : frame.IsServed entry.type
  · rw [if_pos hframe] at hserved
    rw [routeFrame_handler hcontrol hregistered hframe] at hserved ⊢
    have hcall := (Link.Idles.callback env
      (l₁.observe (.handler entry frame.txnId frame.payload))).trans (hend _)
    have hcalls : handlerCalls entry (l₁.observe (.handler entry frame.txnId frame.payload)).log =
        handlerCalls entry l₁.log ++ [(frame.txnId, frame.payload)] := by
      change handlerCalls entry (_ :: l₁.log) = _
      simp [handlerCalls_cons, UprotoObs.servedBy?]
    refine ⟨hcall.handler hregistered, calls ++ [(frame.txnId, frame.payload)], ?_, ?_⟩
    · rw [← List.append_assoc, ← hcallsBefore, ← hstart.calls, ← hcalls]
      exact hcall.calls
    · rw [hserved, hservedBefore, List.append_assoc]
  · rw [if_neg hframe, List.append_nil] at hserved
    have hroute := (hstart.trans (.routeFrame env hcontrol hframe l₁)).trans (hend _)
    exact ⟨hroute.handler h.handler, calls, hroute.calls.trans hcallsBefore, hserved.trans hservedBefore⟩

theorem segments (h : l.Serving entry start) (hcontrol : ¬ IsControl entry.type) (segs : List RxSegment) :
    (segs.foldl (rxSink env).segment l).Serving entry start := by
  induction segs generalizing l with
  | nil => exact h
  | cons seg segs ih =>
    apply ih
    cases seg with
    | noise => exact h
    | badLength => exact h
    | block start len result =>
      cases result with
      | ok frame => exact h.handleFrame hcontrol frame
      | error err =>
        cases err
        case crc => exact h.idles (.crcError l) (uprotoCrcError_frames env l)
        all_goals exact h

end Link.Serving

namespace Endpoint

variable {entry : UprotoHandlerEntry} {start : List UprotoObs} {e : Endpoint}

theorem step_serving (env : Env) (h : e.link.Serving entry start) (hcontrol : ¬ IsControl entry.type)
    (input : UprotoInput) : (e.step env input).link.Serving entry start := by
  cases input with
  | call c =>
    have hcall : Calls env Set.univ e.link.session (uprotoCall env e.link c).session :=
      Calls.call .refl (UprotoInput.uses_univ (.call c))
    rw [step_call]
    exact h.idles (.call c _) hcall.undisturbed.frames
  | tick =>
    rw [step_tick]
    dsimp only
    exact h.idles (.tick _) (uprotoTick_frames env _)
  | rxBytes data =>
    have hcall := (uprotoOnRxBytes_call (rxSink env) data e.rx e.link 0).2
    unfold step onRxBytes
    dsimp only
    rw [hcall]
    exact h.segments hcontrol _

theorem run_serving (env : Env) (h : e.link.Serving entry start) (hcontrol : ¬ IsControl entry.type)
    (inputs : List UprotoInput) : (e.run env inputs).link.Serving entry start := by
  induction inputs generalizing e with
  | nil => exact h
  | cons input inputs ih => exact ih (step_serving env h hcontrol input)

/-- The first registration for a type, while there is room, makes the handler the one that serves it. -/
theorem registerHandler_serving (env : Env) (e : Endpoint) (type : UInt8) (handler user : ℕ)
    (hroom : e.link.ctx.handlers.length < uprotoMaxHandlers) (hfirst : e.link.ctx.handlerFor type = none) :
    (e.step env (.call (.registerHandler type handler user))).link.Serving ⟨type, handler, user⟩ e.link.log := by
  rw [step_call]
  simp only [uprotoCall, uprotoRegisterHandler]
  rw [if_neg (Nat.not_le.mpr hroom)]
  refine ⟨?_, [], (List.append_nil _).symm, (List.append_nil _).symm⟩
  unfold UprotoContext.handlerFor at hfirst ⊢
  rw [List.find?_append, hfirst]
  simp

end Endpoint

/-- From the registration of the first handler for a type on, its calls are exactly the frames of that
    type that are not responses, once each, in the order they were handled. -/
theorem uprotoRegisterHandler_calls (env : Env) (portWrite timeNowMs : Bool) (config : Option UprotoConfig)
    (before after : List UprotoInput) {type : UInt8} (htype : ¬ IsControl type) (handler user : ℕ) :
    let link := ((Endpoint.init portWrite timeNowMs config).run env before).link
    let log := ((Endpoint.init portWrite timeNowMs config).run env
      (before ++ .call (.registerHandler type handler user) :: after)).link.log
    link.ctx.handlers.length < uprotoMaxHandlers → link.ctx.handlerFor type = none →
      ∃ calls, handlerCalls ⟨type, handler, user⟩ log = handlerCalls ⟨type, handler, user⟩ link.log ++ calls ∧
        servedFrames type log = servedFrames type link.log ++ calls := by
  intro link log hroom hfirst
  have hserving := Endpoint.run_serving env
    (Endpoint.registerHandler_serving env _ type handler user hroom hfirst) htype after
  have hlog : log = ((((Endpoint.init portWrite timeNowMs config).run env before).step env
      (.call (.registerHandler type handler user))).run env after).link.log :=
    congrArg (fun e : Endpoint => e.link.log) (List.foldl_append ..)
  rw [hlog]
  exact hserving.calls

def noteFrame : TxFrame := ⟨0, uprotoMsgUserBase, 0, 0, 0, [1, 2], by decide⟩

def replyFrame : TxFrame := ⟨uprotoFlagResponse, uprotoMsgUserBase, 0, 1, 0, [3], by decide⟩

/-- A handler that is registered behind another, after a first frame of its type. -/
theorem uprotoRegisterHandler_calls_note :
    let before : List UprotoInput := [.call (.registerHandler 0x77 5 0), .rxBytes noteFrame.bytes]
    let link := ((Endpoint.init true true none).run quietEnv before).link
    let log := ((Endpoint.init true true none).run quietEnv (before ++
      .call (.registerHandler uprotoMsgUserBase 7 0) :: [.rxBytes (noteFrame.bytes ++ replyFrame.bytes),
        .rxBytes noteFrame.bytes])).link.log
    servedFrames uprotoMsgUserBase link.log = [(0, [1, 2])] ∧
      servedFrames uprotoMsgUserBase log = [(0, [1, 2]), (0, [1, 2]), (0, [1, 2])] ∧
      ∃ calls, handlerCalls ⟨uprotoMsgUserBase, 7, 0⟩ log =
          handlerCalls ⟨uprotoMsgUserBase, 7, 0⟩ link.log ++ calls ∧
        servedFrames uprotoMsgUserBase log = servedFrames uprotoMsgUserBase link.log ++ calls := by
  refine ⟨by decide +kernel, by decide +kernel, ?_⟩
  exact uprotoRegisterHandler_calls quietEnv true true none
    [.call (.registerHandler 0x77 5 0), .rxBytes noteFrame.bytes] _ (by decide) 7 0 (by decide +kernel)
    (by decide +kernel)

end SpVision
