import SpVision.Uproto.Session

set_option autoImplicit false

/-!
# The functions of `uproto.c` are runs of the transition system
-/
namespace SpVision
open Relation

variable {env : Env} {app : Set UInt8}

theorem uprotoNow_fst (env : Env) (l : Link) :
    (uprotoNow env l).1 = stamp env l.ctx.timeNowMs l.step := by
  unfold uprotoNow stamp
  split_ifs <;> rfl

theorem uprotoNow_ctx (env : Env) (l : Link) : (uprotoNow env l).2.ctx = l.ctx := by
  unfold uprotoNow
  split_ifs <;> rfl

theorem uprotoNow_log (env : Env) (l : Link) : (uprotoNow env l).2.log = l.log := by
  unfold uprotoNow
  split_ifs <;> rfl

theorem wireType_encode (flags type : UInt8) (txnId seq ack : UInt16) (payload : Option (List UInt8))
    (len : ℕ) : wireType (uprotoEncodeFrame flags type txnId seq ack payload len) = type := rfl

theorem uprotoAllocTransaction_free {ctx : UprotoContext} {slot : Fin uprotoMaxTransactions}
    (h : uprotoAllocTransaction ctx = some slot) : (ctx.transactions slot).state = .free := by
  simpa using List.find?_some h

/-! ### What `uproto_send_request` can do -/

/-- The context after the frame of a request was drawn and passed to `port.write`. -/
def Link.offered (env : Env) (l : Link) (slot : Fin uprotoMaxTransactions) (txData : List UInt8) : Link :=
  (portWrite env txData (l.drawRequest slot txData)).2

theorem Link.offered_log (env : Env) (l : Link) (slot : Fin uprotoMaxTransactions)
    (txData : List UInt8) : (l.offered env slot txData).log =
      .write l.step txData (env.write l.step txData) :: .issue l.ctx.nextTxnId :: l.log := rfl

theorem Link.offered_transactions (env : Env) (l : Link) (slot : Fin uprotoMaxTransactions)
    (txData : List UInt8) : (l.offered env slot txData).ctx.transactions =
      Function.update l.ctx.transactions slot { l.ctx.transactions slot with txData := txData } := rfl

/-- The result of `uproto_send_request`, with `txData` the encoded frame. -/
inductive SendRequestCase (env : Env) (l : Link) (len : ℕ) (txData : List UInt8) :
    UprotoError × Link → Prop
  | refused (err : UprotoError) (herr : err ≠ .ok)
      (hrefused : len > uprotoMaxPayload ∨ uprotoAllocTransaction l.ctx = none) :
      SendRequestCase env l len txData (err, l)
  | full (slot : Fin uprotoMaxTransactions) (halloc : uprotoAllocTransaction l.ctx = some slot)
      (hfull : env.write l.step txData ≠ txData.length) :
      SendRequestCase env l len txData (.txFull, (l.offered env slot txData).setTransaction slot
        { l.ctx.transactions slot with txData := txData, state := .free })
  | sent (slot : Fin uprotoMaxTransactions) (txn : UprotoTransaction)
      (halloc : uprotoAllocTransaction l.ctx = some slot)
      (hsent : env.write l.step txData = txData.length) (hstate : txn.state = .waiting)
      (hid : txn.txnId = l.ctx.nextTxnId) (hretry : txn.retryCount = 0) (hdata : txn.txData = txData)
      (hstamp : txn.lastTxTime = (uprotoNow env (l.offered env slot txData)).1) :
      SendRequestCase env l len txData (.ok, (uprotoNow env (l.offered env slot txData)).2.acceptRequest
        slot txn l.step (l.offered env slot txData).step)

theorem uprotoSendRequest_cases (env : Env) (type : UInt8) (payload : Option (List UInt8)) (len : ℕ)
    (timeoutMs : UInt32) (retries : UInt8) (cb : Option ℕ) (user : ℕ) (l : Link) :
    SendRequestCase env l len
      (uprotoEncodeFrame uprotoFlagRequest type l.ctx.nextTxnId l.ctx.localSeq 0 payload len)
      (uprotoSendRequest env type payload len timeoutMs retries cb user l) := by
  unfold uprotoSendRequest
  by_cases hlen : len > uprotoMaxPayload
  · rw [if_pos hlen]
    exact .refused .length nofun (.inl hlen)
  rw [if_neg hlen]
  cases halloc : uprotoAllocTransaction l.ctx with
  | none => exact .refused .noMemory nofun (.inr halloc)
  | some slot =>
    dsimp only
    generalize uprotoEncodeFrame uprotoFlagRequest type l.ctx.nextTxnId l.ctx.localSeq 0 payload len = txData
    have hslot : (portWrite env txData (l.drawRequest slot txData)).2.ctx.transactions slot =
        { l.ctx.transactions slot with txData := txData } := Function.update_self _ _ _
    by_cases hsent : (portWrite env txData (l.drawRequest slot txData)).1 ≠ txData.length
    · rw [if_pos hsent, hslot]
      exact .full slot halloc hsent
    · rw [if_neg hsent]
      exact .sent slot _ halloc (not_not.mp hsent) rfl rfl rfl rfl rfl

/-! ### Application calls -/

section Calls
variable {s : Session} {l : Link}

theorem Calls.now (h : Calls env app s l.session) : Calls env app s (uprotoNow env l).2.session := by
  unfold uprotoNow
  split_ifs
  · exact h.tail .ask
  · exact h

theorem Calls.write (h : Calls env app s l.session) {data : List UInt8}
    (htype : wireType data ∈ wireTypes app) : Calls env app s (portWrite env data l).2.session :=
  h.tail (.send data _ htype)

theorem Calls.modifyStats (h : Calls env app s l.session) {f : UprotoStats → UprotoStats}
    (hf : ∀ c, (f c).crcErrors = c.crcErrors) : Calls env app s (l.modifyStats f).session := by
  simp only [Link.session, Link.modifyStats, hf]
  exact h

theorem Calls.setLastTxTime (h : Calls env app s l.session) (now : UInt32) :
    Calls env app s (l.setLastTxTime now).session := h

theorem Calls.sendFrame (h : Calls env app s l.session) {type : UInt8} (htype : type ∈ wireTypes app)
    (flags : UInt8) (txnId : UInt16) (payload : Option (List UInt8)) (len : ℕ) :
    Calls env app s (uprotoSendFrame env flags type txnId payload len l).2.session := by
  unfold uprotoSendFrame
  by_cases hport : ¬ l.ctx.portWrite
  · rw [if_pos hport]
    exact h
  rw [if_neg hport]
  have hseq : Calls env app s
      { l with ctx := { l.ctx with localSeq := l.ctx.localSeq + 1 } }.session := h
  have htype' : wireType (uprotoEncodeFrame flags type txnId l.ctx.localSeq 0 payload len) ∈
      wireTypes app := htype
  have hwrite := hseq.write htype'
  dsimp only
  split_ifs
  · refine Calls.setLastTxTime (Calls.now (hwrite.modifyStats ?_)) _
    exact fun _ => rfl
  · exact hwrite

theorem Calls.drawRequest (h : Calls env app s l.session) {slot : Fin uprotoMaxTransactions}
    (hfree : (l.ctx.transactions slot).state = .free) (txData : List UInt8) :
    Calls env app s (l.drawRequest slot txData).session :=
  (h.tail .issue).tail (.prepare slot { l.ctx.transactions slot with txData := txData } hfree hfree)

theorem Calls.sendRequest (h : Calls env app s l.session) {type : UInt8}
    (htype : type ∈ wireTypes app) (payload : Option (List UInt8)) (len : ℕ) (timeoutMs : UInt32)
    (retries : UInt8) (cb : Option ℕ) (user : ℕ) :
    Calls env app s (uprotoSendRequest env type payload len timeoutMs retries cb user l).2.session := by
  have hcases := uprotoSendRequest_cases env type payload len timeoutMs retries cb user l
  have hwire : wireType (uprotoEncodeFrame uprotoFlagRequest type l.ctx.nextTxnId l.ctx.localSeq 0
      payload len) ∈ wireTypes app := htype
  generalize uprotoEncodeFrame uprotoFlagRequest type l.ctx.nextTxnId l.ctx.localSeq 0 payload len =
    txData at hcases hwire
  have hoffer {slot : Fin uprotoMaxTransactions} (halloc : uprotoAllocTransaction l.ctx = some slot) :
      Calls env app s (l.offered env slot txData).session ∧
        ((l.offered env slot txData).ctx.transactions slot).state = .free := by
    have hfree := uprotoAllocTransaction_free halloc
    refine ⟨(h.drawRequest hfree txData).write hwire, ?_⟩
    rw [Link.offered_transactions, Function.update_self]
    exact hfree
  generalize uprotoSendRequest env type payload len timeoutMs retries cb user l = result at hcases ⊢
  cases hcases with
  | refused err herr hrefused => exact h
  | full slot halloc hfull =>
    obtain ⟨hwrite, hslot⟩ := hoffer halloc
    exact hwrite.tail (.prepare slot _ hslot rfl)
  | sent slot txn halloc hsent hstate hid hretry hdata hstamp =>
    obtain ⟨hwrite, hslot⟩ := hoffer halloc
    have hid' : txn.txnId = (l.offered env slot txData).ctx.nextTxnId - 1 := by
      rw [hid]
      change l.ctx.nextTxnId = l.ctx.nextTxnId + 1 - 1
      simp
    have hstep : l.step < (l.offered env slot txData).step := Nat.lt_succ_self _
    have hnow := hwrite.now
    have hctx := uprotoNow_ctx env (l.offered env slot txData)
    rw [uprotoNow_fst] at hstamp
    rw [← hctx] at hslot hid' hstamp
    exact hnow.tail (.accept slot txn _ _ hslot hstate hretry hid' (hdata ▸ hwire) hstep hstamp)

theorem Calls.startHandshake (h : Calls env app s l.session) :
    Calls env app s (uprotoStartHandshake env l).2.session := by
  unfold uprotoStartHandshake
  by_cases hstate : l.ctx.state ≠ .idle
  · rw [if_pos hstate]
    exact h
  rw [if_neg hstate]
  have hgreet : Calls env app s (l.setState .handshaking).session :=
    h.tail (.startHandshake (not_not.mp hstate))
  have hnow := hgreet.now
  dsimp only
  generalize uprotoNow env (l.setState .handshaking) = reading at hnow ⊢
  exact Calls.sendRequest
    (l := { reading.2 with ctx := { reading.2.ctx with handshakeStartTime := reading.1 } })
    hnow (.inr (.inl rfl)) _ _ _ _ _ _

def UprotoCall.Uses (app : Set UInt8) : UprotoCall → Prop
  | .sendRequest type _ _ _ _ _ _ => type ∈ app
  | .sendResponse _ type _ _ => type ∈ app
  | .sendNotify type _ _ => type ∈ app
  | .startHandshake => True
  | .registerHandler _ _ _ => True

/-- The application only sends messages of the types `app`, also from its callbacks. -/
def Env.Uses (env : Env) (app : Set UInt8) : Prop := ∀ i, ∀ c ∈ env.calls i, c.Uses app

theorem Calls.call (h : Calls env app s l.session) {c : UprotoCall} (hc : c.Uses app) :
    Calls env app s (uprotoCall env l c).session := by
  cases c with
  | sendRequest type payload len timeoutMs retries cb user => exact h.sendRequest (.inl hc) _ _ _ _ _ _
  | startHandshake => exact h.startHandshake
  | sendResponse txnId type payload len =>
    simp only [uprotoCall, uprotoSendResponse]
    split_ifs
    · exact h
    · exact h.sendFrame (.inl hc) _ _ _ _
  | sendNotify type payload len =>
    simp only [uprotoCall, uprotoSendNotify]
    split_ifs
    · exact h
    · exact h.sendFrame (.inl hc) _ _ _ _
  | registerHandler type handler user =>
    simp only [uprotoCall, uprotoRegisterHandler]
    split_ifs <;> exact h

theorem Calls.callback (h : Calls env app s l.session) (henv : env.Uses app) :
    Calls env app s (callback env l).session := by
  have hask : Calls env app s { l with step := l.step + 1 }.session := h.tail .ask
  have hcalls := henv l.step
  unfold SpVision.callback
  generalize env.calls l.step = cs at hcalls
  generalize ({ l with step := l.step + 1 } : Link) = l' at hask
  induction cs generalizing l' with
  | nil => exact hask
  | cons c cs ih =>
    exact ih (fun c' hc' => hcalls c' (List.mem_cons_of_mem _ hc')) _
      (hask.call (hcalls c List.mem_cons_self))

end Calls

/-! ### Callbacks -/

theorem Env.uses_univ (env : Env) : env.Uses Set.univ := by
  intro i c _
  cases c <;> trivial

theorem callback_undisturbed (env : Env) (l : Link) : l.session.Undisturbed (callback env l).session :=
  (Calls.callback .refl env.uses_univ).undisturbed

theorem uprotoSendFrame_undisturbed (env : Env) (flags type : UInt8) (txnId : UInt16)
    (payload : Option (List UInt8)) (len : ℕ) (l : Link) :
    l.session.Undisturbed (uprotoSendFrame env flags type txnId payload len l).2.session := by
  have htype : type ∈ wireTypes Set.univ := .inl (Set.mem_univ type)
  exact (Calls.sendFrame .refl htype flags txnId payload len).undisturbed

theorem uprotoFireEvent_undisturbed (env : Env) (event : UprotoEvent) (l : Link) :
    l.session.Undisturbed (uprotoFireEvent env event l).session := by
  unfold uprotoFireEvent
  split_ifs
  · exact (Session.Undisturbed.observe l.session (o := .event event) rfl l.step l.ctx.nextTxnId).trans
      (callback_undisturbed env (l.observe (.event event)))
  · exact .refl _

/-- `l` is reached from `s`, and no completion is in progress. -/
structure Reached (env : Env) (app : Set UInt8) (s : Session) (l : Link) : Prop where
  runs : Runs env app s l.session
  resting : completing l.log = none

section Reached
variable {s : Session} {l : Link}

theorem Reached.calls (h : Reached env app s l) {l' : Link} (hcalls : Calls env app l.session l'.session) :
    Reached env app s l' :=
  ⟨h.runs.trans hcalls.runs, hcalls.undisturbed.completing.trans h.resting⟩

theorem Reached.callback (h : Reached env app s l) (henv : env.Uses app) :
    Reached env app s (callback env l) :=
  h.calls (Calls.callback .refl henv)

theorem Reached.sendFrame (h : Reached env app s l) {type : UInt8} (htype : type ∈ wireTypes app)
    (flags : UInt8) (txnId : UInt16) (payload : Option (List UInt8)) (len : ℕ) :
    Reached env app s (uprotoSendFrame env flags type txnId payload len l).2 :=
  h.calls (Calls.sendFrame .refl htype flags txnId payload len)

theorem Reached.fireEvent (h : Reached env app s l) (henv : env.Uses app) (event : UprotoEvent) :
    Reached env app s (uprotoFireEvent env event l) := by
  unfold uprotoFireEvent
  split_ifs
  · have hevent : Reached env app s (l.observe (.event event)) := ⟨h.runs.tail (.event event), h.resting⟩
    exact hevent.callback henv
  · exact h

theorem Reached.handler (h : Reached env app s l) (henv : env.Uses app) (frame : UprotoFrame)
    (entry : UprotoHandlerEntry) : Reached env app s (uprotoHandler env frame entry l) := by
  have hentry : Reached env app s (l.observe (.handler entry frame.txnId frame.payload)) :=
    ⟨h.runs.tail (.handler entry frame.txnId frame.payload), h.resting⟩
  exact hentry.callback henv

theorem Reached.completeTransaction (h : Reached env app s l) (henv : env.Uses app)
    {slot : Fin uprotoMaxTransactions} {err : UprotoError} {rsp : Option (List UInt8)}
    (hslot : (l.ctx.transactions slot).state ≠ .free)
    (hcause : err = .ok ∧ (∃ f, handling l.log = some f ∧ f.txnId = (l.ctx.transactions slot).txnId ∧
        rsp = f.response) ∨
      err = .timeout ∧ rsp = none ∧
        ¬ (l.ctx.transactions slot).retryCount < (l.ctx.transactions slot).maxRetries) :
    Reached env app s (uprotoCompleteTransaction env slot err rsp l) := by
  have hbegin : Runs env app s
      (l.observe (.complete slot (l.ctx.transactions slot) err rsp)).session :=
    h.runs.tail (.complete slot err rsp hslot h.resting hcause)
  unfold uprotoCompleteTransaction
  dsimp only
  generalize l.ctx.transactions slot = txn at hbegin ⊢
  cases hcb : txn.callback with
  | none =>
    have hdue : due (.complete slot txn err rsp :: l.log) = false := by
      rw [due, hcb]
      rfl
    exact ⟨hbegin.tail (.release slot rfl hdue), rfl⟩
  | some cb =>
    have hinvoke : Runs env app s
        ((l.observe (.complete slot txn err rsp)).observe (.invoke slot cb txn.user err rsp)).session :=
      hbegin.tail (.invoke slot txn cb err rsp rfl hcb)
    have hcallback := callback_undisturbed env
      ((l.observe (.complete slot txn err rsp)).observe (.invoke slot cb txn.user err rsp))
    exact ⟨(hinvoke.trans (Calls.callback .refl henv).runs).tail
      (.release slot hcallback.completing hcallback.due), rfl⟩

theorem Reached.answer (h : Reached env app s l) (henv : env.Uses app) {frame : UprotoFrame}
    {rsp : Option (List UInt8)} (hframe : handling l.log = some frame) (hrsp : rsp = frame.response) :
    Reached env app s (uprotoAnswer env frame rsp l) := by
  unfold uprotoAnswer
  cases hfind : uprotoFindTransaction l.ctx frame.txnId with
  | none => exact h
  | some slot =>
    have hslot := List.find?_some hfind
    simp only [decide_eq_true_eq] at hslot
    exact h.completeTransaction henv hslot.1 (.inl ⟨rfl, frame, hframe, hslot.2.symm, hrsp⟩)

/-- The answer to a `HELLO`, taken together with the state change that follows it. -/
theorem Reached.hello (h : Reached env app s l) (txnId : UInt16) :
    Reached env app s ((uprotoSendFrame env uprotoFlagResponse uprotoMsgHelloAck txnId none 0 l).2.setState
      .established) := by
  refine ⟨?_, (uprotoSendFrame_undisturbed env _ _ txnId none 0 l).completing.trans h.resting⟩
  unfold uprotoSendFrame
  by_cases hport : ¬ l.ctx.portWrite
  · rw [if_pos hport]
    exact h.runs.tail .establish
  rw [if_neg hport]
  dsimp only
  generalize hdata : uprotoEncodeFrame uprotoFlagResponse uprotoMsgHelloAck txnId l.ctx.localSeq 0
    none 0 = data
  have hwire : wireType data = uprotoMsgHelloAck := by rw [← hdata, wireType_encode]
  have hhello : Runs env app s ((portWrite env data
      { l with ctx := { l.ctx with localSeq := l.ctx.localSeq + 1 } }).2.setState .established).session :=
    h.runs.tail (.hello data _ hwire)
  generalize portWrite env data _ = p at hhello ⊢
  split_ifs
  · unfold uprotoNow
    split_ifs
    · exact hhello.tail (.call .ask)
    · exact hhello
  · exact hhello

theorem Reached.establish (h : Reached env app s l) : Reached env app s (l.setState .established) :=
  ⟨h.runs.tail .establish, h.resting⟩

theorem Link.setState_self {l : Link} {state : UprotoState} (h : l.ctx.state = state) :
    l.setState state = l := by
  subst h
  rfl

theorem UprotoState.established_of {state : UprotoState}
    (h : ¬ (state = .idle ∨ state = .handshaking)) : state = .established := by
  cases state <;> simp_all

theorem Reached.routeFrame (h : Reached env app s l) (henv : env.Uses app) {frame : UprotoFrame}
    (hframe : handling l.log = some frame) : Reached env app s (uprotoRouteFrame env frame l) := by
  unfold uprotoRouteFrame
  by_cases hhello : frame.type = uprotoMsgHello
  · rw [if_pos hhello]
    have hup := h.hello frame.txnId
    dsimp only
    split_ifs with hstate
    · exact hup.fireEvent henv _
    · rw [Link.setState_self (UprotoState.established_of hstate)] at hup
      exact hup
  rw [if_neg hhello]
  by_cases hack : frame.type = uprotoMsgHelloAck
  · rw [if_pos hack]
    have hrsp : some frame.payload = frame.response := by
      rw [UprotoFrame.response, hack, if_neg (by decide)]
    dsimp only
    split_ifs with hstate
    · refine (h.establish.fireEvent henv _).answer henv ?_ hrsp
      exact (uprotoFireEvent_undisturbed env _ _).handling.trans hframe
    · exact h.answer henv hframe hrsp
  rw [if_neg hack]
  by_cases hping : frame.type = uprotoMsgPing
  · rw [if_pos hping]
    exact h.sendFrame (by simp [wireTypes]) _ _ _ _
  rw [if_neg hping]
  by_cases hpong : frame.type = uprotoMsgPong
  · rw [if_pos hpong]
    exact h.answer henv hframe (if_pos hpong).symm
  rw [if_neg hpong]
  by_cases hresponse : frame.flags &&& uprotoFlagResponse ≠ 0
  · rw [if_pos hresponse]
    exact h.answer henv hframe (if_neg hpong).symm
  rw [if_neg hresponse]
  cases l.ctx.handlers.find? fun entry => entry.type = frame.type with
  | some entry => exact h.handler henv frame entry
  | none =>
    dsimp only
    split_ifs
    · exact h
    · exact h.sendFrame (by simp [wireTypes]) _ _ _ _

theorem Reached.now (h : Reached env app s l) : Reached env app s (uprotoNow env l).2 :=
  h.calls (Calls.now .refl)

theorem Reached.modifyStats (h : Reached env app s l) {f : UprotoStats → UprotoStats}
    (hf : ∀ c, (f c).crcErrors = c.crcErrors) : Reached env app s (l.modifyStats f) :=
  h.calls (Calls.modifyStats .refl hf)

theorem Reached.handleFrame (h : Reached env app s l) (henv : env.Uses app) (frame : UprotoFrame) :
    Reached env app s (uprotoHandleFrame env frame l) := by
  unfold uprotoHandleFrame
  dsimp only
  have hbegin : Reached env app s (l.observe (.handle frame)) :=
    ⟨h.runs.tail (.handle frame h.resting), h.resting⟩
  have hcount := hbegin.modifyStats
    (f := fun c => { c with rxFrames := c.rxFrames + 1 }) fun _ => rfl
  have hnow := hcount.now
  have hlog := uprotoNow_log env ((l.observe (.handle frame)).modifyStats
    fun c => { c with rxFrames := c.rxFrames + 1 })
  generalize uprotoNow env _ = reading at hnow hlog ⊢
  generalize hl' : ({ reading.2 with ctx :=
    { reading.2.ctx with lastRxTime := reading.1, remoteSeq := frame.seq } } : Link) = l'
  have hstart : Reached env app s l' := by rw [← hl']; exact ⟨hnow.runs, hnow.resting⟩
  have hframe : handling l'.log = some frame := by rw [← hl', hlog]; rfl
  have hroute := hstart.routeFrame henv hframe
  exact ⟨hroute.runs.tail .handled, hroute.resting⟩

theorem Reached.crcError (h : Reached env app s l) (henv : env.Uses app) :
    Reached env app s (uprotoCrcError env l) := by
  have hcount : Reached env app s
      (l.modifyStats fun c => { c with crcErrors := c.crcErrors + 1 }) :=
    ⟨h.runs.tail .crcError, h.resting⟩
  exact hcount.fireEvent henv .crcError

/-! ### The tick -/

theorem Reached.tickTransaction (h : Reached env app s l) (henv : env.Uses app) {now : UInt32}
    {readAt : ℕ} (hread : readAt ≤ l.step) (hnow : now = stamp env l.ctx.timeNowMs readAt)
    (slot : Fin uprotoMaxTransactions) :
    Reached env app s (uprotoTickTransaction env now readAt l slot) := by
  unfold uprotoTickTransaction
  by_cases hwaiting : (l.ctx.transactions slot).state ≠ .waiting
  · rw [if_pos hwaiting]
    exact h
  rw [if_neg hwaiting]
  by_cases helapsed : now - (l.ctx.transactions slot).lastTxTime ≥ (l.ctx.transactions slot).timeoutMs
  swap
  · rw [if_neg helapsed]
    exact h
  rw [if_pos helapsed]
  have htimed : TimedOut env l.session slot readAt :=
    ⟨not_not.mp hwaiting, hread, by rw [hnow] at helapsed; exact helapsed⟩
  by_cases hretry : (l.ctx.transactions slot).retryCount < (l.ctx.transactions slot).maxRetries
  · rw [if_pos hretry]
    dsimp only
    refine Reached.fireEvent (Reached.modifyStats ?_ ?_) henv _
    · subst hnow
      exact ⟨h.runs.tail (.retransmit slot readAt _ htimed hretry), h.resting⟩
    · exact fun _ => rfl
  · rw [if_neg hretry]
    dsimp only
    have hexpire : Reached env app s
        ((l.modifyStats fun c => { c with timeouts := c.timeouts + 1 }).observe
          (.expire slot readAt l.step)) :=
      ⟨h.runs.tail (.expire slot readAt htimed hretry), h.resting⟩
    have hevent := uprotoFireEvent_undisturbed env .timeout
      ((l.modifyStats fun c => { c with timeouts := c.timeouts + 1 }).observe
        (.expire slot readAt l.step))
    have hslot := hevent.slot slot (by
      change (l.ctx.transactions slot).state ≠ .free
      rw [not_not.mp hwaiting]
      decide)
    change _ = l.ctx.transactions slot at hslot
    refine (hexpire.fireEvent henv .timeout).completeTransaction henv ?_ (.inr ⟨rfl, rfl, ?_⟩)
    · change ((uprotoFireEvent env .timeout _).session.slots slot).state ≠ .free
      rw [hslot, not_not.mp hwaiting]
      decide
    · change ¬ ((uprotoFireEvent env .timeout _).session.slots slot).retryCount <
        ((uprotoFireEvent env .timeout _).session.slots slot).maxRetries
      rw [hslot]
      exact hretry

theorem Reached.tickTransactions (h : Reached env app s l) (henv : env.Uses app) {now : UInt32}
    {readAt : ℕ} (hread : readAt ≤ l.step) (hnow : now = stamp env l.ctx.timeNowMs readAt)
    (slots : List (Fin uprotoMaxTransactions)) :
    Reached env app s (slots.foldl (uprotoTickTransaction env now readAt) l) := by
  induction slots generalizing l with
  | nil => exact h
  | cons slot slots ih =>
    have hstep : Reached env app l.session (uprotoTickTransaction env now readAt l slot) :=
      Reached.tickTransaction ⟨.refl, h.resting⟩ henv hread hnow slot
    exact ih (h.tickTransaction henv hread hnow slot) (hread.trans hstep.runs.asked_le)
      (hnow.trans (congrArg (stamp env · readAt) hstep.runs.timeNowMs.symm))

theorem Reached.tickHandshake (h : Reached env app s l) (henv : env.Uses app) (now : UInt32) :
    Reached env app s (uprotoTickHandshake env now l) := by
  unfold uprotoTickHandshake
  split_ifs with hstate
  · have hlapse : Reached env app s (l.setState .idle) := ⟨h.runs.tail (.lapse hstate.1), h.resting⟩
    exact hlapse.fireEvent henv _
  · exact h

theorem Reached.tickHeartbeat (h : Reached env app s l) (now : UInt32) :
    Reached env app s (uprotoTickHeartbeat env now l) := by
  unfold uprotoTickHeartbeat
  split_ifs
  · exact h.calls (Calls.sendRequest .refl (by simp [wireTypes]) _ _ _ _ _ _)
  · exact h

theorem Reached.tick (h : Reached env app s l) (henv : env.Uses app) :
    Reached env app s (uprotoTick env l) := by
  unfold uprotoTick
  dsimp only
  have hnow : Reached env app l.session (uprotoNow env l).2 := Reached.now ⟨.refl, h.resting⟩
  have hshake := hnow.tickHandshake henv (uprotoNow env l).1
  have htime : (uprotoNow env l).1 =
      stamp env (uprotoTickHandshake env (uprotoNow env l).1 (uprotoNow env l).2).ctx.timeNowMs l.step :=
    (uprotoNow_fst env l).trans (congrArg (stamp env · l.step) hshake.runs.timeNowMs.symm)
  exact ((h.now.tickHandshake henv _).tickTransactions henv hshake.runs.asked_le htime _).tickHeartbeat _

end Reached

end SpVision
