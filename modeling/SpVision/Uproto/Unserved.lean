import SpVision.Uproto.Handshake

set_option autoImplicit false

/-!
# A request that nobody serves

An endpoint without a handler for a request answers it with `UPROTO_MSG_ERROR`. The
requester looks only at the `RESPONSE` flag and the id of a reply, so that this one
completes the request like any other.
-/
namespace SpVision

def UprotoObs.reportsOk (type : UInt8) : UprotoObs → Bool
  | .complete _ txn err _ => txn.type = type ∧ txn.callback.isSome ∧ err = .ok
  | _ => false

/-- A completion callback of a request of this type was invoked with `UPROTO_OK`. -/
def reportedOk (type : UInt8) (log : List UprotoObs) : Prop := ∃ o ∈ log, o.reportsOk type

instance (type : UInt8) (log : List UprotoObs) : Decidable (reportedOk type log) :=
  inferInstanceAs (Decidable (∃ o ∈ log, o.reportsOk type))

theorem not_reportedOk_nil (type : UInt8) : ¬ reportedOk type [] := by
  rintro ⟨o, ho, -⟩
  cases ho

theorem reportedOk_cons (type : UInt8) (o : UprotoObs) (log : List UprotoObs) :
    reportedOk type (o :: log) ↔ o.reportsOk type ∨ reportedOk type log := by
  simp [reportedOk]

theorem reportedOk_cons_of_not {type : UInt8} {o : UprotoObs} (ho : o.reportsOk type = false)
    (log : List UprotoObs) : reportedOk type (o :: log) ↔ reportedOk type log := by
  simp [reportedOk_cons, ho]

/-! ### What reports nothing -/

theorem Adds.reportedOk {kind : UprotoObs → Bool} {log log' : List UprotoObs} (h : Adds kind log log')
    {type : UInt8} (hkind : ∀ o, kind o → o.reportsOk type = false) :
    reportedOk type log' ↔ reportedOk type log := by
  obtain ⟨new, rfl, hnew⟩ := h
  induction new with
  | nil => rfl
  | cons o new ih =>
    obtain ⟨ho, hnew⟩ := List.forall_mem_cons.mp hnew
    exact (reportedOk_cons_of_not (hkind o ho) _).trans (ih hnew)

theorem UprotoObs.reportsOk_of_isTick (type : UInt8) (o : UprotoObs) (ho : o.isTick) :
    o.reportsOk type = false := by
  cases o with
  | complete slot txn err rsp =>
    cases err with
    | timeout => simp [reportsOk]
    | _ => cases ho
  | _ => rfl

theorem UprotoObs.reportsOk_of_isCall (type : UInt8) (o : UprotoObs) (ho : o.isCall) :
    o.reportsOk type = false := o.reportsOk_of_isTick type (o.isTick_of_isCall ho)

section Silent

variable (env : Env) (type : UInt8) (l : Link)

theorem callback_reportedOk : reportedOk type (callback env l).log ↔ reportedOk type l.log :=
  (callback_adds env l).reportedOk (UprotoObs.reportsOk_of_isCall type)

theorem uprotoFireEvent_reportedOk (event : UprotoEvent) :
    reportedOk type (uprotoFireEvent env event l).log ↔ reportedOk type l.log :=
  (uprotoFireEvent_adds env event l).reportedOk (UprotoObs.reportsOk_of_isCall type)

theorem uprotoSendFrame_reportedOk (flags frameType : UInt8) (txnId : UInt16)
    (payload : Option (List UInt8)) (len : ℕ) :
    reportedOk type (uprotoSendFrame env flags frameType txnId payload len l).2.log ↔
      reportedOk type l.log := by
  have htype : frameType ∈ wireTypes Set.univ := .inl (Set.mem_univ _)
  have hcalls : Calls env Set.univ l.session
      (uprotoSendFrame env flags frameType txnId payload len l).2.session :=
    Calls.sendFrame .refl htype _ _ _ _
  exact hcalls.adds.reportedOk (UprotoObs.reportsOk_of_isCall type)

theorem uprotoHandler_reportedOk (frame : UprotoFrame) (entry : UprotoHandlerEntry) :
    reportedOk type (uprotoHandler env frame entry l).log ↔ reportedOk type l.log :=
  (callback_reportedOk env type _).trans (reportedOk_cons_of_not rfl _)

theorem uprotoCompleteTransaction_reportedOk (slot : Fin uprotoMaxTransactions) (err : UprotoError)
    (rsp : Option (List UInt8)) :
    reportedOk type (uprotoCompleteTransaction env slot err rsp l).log ↔
      (l.ctx.transactions slot).type = type ∧ (l.ctx.transactions slot).callback.isSome ∧ err = .ok ∨
        reportedOk type l.log := by
  have hbegin : reportedOk type (l.observe (.complete slot (l.ctx.transactions slot) err rsp)).log ↔
      (l.ctx.transactions slot).type = type ∧ (l.ctx.transactions slot).callback.isSome ∧ err = .ok ∨
        reportedOk type l.log := by
    refine (reportedOk_cons type _ l.log).trans (or_congr_left ?_)
    simp [UprotoObs.reportsOk]
  unfold uprotoCompleteTransaction
  dsimp only
  refine (reportedOk_cons_of_not rfl _).trans ?_
  generalize l.ctx.transactions slot = txn at hbegin ⊢
  cases hcb : txn.callback with
  | none =>
    rw [hcb] at hbegin
    exact hbegin
  | some cb =>
    rw [hcb] at hbegin
    exact (callback_reportedOk env type _).trans ((reportedOk_cons_of_not rfl _).trans hbegin)

end Silent

/-! ### The request that a frame is taken to answer -/

/-- `uproto_handle_frame` before it looks at the type of the frame. -/
def Link.received (env : Env) (frame : UprotoFrame) (l : Link) : Link :=
  let l := l.observe (.handle frame)
  let l := l.modifyStats fun s => { s with rxFrames := s.rxFrames + 1 }
  let (now, l) := uprotoNow env l
  { l with ctx := { l.ctx with lastRxTime := now, remoteSeq := frame.seq } }

theorem uprotoHandleFrame_received (env : Env) (frame : UprotoFrame) (l : Link) :
    uprotoHandleFrame env frame l =
      (uprotoRouteFrame env frame (l.received env frame)).observe .handled := rfl

theorem Link.received_reportedOk (env : Env) (frame : UprotoFrame) (l : Link) (type : UInt8) :
    reportedOk type (l.received env frame).log ↔ reportedOk type l.log := by
  unfold received
  dsimp only
  rw [uprotoNow_log]
  exact reportedOk_cons_of_not rfl _

/-- Where the transaction that a frame replies to is looked up. The handshake callback runs
    before that. -/
def Link.lookup (env : Env) (frame : UprotoFrame) (l : Link) : Option Link :=
  if frame.type = uprotoMsgHello then none
  else if frame.type = uprotoMsgHelloAck then
    some (if l.ctx.state = .handshaking then
      uprotoFireEvent env .handshakeCompleted (l.setState .established) else l)
  else if frame.type = uprotoMsgPing then none
  else if frame.type = uprotoMsgPong then some l
  else if frame.flags &&& uprotoFlagResponse ≠ 0 then some l
  else none

def Link.find (l : Link) (txnId : UInt16) : Option UprotoTransaction :=
  (uprotoFindTransaction l.ctx txnId).map l.ctx.transactions

/-- The transaction whose id a reply carries. -/
def Link.answered (env : Env) (frame : UprotoFrame) (l : Link) : Option UprotoTransaction :=
  ((l.received env frame).lookup env frame).bind fun l => l.find frame.txnId

/-- A completion callback of a request of this type is waiting in the transaction. -/
def UprotoTransaction.Awaits (txn : UprotoTransaction) (type : UInt8) : Prop :=
  txn.type = type ∧ txn.callback.isSome

section Answers

variable (env : Env) (frame : UprotoFrame) (l : Link) (type : UInt8)

theorem uprotoAnswer_reportedOk (rsp : Option (List UInt8)) :
    reportedOk type (uprotoAnswer env frame rsp l).log ↔
      (∃ txn ∈ l.find frame.txnId, txn.Awaits type) ∨ reportedOk type l.log := by
  unfold uprotoAnswer Link.find
  cases uprotoFindTransaction l.ctx frame.txnId with
  | none => simp
  | some slot =>
    dsimp only
    rw [uprotoCompleteTransaction_reportedOk]
    simp [UprotoTransaction.Awaits]

theorem uprotoRouteFrame_reportedOk :
    reportedOk type (uprotoRouteFrame env frame l).log ↔
      (∃ txn ∈ (l.lookup env frame).bind fun l => l.find frame.txnId, txn.Awaits type) ∨
        reportedOk type l.log := by
  unfold uprotoRouteFrame Link.lookup
  by_cases hhello : frame.type = uprotoMsgHello
  · rw [if_pos hhello, if_pos hhello]
    have hsend := uprotoSendFrame_reportedOk env type l uprotoFlagResponse uprotoMsgHelloAck
      frame.txnId none 0
    simp only [Option.bind_none, Option.not_mem_none, false_and, exists_false, false_or]
    split_ifs
    · exact (uprotoFireEvent_reportedOk env type _ _).trans hsend
    · exact hsend
  rw [if_neg hhello, if_neg hhello]
  by_cases hack : frame.type = uprotoMsgHelloAck
  · rw [if_pos hack, if_pos hack]
    dsimp only [Option.bind_some]
    rw [uprotoAnswer_reportedOk]
    split_ifs
    · exact or_congr_right (uprotoFireEvent_reportedOk env type (l.setState .established) _)
    · rfl
  rw [if_neg hack, if_neg hack]
  by_cases hping : frame.type = uprotoMsgPing
  · rw [if_pos hping, if_pos hping, uprotoSendFrame_reportedOk]
    simp
  rw [if_neg hping, if_neg hping]
  by_cases hpong : frame.type = uprotoMsgPong
  · rw [if_pos hpong, if_pos hpong]
    exact uprotoAnswer_reportedOk env frame l type none
  rw [if_neg hpong, if_neg hpong]
  by_cases hresponse : frame.flags &&& uprotoFlagResponse ≠ 0
  · rw [if_pos hresponse, if_pos hresponse]
    exact uprotoAnswer_reportedOk env frame l type _
  rw [if_neg hresponse, if_neg hresponse]
  simp only [Option.bind_none, Option.not_mem_none, false_and, exists_false, false_or]
  cases l.ctx.handlers.find? fun entry => entry.type = frame.type with
  | some entry => exact uprotoHandler_reportedOk env type l frame entry
  | none =>
    dsimp only
    split_ifs
    · rfl
    · exact uprotoSendFrame_reportedOk env type l _ _ _ _ _

/-- Handling a frame reports a request of this type as served exactly if the frame is a reply
    that carries the id of one. -/
theorem uprotoHandleFrame_reportedOk :
    reportedOk type (uprotoHandleFrame env frame l).log ↔
      (∃ txn ∈ l.answered env frame, txn.Awaits type) ∨ reportedOk type l.log := by
  rw [uprotoHandleFrame_received]
  refine (reportedOk_cons_of_not rfl _).trans ?_
  rw [uprotoRouteFrame_reportedOk, Link.received_reportedOk]
  rfl

end Answers

/-! ### Runs of the two endpoints -/

namespace Net

def run (envs : Side → Env) (n : Net) (ms : List NetMove) : Net := ms.foldl (step envs) n

/-- A message type of the application for which the peer of a side has no handler. -/
def Unserved (n : Net) (side : Side) (type : UInt8) : Prop :=
  type ∈ userTypes ∧ ∀ entry ∈ (n side.peer).link.ctx.handlers, entry.type ≠ type

/-- The transaction of a side that a frame arriving there replies to. -/
def answeredBy (envs : Side → Env) (side : Side) (n : Net) : NetMove → Option UprotoTransaction
  | .deliver dest frame =>
    if dest = side then (n side).link.answered (envs side) frame.frame else none
  | _ => none

def answered (envs : Side → Env) (side : Side) : Net → List NetMove → List UprotoTransaction
  | _, [] => []
  | n, m :: ms => (n.answeredBy envs side m).toList ++ answered envs side (n.step envs m) ms

variable {envs : Side → Env}

theorem quiet_step (envs : Side → Env) {n : Net} (hn : ∀ side, (n side).rx.bytes = []) (m : NetMove)
    (side : Side) :
    (n.step envs m side).rx.bytes = [] := by
  by_cases hside : side = m.side
  · subst hside
    rw [step_side]
    cases m with
    | call side c =>
      rw [NetMove.input, Endpoint.step_call]
      exact hn side
    | tick side =>
      rw [NetMove.input, Endpoint.step_tick]
      exact hn side
    | deliver side frame => exact (Endpoint.onRxBytes_frame (envs side) (hn side) frame).1
  · unfold step
    rw [Function.update_of_ne hside]
    exact hn side

theorem step_reportedOk {n : Net} (hn : ∀ side, (n side).rx.bytes = []) (m : NetMove) (side : Side)
    (type : UInt8) :
    reportedOk type (n.step envs m side).link.log ↔
      (∃ txn ∈ n.answeredBy envs side m, txn.Awaits type) ∨ reportedOk type (n side).link.log := by
  by_cases hside : m.side = side
  · subst hside
    rw [step_side]
    cases m with
    | call side c =>
      have hcalls : Calls (envs side) Set.univ (n side).link.session
          (uprotoCall (envs side) (n side).link c).session :=
        Calls.call .refl (UprotoInput.uses_univ (.call c))
      simp only [answeredBy, Option.not_mem_none, false_and, exists_false, false_or]
      rw [NetMove.input, Endpoint.step_call]
      exact hcalls.adds.reportedOk (UprotoObs.reportsOk_of_isCall type)
    | tick side =>
      simp only [answeredBy, Option.not_mem_none, false_and, exists_false, false_or]
      rw [NetMove.input, Endpoint.step_tick]
      exact (uprotoTick_adds (envs side) (n side).link).reportedOk (UprotoObs.reportsOk_of_isTick type)
    | deliver side frame =>
      have hlink := (Endpoint.onRxBytes_frame (envs side) (hn side) frame).2
      change reportedOk type ((n side).onRxBytes (envs side) frame.bytes).link.log ↔ _
      rw [hlink, uprotoHandleFrame_reportedOk]
      simp [answeredBy, NetMove.side]
  · have hnone : n.answeredBy envs side m = none := by
      cases m with
      | call | tick => rfl
      | deliver dest frame => exact if_neg hside
    unfold step
    rw [Function.update_of_ne (Ne.symm hside), hnone]
    simp

theorem run_reportedOk {n : Net} (hn : ∀ side, (n side).rx.bytes = []) (ms : List NetMove)
    (side : Side) (type : UInt8) :
    reportedOk type (n.run envs ms side).link.log ↔
      (∃ txn ∈ n.answered envs side ms, txn.Awaits type) ∨ reportedOk type (n side).link.log := by
  induction ms generalizing n with
  | nil => simp [run, answered]
  | cons m ms ih =>
    have hrest := ih (quiet_step envs hn m)
    change reportedOk type ((n.step envs m).run envs ms side).link.log ↔ _
    rw [hrest, step_reportedOk hn, answered, ← or_assoc]
    refine or_congr_left ?_
    simp only [List.mem_append, Option.mem_toList, or_and_right, exists_or]
    exact or_comm

end Net

/-- Requests of types that the peer does not handle are never reported as served in a run of two
    endpoints exactly if no reply that arrives carries the id under which such a request still
    waits with a callback. The frames that arrive need not be genuine. -/
theorem uprotoUnserved_iff (envs : Side → Env) (sides : Side → SideConfig) (moves : List NetMove)
    (side : Side) :
    let n := (Net.init sides).run envs moves
    (∀ type, n.Unserved side type → ¬ reportedOk type (n side).link.log) ↔
      ∀ txn ∈ (Net.init sides).answered envs side moves,
        n.Unserved side txn.type → txn.callback = none := by
  intro n
  have hquiet : ∀ side, (Net.init sides side).rx.bytes = [] := fun _ => Endpoint.init_bytes _ _ _
  have hreported : ∀ type, reportedOk type (n side).link.log ↔
      ∃ txn ∈ (Net.init sides).answered envs side moves, txn.Awaits type := by
    intro type
    have hnew : ¬ reportedOk type (Net.init sides side).link.log := not_reportedOk_nil type
    rw [Net.run_reportedOk hquiet, or_iff_left hnew]
  constructor
  · intro h txn hanswered hunserved
    by_contra hcallback
    refine h txn.type hunserved ((hreported txn.type).mpr ⟨txn, hanswered, rfl, ?_⟩)
    exact Option.isSome_iff_ne_none.mpr hcallback
  · intro h type hunserved hreport
    obtain ⟨txn, hanswered, rfl, hcallback⟩ := (hreported type).mp hreport
    rw [h txn hanswered hunserved] at hcallback
    cases hcallback

def queryFrame : TxFrame := ⟨uprotoFlagRequest, 0x10, 1, 0, 0, [], Nat.zero_le _⟩

def errorFrame : TxFrame := ⟨uprotoFlagResponse, uprotoMsgError, 1, 0, 0, [], Nat.zero_le _⟩

def queryMoves : List NetMove :=
  [.call .near (.sendRequest 0x10 none 0 1000 0 (some 0) 0), .deliver .far queryFrame,
    .deliver .near errorFrame]

/-- The error reply to a request of type `0x10` reports it as served. -/
theorem uprotoUnserved_error_reply : ∃ envs sides moves, (∀ side, (envs side).Uses userTypes) ∧
    (Net.init sides).Genuine envs moves ∧
    ∃ type, ((Net.init sides).run envs moves).Unserved .near type ∧
      reportedOk type ((Net.init sides).run envs moves .near).link.log := by
  have huser : (0x10 : UInt8) ∈ userTypes := UInt8.le_refl uprotoMsgUserBase
  refine ⟨fun _ => quietEnv, fun _ => handshakeSide, queryMoves, fun _ _ _ hc => (nomatch hc),
    ⟨huser, ⟨0, ?_⟩, ⟨1, ?_⟩, trivial⟩, 0x10, ⟨huser, ?_⟩, ?_⟩
  all_goals decide +kernel

end SpVision
