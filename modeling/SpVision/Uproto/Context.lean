import Mathlib.Data.Fintype.Basic
import SpVision.Uproto.Frame

set_option autoImplicit false

/-!
# The protocol context: transactions, handshake, heartbeat

`struct uproto_context` without the receive buffer, and the functions of
`uproto.c` on it. What the code asks of its surroundings (the clock, the port,
the application's callbacks) is answered by an `Env`, which is indexed by the
number of questions asked so far, so any behaviour that depends on the past is
the behaviour of some `Env`. Callbacks answer with API calls of their own; none
of the calls they may make runs another callback. `port.flush` has no effect on
the context and is left out.
-/
namespace SpVision

abbrev uprotoMaxTransactions : ℕ := 8
abbrev uprotoMaxHandlers : ℕ := 16

instance : NeZero uprotoMaxTransactions := ⟨by decide⟩

inductive UprotoState
  | idle | handshaking | established
  deriving DecidableEq, Repr

inductive TxnState
  | free | waiting | completed | timeout
  deriving DecidableEq, Repr

/-- The strings passed to `config.event_cb`. -/
inductive UprotoEvent
  | handshakeCompleted | handshakeTimeout | retry | timeout | crcError
  deriving DecidableEq, Repr

/-- `struct uproto_transaction`; `txData` holds the first `tx_len` bytes of `tx_data`, and a
    callback is known by a number. -/
structure UprotoTransaction where
  state : TxnState := .free
  txnId : UInt16 := 0
  type : UInt8 := 0
  retryCount : UInt8 := 0
  maxRetries : UInt8 := 0
  timeoutMs : UInt32 := 0
  startTime : UInt32 := 0
  lastTxTime : UInt32 := 0
  callback : Option ℕ := none
  user : ℕ := 0
  txData : List UInt8 := []
  deriving DecidableEq, Repr

structure UprotoHandlerEntry where
  type : UInt8
  handler : ℕ
  user : ℕ
  deriving DecidableEq, Repr

/-- `uproto_config_t`; `eventCb` says whether `event_cb` is set. -/
structure UprotoConfig where
  handshakeTimeoutMs : UInt32
  heartbeatIntervalMs : UInt32
  defaultTimeoutMs : UInt32
  defaultRetries : UInt8
  eventCb : Bool
  deriving DecidableEq, Repr

structure UprotoStats where
  txFrames : UInt32 := 0
  rxFrames : UInt32 := 0
  crcErrors : UInt32 := 0
  timeouts : UInt32 := 0
  retries : UInt32 := 0
  deriving DecidableEq, Repr

/-- `struct uproto_context` up to the receive buffer; `portWrite` and `timeNowMs` say
    whether `port.write` and `time.now_ms` are set. -/
structure UprotoContext where
  state : UprotoState
  localSeq : UInt16
  remoteSeq : UInt16
  lastRxTime : UInt32
  lastTxTime : UInt32
  handshakeStartTime : UInt32
  config : UprotoConfig
  portWrite : Bool
  timeNowMs : Bool
  transactions : Fin uprotoMaxTransactions → UprotoTransaction
  nextTxnId : UInt16
  handlers : List UprotoHandlerEntry
  stats : UprotoStats

def uprotoDefaultConfig : UprotoConfig :=
  { handshakeTimeoutMs := 0, heartbeatIntervalMs := 0, defaultTimeoutMs := 3000
    defaultRetries := 3, eventCb := false }

def uprotoInit (portWrite timeNowMs : Bool) (config : Option UprotoConfig) : UprotoContext :=
  { state := .idle, localSeq := 0, remoteSeq := 0, lastRxTime := 0, lastTxTime := 0
    handshakeStartTime := 0, config := config.getD uprotoDefaultConfig
    portWrite := portWrite, timeNowMs := timeNowMs, transactions := fun _ => {}
    nextTxnId := 1, handlers := [], stats := {} }

inductive UprotoCall
  | sendRequest (type : UInt8) (payload : Option (List UInt8)) (len : ℕ) (timeoutMs : UInt32)
      (retries : UInt8) (callback : Option ℕ) (user : ℕ)
  | startHandshake
  | sendResponse (txnId : UInt16) (type : UInt8) (payload : Option (List UInt8)) (len : ℕ)
  | sendNotify (type : UInt8) (payload : Option (List UInt8)) (len : ℕ)
  | registerHandler (type : UInt8) (handler user : ℕ)

/-- The answers to the questions of a run, numbered in the order they are asked. -/
structure Env where
  now : ℕ → UInt32
  write : ℕ → List UInt8 → ℕ
  calls : ℕ → List UprotoCall

/-- What happens in a run. Besides what the surroundings can see (bytes written, events,
    callbacks), the ends of a slot's life are recorded: `request` when `uproto_send_request`
    returns `UPROTO_OK`, `complete` when its completion begins, `release` when the slot becomes
    free again. Between these `invoke` is the call of the slot's callback, with its arguments. A
    request and a retransmission note the numbers of the questions that sent the bytes and read
    the clock. -/
inductive UprotoObs
  | write (index : ℕ) (data : List UInt8) (sent : ℕ)
  | event (event : UprotoEvent)
  | handler (entry : UprotoHandlerEntry) (txnId : UInt16) (payload : List UInt8)
  | handle (frame : UprotoFrame)
  | handled
  | issue (txnId : UInt16)
  | request (slot : Fin uprotoMaxTransactions) (txn : UprotoTransaction) (sentAt readAt : ℕ)
  | retransmit (slot : Fin uprotoMaxTransactions) (readAt sentAt : ℕ)
  | expire (slot : Fin uprotoMaxTransactions) (readAt index : ℕ)
  | complete (slot : Fin uprotoMaxTransactions) (txn : UprotoTransaction) (err : UprotoError)
      (rsp : Option (List UInt8))
  | invoke (slot : Fin uprotoMaxTransactions) (callback user : ℕ) (err : UprotoError)
      (rsp : Option (List UInt8))
  | release (slot : Fin uprotoMaxTransactions)
  deriving DecidableEq, Repr

/-- A context in the middle of a run: `step` questions have been asked, and `log` is what
    happened, the latest first. -/
structure Link where
  ctx : UprotoContext
  step : ℕ
  log : List UprotoObs

namespace Link

def observe (l : Link) (o : UprotoObs) : Link := { l with log := o :: l.log }

def setState (l : Link) (state : UprotoState) : Link := { l with ctx := { l.ctx with state := state } }

def setTransaction (l : Link) (slot : Fin uprotoMaxTransactions) (txn : UprotoTransaction) : Link :=
  { l with ctx := { l.ctx with transactions := Function.update l.ctx.transactions slot txn } }

def setLastTxTime (l : Link) (now : UInt32) : Link := { l with ctx := { l.ctx with lastTxTime := now } }

def modifyStats (l : Link) (f : UprotoStats → UprotoStats) : Link :=
  { l with ctx := { l.ctx with stats := f l.ctx.stats } }

end Link

def uprotoNow (env : Env) (l : Link) : UInt32 × Link :=
  if l.ctx.timeNowMs then (env.now l.step, { l with step := l.step + 1 }) else (0, l)

def portWrite (env : Env) (data : List UInt8) (l : Link) : ℕ × Link :=
  let sent := env.write l.step data
  (sent, { l with step := l.step + 1, log := .write l.step data sent :: l.log })

def uprotoAllocTransaction (ctx : UprotoContext) : Option (Fin uprotoMaxTransactions) :=
  (List.finRange uprotoMaxTransactions).find? fun i => (ctx.transactions i).state = .free

def uprotoFindTransaction (ctx : UprotoContext) (txnId : UInt16) : Option (Fin uprotoMaxTransactions) :=
  (List.finRange uprotoMaxTransactions).find? fun i =>
    (ctx.transactions i).state ≠ .free ∧ (ctx.transactions i).txnId = txnId

def uprotoSendFrame (env : Env) (flags type : UInt8) (txnId : UInt16) (payload : Option (List UInt8))
    (payloadLen : ℕ) (l : Link) : UprotoError × Link :=
  if ¬ l.ctx.portWrite then (.invalidParam, l)
  else
    let buffer := uprotoEncodeFrame flags type txnId l.ctx.localSeq 0 payload payloadLen
    let l := { l with ctx := { l.ctx with localSeq := l.ctx.localSeq + 1 } }
    let (sent, l) := portWrite env buffer l
    if sent = buffer.length then
      let l := l.modifyStats fun s => { s with txFrames := s.txFrames + 1 }
      let (now, l) := uprotoNow env l
      (.ok, l.setLastTxTime now)
    else (.txFull, l)

/-- `next_txn_id++` and `local_seq++`, with the encoded frame stored in the slot. -/
def Link.drawRequest (l : Link) (slot : Fin uprotoMaxTransactions) (txData : List UInt8) : Link :=
  let l := l.observe (.issue l.ctx.nextTxnId)
  let l := { l with ctx :=
    { l.ctx with nextTxnId := l.ctx.nextTxnId + 1, localSeq := l.ctx.localSeq + 1 } }
  l.setTransaction slot { l.ctx.transactions slot with txData := txData }

def Link.acceptRequest (l : Link) (slot : Fin uprotoMaxTransactions) (txn : UprotoTransaction)
    (sentAt readAt : ℕ) : Link :=
  let l := (l.setTransaction slot txn).observe (.request slot txn sentAt readAt)
  let l := l.modifyStats fun s => { s with txFrames := s.txFrames + 1 }
  l.setLastTxTime txn.startTime

/-- `port.write` is called here without the check of `uproto_send_frame`; a context without
    it must not send requests. -/
def uprotoSendRequest (env : Env) (type : UInt8) (payload : Option (List UInt8)) (len : ℕ)
    (timeoutMs : UInt32) (retries : UInt8) (callback : Option ℕ) (user : ℕ) (l : Link) :
    UprotoError × Link :=
  if len > uprotoMaxPayload then (.length, l)
  else match uprotoAllocTransaction l.ctx with
    | none => (.noMemory, l)
    | some slot =>
      let txnId := l.ctx.nextTxnId
      let txData := uprotoEncodeFrame uprotoFlagRequest type txnId l.ctx.localSeq 0 payload len
      let sentAt := l.step
      let (sent, l) := portWrite env txData (l.drawRequest slot txData)
      if sent ≠ txData.length then
        (.txFull, l.setTransaction slot { l.ctx.transactions slot with state := .free })
      else
        let readAt := l.step
        let (startTime, l) := uprotoNow env l
        let txn : UprotoTransaction :=
          { state := .waiting, txnId := txnId, type := type, retryCount := 0, maxRetries := retries
            timeoutMs := if timeoutMs > 0 then timeoutMs else l.ctx.config.defaultTimeoutMs
            startTime := startTime, lastTxTime := startTime, callback := callback, user := user
            txData := txData }
        (.ok, l.acceptRequest slot txn sentAt readAt)

def uprotoStartHandshake (env : Env) (l : Link) : UprotoError × Link :=
  if l.ctx.state ≠ .idle then (.busy, l)
  else
    let l := l.setState .handshaking
    let (now, l) := uprotoNow env l
    let l := { l with ctx := { l.ctx with handshakeStartTime := now } }
    uprotoSendRequest env uprotoMsgHello none 0 l.ctx.config.handshakeTimeoutMs
      l.ctx.config.defaultRetries none 0 l

def uprotoSendResponse (env : Env) (txnId : UInt16) (type : UInt8) (payload : Option (List UInt8))
    (len : ℕ) (l : Link) : UprotoError × Link :=
  if len > uprotoMaxPayload then (.length, l)
  else uprotoSendFrame env uprotoFlagResponse type txnId payload len l

def uprotoSendNotify (env : Env) (type : UInt8) (payload : Option (List UInt8)) (len : ℕ) (l : Link) :
    UprotoError × Link :=
  if len > uprotoMaxPayload then (.length, l)
  else uprotoSendFrame env 0 type 0 payload len l

def uprotoRegisterHandler (type : UInt8) (handler user : ℕ) (l : Link) : UprotoError × Link :=
  if l.ctx.handlers.length ≥ uprotoMaxHandlers then (.noMemory, l)
  else (.ok, { l with ctx := { l.ctx with handlers := l.ctx.handlers ++ [⟨type, handler, user⟩] } })

def uprotoCall (env : Env) (l : Link) : UprotoCall → Link
  | .sendRequest type payload len timeoutMs retries callback user =>
    (uprotoSendRequest env type payload len timeoutMs retries callback user l).2
  | .startHandshake => (uprotoStartHandshake env l).2
  | .sendResponse txnId type payload len => (uprotoSendResponse env txnId type payload len l).2
  | .sendNotify type payload len => (uprotoSendNotify env type payload len l).2
  | .registerHandler type handler user => (uprotoRegisterHandler type handler user l).2

/-- Control passes to the application, which makes some API calls before it returns. -/
def callback (env : Env) (l : Link) : Link :=
  (env.calls l.step).foldl (uprotoCall env) { l with step := l.step + 1 }

def uprotoFireEvent (env : Env) (event : UprotoEvent) (l : Link) : Link :=
  if l.ctx.config.eventCb then callback env (l.observe (.event event)) else l

/-- The slot is marked free only after its callback has returned. -/
def uprotoCompleteTransaction (env : Env) (slot : Fin uprotoMaxTransactions) (err : UprotoError)
    (rsp : Option (List UInt8)) (l : Link) : Link :=
  let txn := l.ctx.transactions slot
  let l := l.observe (.complete slot txn err rsp)
  let l := match txn.callback with
    | some cb => callback env (l.observe (.invoke slot cb txn.user err rsp))
    | none => l
  (l.setTransaction slot { l.ctx.transactions slot with state := .free }).observe (.release slot)

def uprotoAnswer (env : Env) (frame : UprotoFrame) (rsp : Option (List UInt8)) (l : Link) : Link :=
  match uprotoFindTransaction l.ctx frame.txnId with
  | some slot => uprotoCompleteTransaction env slot .ok rsp l
  | none => l

def uprotoHandler (env : Env) (frame : UprotoFrame) (entry : UprotoHandlerEntry) (l : Link) : Link :=
  callback env (l.observe (.handler entry frame.txnId frame.payload))

/-- The routing part of `uproto_handle_frame`, after the counters are updated. -/
def uprotoRouteFrame (env : Env) (frame : UprotoFrame) (l : Link) : Link :=
  if frame.type = uprotoMsgHello then
    let l := (uprotoSendFrame env uprotoFlagResponse uprotoMsgHelloAck frame.txnId none 0 l).2
    if l.ctx.state = .idle ∨ l.ctx.state = .handshaking then
      uprotoFireEvent env .handshakeCompleted (l.setState .established)
    else l
  else if frame.type = uprotoMsgHelloAck then
    let l := if l.ctx.state = .handshaking then
      uprotoFireEvent env .handshakeCompleted (l.setState .established) else l
    uprotoAnswer env frame (some frame.payload) l
  else if frame.type = uprotoMsgPing then
    (uprotoSendFrame env uprotoFlagResponse uprotoMsgPong frame.txnId none 0 l).2
  else if frame.type = uprotoMsgPong then uprotoAnswer env frame none l
  else if frame.flags &&& uprotoFlagResponse ≠ 0 then uprotoAnswer env frame (some frame.payload) l
  else match l.ctx.handlers.find? fun entry => entry.type = frame.type with
    | some entry => uprotoHandler env frame entry l
    | none =>
      if frame.flags &&& uprotoFlagRequest = 0 then l
      else (uprotoSendFrame env uprotoFlagResponse uprotoMsgError frame.txnId none 0 l).2

def uprotoHandleFrame (env : Env) (frame : UprotoFrame) (l : Link) : Link :=
  let l := l.observe (.handle frame)
  let l := l.modifyStats fun s => { s with rxFrames := s.rxFrames + 1 }
  let (now, l) := uprotoNow env l
  let l := { l with ctx := { l.ctx with lastRxTime := now, remoteSeq := frame.seq } }
  (uprotoRouteFrame env frame l).observe .handled

/-- One turn of the transaction loop of `uproto_tick`; `now` is the answer to question
    `readAt`. -/
def uprotoTickTransaction (env : Env) (now : UInt32) (readAt : ℕ) (l : Link)
    (slot : Fin uprotoMaxTransactions) : Link :=
  let txn := l.ctx.transactions slot
  if txn.state ≠ .waiting then l
  else if now - txn.lastTxTime ≥ txn.timeoutMs then
    if txn.retryCount < txn.maxRetries then
      let l := l.setTransaction slot { txn with retryCount := txn.retryCount + 1, lastTxTime := now }
      let l := l.observe (.retransmit slot readAt l.step)
      let l := (portWrite env txn.txData l).2
      let l := l.modifyStats fun s => { s with retries := s.retries + 1 }
      uprotoFireEvent env .retry l
    else
      let l := l.modifyStats fun s => { s with timeouts := s.timeouts + 1 }
      let l := l.observe (.expire slot readAt l.step)
      let l := uprotoFireEvent env .timeout l
      uprotoCompleteTransaction env slot .timeout none l
  else l

def uprotoTickHandshake (env : Env) (now : UInt32) (l : Link) : Link :=
  if l.ctx.state = .handshaking ∧ l.ctx.config.handshakeTimeoutMs > 0 ∧
      now - l.ctx.handshakeStartTime > l.ctx.config.handshakeTimeoutMs then
    uprotoFireEvent env .handshakeTimeout (l.setState .idle)
  else l

def uprotoTickHeartbeat (env : Env) (now : UInt32) (l : Link) : Link :=
  if l.ctx.config.heartbeatIntervalMs > 0 ∧ l.ctx.state = .established ∧
      now - l.ctx.lastTxTime ≥ l.ctx.config.heartbeatIntervalMs then
    (uprotoSendRequest env uprotoMsgPing none 0 l.ctx.config.defaultTimeoutMs 0 none 0 l).2
  else l

def uprotoTick (env : Env) (l : Link) : Link :=
  let readAt := l.step
  let (now, l) := uprotoNow env l
  let l := uprotoTickHandshake env now l
  let l := (List.finRange uprotoMaxTransactions).foldl (uprotoTickTransaction env now readAt) l
  uprotoTickHeartbeat env now l

/-- The `crc_error` branch of `uproto_process_rx_buffer`. -/
def uprotoCrcError (env : Env) (l : Link) : Link :=
  uprotoFireEvent env .crcError (l.modifyStats fun s => { s with crcErrors := s.crcErrors + 1 })

/-- Surroundings in which nothing happens: the clock stands still, the port takes every
    byte, and callbacks make no calls. -/
def quietEnv : Env := ⟨fun _ => 0, fun _ data => data.length, fun _ => []⟩

end SpVision
