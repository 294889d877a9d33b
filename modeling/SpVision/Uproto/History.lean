import SpVision.Uproto.Context

set_option autoImplicit false

/-!
# What a log says about transactions

The log of a run, latest entry first, tells by itself which slots wait for an
answer and with which request, which frame is being handled, and which callback
is running.
-/
namespace SpVision

/-- A request that was accepted and whose slot has not been released: the transaction as it
    was stored, its number among the ids drawn so far, the retransmissions made, and the
    questions that last read the clock and last sent the bytes for it. -/
structure Outstanding where
  txn : UprotoTransaction
  number : ℕ
  retries : ℕ
  readAt : ℕ
  sentAt : ℕ
  deriving DecidableEq, Repr

/-- The ids drawn from `next_txn_id`. -/
def issued : List UprotoObs → ℕ
  | [] => 0
  | .issue _ :: log => issued log + 1
  | _ :: log => issued log

def outstanding : List UprotoObs → Fin uprotoMaxTransactions → Option Outstanding
  | [], _ => none
  | .request slot txn sentAt readAt :: log, i =>
    if i = slot then some ⟨txn, issued log, 0, readAt, sentAt⟩ else outstanding log i
  | .retransmit slot readAt sentAt :: log, i =>
    if i = slot then (outstanding log i).map fun r =>
      { r with retries := r.retries + 1, readAt := readAt, sentAt := sentAt }
    else outstanding log i
  | .release slot :: log, i => if i = slot then none else outstanding log i
  | _ :: log, i => outstanding log i

theorem outstanding_request (slot : Fin uprotoMaxTransactions) (txn : UprotoTransaction)
    (sentAt readAt : ℕ) (log : List UprotoObs) (i : Fin uprotoMaxTransactions) :
    outstanding (.request slot txn sentAt readAt :: log) i =
      if i = slot then some ⟨txn, issued log, 0, readAt, sentAt⟩ else outstanding log i := rfl

theorem outstanding_retransmit (slot : Fin uprotoMaxTransactions) (readAt sentAt : ℕ)
    (log : List UprotoObs) (i : Fin uprotoMaxTransactions) :
    outstanding (.retransmit slot readAt sentAt :: log) i =
      if i = slot then (outstanding log i).map fun r =>
        { r with retries := r.retries + 1, readAt := readAt, sentAt := sentAt }
      else outstanding log i := rfl

theorem outstanding_release (slot : Fin uprotoMaxTransactions) (log : List UprotoObs)
    (i : Fin uprotoMaxTransactions) :
    outstanding (.release slot :: log) i = if i = slot then none else outstanding log i := rfl

/-- The slot whose completion has begun and not ended. -/
def completing : List UprotoObs → Option (Fin uprotoMaxTransactions)
  | [] => none
  | .complete slot _ _ _ :: _ => some slot
  | .release _ :: _ => none
  | _ :: log => completing log

/-- Whether a completion has begun whose callback has not been called. -/
def due : List UprotoObs → Bool
  | [] => false
  | .complete _ txn _ _ :: _ => txn.callback.isSome
  | .invoke _ _ _ _ _ :: _ | .release _ :: _ => false
  | _ :: log => due log

def handling : List UprotoObs → Option UprotoFrame
  | [] => none
  | .handle frame :: _ => some frame
  | .handled :: _ => none
  | _ :: log => handling log

def UprotoObs.frame? : UprotoObs → Option UprotoFrame
  | .handle frame => some frame
  | _ => none

def handledFrames (log : List UprotoObs) : List UprotoFrame := log.reverse.filterMap UprotoObs.frame?

/-- Entries that mention neither transactions nor frames. -/
def UprotoObs.isNote : UprotoObs → Bool
  | .write _ _ _ | .event _ | .handler _ _ _ => true
  | _ => false

/-- Entries of the calls an application may make. -/
def UprotoObs.isCall : UprotoObs → Bool
  | .issue _ | .request _ _ _ _ => true
  | o => o.isNote

@[simp] theorem handledFrames_cons (o : UprotoObs) (log : List UprotoObs) :
    handledFrames (o :: log) = handledFrames log ++ (o.frame?).toList := by
  cases h : o.frame? <;> simp [handledFrames, List.filterMap_append, h]

theorem completing_call {o : UprotoObs} (h : o.isCall) (log : List UprotoObs) :
    completing (o :: log) = completing log := by
  cases o <;> first | rfl | cases h

theorem due_call {o : UprotoObs} (h : o.isCall) (log : List UprotoObs) : due (o :: log) = due log := by
  cases o <;> first | rfl | cases h

theorem handling_call {o : UprotoObs} (h : o.isCall) (log : List UprotoObs) :
    handling (o :: log) = handling log := by
  cases o <;> first | rfl | cases h

theorem frame?_call {o : UprotoObs} (h : o.isCall) : o.frame? = none := by
  cases o <;> first | rfl | cases h

/-- What a clock reading gives: without `now_ms` the time is always zero. -/
def stamp (env : Env) (timeNowMs : Bool) (index : ℕ) : UInt32 := if timeNowMs then env.now index else 0

/-- What a callback is given for a frame. -/
def UprotoFrame.response (frame : UprotoFrame) : Option (List UInt8) :=
  if frame.type = uprotoMsgPong then none else some frame.payload

/-- The slot of a request that has been retransmitted `r.retries` times. -/
def Outstanding.slot (env : Env) (timeNowMs : Bool) (r : Outstanding) : UprotoTransaction :=
  { r.txn with retryCount := UInt8.ofNat r.retries, lastTxTime := stamp env timeNowMs r.readAt }

/-- When an entry may follow a log: the once-only discipline of the slots. -/
def Allowed (env : Env) (timeNowMs : Bool) (log : List UprotoObs) : UprotoObs → Prop
  | .request slot txn sentAt readAt => outstanding log slot = none ∧ txn.state = .waiting ∧
      txn.txnId = UInt16.ofNat (issued log) ∧ sentAt < readAt
  | .retransmit slot readAt sentAt => ∃ r, outstanding log slot = some r ∧
      r.retries < r.txn.maxRetries.toNat ∧ readAt ≤ sentAt ∧
      r.txn.timeoutMs ≤ stamp env timeNowMs readAt - stamp env timeNowMs r.readAt
  | .expire slot readAt index => ∃ r, outstanding log slot = some r ∧
      r.retries = r.txn.maxRetries.toNat ∧ readAt ≤ index ∧
      r.txn.timeoutMs ≤ stamp env timeNowMs readAt - stamp env timeNowMs r.readAt
  | .complete slot txn err rsp => ∃ r, outstanding log slot = some r ∧ completing log = none ∧
      txn = r.slot env timeNowMs ∧
      (err = .ok ∧ (∃ f, handling log = some f ∧ f.txnId = r.txn.txnId ∧ rsp = f.response) ∨
        err = .timeout ∧ rsp = none ∧ r.retries = r.txn.maxRetries.toNat)
  | .invoke slot cb user err rsp => ∃ txn rest, log = .complete slot txn err rsp :: rest ∧
      txn.callback = some cb ∧ txn.user = user
  | .release slot => completing log = some slot ∧ due log = false
  | _ => True

def Legal (env : Env) (timeNowMs : Bool) : List UprotoObs → Prop
  | [] => True
  | o :: log => Allowed env timeNowMs log o ∧ Legal env timeNowMs log

theorem Legal.of_append {env : Env} {timeNowMs : Bool} {after before : List UprotoObs}
    (h : Legal env timeNowMs (after ++ before)) : Legal env timeNowMs before := by
  induction after with
  | nil => exact h
  | cons o after ih => exact ih h.2

end SpVision
