import Mathlib.Logic.Relation
import SpVision.Uproto.History

set_option autoImplicit false

/-!
# The protocol as a transition system

A `Session` keeps what the rules of the protocol are about: the handshake state,
the transaction slots, the id counter and the log. `SessionStep` lists everything
that can happen to it; `CallStep` is the part that an application's API calls can
cause. Every function of `uproto.c` is a sequence of such steps, so a property of
all runs needs one argument for each kind of step.
-/
namespace SpVision
open Relation

structure Session where
  state : UprotoState
  slots : Fin uprotoMaxTransactions → UprotoTransaction
  nextTxnId : UInt16
  crcErrors : UInt32
  timeNowMs : Bool
  asked : ℕ
  log : List UprotoObs

def Link.session (l : Link) : Session :=
  { state := l.ctx.state, slots := l.ctx.transactions, nextTxnId := l.ctx.nextTxnId
    crcErrors := l.ctx.stats.crcErrors, timeNowMs := l.ctx.timeNowMs, asked := l.step, log := l.log }

@[simp] theorem Link.session_log (l : Link) : l.session.log = l.log := rfl

@[simp] theorem Link.session_state (l : Link) : l.session.state = l.ctx.state := rfl

/-- The message types in use, `HELLO_ACK` apart, when `app` are those of the application. -/
def wireTypes (app : Set UInt8) : Set UInt8 :=
  app ∪ {uprotoMsgHello, uprotoMsgPing, uprotoMsgPong, uprotoMsgError}

def wireType (data : List UInt8) : UInt8 := data.getD 4 0

inductive CallStep (env : Env) (app : Set UInt8) (s : Session) : Session → Prop
  | ask : CallStep env app s { s with asked := s.asked + 1 }
  | send (data : List UInt8) (sent : ℕ) (htype : wireType data ∈ wireTypes app) :
      CallStep env app s { s with asked := s.asked + 1, log := .write s.asked data sent :: s.log }
  | issue : CallStep env app s
      { s with nextTxnId := s.nextTxnId + 1, log := .issue s.nextTxnId :: s.log }
  | prepare (slot : Fin uprotoMaxTransactions) (txn : UprotoTransaction)
      (hslot : (s.slots slot).state = .free) (htxn : txn.state = .free) :
      CallStep env app s { s with slots := Function.update s.slots slot txn }
  | accept (slot : Fin uprotoMaxTransactions) (txn : UprotoTransaction) (sentAt readAt : ℕ)
      (hslot : (s.slots slot).state = .free) (htxn : txn.state = .waiting)
      (hretry : txn.retryCount = 0) (hid : txn.txnId = s.nextTxnId - 1)
      (htype : wireType txn.txData ∈ wireTypes app) (hsent : sentAt < readAt)
      (hstamp : txn.lastTxTime = stamp env s.timeNowMs readAt) :
      CallStep env app s { s with
        slots := Function.update s.slots slot txn, log := .request slot txn sentAt readAt :: s.log }
  | startHandshake (hstate : s.state = .idle) : CallStep env app s { s with state := .handshaking }

/-- The timeout check of `uproto_tick` for a slot, with the clock read by question `readAt`. -/
structure TimedOut (env : Env) (s : Session) (slot : Fin uprotoMaxTransactions) (readAt : ℕ) : Prop where
  waiting : (s.slots slot).state = .waiting
  readAt_le : readAt ≤ s.asked
  elapsed : (s.slots slot).timeoutMs ≤ stamp env s.timeNowMs readAt - (s.slots slot).lastTxTime

inductive SessionStep (env : Env) (app : Set UInt8) (s : Session) : Session → Prop
  | call {s' : Session} (h : CallStep env app s s') : SessionStep env app s s'
  | event (event : UprotoEvent) : SessionStep env app s { s with log := .event event :: s.log }
  | handler (entry : UprotoHandlerEntry) (txnId : UInt16) (payload : List UInt8) :
      SessionStep env app s { s with log := .handler entry txnId payload :: s.log }
  | hello (data : List UInt8) (sent : ℕ) (htype : wireType data = uprotoMsgHelloAck) :
      SessionStep env app s { s with
        state := .established, asked := s.asked + 1, log := .write s.asked data sent :: s.log }
  | establish : SessionStep env app s { s with state := .established }
  | lapse (hstate : s.state = .handshaking) : SessionStep env app s { s with state := .idle }
  | crcError : SessionStep env app s { s with crcErrors := s.crcErrors + 1 }
  | retransmit (slot : Fin uprotoMaxTransactions) (readAt sent : ℕ) (h : TimedOut env s slot readAt)
      (hretry : (s.slots slot).retryCount < (s.slots slot).maxRetries) :
      SessionStep env app s { s with
        slots := Function.update s.slots slot { s.slots slot with
          retryCount := (s.slots slot).retryCount + 1
          lastTxTime := stamp env s.timeNowMs readAt }
        asked := s.asked + 1
        log := .write s.asked (s.slots slot).txData sent :: .retransmit slot readAt s.asked :: s.log }
  | expire (slot : Fin uprotoMaxTransactions) (readAt : ℕ) (h : TimedOut env s slot readAt)
      (hretry : ¬ (s.slots slot).retryCount < (s.slots slot).maxRetries) :
      SessionStep env app s { s with log := .expire slot readAt s.asked :: s.log }
  | complete (slot : Fin uprotoMaxTransactions) (err : UprotoError) (rsp : Option (List UInt8))
      (hslot : (s.slots slot).state ≠ .free) (hnone : completing s.log = none)
      (hcause : err = .ok ∧ (∃ f, handling s.log = some f ∧ f.txnId = (s.slots slot).txnId ∧ rsp = f.response) ∨
        err = .timeout ∧ rsp = none ∧ ¬ (s.slots slot).retryCount < (s.slots slot).maxRetries) :
      SessionStep env app s { s with log := .complete slot (s.slots slot) err rsp :: s.log }
  | invoke (slot : Fin uprotoMaxTransactions) (txn : UprotoTransaction) (cb : ℕ) (err : UprotoError)
      (rsp : Option (List UInt8)) {rest : List UprotoObs} (hlog : s.log = .complete slot txn err rsp :: rest)
      (hcb : txn.callback = some cb) :
      SessionStep env app s { s with log := .invoke slot cb txn.user err rsp :: s.log }
  | release (slot : Fin uprotoMaxTransactions) (hslot : completing s.log = some slot) (hdue : due s.log = false) :
      SessionStep env app s { s with
        slots := Function.update s.slots slot { s.slots slot with state := .free }
        log := .release slot :: s.log }
  | handle (frame : UprotoFrame) (hnone : completing s.log = none) :
      SessionStep env app s { s with log := .handle frame :: s.log }
  | handled : SessionStep env app s { s with log := .handled :: s.log }

abbrev Calls (env : Env) (app : Set UInt8) : Session → Session → Prop := ReflTransGen (CallStep env app)

abbrev Runs (env : Env) (app : Set UInt8) : Session → Session → Prop := ReflTransGen (SessionStep env app)

variable {env : Env} {app : Set UInt8}

theorem Calls.runs {s s' : Session} (h : Calls env app s s') : Runs env app s s' :=
  h.lift id fun _ _ => SessionStep.call

theorem Runs.invariant {P : Session → Prop} (hP : ∀ s s', SessionStep env app s s' → P s → P s')
    {s s' : Session} (h : Runs env app s s') (hs : P s) : P s' := by
  induction h with
  | refl => exact hs
  | tail _ hstep ih => exact hP _ _ hstep ih

theorem SessionStep.asked_le {s s' : Session} (h : SessionStep env app s s') : s.asked ≤ s'.asked := by
  cases h with
  | call h => cases h <;> first | exact le_refl _ | exact Nat.le_succ _
  | hello => exact Nat.le_succ _
  | retransmit => exact Nat.le_succ _
  | _ => exact le_refl _

theorem SessionStep.timeNowMs {s s' : Session} (h : SessionStep env app s s') :
    s'.timeNowMs = s.timeNowMs := by
  cases h with
  | call h => cases h <;> rfl
  | _ => rfl

theorem Runs.asked_le {s s' : Session} (h : Runs env app s s') : s.asked ≤ s'.asked :=
  h.invariant (P := fun t => s.asked ≤ t.asked) (fun _ _ hstep ht => ht.trans hstep.asked_le) (le_refl _)

theorem Runs.timeNowMs {s s' : Session} (h : Runs env app s s') : s'.timeNowMs = s.timeNowMs :=
  h.invariant (P := fun t => t.timeNowMs = s.timeNowMs) (fun _ _ hstep ht => hstep.timeNowMs.trans ht) rfl

/-! ### What application calls leave alone -/

/-- Slots in use, the frame being handled, the running completion, the counters of received
    frames and the fact that the link is up are as before. -/
structure Session.Undisturbed (s s' : Session) : Prop where
  slot : ∀ i, (s.slots i).state ≠ .free → s'.slots i = s.slots i
  completing : completing s'.log = completing s.log
  due : due s'.log = due s.log
  handling : handling s'.log = handling s.log
  frames : handledFrames s'.log = handledFrames s.log
  crcErrors : s'.crcErrors = s.crcErrors
  established : s'.state = .established ↔ s.state = .established

theorem Session.Undisturbed.refl (s : Session) : s.Undisturbed s :=
  ⟨fun _ _ => rfl, rfl, rfl, rfl, rfl, rfl, Iff.rfl⟩

theorem Session.Undisturbed.trans {s s' s'' : Session} (h : s.Undisturbed s')
    (h' : s'.Undisturbed s'') : s.Undisturbed s'' where
  slot i hi := by
    have hi' := h.slot i hi
    rw [h'.slot i (by rw [hi']; exact hi), hi']
  completing := h'.completing.trans h.completing
  due := h'.due.trans h.due
  handling := h'.handling.trans h.handling
  frames := h'.frames.trans h.frames
  crcErrors := h'.crcErrors.trans h.crcErrors
  established := h'.established.trans h.established

theorem Session.Undisturbed.observe (s : Session) {o : UprotoObs} (ho : o.isCall) (asked : ℕ)
    (nextTxnId : UInt16) :
    s.Undisturbed { s with asked := asked, nextTxnId := nextTxnId, log := o :: s.log } where
  slot _ _ := rfl
  completing := completing_call ho _
  due := due_call ho _
  handling := handling_call ho _
  frames := by rw [handledFrames_cons, frame?_call ho]; simp
  crcErrors := rfl
  established := Iff.rfl

theorem Session.Undisturbed.update (s : Session) {slot : Fin uprotoMaxTransactions}
    (hslot : (s.slots slot).state = .free) (txn : UprotoTransaction) :
    s.Undisturbed { s with slots := Function.update s.slots slot txn } where
  slot i hi := by
    have hne : i ≠ slot := by
      rintro rfl
      exact hi hslot
    exact Function.update_of_ne hne _ _
  completing := rfl
  due := rfl
  handling := rfl
  frames := rfl
  crcErrors := rfl
  established := Iff.rfl

theorem CallStep.undisturbed {s s' : Session} (h : CallStep env app s s') : s.Undisturbed s' := by
  cases h with
  | ask => exact ⟨fun _ _ => rfl, rfl, rfl, rfl, rfl, rfl, Iff.rfl⟩
  | send data sent htype => exact .observe s rfl _ _
  | issue => exact .observe s rfl _ _
  | prepare slot txn hslot htxn => exact .update s hslot txn
  | accept slot txn sentAt readAt hslot =>
    exact (Session.Undisturbed.update s hslot txn).trans (.observe _ rfl _ _)
  | startHandshake hstate =>
    refine ⟨fun _ _ => rfl, rfl, rfl, rfl, rfl, rfl, ?_⟩
    simp [hstate]

theorem Calls.undisturbed {s s' : Session} (h : Calls env app s s') : s.Undisturbed s' := by
  induction h with
  | refl => exact .refl s
  | tail _ hstep ih => exact ih.trans hstep.undisturbed

end SpVision
