import Mathlib.Order.Monotone.Basic
import SpVision.Uproto.Completion

set_option autoImplicit false

/-!
# When `uproto_tick` acts on a transaction

`T index` is the time, in milliseconds, at which question `index` is asked; `now_ms`
answers with its low 32 bits.
-/
namespace SpVision

/-- `uproto_tick` retransmits or times out a waiting request: what the log says about the request
    before, the question that read the tick's clock, and the question asked by the action. -/
structure TickAction where
  request : Outstanding
  readAt : ℕ
  index : ℕ
  deriving DecidableEq, Repr

def tickActions : List UprotoObs → List TickAction
  | [] => []
  | .retransmit slot readAt index :: log | .expire slot readAt index :: log =>
    match outstanding log slot with
    | some r => ⟨r, readAt, index⟩ :: tickActions log
    | none => tickActions log
  | _ :: log => tickActions log

/-- The last transmission went out no later than the reading it is stamped with, and that
    reading is no later than the tick's. -/
structure TickAction.Stamped (T : ℕ → ℕ) (a : TickAction) : Prop where
  sent_le : T a.request.sentAt ≤ T a.request.readAt
  read_le : T a.request.readAt ≤ T a.readAt

structure TickAction.Checked (env : Env) (timeNowMs : Bool) (a : TickAction) : Prop where
  readAt_le : a.readAt ≤ a.index
  elapsed : a.request.txn.timeoutMs ≤
    stamp env timeNowMs a.readAt - stamp env timeNowMs a.request.readAt

theorem Legal.checked {env : Env} {timeNowMs : Bool} {log : List UprotoObs}
    (h : Legal env timeNowMs log) {a : TickAction} (ha : a ∈ tickActions log) :
    a.Checked env timeNowMs := by
  induction log with
  | nil => cases ha
  | cons o log ih =>
    obtain ⟨ho, hlog⟩ := h
    cases o with
    | retransmit slot readAt index | expire slot readAt index =>
      obtain ⟨r, hr, -, hle, helapsed⟩ := ho
      simp only [tickActions, hr, List.mem_cons] at ha
      rcases ha with rfl | ha
      · exact ⟨hle, helapsed⟩
      · exact ih hlog ha
    | _ => exact ih hlog ha

/-- Between readings that are in order, the difference of the low 32 bits is no more than the
    time that has passed. -/
theorem toNat_sub_le {early late : ℕ} (h : early ≤ late) :
    (UInt32.ofNat late - UInt32.ofNat early).toNat ≤ late - early := by
  rw [← UInt32.ofNat_sub h, UInt32.toNat_ofNat']
  exact Nat.mod_le _ _

/-- A tick acts on a transaction only when its timeout has passed since the last transmission,
    provided that the transmission is stamped. -/
theorem uprotoTick_action_due (env : Env) (portWrite : Bool) (config : Option UprotoConfig)
    (inputs : List UprotoInput) (T : ℕ → ℕ) (hmono : Monotone T)
    (hnow : ∀ index, env.now index = UInt32.ofNat (T index)) :
    ∀ a ∈ tickActions ((Endpoint.init portWrite true config).run env inputs).link.log, a.Stamped T →
      T a.request.sentAt + a.request.txn.timeoutMs.toNat ≤ T a.readAt ∧ T a.readAt ≤ T a.index := by
  intro a ha hstamped
  have hchecked := (Endpoint.run_legal env portWrite true config inputs).checked ha
  refine ⟨?_, hmono hchecked.readAt_le⟩
  have helapsed : a.request.txn.timeoutMs.toNat ≤ T a.readAt - T a.request.readAt := by
    apply Nat.le_trans (UInt32.le_iff_toNat_le.mp hchecked.elapsed)
    rw [stamp, stamp, if_pos rfl, if_pos rfl, hnow, hnow]
    exact toNat_sub_le hstamped.read_le
  have hsent := hstamped.sent_le
  have hread := hstamped.read_le
  omega

theorem uprotoTick_action_due_unanswered :
    let a : TickAction := ⟨⟨unanswered, 1, 0, 1, 0⟩, 2, 3⟩
    a ∈ tickActions ((Endpoint.init true true none).run tickingEnv unansweredInputs).link.log ∧
      100 * a.request.sentAt + a.request.txn.timeoutMs.toNat ≤ 100 * a.readAt := by
  have hmem : (⟨⟨unanswered, 1, 0, 1, 0⟩, 2, 3⟩ : TickAction) ∈
      tickActions ((Endpoint.init true true none).run tickingEnv unansweredInputs).link.log := by
    decide +kernel
  have hmono : Monotone fun index : ℕ => 100 * index := fun _ _ h => Nat.mul_le_mul_left 100 h
  exact ⟨hmem, (uprotoTick_action_due tickingEnv true none unansweredInputs (100 * ·) hmono
    (fun _ => rfl) _ hmem ⟨by decide, by decide⟩).1⟩

/-- The application starts the handshake again when its timeout is reported. -/
def restartTime (index : ℕ) : ℕ := if index < 3 then 0 else if index < 4 then 1001 else 1002

def restartEnv : Env :=
  ⟨fun index => UInt32.ofNat (restartTime index), fun _ data => data.length,
    fun index => if index = 4 then [.startHandshake] else []⟩

def restartConfig : UprotoConfig :=
  { handshakeTimeoutMs := 1000, heartbeatIntervalMs := 0, defaultTimeoutMs := 3000
    defaultRetries := 3, eventCb := true }

/-- The new `HELLO` is retransmitted by the tick whose reading is older than the request. -/
theorem uprotoTick_action_early : Monotone restartTime ∧
    (∀ index, restartEnv.now index = UInt32.ofNat (restartTime index)) ∧
    ∃ a ∈ tickActions ((Endpoint.init true true (some restartConfig)).run restartEnv
        [.call .startHandshake, .tick]).link.log,
      restartTime a.index < restartTime a.request.sentAt + a.request.txn.timeoutMs.toNat := by
  refine ⟨monotone_nat_of_le_succ fun index => ?_, fun _ => rfl, ?_⟩
  · unfold restartTime
    split_ifs <;> omega
  · decide +kernel

/-- The second of two requests is retransmitted late in a tick, and again early in the next. -/
def staleTime (index : ℕ) : ℕ :=
  if index < 4 then 0 else if index < 6 then 100 else if index < 8 then 190 else 200

def staleEnv : Env :=
  ⟨fun index => UInt32.ofNat (staleTime index), fun _ data => data.length, fun _ => []⟩

def staleInputs : List UprotoInput :=
  [.call (.sendRequest 0x10 none 0 100 3 none 0), .call (.sendRequest 0x10 none 0 100 3 none 0), .tick, .tick]

-- a retransmission is stamped with the tick's reading, not with the time it goes out
example :
    ∃ a ∈ tickActions ((Endpoint.init true true (some restartConfig)).run staleEnv staleInputs).link.log,
      a.request.readAt < a.readAt ∧
        staleTime a.index < staleTime a.request.sentAt + a.request.txn.timeoutMs.toNat := by
  decide +kernel

end SpVision
