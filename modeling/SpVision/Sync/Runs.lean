import SpVision.Sync.TimeSync

set_option autoImplicit false

/-!
# Runs of the time sync

Both sides go through the same steps on the fields they share. They differ in the instant
they store for a request and in whether a stored instant of 0 counts as one.
-/
namespace SpVision

/-- A call of the time sync: a tick, with the two readings of the clock it may take and whether its request
    went out, or a received payload with the readings taken for it. -/
inductive SyncInput
  | tick (now t0 : UInt64) (sent : Bool)
  | payload (now now' : UInt64) (pl : List UInt8)
  deriving DecidableEq, Repr

def TimeSync.step (ts : TimeSync) : SyncInput → TimeSync
  | .tick now t0 _ => (ts.tick now t0).1
  | .payload now now' pl => (ts.onMux now now' pl pl.length).1

def TimeSyncChannel.step (ts : TimeSyncChannel) : SyncInput → TimeSyncChannel
  | .tick now _ _ => (ts.onTick now).1
  | .payload now now' pl => (ts.onRx now now' pl pl.length).1

/-! ### The common step -/

namespace TimeSync

def tickDue (ts : TimeSync) (now : UInt64) : Bool :=
  ts.initiator ∧ now - ts.lastReqUs ≥ ts.periodMs.toUInt64 * 1000

/-- A request is numbered and its instant stored. -/
def record (ts : TimeSync) (now t0 : UInt64) : TimeSync :=
  { ts with lastReqUs := now, seq := ts.seq + 1, hist := ts.hist.put ⟨ts.seq, t0⟩ }

/-- The entry that a sequence number is searched for. -/
def entry? (ts : TimeSync) (seq : UInt16) : Option HistItem := ts.hist.find? fun h => h.seq = seq

theorem onResp_hist (ts : TimeSync) (t0 t1 t2 t3 : UInt64) :
    (ts.onResp t0 t1 t2 t3).hist = ts.hist ∧ (ts.onResp t0 t1 t2 t3).seq = ts.seq := by
  unfold onResp
  dsimp only
  split_ifs <;> exact ⟨rfl, rfl⟩

end TimeSync

/-- One side as a state machine. -/
structure SyncMachine where
  State : Type
  sync : State → TimeSync
  init : UInt32 → Bool → UInt32 → State
  step : State → SyncInput → State
  /-- The instant stored for a request. -/
  reqT0 : UInt64 → UInt64 → UInt64
  /-- Whether an entry with the instant 0 answers a search. -/
  zeroOk : Bool

namespace SyncMachine

variable (m : SyncMachine)

def lookup (ts : TimeSync) (seq : UInt16) : Option HistItem :=
  (ts.entry? seq).filter fun item => m.zeroOk || item.t0 ≠ 0

/-- The entry that a RESP is matched with. -/
def matched? (ts : TimeSync) : SyncInput → Option HistItem
  | .tick _ _ _ => none
  | .payload _ _ pl => (tsResp? pl pl.length).bind fun resp => m.lookup ts resp.seq

/-- What a call does to the shared fields. -/
def coreStep (ts : TimeSync) : SyncInput → TimeSync
  | .tick now t0 _ => if ts.tickDue now then ts.record now (m.reqT0 now t0) else ts
  | .payload now _ pl =>
    ((tsResp? pl pl.length).bind fun resp =>
      (m.lookup ts resp.seq).map fun item => ts.onResp item.t0 resp.t1 resp.t2 now).getD ts

theorem coreStep_payload (ts : TimeSync) (now now' : UInt64) (pl : List UInt8) :
    m.coreStep ts (.payload now now' pl) = ((tsResp? pl pl.length).bind fun resp =>
      (m.lookup ts resp.seq).map fun item => ts.onResp item.t0 resp.t1 resp.t2 now).getD ts := rfl

theorem payload_cases (ts : TimeSync) (now now' : UInt64) (pl : List UInt8) :
    (m.matched? ts (.payload now now' pl) = none ∧ m.coreStep ts (.payload now now' pl) = ts) ∨
    ∃ resp item, tsResp? pl pl.length = some resp ∧ m.lookup ts resp.seq = some item ∧
      m.coreStep ts (.payload now now' pl) = ts.onResp item.t0 resp.t1 resp.t2 now := by
  rw [coreStep_payload, matched?]
  cases tsResp? pl pl.length with
  | none => exact .inl ⟨rfl, rfl⟩
  | some resp =>
    rw [Option.bind_some, Option.bind_some]
    cases hlookup : m.lookup ts resp.seq with
    | none => exact .inl ⟨rfl, rfl⟩
    | some item => exact .inr ⟨resp, item, rfl, hlookup, rfl⟩

/-- The machine starts with an empty history and its steps are common ones. -/
structure Lawful : Prop where
  sync_init : ∀ periodMs initiator maxRttUs, (m.sync (m.init periodMs initiator maxRttUs)).hist = .init 32 {} ∧
    (m.sync (m.init periodMs initiator maxRttUs)).seq = 0 ∧
    (m.sync (m.init periodMs initiator maxRttUs)).offsetUs = 0 ∧
    (m.sync (m.init periodMs initiator maxRttUs)).mappingValid = false
  sync_step : ∀ s input, m.sync (m.step s input) = m.coreStep (m.sync s) input

def run (s : m.State) (inputs : List SyncInput) : m.State := inputs.foldl m.step s

theorem run_append_singleton (s : m.State) (inputs : List SyncInput) (input : SyncInput) :
    m.run s (inputs ++ [input]) = m.step (m.run s inputs) input := List.foldl_append ..

/-- What `f` reads off the calls of a run, in order. -/
def collect {α : Type} (f : TimeSync → SyncInput → List α) (s : m.State) : List SyncInput → List α
  | [] => []
  | input :: inputs => f (m.sync s) input ++ collect f (m.step s input) inputs

theorem collect_append {α : Type} (f : TimeSync → SyncInput → List α) (s : m.State) (xs ys : List SyncInput) :
    m.collect f s (xs ++ ys) = m.collect f s xs ++ m.collect f (m.run s xs) ys := by
  induction xs generalizing s with
  | nil => rfl
  | cons input xs ih =>
    change f (m.sync s) input ++ m.collect f (m.step s input) (xs ++ ys) = _
    rw [ih, ← List.append_assoc]
    rfl

theorem collect_append_singleton {α : Type} (f : TimeSync → SyncInput → List α) (s : m.State)
    (inputs : List SyncInput) (input : SyncInput) :
    m.collect f s (inputs ++ [input]) = m.collect f s inputs ++ f (m.sync (m.run s inputs)) input := by
  rw [collect_append]
  exact congrArg _ (List.append_nil _)

end SyncMachine

/-! ### Host and device -/

/-- `TimeSync` of the driver; `send_req_` reads the clock again. -/
def hostSync : SyncMachine :=
  { State := TimeSync, sync := id, init := TimeSync.init, step := TimeSync.step, reqT0 := fun _ t0 => t0
    zeroOk := false }

def deviceSync : SyncMachine :=
  { State := TimeSyncChannel, sync := TimeSyncChannel.toTimeSync, init := TimeSyncChannel.init
    step := TimeSyncChannel.step, reqT0 := fun now _ => now, zeroOk := true }

theorem tsResp?_eq_some {pl : List UInt8} {len : ℕ} {resp : TsResp} (h : tsResp? pl len = some resp) :
    20 ≤ len ∧ readU16Le pl = tsSidResp ∧ resp = readTsResp pl := by
  unfold tsResp? at h
  split_ifs at h with hshort hsid hlen
  exact ⟨by omega, not_not.mp hsid, (Option.some.inj h).symm⟩

namespace TimeSync

theorem tick_eq (ts : TimeSync) (now t0 : UInt64) : ts.tick now t0 =
    if ts.tickDue now then (ts.record now t0, some (tsReq ts.seq t0)) else (ts, none) := by
  unfold tick
  by_cases hinitiator : ts.initiator
  · rw [if_neg (not_not.mpr hinitiator)]
    by_cases hdue : now - ts.lastReqUs ≥ ts.periodMs.toUInt64 * 1000
    · have htick : ts.tickDue now = true := decide_eq_true ⟨hinitiator, hdue⟩
      rw [if_pos hdue, htick]
      rfl
    · have htick : ts.tickDue now = false := decide_eq_false fun h => hdue h.2
      rw [if_neg hdue, htick]
      rfl
  · have htick : ts.tickDue now = false := decide_eq_false fun h => hinitiator h.1
    rw [if_pos hinitiator, htick]
    rfl

theorem onMux_of_none (ts : TimeSync) (now now' : UInt64) {pl : List UInt8} {len : ℕ}
    (h : tsResp? pl len = none) : (ts.onMux now now' pl len).1 = ts := by
  unfold tsResp? at h
  unfold onMux
  dsimp only
  split_ifs at h ⊢
  all_goals rfl

theorem onMux_of_some (ts : TimeSync) (now now' : UInt64) {pl : List UInt8} {len : ℕ} {resp : TsResp}
    (h : tsResp? pl len = some resp) : (ts.onMux now now' pl len).1 =
      if ts.lookup resp.seq = 0 then ts else ts.onResp (ts.lookup resp.seq) resp.t1 resp.t2 now := by
  obtain ⟨hlen, hsid, rfl⟩ := tsResp?_eq_some h
  unfold onMux
  dsimp only
  rw [hsid, if_neg (by omega), if_neg (by decide), if_neg (by decide), if_neg (by omega)]
  split_ifs <;> rfl

theorem step_eq_coreStep (ts : TimeSync) (input : SyncInput) : ts.step input = hostSync.coreStep ts input := by
  cases input with
  | tick now t0 sent =>
    change (ts.tick now t0).1 = if ts.tickDue now then ts.record now t0 else ts
    rw [tick_eq]
    split_ifs <;> rfl
  | payload now now' pl =>
    change (ts.onMux now now' pl pl.length).1 = _
    rw [SyncMachine.coreStep_payload]
    cases hresp : tsResp? pl pl.length with
    | none =>
      rw [ts.onMux_of_none now now' hresp]
      rfl
    | some resp =>
      rw [ts.onMux_of_some now now' hresp, Option.bind_some]
      unfold lookup SyncMachine.lookup entry?
      cases ts.hist.find? fun h => h.seq = resp.seq with
      | none => rfl
      | some item =>
        rw [Option.map_some, Option.getD_some]
        by_cases hzero : item.t0 = 0
        · rw [if_pos hzero, Option.filter_some_neg (by simp [hostSync, hzero])]
          rfl
        · rw [if_neg hzero, Option.filter_some_pos (by simp [hostSync, hzero])]
          rfl

end TimeSync

theorem hostSync_lawful : hostSync.Lawful where
  sync_init _ _ _ := ⟨rfl, rfl, rfl, rfl⟩
  sync_step := TimeSync.step_eq_coreStep

namespace TimeSyncChannel

theorem onTick_eq (ts : TimeSyncChannel) (now : UInt64) : ts.onTick now =
    if ts.tickDue now then ({ ts with toTimeSync := ts.record now now }, some (tsReq ts.seq now))
    else (ts, none) := by
  unfold onTick
  by_cases hinitiator : ts.initiator
  · rw [if_neg (not_not.mpr hinitiator)]
    by_cases hdue : now - ts.lastReqUs ≥ ts.periodMs.toUInt64 * 1000
    · have htick : ts.tickDue now = true := decide_eq_true ⟨hinitiator, hdue⟩
      rw [if_pos hdue, htick]
      rfl
    · have htick : ts.tickDue now = false := decide_eq_false fun h => hdue h.2
      rw [if_neg hdue, htick]
      rfl
  · have htick : ts.tickDue now = false := decide_eq_false fun h => hinitiator h.1
    rw [if_pos hinitiator, htick]
    rfl

theorem toTimeSync_onResp (ts : TimeSyncChannel) (t0 t1 t2 t3 : UInt64) :
    (ts.onResp t0 t1 t2 t3).toTimeSync = ts.toTimeSync.onResp t0 t1 t2 t3 := by
  unfold onResp TimeSync.onResp
  dsimp only
  by_cases hrtt : ts.maxRttUs = 0 ∨ tsRtt t0 t1 t2 t3 ≤ ts.maxRttUs.toUInt64
  · have hwithin : ¬ (ts.maxRttUs ≠ 0 ∧ tsRtt t0 t1 t2 t3 > ts.maxRttUs.toUInt64) := by
      rintro ⟨hlimit, hlate⟩
      exact hrtt.elim hlimit (UInt64.not_le.mpr hlate)
    rw [if_pos hrtt, if_neg hwithin]
    split_ifs <;> rfl
  · have hlate : ts.maxRttUs ≠ 0 ∧ tsRtt t0 t1 t2 t3 > ts.maxRttUs.toUInt64 := by
      rwa [not_or, UInt64.not_le] at hrtt
    rw [if_neg hrtt, if_pos hlate]

theorem onRx_of_none (ts : TimeSyncChannel) (now now' : UInt64) {pl : List UInt8} {len : ℕ}
    (h : tsResp? pl len = none) : (ts.onRx now now' pl len).1 = ts := by
  unfold tsResp? at h
  unfold onRx
  dsimp only
  split_ifs at h ⊢
  all_goals first | rfl | contradiction

theorem onRx_of_some (ts : TimeSyncChannel) (now now' : UInt64) {pl : List UInt8} {len : ℕ} {resp : TsResp}
    (h : tsResp? pl len = some resp) : (ts.onRx now now' pl len).1 =
      ((ts.histGet resp.seq).map fun t0 => ts.onResp t0 resp.t1 resp.t2 now).getD ts := by
  obtain ⟨hlen, hsid, rfl⟩ := tsResp?_eq_some h
  unfold onRx
  dsimp only
  rw [hsid, if_neg (by omega), if_neg (by decide), if_pos rfl, if_neg (by omega)]
  cases ts.histGet (readTsResp pl).seq <;> rfl

theorem step_eq_coreStep (ts : TimeSyncChannel) (input : SyncInput) :
    (ts.step input).toTimeSync = deviceSync.coreStep ts.toTimeSync input := by
  cases input with
  | tick now t0 sent =>
    change (ts.onTick now).1.toTimeSync = if ts.tickDue now then ts.record now now else ts.toTimeSync
    rw [onTick_eq]
    split_ifs <;> rfl
  | payload now now' pl =>
    change (ts.onRx now now' pl pl.length).1.toTimeSync = _
    rw [SyncMachine.coreStep_payload]
    cases hresp : tsResp? pl pl.length with
    | none =>
      rw [ts.onRx_of_none now now' hresp]
      rfl
    | some resp =>
      rw [ts.onRx_of_some now now' hresp, Option.bind_some]
      unfold histGet SyncMachine.lookup TimeSync.entry?
      cases ts.hist.find? fun h => h.seq = resp.seq with
      | none => rfl
      | some item =>
        rw [Option.filter_some_pos (by rfl)]
        exact ts.toTimeSync_onResp item.t0 resp.t1 resp.t2 now

end TimeSyncChannel

theorem deviceSync_lawful : deviceSync.Lawful where
  sync_init _ _ _ := ⟨rfl, rfl, rfl, rfl⟩
  sync_step := TimeSyncChannel.step_eq_coreStep

end SpVision
