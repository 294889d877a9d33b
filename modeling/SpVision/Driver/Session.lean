import SpVision.Driver.State
import SpVision.Sync.Offset
import SpVision.Sync.Requests

set_option autoImplicit false

/-!
# Sessions of the driver

A session begins with a successful `open`. The trace of a run counts the sessions, logs
the requests with the session they belong to, and remembers how many there were before the
session and whether a RESP to a request of the session has been accepted. The numbers of
the requests go on over the sessions, and so does the history.
-/
namespace SpVision

inductive DriverInput
  | connect (ok : Bool)
  | close
  | frame (clock : MuxClock) (data : List UInt8)
  | tick (now t0 : UInt64) (sent : Bool)
  deriving DecidableEq, Repr

structure SessionRequest where
  request : SyncRequest
  session : ℕ
  deriving DecidableEq, Repr

structure SessionTrace where
  session : ℕ := 0
  opened : ℕ := 0
  log : List SessionRequest := []
  answered : Bool := false
  deriving DecidableEq, Repr

/-- The number of a RESP is that of the `k`-th request of the run, which is one of the last 32. -/
structure SessionTrace.Names (t : SessionTrace) (resp : TsResp) (k : ℕ) (r : SessionRequest) : Prop where
  nth : t.log[k]? = some r
  recent : t.log.length ≤ k + 32
  seq : resp.seq = UInt16.ofNat k

/-- A RESP names at most one request. -/
theorem SessionTrace.Names.unique {t : SessionTrace} {resp : TsResp} {k k' : ℕ} {r r' : SessionRequest}
    (h : t.Names resp k r) (h' : t.Names resp k' r') : k = k' := by
  have hk : k < t.log.length := (List.getElem?_eq_some_iff.mp h.nth).1
  have hk' : k' < t.log.length := (List.getElem?_eq_some_iff.mp h'.nth).1
  have hrecent := h.recent
  have hrecent' := h'.recent
  have hseq := h.seq.symm.trans h'.seq
  rw [← UInt16.toNat_inj, UInt16.toNat_ofNat', UInt16.toNat_ofNat'] at hseq
  omega

/-- The round trip of a RESP is within the limit. -/
def TimeSync.InTime (ts : TimeSync) (item : HistItem) (resp : TsResp) (now : UInt64) : Prop :=
  ts.maxRttUs = 0 ∨ tsRtt item.t0 resp.t1 resp.t2 now ≤ ts.maxRttUs.toUInt64

namespace DriverState

variable (cfg : DriverSettings) (cb : DriverCallbacks)

def step (d : DriverState) : DriverInput → DriverState
  | .connect ok => d.driverOpen cfg ok
  | .close => d.driverClose
  | .frame clock data => (d.onFrame cfg cb clock data).1
  | .tick now t0 _ => d.driverTick cfg now t0

/-- What a frame means to the time sync. -/
def tsPayload? (clock : MuxClock) (data : List UInt8) : Option SyncInput :=
  match SpVision.handleMux cfg.toDriverConfig cb.onGimbalDeltaAck clock.nowNs data with
  | some (.timesync pl) => some (.payload clock.nowUs clock.nowUs' pl)
  | _ => none

/-- The call of the time sync in a step. -/
def tsInput? (d : DriverState) : DriverInput → Option SyncInput
  | .frame clock data => if d.isOpen then tsPayload? cfg cb clock data else none
  | .tick now t0 sent => if d.isOpen ∧ cfg.timesyncEnable then some (.tick now t0 sent) else none
  | .connect _ => none
  | .close => none

/-- The RESP of a step, with the reading of the clock at its arrival. -/
def resp? (d : DriverState) (input : DriverInput) : Option (TsResp × UInt64) :=
  (d.tsInput? cfg cb input).bind fun
    | .payload now _ pl => (tsResp? pl pl.length).map fun resp => (resp, now)
    | .tick _ _ _ => none

/-- The request that the RESP of a step is matched with. -/
def matched? (d : DriverState) (input : DriverInput) : Option HistItem :=
  (d.tsInput? cfg cb input).bind (hostSync.matched? d.ts)

/-- The raw offset of the RESP that a step accepts. -/
def accepted (d : DriverState) (input : DriverInput) : List Int64 :=
  (d.tsInput? cfg cb input).toList.flatMap (hostSync.sample d.ts)

/-- The requests of a step. -/
def requests (d : DriverState) (input : DriverInput) : List SyncRequest :=
  (d.tsInput? cfg cb input).toList.flatMap (hostSync.request d.ts)

/-- A RESP is accepted that answers a request sent in the current session. -/
def answers (d : DriverState) (t : SessionTrace) (input : DriverInput) : Bool :=
  !(d.accepted cfg cb input).isEmpty && (t.log.rtake 32).any fun r =>
    d.matched? cfg cb input = some r.request.item && r.request.sent && r.session = t.session

def traceStep (d : DriverState) (t : SessionTrace) (input : DriverInput) : SessionTrace :=
  if input = .connect true then
    { t with session := t.session + 1, opened := t.log.length, answered := false }
  else
    { t with
      log := t.log ++ (d.requests cfg cb input).map fun request => ⟨request, t.session⟩
      answered := t.answered || d.answers cfg cb t input }

/-- A run from the construction of the driver, with its trace. -/
def run (inputs : List DriverInput) : DriverState × SessionTrace :=
  inputs.foldl (fun s input => (s.1.step cfg cb input, s.1.traceStep cfg cb s.2 input)) ({}, {})

theorem run_append_singleton (inputs : List DriverInput) (input : DriverInput) :
    run cfg cb (inputs ++ [input]) = ((run cfg cb inputs).1.step cfg cb input,
      (run cfg cb inputs).1.traceStep cfg cb (run cfg cb inputs).2 input) := List.foldl_append ..

/-! ### Steps -/

/-- A step leaves the time sync, or calls it, or makes its settings. -/
theorem step_ts (d : DriverState) (input : DriverInput) :
    (input ≠ .connect true ∧
      (d.step cfg cb input).ts = ((d.tsInput? cfg cb input).map (hostSync.coreStep d.ts)).getD d.ts) ∨
    input = .connect true ∧ d.tsInput? cfg cb input = none ∧ (d.step cfg cb input).ts.hist = d.ts.hist ∧
      (d.step cfg cb input).ts.seq = d.ts.seq ∧ (d.step cfg cb input).ts.mappingValid = d.ts.mappingValid := by
  cases input with
  | connect ok =>
    cases ok
    · exact .inl ⟨by simp, rfl⟩
    · exact .inr ⟨rfl, rfl, rfl, rfl, rfl⟩
  | close => exact .inl ⟨by simp, rfl⟩
  | tick now t0 sent =>
    left
    refine ⟨by simp, ?_⟩
    change (d.driverTick cfg now t0).ts = _
    unfold driverTick tsInput?
    dsimp only
    by_cases hopen : d.isOpen
    · rw [if_neg (not_not.mpr hopen)]
      by_cases henable : cfg.timesyncEnable
      · rw [if_pos henable, if_pos ⟨hopen, henable⟩]
        exact TimeSync.step_eq_coreStep d.ts (.tick now t0 sent)
      · rw [if_neg henable, if_neg fun h => henable h.2]
        rfl
    · rw [if_pos hopen, if_neg fun h => hopen h.1]
      rfl
  | frame clock data =>
    left
    refine ⟨by simp, ?_⟩
    change (d.onFrame cfg cb clock data).1.ts = _
    unfold onFrame tsInput? handleMux tsPayload?
    dsimp only
    by_cases hopen : d.isOpen
    · rw [if_neg (not_not.mpr hopen), if_pos hopen]
      rcases SpVision.handleMux cfg.toDriverConfig cb.onGimbalDeltaAck clock.nowNs data with - | message
      · rfl
      · cases message
        case timesync pl =>
          have hcore := TimeSync.step_eq_coreStep d.ts (.payload clock.nowUs clock.nowUs' pl)
          unfold onTimesyncMux
          dsimp only
          split_ifs <;> exact hcore
        all_goals rfl
    · rw [if_pos hopen, if_neg hopen]
      rfl

/-! ### The trace against the state -/

variable {cfg cb}

/-- What holds of every run: the log is that of the time sync, the requests of the session are the last ones, and
    a RESP of the session that was accepted has made the mapping valid. -/
structure Traced (d : DriverState) (t : SessionTrace) : Prop where
  logged : d.ts.Logged (t.log.map SessionRequest.request)
  opened : t.opened ≤ t.log.length
  sessions : ∀ (k : ℕ) (r : SessionRequest), t.log[k]? = some r →
    r.session ≤ t.session ∧ (r.session = t.session ↔ t.opened ≤ k)
  answered : t.answered = true → d.ts.mappingValid = true

theorem answers_accepted {d : DriverState} {t : SessionTrace} {input : DriverInput}
    (h : d.answers cfg cb t input = true) : d.accepted cfg cb input ≠ [] := by
  rw [answers, Bool.and_eq_true, Bool.not_eq_true', List.isEmpty_eq_false_iff] at h
  exact h.1

theorem step_mappingValid (d : DriverState) (input : DriverInput) :
    (d.step cfg cb input).ts.mappingValid = (d.ts.mappingValid || !(d.accepted cfg cb input).isEmpty) := by
  unfold accepted
  rcases d.step_ts cfg cb input with ⟨-, hts⟩ | ⟨-, hnone, -, -, hvalid⟩
  · rw [hts]
    cases d.tsInput? cfg cb input with
    | none => simp
    | some syncInput =>
      rw [Option.map_some, Option.getD_some, Option.toList_some, List.flatMap_singleton]
      rcases hostSync.coreStep_sample d.ts syncInput with ⟨hsample, -, hvalid⟩ | ⟨raw, hsample, -, hvalid⟩
      · rw [hsample, hvalid]
        simp
      · rw [hsample, hvalid]
        simp
  · rw [hvalid, hnone]
    simp

theorem traceStep_answered (d : DriverState) (t : SessionTrace) (input : DriverInput)
    (hinput : input ≠ .connect true) :
    (d.traceStep cfg cb t input).answered = (t.answered || d.answers cfg cb t input) := by
  rw [traceStep, if_neg hinput]

theorem Traced.traceStep_sessions {d : DriverState} {t : SessionTrace} (h : Traced d t) (input : DriverInput) :
    (d.traceStep cfg cb t input).opened ≤ (d.traceStep cfg cb t input).log.length ∧
      ∀ (k : ℕ) (r : SessionRequest), (d.traceStep cfg cb t input).log[k]? = some r →
        r.session ≤ (d.traceStep cfg cb t input).session ∧
          (r.session = (d.traceStep cfg cb t input).session ↔ (d.traceStep cfg cb t input).opened ≤ k) := by
  unfold traceStep
  split_ifs with hinput
  · refine ⟨le_rfl, fun k r hr => ?_⟩
    dsimp only at hr ⊢
    have hk : k < t.log.length := (List.getElem?_eq_some_iff.mp hr).1
    have hsession := (h.sessions k r hr).1
    exact ⟨by omega, iff_of_false (by omega) (by omega)⟩
  · have hopened := h.opened
    dsimp only
    refine ⟨by rw [List.length_append]; omega, fun k r hr => ?_⟩
    rcases Nat.lt_or_ge k t.log.length with hlt | hge
    · rw [List.getElem?_append_left hlt] at hr
      exact h.sessions k r hr
    · rw [List.getElem?_append_right hge, List.getElem?_map, Option.map_eq_some_iff] at hr
      obtain ⟨request, -, rfl⟩ := hr
      exact ⟨le_rfl, iff_of_true rfl (hopened.trans hge)⟩

theorem Traced.step {d : DriverState} {t : SessionTrace} (h : Traced d t) (input : DriverInput) :
    Traced (d.step cfg cb input) (d.traceStep cfg cb t input) where
  logged := by
    rcases d.step_ts cfg cb input with ⟨hinput, hts⟩ | ⟨hinput, -, hhist, hseq, -⟩
    · have hlog : (d.traceStep cfg cb t input).log.map SessionRequest.request =
          t.log.map SessionRequest.request ++ d.requests cfg cb input := by
        rw [traceStep, if_neg hinput, List.map_append, List.map_map]
        exact congrArg _ (List.map_id _)
      rw [hts, hlog, requests]
      cases d.tsInput? cfg cb input with
      | none => simpa using h.logged
      | some syncInput => simpa using h.logged.coreStep syncInput
    · have hlog : (d.traceStep cfg cb t input).log = t.log := by rw [traceStep, if_pos hinput]
      rw [hlog]
      exact ⟨hhist ▸ h.logged.hist, hseq.trans h.logged.seq, h.logged.numbered⟩
  opened := (h.traceStep_sessions input).1
  sessions := (h.traceStep_sessions input).2
  answered hanswered := by
    rw [step_mappingValid, Bool.or_eq_true]
    by_cases hinput : input = .connect true
    · rw [traceStep, if_pos hinput] at hanswered
      cases hanswered
    · rw [traceStep_answered d t input hinput, Bool.or_eq_true] at hanswered
      rcases hanswered with hbefore | hnow
      · exact .inl (h.answered hbefore)
      · exact .inr (by simpa using answers_accepted hnow)

theorem traced_run (inputs : List DriverInput) : Traced (run cfg cb inputs).1 (run cfg cb inputs).2 := by
  induction inputs using List.reverseRecOn with
  | nil => exact ⟨⟨SlotRing.holds_init _, rfl, nofun⟩, le_rfl, nofun, nofun⟩
  | append_singleton inputs input ih =>
    rw [run_append_singleton]
    exact ih.step input

/-! ### What the history answers -/

/-- A RESP that names a request with an instant is matched with that request, and accepted if it is in time. -/
theorem Traced.matched_of_names {d : DriverState} {t : SessionTrace} (h : Traced d t) {input : DriverInput}
    {resp : TsResp} {now : UInt64} (hresp : d.resp? cfg cb input = some (resp, now)) {k : ℕ}
    {r : SessionRequest} (hnames : t.Names resp k r) (hstamped : r.request.item.t0 ≠ 0) :
    d.matched? cfg cb input = some r.request.item ∧
      (d.accepted cfg cb input ≠ [] ↔ d.ts.InTime r.request.item resp now) := by
  have hnth : (t.log.map SessionRequest.request)[k]? = some r.request := by
    rw [List.getElem?_map, hnames.nth]
    rfl
  have hmem : r.request ∈ (t.log.map SessionRequest.request).rtake 32 :=
    mem_rtake_iff.mpr ⟨k, by rw [List.length_map]; exact hnames.recent, hnth⟩
  have hlookup : hostSync.lookup d.ts resp.seq = some r.request.item := by
    rw [hnames.seq, ← h.logged.numbered k _ hnth]
    exact h.logged.lookup_eq_some hmem (by simpa [hostSync] using hstamped)
  obtain ⟨syncInput, hinput, hpayload⟩ := Option.bind_eq_some_iff.mp hresp
  cases syncInput with
  | tick now t0 sent => cases hpayload
  | payload now' now'' pl =>
    obtain ⟨resp', hresp', heq⟩ := Option.map_eq_some_iff.mp hpayload
    cases heq
    constructor
    · rw [matched?, hinput, Option.bind_some, SyncMachine.matched?, hresp', Option.bind_some, hlookup]
    · rw [accepted, hinput, Option.toList_some, List.flatMap_singleton, SyncMachine.sample, hresp',
        Option.bind_some, hlookup, Option.bind_some, TimeSync.InTime]
      split_ifs with hlate
      · exact iff_of_false (not_not.mpr rfl) fun hin => hin.elim hlate.1 (UInt64.not_le.mpr hlate.2)
      · rw [not_and_or, not_not, gt_iff_lt, UInt64.not_lt] at hlate
        exact iff_of_true (List.cons_ne_nil _ _) hlate

/-- What a RESP is matched with is a request that it names. -/
theorem Traced.names_of_matched {d : DriverState} {t : SessionTrace} (h : Traced d t) {input : DriverInput}
    {item : HistItem} (hmatched : d.matched? cfg cb input = some item) :
    ∃ resp now k r, d.resp? cfg cb input = some (resp, now) ∧ t.Names resp k r ∧ r.request.item = item ∧
      item.t0 ≠ 0 := by
  obtain ⟨syncInput, hinput, hmatched⟩ := Option.bind_eq_some_iff.mp hmatched
  cases syncInput with
  | tick now t0 sent => cases hmatched
  | payload now now' pl =>
    obtain ⟨resp, hresp, hlookup⟩ := Option.bind_eq_some_iff.mp hmatched
    have hstamped : item.t0 ≠ 0 := by simpa [hostSync] using (Option.filter_eq_some_iff.mp hlookup).2
    obtain ⟨hseq, ⟨request, hrequest, hitem⟩ | ⟨hzero, -⟩⟩ := h.logged.lookup hlookup
    · obtain ⟨k, hrecent, hk⟩ := mem_rtake_iff.mp hrequest
      have hnumber := h.logged.numbered _ _ hk
      rw [List.length_map] at hrecent
      rw [List.getElem?_map, Option.map_eq_some_iff] at hk
      obtain ⟨r, hr, rfl⟩ := hk
      refine ⟨resp, now, k, r, ?_, ⟨hr, hrecent, ?_⟩, hitem, hstamped⟩
      · rw [resp?, hinput, Option.bind_some]
        exact congrArg (Option.map fun resp => (resp, now)) hresp
      · rw [← hseq, ← hitem, hnumber]
    · exact absurd hzero Bool.false_ne_true

/-! ### Separate sessions -/

variable (cfg cb)

/-- In every state of a run the status is valid only after a RESP to a request of the session, and every RESP
    that is matched is matched with a request of the session. -/
structure SessionsSeparate (inputs : List DriverInput) : Prop where
  valid : ∀ pre, pre <+: inputs → (run cfg cb pre).1.ts.status.valid = true → (run cfg cb pre).2.answered = true
  matched : ∀ pre post input item, inputs = pre ++ input :: post →
    (run cfg cb pre).1.matched? cfg cb input = some item →
      ∃ r ∈ (run cfg cb pre).2.log.rtake 32, r.request.item = item ∧ r.session = (run cfg cb pre).2.session

/-- A step that leaks nothing: `open` finds no valid mapping, and the number of a RESP is none that the history
    still holds from before the `open`, nor that of a request that was not sent if the mapping becomes valid
    with it. -/
structure StepFresh (d : DriverState) (t : SessionTrace) (input : DriverInput) : Prop where
  connect : input = .connect true → d.ts.mappingValid = false
  resp : ∀ resp now k r, d.resp? cfg cb input = some (resp, now) → t.Names resp k r → r.request.item.t0 ≠ 0 →
    t.opened ≤ k ∧ (d.ts.InTime r.request.item resp now → r.request.sent = true ∨ d.ts.mappingValid = true)

variable {cfg cb}

theorem matched?_of_accepted {d : DriverState} {input : DriverInput} (h : d.accepted cfg cb input ≠ []) :
    ∃ item, d.matched? cfg cb input = some item := by
  unfold accepted at h
  unfold matched?
  cases hinput : d.tsInput? cfg cb input with
  | none =>
    rw [hinput] at h
    exact absurd rfl h
  | some syncInput =>
    rw [hinput, Option.toList_some, List.flatMap_singleton] at h
    rw [Option.bind_some]
    exact Option.ne_none_iff_exists'.1 fun hnone => h (hostSync.sample_of_unmatched hnone)

/-- A named request belongs to the session exactly if it was drawn since the `open`. -/
theorem Traced.mem_session {d : DriverState} {t : SessionTrace} (h : Traced d t) {resp : TsResp} {k : ℕ}
    {r : SessionRequest} (hnames : t.Names resp k r) :
    r ∈ t.log.rtake 32 ∧ (r.session = t.session ↔ t.opened ≤ k) :=
  ⟨mem_rtake_iff.mpr ⟨k, hnames.recent, hnames.nth⟩, (h.sessions k r hnames.nth).2⟩

theorem StepFresh.valid_answered {d : DriverState} {t : SessionTrace} {input : DriverInput}
    (h : StepFresh cfg cb d t input) (ht : Traced d t) (ih : d.ts.mappingValid = true → t.answered = true)
    (hvalid : (d.step cfg cb input).ts.mappingValid = true) : (d.traceStep cfg cb t input).answered = true := by
  rw [step_mappingValid, Bool.or_eq_true] at hvalid
  by_cases hinput : input = .connect true
  · subst hinput
    have hnone : d.accepted cfg cb (.connect true) = [] := rfl
    rw [h.connect rfl, hnone] at hvalid
    simp at hvalid
  · rw [traceStep_answered d t input hinput, Bool.or_eq_true]
    rcases hvalid with hbefore | hnow
    · exact .inl (ih hbefore)
    · have haccepted : d.accepted cfg cb input ≠ [] := by simpa using hnow
      obtain ⟨item, hmatched⟩ := matched?_of_accepted haccepted
      obtain ⟨resp, now, k, r, hresp, hnames, rfl, hstamped⟩ := ht.names_of_matched hmatched
      obtain ⟨hopened, hsent⟩ := h.resp resp now k r hresp hnames hstamped
      obtain ⟨hmem, hsession⟩ := ht.mem_session hnames
      rcases hsent ((ht.matched_of_names hresp hnames hstamped).2.mp haccepted) with hsent | hbefore
      · right
        rw [answers, Bool.and_eq_true, List.any_eq_true]
        refine ⟨hnow, r, hmem, ?_⟩
        simp [hmatched, hsent, hsession.mpr hopened]
      · exact .inl (ih hbefore)

theorem sessionsSeparate_of_fresh {inputs : List DriverInput}
    (h : ∀ pre post input, inputs = pre ++ input :: post →
      StepFresh cfg cb (run cfg cb pre).1 (run cfg cb pre).2 input) : SessionsSeparate cfg cb inputs where
  valid pre hpre := by
    induction pre using List.reverseRecOn with
    | nil => exact fun hvalid => by cases hvalid
    | append_singleton pre input ih =>
      obtain ⟨rest, hrest⟩ := hpre
      have hsplit : inputs = pre ++ input :: rest := by rw [← hrest, List.append_assoc]; rfl
      rw [run_append_singleton]
      exact (h pre rest input hsplit).valid_answered (traced_run pre) (ih ⟨input :: rest, hsplit.symm⟩)
  matched pre post input item hsplit hmatched := by
    obtain ⟨resp, now, k, r, hresp, hnames, hitem, hstamped⟩ := (traced_run pre).names_of_matched hmatched
    obtain ⟨hopened, -⟩ := (h pre post input hsplit).resp resp now k r hresp hnames (hitem ▸ hstamped)
    obtain ⟨hmem, hsession⟩ := (traced_run pre).mem_session hnames
    exact ⟨r, hmem, hitem, hsession.mpr hopened⟩

/-- The request that a search finds is the one of the log that the RESP names. -/
theorem Traced.eq_of_names {d : DriverState} {t : SessionTrace} (h : Traced d t) {resp : TsResp} {k : ℕ}
    {r r' : SessionRequest} (hnames : t.Names resp k r) (hr' : r' ∈ t.log.rtake 32)
    (hitem : r'.request.item = r.request.item) : r' = r := by
  have hnumber {j : ℕ} {r : SessionRequest} (hr : t.log[j]? = some r) :
      r.request.item.seq = UInt16.ofNat j := by
    apply h.logged.numbered
    rw [List.getElem?_map, hr]
    rfl
  obtain ⟨j, hrecent, hj⟩ := mem_rtake_iff.mp hr'
  have hnames' : t.Names resp j r' := by
    refine ⟨hj, hrecent, ?_⟩
    rw [← hnumber hj, hitem, hnumber hnames.nth, hnames.seq]
  have hnth := hnames.nth
  rw [hnames.unique hnames', hj, Option.some.injEq] at hnth
  exact hnth

theorem SessionsSeparate.fresh {inputs : List DriverInput} (h : SessionsSeparate cfg cb inputs)
    (pre post : List DriverInput) (input : DriverInput) (hsplit : inputs = pre ++ input :: post) :
    StepFresh cfg cb (run cfg cb pre).1 (run cfg cb pre).2 input := by
  have hpast : pre ++ [input] <+: inputs := ⟨post, by rw [hsplit, List.append_assoc]; rfl⟩
  have hvalid := h.valid _ hpast
  rw [run_append_singleton] at hvalid
  change ((run cfg cb pre).1.step cfg cb input).ts.mappingValid = true → _ at hvalid
  rw [step_mappingValid] at hvalid
  have ht : Traced (run cfg cb pre).1 (run cfg cb pre).2 := traced_run pre
  constructor
  · intro hinput
    by_contra hbefore
    rw [Bool.not_eq_false] at hbefore
    have hanswered := hvalid (by rw [hbefore, Bool.true_or])
    rw [traceStep, if_pos hinput] at hanswered
    cases hanswered
  · intro resp now k r hresp hnames hstamped
    obtain ⟨hmatched, haccepted⟩ := ht.matched_of_names hresp hnames hstamped
    obtain ⟨-, hsession⟩ := ht.mem_session hnames
    obtain ⟨r', hr', hitem', hsession'⟩ := h.matched pre post input _ hsplit hmatched
    obtain rfl := ht.eq_of_names hnames hr' hitem'
    refine ⟨hsession.mp hsession', fun hin => ?_⟩
    by_cases hbefore : (run cfg cb pre).1.ts.mappingValid = true
    · exact .inr hbefore
    · -- the mapping becomes valid here, so this RESP answers a request that was sent
      have hnow : (run cfg cb pre).1.accepted cfg cb input ≠ [] := haccepted.mpr hin
      have hinput : input ≠ .connect true := by
        rintro rfl
        exact hnow rfl
      have hanswered := hvalid (by simpa [hbefore] using hnow)
      rw [traceStep_answered _ _ _ hinput, Bool.or_eq_true] at hanswered
      rcases hanswered with hearlier | hanswers
      · exact absurd (ht.answered hearlier) hbefore
      · rw [answers, Bool.and_eq_true, List.any_eq_true] at hanswers
        obtain ⟨-, s, hs, hanswers⟩ := hanswers
        simp only [hmatched, Bool.and_eq_true, decide_eq_true_eq, Option.some.injEq] at hanswers
        obtain ⟨⟨hitem, hsent⟩, -⟩ := hanswers
        obtain rfl := ht.eq_of_names hnames hs hitem.symm
        exact .inl hsent

end DriverState

/-- Sessions are separate in a run exactly if none of its steps leaks: each `open` that succeeds finds the
    mapping not valid, and the number of each RESP, if one of the last 32 requests has it, was drawn since the
    `open`, by a request that was sent if the mapping becomes valid with the RESP. -/
theorem sessionsSeparate_iff (cfg : DriverSettings) (cb : DriverCallbacks) (inputs : List DriverInput) :
    DriverState.SessionsSeparate cfg cb inputs ↔ ∀ pre post input, inputs = pre ++ input :: post →
      DriverState.StepFresh cfg cb (DriverState.run cfg cb pre).1 (DriverState.run cfg cb pre).2 input :=
  ⟨fun h pre post input hsplit => h.fresh pre post input hsplit, DriverState.sessionsSeparate_of_fresh⟩

/-- A RESP in a frame of the time sync. -/
def respFrame (seq : UInt16) (t1 t2 : UInt64) : List UInt8 :=
  (muxEncode commMuxTxBufferSize
    { sof := muxSof, ver := muxVer, channel := tsChId, flags := 0, len := 20, sid := tsSidResp, seq := 1, rsv := 0 }
    (tsResp seq t1 t2)).getD []

/-- After `open` the status is still that of the session before. -/
theorem reopened_still_valid : ¬ ∀ inputs, DriverState.SessionsSeparate {} {} inputs := by
  intro h
  have hvalid := (h [.connect true, .tick 2000000 2000000 true,
    .frame ⟨2000400000, 2000400, 2000400⟩ (respFrame 0 9000000 9000100), .close, .connect true]).valid _
      (List.prefix_refl _) (by decide +kernel)
  revert hvalid
  decide +kernel

end SpVision
