import SpVision.Sync.Runs

set_option autoImplicit false

/-!
# Responses and the requests they answer

Each request of a run is logged with whether it went out. The history holds the last 32 of
them, and a search that hits it finds the one logged request of that number.
-/
namespace SpVision

structure SyncRequest where
  item : HistItem
  sent : Bool
  deriving DecidableEq, Repr

namespace SyncMachine

variable (m : SyncMachine)

def request (ts : TimeSync) : SyncInput → List SyncRequest
  | .tick now t0 sent => if ts.tickDue now then [⟨⟨ts.seq, m.reqT0 now t0⟩, sent⟩] else []
  | .payload _ _ _ => []

/-- The requests of a run, in order. -/
def requests (s : m.State) (inputs : List SyncInput) : List SyncRequest := m.collect m.request s inputs

end SyncMachine

theorem TimeSync.tick_snd (ts : TimeSync) (now t0 : UInt64) (sent : Bool) :
    (ts.tick now t0).2.toList = (hostSync.request ts (.tick now t0 sent)).map fun r => tsReq r.item.seq r.item.t0 := by
  rw [tick_eq]
  unfold SyncMachine.request
  dsimp only
  split_ifs <;> rfl

theorem TimeSyncChannel.onTick_snd (ts : TimeSyncChannel) (now t0 : UInt64) (sent : Bool) :
    (ts.onTick now).2.toList =
      (deviceSync.request ts.toTimeSync (.tick now t0 sent)).map fun r => tsReq r.item.seq r.item.t0 := by
  rw [onTick_eq]
  unfold SyncMachine.request
  dsimp only
  split_ifs <;> rfl

/-! ### The history against the log -/

structure TimeSync.Logged (ts : TimeSync) (log : List SyncRequest) : Prop where
  hist : ts.hist.Holds {} (log.map SyncRequest.item)
  seq : ts.seq = UInt16.ofNat log.length
  numbered : ∀ (j : ℕ) (r : SyncRequest), log[j]? = some r → r.item.seq = UInt16.ofNat j

section Log

variable {m : SyncMachine} {ts : TimeSync} {log : List SyncRequest}

theorem TimeSync.Logged.record (h : ts.Logged log) (now t0 : UInt64) (sent : Bool) :
    (ts.record now t0).Logged (log ++ [⟨⟨ts.seq, t0⟩, sent⟩]) where
  hist := by
    rw [List.map_append]
    exact h.hist.put ⟨ts.seq, t0⟩
  seq := by
    change ts.seq + 1 = _
    rw [h.seq, List.length_append, List.length_singleton, UInt16.ofNat_add]
    rfl
  numbered j r hr := by
    rcases Nat.lt_or_ge j log.length with hlt | hge
    · rw [List.getElem?_append_left hlt] at hr
      exact h.numbered j r hr
    · rw [List.getElem?_append_right hge, List.getElem?_singleton] at hr
      split_ifs at hr with hlast
      cases hr
      rw [h.seq, show j = log.length by omega]

theorem TimeSync.Logged.onResp (h : ts.Logged log) (t0 t1 t2 t3 : UInt64) : (ts.onResp t0 t1 t2 t3).Logged log where
  hist := by
    rw [(ts.onResp_hist t0 t1 t2 t3).1]
    exact h.hist
  seq := (ts.onResp_hist t0 t1 t2 t3).2.trans h.seq
  numbered := h.numbered

theorem TimeSync.Logged.coreStep (h : ts.Logged log) (input : SyncInput) :
    (m.coreStep ts input).Logged (log ++ m.request ts input) := by
  cases input with
  | tick now t0 sent =>
    unfold SyncMachine.coreStep SyncMachine.request
    dsimp only
    split_ifs
    · exact h.record now _ sent
    · rwa [List.append_nil]
  | payload now now' pl =>
    rw [SyncMachine.request, List.append_nil]
    rcases m.payload_cases ts now now' pl with ⟨-, hstep⟩ | ⟨resp, item, -, -, hstep⟩ <;> rw [hstep]
    · exact h
    · exact h.onResp item.t0 resp.t1 resp.t2 now

theorem SyncMachine.Lawful.run_logged (hm : m.Lawful) (periodMs : UInt32) (initiator : Bool) (maxRttUs : UInt32)
    (inputs : List SyncInput) : (m.sync (m.run (m.init periodMs initiator maxRttUs) inputs)).Logged
      (m.requests (m.init periodMs initiator maxRttUs) inputs) := by
  induction inputs using List.reverseRecOn with
  | nil =>
    obtain ⟨hhist, hseq, -, -⟩ := hm.sync_init periodMs initiator maxRttUs
    refine ⟨?_, hseq, by simp [SyncMachine.requests, SyncMachine.collect]⟩
    change (m.sync (m.init periodMs initiator maxRttUs)).hist.Holds {} []
    rw [hhist]
    exact SlotRing.holds_init _
  | append_singleton inputs input ih =>
    rw [SyncMachine.requests, m.collect_append_singleton, m.run_append_singleton, hm.sync_step]
    exact ih.coreStep input

theorem TimeSync.Logged.unique (h : ts.Logged log) {r r' : SyncRequest} (hr : r ∈ log.rtake 32)
    (hr' : r' ∈ log.rtake 32) (hseq : r'.item.seq = r.item.seq) : r' = r := by
  obtain ⟨j, hj, hjth⟩ := mem_rtake_iff.mp hr
  obtain ⟨k, hk, hkth⟩ := mem_rtake_iff.mp hr'
  have hjlt := (List.getElem?_eq_some_iff.mp hjth).1
  have hklt := (List.getElem?_eq_some_iff.mp hkth).1
  rw [h.numbered _ _ hjth, h.numbered _ _ hkth, ← UInt16.toNat_inj, UInt16.toNat_ofNat', UInt16.toNat_ofNat'] at hseq
  have hkj : k = j := by omega
  rw [hkj, hjth, Option.some.injEq] at hkth
  exact hkth.symm

/-- What a search finds is the request of that number, unless a slot that was never written answers it. -/
theorem TimeSync.Logged.lookup (h : ts.Logged log) {seq : UInt16} {item : HistItem}
    (hlookup : m.lookup ts seq = some item) : item.seq = seq ∧
      ((∃ r ∈ log.rtake 32, r.item = item) ∨ m.zeroOk = true ∧ seq = 0 ∧ log = []) := by
  obtain ⟨hentry, hzero⟩ := Option.filter_eq_some_iff.mp hlookup
  obtain ⟨hseq, hmem | ⟨rfl, hnone⟩⟩ := h.hist.find? hentry
  · refine ⟨of_decide_eq_true hseq, .inl ?_⟩
    rw [List.rtake, List.length_map, ← List.map_drop, List.mem_map] at hmem
    exact hmem
  · have hseq0 : seq = 0 := (of_decide_eq_true hseq).symm
    refine ⟨hseq0.symm, .inr ⟨by simpa using hzero, hseq0, ?_⟩⟩
    -- the first request has the number 0, so it would be found instead
    cases log with
    | nil => rfl
    | cons r log =>
      have hfirst : r.item.seq = seq := by
        rw [hseq0]
        exact h.numbered 0 r rfl
      exact absurd (decide_eq_true hfirst) (hnone r.item (by simp))

/-- A search for the number of one of the last 32 requests finds that request. -/
theorem TimeSync.Logged.lookup_eq_some (h : ts.Logged log) {r : SyncRequest} (hr : r ∈ log.rtake 32)
    (hzero : (m.zeroOk || r.item.t0 ≠ 0) = true) : m.lookup ts r.item.seq = some r.item := by
  have hrecent : (log.map SyncRequest.item).rtake 32 = (log.rtake 32).map SyncRequest.item := by
    rw [List.rtake, List.length_map, ← List.map_drop, ← List.rtake]
  have hfind : ts.entry? r.item.seq = some r.item := by
    refine h.hist.find?_eq_some ?_ (decide_eq_true rfl) fun x hx hseq => ?_
    · rw [hrecent]
      exact List.mem_map_of_mem hr
    · rw [hrecent, List.mem_map] at hx
      obtain ⟨r', hr', rfl⟩ := hx
      rw [h.unique hr hr' (of_decide_eq_true hseq)]
  rw [SyncMachine.lookup, hfind]
  exact Option.filter_eq_some_iff.mpr ⟨rfl, hzero⟩

end Log

/-! ### Matched responses -/

namespace SyncMachine

variable (m : SyncMachine)

/-- A new mapping version comes from a RESP whose number is that of one of the last 32 requests sent, and the
    estimates use the instant of that request, the only one of its number. -/
def Matched (log : List SyncRequest) (ts : TimeSync) (input : SyncInput) (ts' : TimeSync) : Prop :=
  ts'.mappingVersion ≠ ts.mappingVersion → ∃ now now' pl resp item,
    input = .payload now now' pl ∧ tsResp? pl pl.length = some resp ∧
      item ∈ ((log.filter SyncRequest.sent).map SyncRequest.item).rtake 32 ∧ item.seq = resp.seq ∧
        (∀ r ∈ log.rtake 32, r.item.seq = resp.seq → r.item = item) ∧
          ts'.rttUsLast = (tsRtt item.t0 resp.t1 resp.t2 now).toUInt32 ∧
            ts'.offsetUs = tsFilter ts.offsetUs (tsOffset item.t0 resp.t1 resp.t2 now)

/-- All steps of all runs are matched. -/
def AlwaysMatched : Prop := ∀ (periodMs : UInt32) (initiator : Bool) (maxRttUs : UInt32)
    (inputs pre post : List SyncInput) (input : SyncInput), inputs = pre ++ input :: post →
  Matched (m.requests (m.init periodMs initiator maxRttUs) pre)
    (m.sync (m.run (m.init periodMs initiator maxRttUs) pre)) input
    (m.sync (m.run (m.init periodMs initiator maxRttUs) (pre ++ [input])))

/-- A RESP that can only be matched with a request that was sent: none of the recent requests of its number
    failed to go out, and on a side that takes an empty slot for a request there is one already if the
    number is 0. -/
def Answerable (log : List SyncRequest) (input : SyncInput) : Prop :=
  ∀ now now' pl resp, input = .payload now now' pl → tsResp? pl pl.length = some resp →
    (m.zeroOk = true → resp.seq = 0 → log ≠ []) ∧ ∀ r ∈ log.rtake 32, r.item.seq = resp.seq → r.sent

end SyncMachine

theorem TimeSync.onResp_version {ts : TimeSync} {t0 t1 t2 t3 : UInt64}
    (h : (ts.onResp t0 t1 t2 t3).mappingVersion ≠ ts.mappingVersion) :
    (ts.onResp t0 t1 t2 t3).rttUsLast = (tsRtt t0 t1 t2 t3).toUInt32 ∧
      (ts.onResp t0 t1 t2 t3).offsetUs = tsFilter ts.offsetUs (tsOffset t0 t1 t2 t3) := by
  unfold onResp at h ⊢
  dsimp only at h ⊢
  split_ifs at h ⊢ with hlate
  · exact absurd rfl h
  · exact ⟨rfl, rfl⟩

theorem mem_rtake_filter {α : Type} {p : α → Bool} {l : List α} {n : ℕ} {a : α} (ha : a ∈ l.rtake n)
    (hp : p a) : a ∈ (l.filter p).rtake n := by
  have hsplit : l.filter p = (l.take (l.length - n)).filter p ++ (l.rtake n).filter p := by
    rw [← List.filter_append, List.rtake, List.take_append_drop]
  have hlen : ((l.rtake n).filter p).length ≤ n := by
    refine (List.length_filter_le _ _).trans ?_
    rw [List.rtake, List.length_drop]
    omega
  have hle : ((l.take (l.length - n)).filter p ++ (l.rtake n).filter p).length - n ≤
      ((l.take (l.length - n)).filter p).length := by
    rw [List.length_append]
    omega
  rw [List.rtake.eq_def, hsplit, List.drop_append_of_le_length hle]
  exact List.mem_append_right _ (List.mem_filter.mpr ⟨ha, hp⟩)

theorem SyncMachine.matched_coreStep {m : SyncMachine} {ts : TimeSync} {log : List SyncRequest}
    (hlog : ts.Logged log) {input : SyncInput} (hanswerable : m.Answerable log input) :
    SyncMachine.Matched log ts input (m.coreStep ts input) := by
  intro hversion
  cases input with
  | tick now t0 sent =>
    unfold coreStep at hversion
    dsimp only at hversion
    split_ifs at hversion
    · exact absurd rfl hversion
    · exact absurd rfl hversion
  | payload now now' pl =>
    rcases m.payload_cases ts now now' pl with ⟨-, hstep⟩ | ⟨resp, item, hresp, hlookup, hstep⟩ <;>
      rw [hstep] at hversion ⊢
    · exact absurd rfl hversion
    · obtain ⟨hempty, hsent⟩ := hanswerable now now' pl resp rfl hresp
      obtain ⟨hseq, ⟨r, hr, hitem⟩ | ⟨hzero, hseq0, hnone⟩⟩ := hlog.lookup hlookup
      · subst hitem
        obtain ⟨hrtt, hoffset⟩ := TimeSync.onResp_version hversion
        refine ⟨now, now', pl, resp, r.item, rfl, hresp, ?_, hseq, ?_, hrtt, hoffset⟩
        · have hmem := mem_rtake_filter hr (hsent r hr hseq)
          rw [List.rtake, List.length_map, ← List.map_drop]
          exact List.mem_map_of_mem hmem
        · intro r' hr' hseq'
          rw [hlog.unique hr hr' (hseq'.trans hseq.symm)]
      · exact absurd hnone (hempty hzero hseq0)

/-- Responses are matched to real requests. In every run of either side whose RESPs are answerable, each new
    mapping version comes from a RESP to one of the last 32 requests sent and uses that request's
    instant. -/
theorem mapping_version_matched (m : SyncMachine) (hm : m = hostSync ∨ m = deviceSync) (periodMs : UInt32)
    (initiator : Bool) (maxRttUs : UInt32) (inputs : List SyncInput)
    (hanswerable : ∀ pre post input, inputs = pre ++ input :: post →
      m.Answerable (m.requests (m.init periodMs initiator maxRttUs) pre) input) :
    ∀ pre post input, inputs = pre ++ input :: post →
      SyncMachine.Matched (m.requests (m.init periodMs initiator maxRttUs) pre)
        (m.sync (m.run (m.init periodMs initiator maxRttUs) pre)) input
        (m.sync (m.run (m.init periodMs initiator maxRttUs) (pre ++ [input]))) := by
  have hlawful : m.Lawful := by
    rcases hm with rfl | rfl
    · exact hostSync_lawful
    · exact deviceSync_lawful
  intro pre post input hsplit
  rw [m.run_append_singleton, hlawful.sync_step]
  exact SyncMachine.matched_coreStep (hlawful.run_logged periodMs initiator maxRttUs pre)
    (hanswerable pre post input hsplit)

/-- The device takes a RESP with the number 0 before it has sent any request. -/
def unsolicitedResp : SyncInput := .payload 5000 5000 (tsResp 0 7000000 7000000)

theorem unsolicited_resp_accepted : ¬ (hostSync.AlwaysMatched ∧ deviceSync.AlwaysMatched) := by
  rintro ⟨-, h⟩
  have hversion : (deviceSync.sync (deviceSync.run (deviceSync.init 1000 true 0) [unsolicitedResp])).mappingVersion ≠
      (deviceSync.sync (deviceSync.run (deviceSync.init 1000 true 0) [])).mappingVersion := by
    decide +kernel
  obtain ⟨now, now', pl, resp, item, -, -, hitem, -⟩ := h 1000 true 0 [unsolicitedResp] [] [] _ rfl hversion
  cases hitem

/-- A host run with one request that is sent and answered. -/
theorem answered_request_matched : ∃ inputs, inputs = [.tick 2000000 2000000 true,
      .payload 2000400 2000400 (tsResp 0 9000000 9000100)] ∧
    SyncMachine.Matched (hostSync.requests (hostSync.init 1000 true 0) [.tick 2000000 2000000 true])
      (hostSync.sync (hostSync.run (hostSync.init 1000 true 0) [.tick 2000000 2000000 true]))
      (.payload 2000400 2000400 (tsResp 0 9000000 9000100))
      (hostSync.sync (hostSync.run (hostSync.init 1000 true 0) inputs)) := by
  refine ⟨_, rfl, mapping_version_matched hostSync (.inl rfl) 1000 true 0 _ ?_ [_] [] _ rfl⟩
  intro pre post input hsplit now now' pl resp hinput hresp
  refine ⟨fun hzero => absurd hzero (by decide), fun r hr _ => ?_⟩
  rcases pre with - | ⟨first, pre⟩
  · cases hr
  · obtain ⟨rfl, hrest⟩ := List.cons.inj hsplit
    rcases pre with - | ⟨second, pre⟩
    · have hsent : ∀ r ∈ (hostSync.requests (hostSync.init 1000 true 0)
          [.tick 2000000 2000000 true]).rtake 32, r.sent = true := by
        decide +kernel
      exact hsent r hr
    · have hlen := congrArg List.length hrest
      simp at hlen

end SpVision
