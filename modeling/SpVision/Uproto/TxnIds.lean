import Mathlib.Data.Nat.ModEq
import SpVision.Uproto.Transactions

set_option autoImplicit false

/-!
# Transaction ids

`next_txn_id` has 16 bits and is never compared with the ids that still wait for
an answer.
-/
namespace SpVision

variable {env : Env} {timeNowMs : Bool}

/-- No request is accepted while a slot waits whose id was drawn a multiple of 65536 ids ago. -/
def FreshIds : List UprotoObs → Prop
  | [] => True
  | .request _ _ _ _ :: log =>
    (∀ j r, outstanding log j = some r → ¬ r.number ≡ issued log [MOD 65536]) ∧ FreshIds log
  | _ :: log => FreshIds log

def DistinctIds (log : List UprotoObs) : Prop :=
  ∀ i j r r', outstanding log i = some r → outstanding log j = some r' →
    r.txn.txnId = r'.txn.txnId → i = j

def UprotoContext.IdsDistinct (ctx : UprotoContext) : Prop :=
  ∀ i j, (ctx.transactions i).state = .waiting → (ctx.transactions j).state = .waiting →
    (ctx.transactions i).txnId = (ctx.transactions j).txnId → i = j

theorem ofNat_eq_iff (m n : ℕ) : UInt16.ofNat m = UInt16.ofNat n ↔ m ≡ n [MOD 65536] := by
  rw [← UInt16.toNat_inj, UInt16.toNat_ofNat', UInt16.toNat_ofNat']
  rfl

theorem outstanding_of_cons {o : UprotoObs} {log : List UprotoObs} {i : Fin uprotoMaxTransactions}
    {r : Outstanding} (ho : ∀ slot txn sentAt readAt, o ≠ .request slot txn sentAt readAt)
    (hr : outstanding (o :: log) i = some r) : ∃ r', outstanding log i = some r' ∧ r'.txn = r.txn := by
  cases o with
  | request slot txn sentAt readAt => exact absurd rfl (ho slot txn sentAt readAt)
  | retransmit slot readAt sentAt =>
    rw [outstanding_retransmit] at hr
    split_ifs at hr
    · obtain ⟨r', hr', rfl⟩ := Option.map_eq_some_iff.mp hr
      exact ⟨r', hr', rfl⟩
    · exact ⟨r, hr, rfl⟩
  | release slot =>
    rw [outstanding_release] at hr
    split_ifs at hr
    exact ⟨r, hr, rfl⟩
  | _ => exact ⟨r, hr, rfl⟩

theorem DistinctIds.cons {o : UprotoObs} {log : List UprotoObs} (h : DistinctIds log)
    (ho : ∀ slot txn sentAt readAt, o ≠ .request slot txn sentAt readAt) : DistinctIds (o :: log) := by
  intro i j r r' hr hr' hid
  obtain ⟨r₀, hr₀, htxn⟩ := outstanding_of_cons ho hr
  obtain ⟨r₀', hr₀', htxn'⟩ := outstanding_of_cons ho hr'
  exact h i j r₀ r₀' hr₀ hr₀' (by rw [htxn, htxn', hid])

/-- A request keeps the ids distinct exactly when its own is fresh. -/
theorem Legal.distinctIds_request {slot : Fin uprotoMaxTransactions} {txn : UprotoTransaction}
    {sentAt readAt : ℕ} {log : List UprotoObs}
    (h : Legal env timeNowMs (.request slot txn sentAt readAt :: log)) (hlog : DistinctIds log) :
    DistinctIds (.request slot txn sentAt readAt :: log) ↔
      ∀ j r, outstanding log j = some r → ¬ r.number ≡ issued log [MOD 65536] := by
  obtain ⟨⟨hnone, -, hid, -⟩, hlegal⟩ := h
  have hnew : outstanding (.request slot txn sentAt readAt :: log) slot =
      some ⟨txn, issued log, 0, readAt, sentAt⟩ := by rw [outstanding_request, if_pos rfl]
  have hold {j : Fin uprotoMaxTransactions} (hj : j ≠ slot) :
      outstanding (.request slot txn sentAt readAt :: log) j = outstanding log j := by
    rw [outstanding_request, if_neg hj]
  have hclash {j : Fin uprotoMaxTransactions} {r : Outstanding} (hr : outstanding log j = some r) :
      r.txn.txnId = txn.txnId ↔ r.number ≡ issued log [MOD 65536] := by
    rw [hid, (hlegal.outstanding_valid hr).txnId, ofNat_eq_iff]
  constructor
  · intro hdistinct j r hr hmod
    have hj : j ≠ slot := by
      rintro rfl
      rw [hnone] at hr
      cases hr
    exact hj (hdistinct j slot r _ (by rw [hold hj, hr]) hnew ((hclash hr).mpr hmod))
  · intro hfresh i j r r' hr hr' heq
    by_cases hi : i = slot <;> by_cases hj : j = slot
    · rw [hi, hj]
    · rw [hi, hnew] at hr
      rw [hold hj] at hr'
      cases hr
      exact absurd ((hclash hr').mp heq.symm) (hfresh j r' hr')
    · rw [hold hi] at hr
      rw [hj, hnew] at hr'
      cases hr'
      exact absurd ((hclash hr).mp heq) (hfresh i r hr)
    · rw [hold hi] at hr
      rw [hold hj] at hr'
      exact hlog i j r r' hr hr' heq

theorem Legal.freshIds_iff {log : List UprotoObs} (h : Legal env timeNowMs log) :
    FreshIds log ↔ ∀ before, before <:+ log → DistinctIds before := by
  induction log with
  | nil =>
    apply iff_of_true trivial
    intro before hbefore i j r r' hr
    rw [List.suffix_nil.mp hbefore] at hr
    cases hr
  | cons o log ih =>
    have hih := ih h.2
    have hsplit : (∀ before, before <:+ o :: log → DistinctIds before) ↔
        DistinctIds (o :: log) ∧ ∀ before, before <:+ log → DistinctIds before := by
      simp only [List.suffix_cons_iff, or_imp, forall_and, forall_eq]
    rw [hsplit, ← hih]
    have hlog (hfresh : FreshIds log) : DistinctIds log := hih.mp hfresh log List.suffix_rfl
    cases o with
    | request slot txn sentAt readAt =>
      exact and_congr_left fun hfresh => (h.distinctIds_request (hlog hfresh)).symm
    | _ => exact ⟨fun hfresh => ⟨(hlog hfresh).cons nofun, hfresh⟩, And.right⟩

/-- The waiting slots are the ones the log says are outstanding, with the same ids. -/
theorem Sound.distinctIds_iff {l : Link} (h : Sound env l.session) :
    DistinctIds l.log ↔ l.ctx.IdsDistinct := by
  have hid {i : Fin uprotoMaxTransactions} {r : Outstanding} (hr : outstanding l.log i = some r) :
      (l.ctx.transactions i).txnId = r.txn.txnId := by
    have hmatch := h.slots i
    rw [Link.session_log, hr] at hmatch
    have hslot : l.ctx.transactions i = r.slot env l.session.timeNowMs := hmatch
    rw [hslot]
    rfl
  have hwaiting := h.waiting_iff
  constructor
  · intro hdistinct i j hi hj heq
    obtain ⟨r, hr⟩ := (hwaiting i).mp hi
    obtain ⟨r', hr'⟩ := (hwaiting j).mp hj
    rw [hid hr, hid hr'] at heq
    exact hdistinct i j r r' hr hr' heq
  · intro hdistinct i j r r' hr hr' heq
    rw [← hid hr, ← hid hr'] at heq
    exact hdistinct i j ((hwaiting i).mpr ⟨r, hr⟩) ((hwaiting j).mpr ⟨r', hr'⟩) heq

theorem Sound.findTransaction {l : Link} (h : Sound env l.session) (hids : l.ctx.IdsDistinct)
    {i : Fin uprotoMaxTransactions} (hi : (l.ctx.transactions i).state = .waiting) :
    uprotoFindTransaction l.ctx (l.ctx.transactions i).txnId = some i := by
  have hsome : (uprotoFindTransaction l.ctx (l.ctx.transactions i).txnId).isSome := by
    rw [uprotoFindTransaction, List.find?_isSome]
    refine ⟨i, List.mem_finRange i, ?_⟩
    rw [hi]
    simp
  obtain ⟨j, hj⟩ := Option.isSome_iff_exists.mp hsome
  have hfound := List.find?_some hj
  rw [decide_eq_true_iff] at hfound
  obtain ⟨r, hr, -⟩ := h.slot_eq hfound.1
  rw [hj, hids j i ((h.waiting_iff j).mpr ⟨r, hr⟩) hi hfound.2]

/-- The waiting slots have distinct ids throughout a run exactly when every accepted request
    has a fresh id. -/
theorem uprotoSendRequest_ids_distinct_iff (env : Env) (portWrite timeNowMs : Bool)
    (config : Option UprotoConfig) (inputs : List UprotoInput) :
    let l := ((Endpoint.init portWrite timeNowMs config).run env inputs).link
    (FreshIds l.log ↔ ∀ before, before <:+ l.log → DistinctIds before) ∧
      (DistinctIds l.log ↔ l.ctx.IdsDistinct) ∧
      (l.ctx.IdsDistinct → ∀ i, (l.ctx.transactions i).state = .waiting →
        uprotoFindTransaction l.ctx (l.ctx.transactions i).txnId = some i) := by
  intro l
  have hsound : Sound env l.session := (Endpoint.run_sound env portWrite timeNowMs config inputs).1
  have hlegal := hsound.legal
  rw [Link.session_log] at hlegal
  exact ⟨hlegal.freshIds_iff, hsound.distinctIds_iff, fun hids i hi => hsound.findTransaction hids hi⟩

/-! ### An id that comes round again -/

theorem uprotoEncodeFrame_ne_nil (flags type : UInt8) (txnId seq ack : UInt16)
    (payload : Option (List UInt8)) (len : ℕ) :
    (uprotoEncodeFrame flags type txnId seq ack payload len).length ≠ 0 := by
  simp [uprotoEncodeFrame]

section SendRequest

variable {l : Link} {type : UInt8} {payload : Option (List UInt8)} {len : ℕ} {slot : Fin uprotoMaxTransactions}

theorem uprotoSendRequest_full (hlen : len ≤ uprotoMaxPayload)
    (halloc : uprotoAllocTransaction l.ctx = some slot) (timeoutMs : UInt32) (retries : UInt8)
    (cb : Option ℕ) (user : ℕ) (hfull : ∀ data, data.length ≠ 0 → env.write l.step data ≠ data.length) :
    ∃ txData, (uprotoSendRequest env type payload len timeoutMs retries cb user l).2 =
      (l.offered env slot txData).setTransaction slot
        { l.ctx.transactions slot with txData := txData, state := .free } := by
  have hcases := uprotoSendRequest_cases env type payload len timeoutMs retries cb user l
  have hdata := uprotoEncodeFrame_ne_nil uprotoFlagRequest type l.ctx.nextTxnId l.ctx.localSeq 0 payload len
  generalize uprotoSendRequest env type payload len timeoutMs retries cb user l = result at hcases ⊢
  cases hcases with
  | refused err herr hrefused =>
    rw [halloc] at hrefused
    exact hrefused.elim (fun h => absurd hlen h.not_ge) nofun
  | full slot' halloc' _ =>
    cases halloc.symm.trans halloc'
    exact ⟨_, rfl⟩
  | sent slot' txn _ hsent => exact absurd hsent (hfull _ hdata)

theorem uprotoSendRequest_sent (hlen : len ≤ uprotoMaxPayload)
    (halloc : uprotoAllocTransaction l.ctx = some slot) (timeoutMs : UInt32) (retries : UInt8)
    (cb : Option ℕ) (user : ℕ) (hsent : ∀ data, env.write l.step data = data.length) :
    ∃ txn : UprotoTransaction, txn.state = .waiting ∧ txn.txnId = l.ctx.nextTxnId ∧
      (uprotoSendRequest env type payload len timeoutMs retries cb user l).2.ctx.transactions =
        Function.update l.ctx.transactions slot txn := by
  have hcases := uprotoSendRequest_cases env type payload len timeoutMs retries cb user l
  generalize uprotoEncodeFrame uprotoFlagRequest type l.ctx.nextTxnId l.ctx.localSeq 0 payload len =
    txData at hcases
  generalize uprotoSendRequest env type payload len timeoutMs retries cb user l = result at hcases ⊢
  cases hcases with
  | refused err herr hrefused =>
    rw [halloc] at hrefused
    exact hrefused.elim (fun h => absurd hlen h.not_ge) nofun
  | full slot' _ hfull => exact absurd (hsent _) hfull
  | sent slot' txn halloc' _ hstate hid _ _ _ =>
    cases halloc.symm.trans halloc'
    have hslots := congrArg UprotoContext.transactions (uprotoNow_ctx env (l.offered env slot txData))
    rw [Link.offered_transactions] at hslots
    refine ⟨txn, hstate, hid, ?_⟩
    change Function.update (uprotoNow env (l.offered env slot txData)).2.ctx.transactions slot txn = _
    rw [hslots, Function.update_idem]

end SendRequest

/-- The port accepts the first request and the one 65536 requests later, and is full between. -/
def crowdedEnv : Env :=
  ⟨fun _ => 0, fun index data => if index = 0 ∨ index = 65536 then data.length else 0, fun _ => []⟩

def crowdedCall : UprotoCall := .sendRequest 0x10 none 0 100 0 none 0

/-- The first request waits with id 1, and `n` more have failed. -/
structure Crowded (n : ℕ) (l : Link) : Prop where
  step : l.step = n + 1
  next : l.ctx.nextTxnId = UInt16.ofNat (n + 2)
  clock : l.ctx.timeNowMs = false
  waiting : (l.ctx.transactions 0).state = .waiting
  first : (l.ctx.transactions 0).txnId = 1
  free : ∀ i, i ≠ 0 → (l.ctx.transactions i).state = .free

theorem Crowded.alloc {n : ℕ} {l : Link} (h : Crowded n l) : uprotoAllocTransaction l.ctx = some 1 := by
  have hone := h.free 1 (by decide)
  have hslots : List.finRange uprotoMaxTransactions = [0, 1, 2, 3, 4, 5, 6, 7] := rfl
  rw [uprotoAllocTransaction, hslots, List.find?_cons_of_neg, List.find?_cons_of_pos]
  · rw [hone]
    rfl
  · rw [h.waiting]
    decide

theorem Crowded.full {n : ℕ} {l : Link} (h : Crowded n l) (hn : n < 65535) :
    Crowded (n + 1) (uprotoCall crowdedEnv l crowdedCall) := by
  have hfull : ∀ data, data.length ≠ 0 → crowdedEnv.write l.step data ≠ data.length := by
    intro data hdata
    have hzero : crowdedEnv.write l.step data = 0 := by
      apply if_neg
      rw [h.step]
      omega
    rw [hzero]
    exact hdata.symm
  obtain ⟨txData, hcall⟩ := @uprotoSendRequest_full crowdedEnv l 0x10 none 0 1 (by decide) h.alloc
    100 0 none 0 hfull
  rw [crowdedCall, uprotoCall, hcall]
  refine ⟨congrArg (· + 1) h.step, ?_, h.clock, h.waiting, h.first, ?_⟩
  · change l.ctx.nextTxnId + 1 = UInt16.ofNat (n + 2 + 1)
    rw [h.next, UInt16.ofNat_add (n + 2)]
    rfl
  · intro i hi
    change ((Function.update (Function.update l.ctx.transactions 1 _) 1 _) i).state = .free
    rw [Function.update_idem]
    by_cases hone : i = 1
    · rw [hone, Function.update_self]
    · rw [Function.update_of_ne hone]
      exact h.free i hi

theorem crowded_run {n : ℕ} (hn : n ≤ 65535) :
    Crowded n ((Endpoint.init true false none).run crowdedEnv
      (List.replicate (n + 1) (.call crowdedCall))).link := by
  induction n with
  | zero => exact ⟨rfl, rfl, rfl, rfl, rfl, by decide +kernel⟩
  | succ n ih =>
    have hcrowded := (ih (by omega)).full (by omega)
    rw [List.replicate_succ', Endpoint.run, List.foldl_append]
    exact hcrowded

theorem Crowded.collide {n : ℕ} {l : Link} (h : Crowded n l) (hn : n = 65535) :
    ¬ (uprotoCall crowdedEnv l crowdedCall).ctx.IdsDistinct := by
  have hsent : ∀ data, crowdedEnv.write l.step data = data.length := by
    intro data
    refine if_pos (.inr ?_)
    rw [h.step, hn]
  have hnext : l.ctx.nextTxnId = 1 := by
    rw [h.next, hn]
    rfl
  obtain ⟨txn, hstate, hid, hslots⟩ := @uprotoSendRequest_sent crowdedEnv l 0x10 none 0 1
    (by decide) h.alloc 100 0 none 0 hsent
  intro hdistinct
  have heq := hdistinct 0 1
  rw [crowdedCall, uprotoCall, hslots, Function.update_self, Function.update_of_ne (by decide)] at heq
  exact absurd (heq h.waiting hstate (by rw [h.first, hid, hnext])) (by decide)

theorem uprotoSendRequest_ids_collide : ∃ env inputs,
    ¬ ((Endpoint.init true false none).run env inputs).link.ctx.IdsDistinct := by
  obtain ⟨n, hn⟩ : ∃ n, n = 65535 := ⟨_, rfl⟩
  refine ⟨crowdedEnv, List.replicate (n + 1) (.call crowdedCall) ++ [.call crowdedCall], ?_⟩
  rw [Endpoint.run, List.foldl_append]
  exact (crowded_run hn.le).collide hn

end SpVision
