import Mathlib.Data.List.DropRight
import SpVision.Uproto.Transactions

set_option autoImplicit false

/-!
# Every accepted request is completed at most once

A slot serves one request after the other. The life of a request is the part of the
log from its `request` entry up to the next `request` entry of the same slot.
-/
namespace SpVision

variable {env : Env} {timeNowMs : Bool}

def UprotoObs.requests (slot : Fin uprotoMaxTransactions) : UprotoObs → Bool
  | .request i _ _ _ => i = slot
  | _ => false

def UprotoObs.invokes (slot : Fin uprotoMaxTransactions) : UprotoObs → Bool
  | .invoke i _ _ _ _ => i = slot
  | _ => false

def UprotoObs.releases (slot : Fin uprotoMaxTransactions) : UprotoObs → Bool
  | .release i => i = slot
  | _ => false

def UprotoObs.retransmits (slot : Fin uprotoMaxTransactions) : UprotoObs → Bool
  | .retransmit i _ _ => i = slot
  | _ => false

/-- Of what happened after a request, the part up to the next request of the slot. -/
def lifetime (slot : Fin uprotoMaxTransactions) (after : List UprotoObs) : List UprotoObs :=
  after.rtakeWhile fun o => ! o.requests slot

/-- How often the slot's callback was called. -/
def invocations (slot : Fin uprotoMaxTransactions) (log : List UprotoObs) : ℕ :=
  log.countP (UprotoObs.invokes slot)

def releases (slot : Fin uprotoMaxTransactions) (log : List UprotoObs) : ℕ :=
  log.countP (UprotoObs.releases slot)

def retransmissions (slot : Fin uprotoMaxTransactions) (log : List UprotoObs) : ℕ :=
  log.countP (UprotoObs.retransmits slot)

theorem lifetime_suffix (slot : Fin uprotoMaxTransactions) (after : List UprotoObs) :
    lifetime slot after <:+ after := List.rtakeWhile_suffix _ _

theorem not_requests_of_mem_lifetime {slot : Fin uprotoMaxTransactions} {after : List UprotoObs}
    {o : UprotoObs} (h : o ∈ lifetime slot after) : o.requests slot = false := by
  have ho := List.mem_rtakeWhile_imp h
  simpa using ho

/-- The life of a request lasts to the end of the log, or to the next request of the slot. -/
theorem lifetime_eq_or (slot : Fin uprotoMaxTransactions) (after : List UprotoObs) :
    lifetime slot after = after ∨
      ∃ later o, after = later ++ o :: lifetime slot after ∧ o.requests slot = true := by
  induction after using List.reverseRecOn with
  | nil => exact .inl rfl
  | append_singleton after o ih =>
    by_cases ho : o.requests slot
    · have hlife : lifetime slot (after ++ [o]) = [] := by
        rw [lifetime, List.rtakeWhile_concat_neg]
        simp [ho]
      right
      rw [hlife]
      exact ⟨after, o, rfl, ho⟩
    · have hlife : lifetime slot (after ++ [o]) = lifetime slot after ++ [o] := by
        rw [lifetime, List.rtakeWhile_concat_pos, ← lifetime]
        simp [ho]
      rw [hlife]
      rcases ih with ih | ⟨later, o', ih, ho'⟩
      · exact .inl (congrArg (· ++ [o]) ih)
      · refine .inr ⟨later, o', ?_, ho'⟩
        rw [← List.cons_append, ← List.append_assoc, ← ih]

/-- Where a request stands, given what happened to its slot since: it is waiting, its completion
    has begun, or it is done. -/
inductive RequestStatus (slot : Fin uprotoMaxTransactions) (txn : UprotoTransaction)
    (life log : List UprotoObs) : Prop
  | waiting (hreleased : releases slot life = 0) (hinvoked : invocations slot life = 0)
      (hcompleting : completing log ≠ some slot)
      (hout : ∃ r, outstanding log slot = some r ∧ r.txn = txn ∧ r.retries = retransmissions slot life)
  | completing (hreleased : releases slot life = 0)
      (hinvoked : invocations slot life + (due log).toNat = txn.callback.isSome.toNat)
      (hcompleting : completing log = some slot)
      (hout : ∃ r, outstanding log slot = some r ∧ r.txn = txn ∧ r.retries = retransmissions slot life)
  | done (hreleased : releases slot life = 1) (hinvoked : invocations slot life = txn.callback.isSome.toNat)
      (hcompleting : SpVision.completing log ≠ some slot) (hout : outstanding log slot = none)

theorem RequestStatus.of_same {slot : Fin uprotoMaxTransactions} {txn : UprotoTransaction}
    {life log : List UprotoObs} (h : RequestStatus slot txn life log) {o : UprotoObs}
    (hrelease : o.releases slot = false) (hinvoke : o.invokes slot = false) (hretry : o.retransmits slot = false)
    (hout : outstanding (o :: log) slot = outstanding log slot)
    (hcompleting : SpVision.completing (o :: log) = some slot ↔ SpVision.completing log = some slot)
    (hdue : SpVision.completing log = some slot → due (o :: log) = due log) :
    RequestStatus slot txn (o :: life) (o :: log) := by
  have hreleases : releases slot (o :: life) = releases slot life := List.countP_cons_of_neg (by simp [hrelease])
  have hinvokes : invocations slot (o :: life) = invocations slot life :=
    List.countP_cons_of_neg (by simp [hinvoke])
  have hretries : retransmissions slot (o :: life) = retransmissions slot life :=
    List.countP_cons_of_neg (by simp [hretry])
  cases h with
  | waiting h₀ h₁ h₂ h₃ =>
    exact .waiting (hreleases.trans h₀) (hinvokes.trans h₁) (mt hcompleting.mp h₂) (by rwa [hout, hretries])
  | completing h₀ h₁ h₂ h₃ =>
    exact .completing (hreleases.trans h₀) (by rw [hinvokes, hdue h₂, h₁]) (hcompleting.mpr h₂)
      (by rwa [hout, hretries])
  | done h₀ h₁ h₂ h₃ =>
    exact .done (hreleases.trans h₀) (hinvokes.trans h₁) (mt hcompleting.mp h₂) (hout.trans h₃)

section OwnSlot

variable {slot : Fin uprotoMaxTransactions} {txn : UprotoTransaction} {life log : List UprotoObs}

theorem RequestStatus.retransmit (h : RequestStatus slot txn life log) {readAt sentAt : ℕ}
    (ho : Allowed env timeNowMs log (.retransmit slot readAt sentAt)) (readAt' sentAt' : ℕ) :
    RequestStatus slot txn (.retransmit slot readAt' sentAt' :: life)
      (.retransmit slot readAt' sentAt' :: log) := by
  have hretries : retransmissions slot (.retransmit slot readAt' sentAt' :: life) =
      retransmissions slot life + 1 := List.countP_cons_of_pos (by simp [UprotoObs.retransmits])
  have hstep (hout : ∃ r, outstanding log slot = some r ∧ r.txn = txn ∧
      r.retries = retransmissions slot life) :
      ∃ r, outstanding (.retransmit slot readAt' sentAt' :: log) slot = some r ∧ r.txn = txn ∧
        r.retries = retransmissions slot (.retransmit slot readAt' sentAt' :: life) := by
    obtain ⟨r, hr, htxn, hcount⟩ := hout
    rw [outstanding_retransmit, if_pos rfl, hr]
    exact ⟨_, rfl, htxn, by rw [hretries, ← hcount]⟩
  cases h with
  | waiting h₀ h₁ h₂ h₃ => exact .waiting h₀ h₁ h₂ (hstep h₃)
  | completing h₀ h₁ h₂ h₃ => exact .completing h₀ h₁ h₂ (hstep h₃)
  | done h₀ h₁ h₂ h₃ =>
    obtain ⟨r, hr, -⟩ := ho
    rw [h₃] at hr
    cases hr

theorem RequestStatus.complete (h : RequestStatus slot txn life log) {txn' : UprotoTransaction}
    {err : UprotoError} {rsp : Option (List UInt8)}
    (ho : Allowed env timeNowMs log (.complete slot txn' err rsp)) :
    RequestStatus slot txn (.complete slot txn' err rsp :: life) (.complete slot txn' err rsp :: log) := by
  obtain ⟨r, hr, hnone, htxn', -⟩ := ho
  cases h with
  | waiting h₀ h₁ h₂ h₃ =>
    refine .completing h₀ ?_ rfl h₃
    obtain ⟨r', hr', rfl, -⟩ := h₃
    obtain rfl := Option.some.inj (hr.symm.trans hr')
    change invocations slot life + txn'.callback.isSome.toNat = r.txn.callback.isSome.toNat
    rw [h₁, htxn', Nat.zero_add]
    rfl
  | completing h₀ h₁ h₂ h₃ =>
    rw [hnone] at h₂
    cases h₂
  | done h₀ h₁ h₂ h₃ =>
    rw [h₃] at hr
    cases hr

theorem RequestStatus.invoke (h : RequestStatus slot txn life log) {cb user : ℕ} {err : UprotoError}
    {rsp : Option (List UInt8)} (ho : Allowed env timeNowMs log (.invoke slot cb user err rsp)) :
    RequestStatus slot txn (.invoke slot cb user err rsp :: life) (.invoke slot cb user err rsp :: log) := by
  obtain ⟨txn', rest, hlog, hcb, -⟩ := ho
  have hcompleting : SpVision.completing log = some slot := by rw [hlog]; rfl
  have hdue : due log = true := by
    rw [hlog, due, hcb]
    rfl
  have hcount : invocations slot (.invoke slot cb user err rsp :: life) = invocations slot life + 1 :=
    List.countP_cons_of_pos (by simp [UprotoObs.invokes])
  cases h with
  | waiting h₀ h₁ h₂ h₃ => exact absurd hcompleting h₂
  | completing h₀ h₁ h₂ h₃ =>
    refine .completing h₀ ?_ h₂ h₃
    rw [hdue] at h₁
    rw [hcount]
    exact h₁
  | done h₀ h₁ h₂ h₃ => exact absurd hcompleting h₂

theorem RequestStatus.release (h : RequestStatus slot txn life log)
    (ho : Allowed env timeNowMs log (.release slot)) :
    RequestStatus slot txn (.release slot :: life) (.release slot :: log) := by
  obtain ⟨hcompleting, hdue⟩ := ho
  have hcount : releases slot (.release slot :: life) = releases slot life + 1 :=
    List.countP_cons_of_pos (by simp [UprotoObs.releases])
  cases h with
  | waiting h₀ h₁ h₂ h₃ => exact absurd hcompleting h₂
  | completing h₀ h₁ h₂ h₃ =>
    rw [hdue] at h₁
    exact .done (by rw [hcount, h₀]) h₁ nofun (by rw [outstanding_release, if_pos rfl])
  | done h₀ h₁ h₂ h₃ => exact absurd hcompleting h₂

end OwnSlot

theorem Legal.completing_outstanding {log : List UprotoObs} (h : Legal env timeNowMs log)
    {slot : Fin uprotoMaxTransactions} (hslot : completing log = some slot) :
    outstanding log slot ≠ none := by
  induction log with
  | nil => cases hslot
  | cons o log ih =>
    obtain ⟨ho, hlog⟩ := h
    cases o with
    | request i txn sentAt readAt =>
      rw [outstanding_request]
      split_ifs
      · exact nofun
      · exact ih hlog hslot
    | retransmit i readAt sentAt =>
      rw [outstanding_retransmit]
      split_ifs
      · rw [Ne, Option.map_eq_none_iff]
        exact ih hlog hslot
      · exact ih hlog hslot
    | complete i txn err rsp =>
      obtain ⟨r, hr, -⟩ := ho
      cases hslot
      change outstanding log slot ≠ none
      rw [hr]
      exact nofun
    | release i => cases hslot
    | _ => exact ih hlog hslot

theorem Legal.status {slot : Fin uprotoMaxTransactions} {txn : UprotoTransaction} {sentAt readAt : ℕ}
    {life before : List UprotoObs}
    (h : Legal env timeNowMs (life ++ .request slot txn sentAt readAt :: before))
    (hlife : ∀ o ∈ life, o.requests slot = false) :
    RequestStatus slot txn life (life ++ .request slot txn sentAt readAt :: before) := by
  induction life with
  | nil =>
    obtain ⟨⟨hnone, -⟩, hbefore⟩ := h
    refine .waiting rfl rfl ?_ ⟨_, by rw [List.nil_append, outstanding_request, if_pos rfl], rfl, rfl⟩
    exact fun hslot => hbefore.completing_outstanding hslot hnone
  | cons o life ih =>
    rw [List.cons_append] at h ⊢
    obtain ⟨ho, hrest⟩ := h
    have hstatus := ih hrest fun o' ho' => hlife o' (List.mem_cons_of_mem _ ho')
    have hreq := hlife o List.mem_cons_self
    generalize life ++ .request slot txn sentAt readAt :: before = log at ho hrest hstatus ⊢
    cases o with
    | request i txn' sentAt' readAt' =>
      have hi : slot ≠ i := by
        intro hi
        simp [UprotoObs.requests, hi] at hreq
      exact hstatus.of_same rfl rfl rfl (by rw [outstanding_request, if_neg hi]) Iff.rfl fun _ => rfl
    | retransmit i readAt' sentAt' =>
      by_cases hi : slot = i
      · subst hi
        exact hstatus.retransmit ho readAt' sentAt'
      · exact hstatus.of_same rfl rfl (by simpa [UprotoObs.retransmits] using Ne.symm hi)
          (by rw [outstanding_retransmit, if_neg hi]) Iff.rfl fun _ => rfl
    | complete i txn' err rsp =>
      by_cases hi : slot = i
      · subst hi
        exact hstatus.complete ho
      · obtain ⟨-, -, hnone, -⟩ := ho
        refine hstatus.of_same rfl rfl rfl rfl ?_ fun hslot => ?_
        · simp [completing, hnone, Ne.symm hi]
        · rw [hnone] at hslot
          cases hslot
    | invoke i cb user err rsp =>
      by_cases hi : slot = i
      · subst hi
        exact hstatus.invoke ho
      · obtain ⟨txn', rest, rfl, -⟩ := ho
        refine hstatus.of_same rfl (by simpa [UprotoObs.invokes] using Ne.symm hi) rfl rfl Iff.rfl fun hslot => ?_
        exact absurd (Option.some.inj hslot).symm hi
    | release i =>
      by_cases hi : slot = i
      · subst hi
        exact hstatus.release ho
      · have hsome : completing log = some i := ho.1
        refine hstatus.of_same (by simpa [UprotoObs.releases] using Ne.symm hi) rfl rfl
          (by rw [outstanding_release, if_neg hi]) ?_ fun hslot => ?_
        · simp [completing, hsome, Ne.symm hi]
        · exact absurd (Option.some.inj (hsome.symm.trans hslot)).symm hi
    | _ => exact hstatus.of_same rfl rfl rfl rfl Iff.rfl fun _ => rfl

theorem Legal.lifetime_status {slot : Fin uprotoMaxTransactions} {txn : UprotoTransaction}
    {sentAt readAt : ℕ} {after before later earlier : List UprotoObs}
    (h : Legal env timeNowMs (after ++ .request slot txn sentAt readAt :: before))
    (hlife : lifetime slot after = later ++ earlier) :
    Legal env timeNowMs (earlier ++ .request slot txn sentAt readAt :: before) ∧
      RequestStatus slot txn earlier (earlier ++ .request slot txn sentAt readAt :: before) := by
  obtain ⟨rest, hrest⟩ := lifetime_suffix slot after
  have hearlier : Legal env timeNowMs (earlier ++ .request slot txn sentAt readAt :: before) := by
    rw [← hrest, hlife, List.append_assoc, List.append_assoc] at h
    exact h.of_append.of_append
  refine ⟨hearlier, hearlier.status fun o ho => @not_requests_of_mem_lifetime _ after o ?_⟩
  rw [hlife]
  exact List.mem_append_right _ ho

theorem RequestStatus.outstanding {slot : Fin uprotoMaxTransactions} {txn : UprotoTransaction}
    {life log : List UprotoObs} (h : RequestStatus slot txn life log) {r : Outstanding}
    (hr : outstanding log slot = some r) : r.txn = txn ∧ r.retries = retransmissions slot life := by
  cases h with
  | waiting _ _ _ hout | completing _ _ _ hout =>
    obtain ⟨r', hr', htxn⟩ := hout
    rw [hr] at hr'
    cases hr'
    exact htxn
  | done _ _ _ hout =>
    rw [hr] at hout
    cases hout

theorem Allowed.of_requests {slot : Fin uprotoMaxTransactions} {log : List UprotoObs} {o : UprotoObs}
    (h : Allowed env timeNowMs log o) (ho : o.requests slot) : outstanding log slot = none := by
  cases o with
  | request i txn sentAt readAt =>
    have hi : i = slot := by simpa [UprotoObs.requests] using ho
    exact hi ▸ h.1
  | _ => cases ho

/-- What becomes of the request `txn` in `slot`, when `before` was logged before it and `life`
    during its life, and `after` is all that was logged after it. `now` is the slot at the end. -/
structure CompletedOnce (slot : Fin uprotoMaxTransactions) (txn now : UprotoTransaction)
    (life after : List UprotoObs) (before : List UprotoObs) : Prop where
  once : invocations slot life ≤ 1
  together : invocations slot life = if txn.callback.isSome then releases slot life else 0
  waiting : releases slot life = 0 ↔ life = after ∧ now.state = .waiting
  released : ∀ later earlier, life = later ++ .release slot :: earlier →
    invocations slot earlier = if txn.callback.isSome then 1 else 0
  callback : ∀ later cb user err rsp earlier, life = later ++ .invoke slot cb user err rsp :: earlier →
    txn.callback = some cb ∧ user = txn.user ∧
      (err = .ok ∧ (∃ f, handling (earlier ++ before) = some f ∧ f.txnId = txn.txnId ∧ rsp = f.response) ∨
        err = .timeout ∧ rsp = none ∧ retransmissions slot earlier = txn.maxRetries.toNat)

/-- A callback is called with what its request was completed with. -/
theorem Legal.invoked {slot : Fin uprotoMaxTransactions} {txn : UprotoTransaction} {cb user : ℕ}
    {err : UprotoError} {rsp : Option (List UInt8)} {life log : List UprotoObs}
    (h : Legal env timeNowMs (.invoke slot cb user err rsp :: log)) (hstatus : RequestStatus slot txn life log) :
    txn.callback = some cb ∧ user = txn.user ∧
      (err = .ok ∧ (∃ f, handling log = some f ∧ f.txnId = txn.txnId ∧ rsp = f.response) ∨
        err = .timeout ∧ rsp = none ∧ retransmissions slot life = txn.maxRetries.toNat) := by
  obtain ⟨⟨txn', rest, rfl, hcb, huser⟩, ⟨r, hr, -, htxn', hcause⟩, -⟩ := h
  obtain ⟨rfl, hretries⟩ := hstatus.outstanding
    (show outstanding (.complete slot txn' err rsp :: rest) slot = some r from hr)
  rw [htxn'] at hcb huser
  rw [hretries] at hcause
  exact ⟨hcb, huser.symm, hcause⟩

theorem RequestStatus.invocations_eq {slot : Fin uprotoMaxTransactions} {txn : UprotoTransaction}
    {life log : List UprotoObs} (h : RequestStatus slot txn life log) (hcompleting : SpVision.completing log ≠ some slot) :
    invocations slot life = (if txn.callback.isSome then releases slot life else 0) ∧ releases slot life ≤ 1 := by
  cases h with
  | waiting h₀ h₁ => simp [h₀, h₁]
  | completing _ _ h₂ => exact absurd h₂ hcompleting
  | done h₀ h₁ =>
    rw [h₀, h₁]
    cases txn.callback <;> exact ⟨rfl, le_rfl⟩

/-- Every request for which `uproto_send_request` returns `UPROTO_OK` has its callback called at most once,
    and its slot leaves `TXN_STATE_WAITING` only with that call. -/
theorem uprotoSendRequest_completed_once (env : Env) (portWrite timeNowMs : Bool)
    (config : Option UprotoConfig) (inputs : List UprotoInput) {slot : Fin uprotoMaxTransactions}
    {txn : UprotoTransaction} {sentAt readAt : ℕ} {after before : List UprotoObs}
    (hlog : ((Endpoint.init portWrite timeNowMs config).run env inputs).link.log =
      after ++ .request slot txn sentAt readAt :: before) :
    CompletedOnce slot txn
      (((Endpoint.init portWrite timeNowMs config).run env inputs).link.ctx.transactions slot)
      (lifetime slot after) after (.request slot txn sentAt readAt :: before) := by
  obtain ⟨hsound, hrest⟩ := Endpoint.run_sound env portWrite timeNowMs config inputs
  have hwaiting := hsound.waiting_iff slot
  generalize (Endpoint.init portWrite timeNowMs config).run env inputs = e at *
  have hlegal := hsound.legal
  rw [Link.session_log, hlog] at hlegal hwaiting
  rw [hlog] at hrest
  have hstatus {later earlier : List UprotoObs} (h : lifetime slot after = later ++ earlier) :=
    hlegal.lifetime_status h
  have hend := (hstatus (List.nil_append _).symm).2
  -- the life ends with the log, or the slot has been given to another request
  have hresting : completing (lifetime slot after ++ .request slot txn sentAt readAt :: before) ≠ some slot := by
    rcases lifetime_eq_or slot after with hlife | ⟨later, o, hafter, ho⟩
    · rw [hlife, hrest]
      exact nofun
    · intro hcompleting
      rw [hafter, List.append_assoc] at hlegal
      exact (hstatus (List.nil_append _).symm).1.completing_outstanding hcompleting (hlegal.of_append.1.of_requests ho)
  obtain ⟨htogether, hle⟩ := hend.invocations_eq hresting
  refine ⟨?_, htogether, ⟨fun hreleased => ?_, ?_⟩, ?_, ?_⟩
  · rw [htogether]
    split_ifs
    · exact hle
    · exact Nat.zero_le _
  · obtain ⟨-, -, -, r, hr, -⟩ | ⟨-, -, hcompleting⟩ | ⟨hone⟩ := hend
    · rcases lifetime_eq_or slot after with hlife | ⟨later, o, hafter, ho⟩
      · rw [hlife] at hr
        exact ⟨hlife, hwaiting.mpr ⟨r, hr⟩⟩
      · -- a slot that waits cannot take the next request
        rw [hafter, List.append_assoc] at hlegal
        have hnone := hlegal.of_append.1.of_requests ho
        rw [List.append_eq, hr] at hnone
        cases hnone
    · exact absurd hcompleting hresting
    · omega
  · rintro ⟨hlife, hstate⟩
    obtain ⟨r, hr⟩ := hwaiting.mp hstate
    rw [← hlife] at hr
    obtain ⟨hzero⟩ | ⟨hzero⟩ | ⟨-, -, -, hout⟩ := hend
    · exact hzero
    · exact hzero
    · rw [hr] at hout
      cases hout
  · intro later earlier hlife
    obtain ⟨⟨⟨hcompleting, hdue⟩, -⟩, -⟩ := hstatus hlife
    rw [List.append_cons] at hlife
    obtain ⟨-, -, hne⟩ | ⟨-, hinvoked⟩ | ⟨-, -, hne⟩ := (hstatus hlife).2
    · exact absurd hcompleting hne
    · rw [List.append_eq] at hdue
      rw [hdue, Bool.toNat_false, Nat.add_zero] at hinvoked
      rw [hinvoked]
      cases txn.callback <;> rfl
    · exact absurd hcompleting hne
  · intro later cb user err rsp earlier hlife
    have hinvoke := (hstatus hlife).1
    rw [List.append_cons] at hlife
    exact hinvoke.invoked (hstatus hlife).2

def tickingEnv : Env := ⟨fun index => UInt32.ofNat (100 * index), fun _ data => data.length, fun _ => []⟩

def unanswered : UprotoTransaction :=
  { state := .waiting, txnId := 1, type := 0x10, retryCount := 0, maxRetries := 1, timeoutMs := 100
    startTime := 100, lastTxTime := 100, callback := some 7, user := 0
    txData := uprotoEncodeFrame uprotoFlagRequest 0x10 1 0 0 none 0 }

def unansweredInputs : List UprotoInput :=
  [.call (.sendRequest 0x10 none 0 100 1 (some 7) 0), .tick, .tick, .tick]

theorem uprotoSendRequest_completed_once_unanswered : ∃ after before,
    ((Endpoint.init true true none).run tickingEnv unansweredInputs).link.log =
      after ++ .request 0 unanswered 0 1 :: before ∧ .invoke 0 7 0 .timeout none ∈ lifetime 0 after ∧
    CompletedOnce 0 unanswered
      (((Endpoint.init true true none).run tickingEnv unansweredInputs).link.ctx.transactions 0)
      (lifetime 0 after) after (.request 0 unanswered 0 1 :: before) := by
  have hlog : ((Endpoint.init true true none).run tickingEnv unansweredInputs).link.log =
      [.release 0, .invoke 0 7 0 .timeout none, .complete 0 (Outstanding.slot tickingEnv true ⟨unanswered, 1, 1, 2, 3⟩) .timeout none,
        .expire 0 4 5, .write 3 unanswered.txData 18, .retransmit 0 2 3] ++
      .request 0 unanswered 0 1 :: [.write 0 unanswered.txData 18, .issue 1] := by
    decide +kernel
  exact ⟨_, _, hlog, by decide +kernel,
    uprotoSendRequest_completed_once tickingEnv true true none unansweredInputs hlog⟩

end SpVision
