import SpVision.Uproto.Endpoint

set_option autoImplicit false

/-!
# The log tells the truth about the slots

In every reachable state each slot is as the log says, and each entry of the log
was allowed by the entries before it.
-/
namespace SpVision

variable {env : Env} {app : Set UInt8}

/-- The contents of a slot, given what the log says about it. -/
def SlotMatches (env : Env) (timeNowMs : Bool) (txn : UprotoTransaction) : Option Outstanding → Prop
  | none => txn.state = .free
  | some r => txn = r.slot env timeNowMs

structure Sound (env : Env) (s : Session) : Prop where
  legal : Legal env s.timeNowMs s.log
  slots : ∀ i, SlotMatches env s.timeNowMs (s.slots i) (outstanding s.log i)
  nextTxnId : s.nextTxnId = UInt16.ofNat (issued s.log + 1)

/-- What a legal log says about an outstanding request. -/
structure Outstanding.Valid (r : Outstanding) : Prop where
  waiting : r.txn.state = .waiting
  txnId : r.txn.txnId = UInt16.ofNat r.number
  retries_le : r.retries ≤ r.txn.maxRetries.toNat

theorem Legal.outstanding_valid {timeNowMs : Bool} {log : List UprotoObs}
    (h : Legal env timeNowMs log) {i : Fin uprotoMaxTransactions} {r : Outstanding}
    (hr : outstanding log i = some r) : r.Valid := by
  induction log generalizing r with
  | nil => cases hr
  | cons o log ih =>
    obtain ⟨ho, hlog⟩ := h
    cases o with
    | request slot txn sentAt readAt =>
      rw [outstanding_request] at hr
      split_ifs at hr
      · cases hr
        obtain ⟨-, hwaiting, hid, -⟩ := ho
        exact ⟨hwaiting, hid, Nat.zero_le _⟩
      · exact ih hlog hr
    | retransmit slot readAt sentAt =>
      obtain ⟨r₀, hr₀, hlt, -⟩ := ho
      rw [outstanding_retransmit] at hr
      split_ifs at hr with hslot
      · subst hslot
        rw [hr₀] at hr
        cases hr
        have hvalid := ih hlog hr₀
        exact ⟨hvalid.waiting, hvalid.txnId, hlt⟩
      · exact ih hlog hr
    | release slot =>
      rw [outstanding_release] at hr
      split_ifs at hr
      exact ih hlog hr
    | _ => exact ih hlog hr

theorem SlotMatches.eq_slot {timeNowMs : Bool} {txn : UprotoTransaction} {o : Option Outstanding}
    (h : SlotMatches env timeNowMs txn o) (hstate : txn.state ≠ .free) :
    ∃ r, o = some r ∧ txn = r.slot env timeNowMs := by
  cases o with
  | none => exact absurd h hstate
  | some r => exact ⟨r, rfl, h⟩

theorem SlotMatches.eq_none {timeNowMs : Bool} {txn : UprotoTransaction} {o : Option Outstanding}
    (h : SlotMatches env timeNowMs txn o) (hvalid : ∀ r, o = some r → r.Valid)
    (hstate : txn.state = .free) : o = none := by
  cases o with
  | none => rfl
  | some r =>
    have hwaiting := (hvalid r rfl).waiting
    rw [show txn = r.slot env timeNowMs from h] at hstate
    exact absurd (hwaiting.symm.trans hstate) (by decide)

theorem Outstanding.Valid.retryCount_toNat {r : Outstanding} (h : r.Valid) (timeNowMs : Bool) :
    (r.slot env timeNowMs).retryCount.toNat = r.retries := by
  have hle := h.retries_le
  have hlt := r.txn.maxRetries.toNat_lt
  change (UInt8.ofNat r.retries).toNat = r.retries
  rw [UInt8.toNat_ofNat']
  omega

namespace Sound

variable {s : Session}

theorem valid (h : Sound env s) {i : Fin uprotoMaxTransactions} {r : Outstanding}
    (hr : outstanding s.log i = some r) : r.Valid := h.legal.outstanding_valid hr

theorem outstanding_of_free (h : Sound env s) {i : Fin uprotoMaxTransactions}
    (hstate : (s.slots i).state = .free) : outstanding s.log i = none :=
  (h.slots i).eq_none (fun _ => h.valid) hstate

theorem slot_eq (h : Sound env s) {i : Fin uprotoMaxTransactions}
    (hstate : (s.slots i).state ≠ .free) :
    ∃ r, outstanding s.log i = some r ∧ s.slots i = r.slot env s.timeNowMs :=
  (h.slots i).eq_slot hstate

theorem waiting_iff (h : Sound env s) (i : Fin uprotoMaxTransactions) :
    (s.slots i).state = .waiting ↔ ∃ r, outstanding s.log i = some r := by
  constructor
  · intro hstate
    obtain ⟨r, hr, -⟩ := h.slot_eq (i := i) (by rw [hstate]; decide)
    exact ⟨r, hr⟩
  · rintro ⟨r, hr⟩
    have hmatch := h.slots i
    rw [hr] at hmatch
    rw [show s.slots i = r.slot env s.timeNowMs from hmatch]
    exact (h.valid hr).waiting

theorem observe (h : Sound env s) {o : UprotoObs} (hlegal : Allowed env s.timeNowMs s.log o)
    (hsame : outstanding (o :: s.log) = outstanding s.log) (hissued : issued (o :: s.log) = issued s.log)
    (state : UprotoState) (crcErrors : UInt32) (asked : ℕ) :
    Sound env { s with state := state, crcErrors := crcErrors, asked := asked, log := o :: s.log } where
  legal := ⟨hlegal, h.legal⟩
  slots i := by
    rw [hsame]
    exact h.slots i
  nextTxnId := by
    rw [hissued]
    exact h.nextTxnId

theorem callStep (h : Sound env s) {s' : Session} (hstep : CallStep env app s s') : Sound env s' := by
  cases hstep with
  | ask => exact ⟨h.legal, h.slots, h.nextTxnId⟩
  | send data sent => exact h.observe (o := .write s.asked data sent) trivial rfl rfl _ _ _
  | startHandshake => exact ⟨h.legal, h.slots, h.nextTxnId⟩
  | issue =>
    refine ⟨⟨trivial, h.legal⟩, h.slots, ?_⟩
    change s.nextTxnId + 1 = UInt16.ofNat (issued s.log + 1 + 1)
    rw [h.nextTxnId, UInt16.ofNat_add (issued s.log + 1)]
    rfl
  | prepare slot txn hslot htxn =>
    refine ⟨h.legal, fun i => ?_, h.nextTxnId⟩
    by_cases hi : i = slot
    · subst hi
      dsimp only
      rw [h.outstanding_of_free hslot, Function.update_self]
      exact htxn
    · dsimp only
      rw [Function.update_of_ne hi]
      exact h.slots i
  | accept slot txn sentAt readAt hslot htxn hretry hid htype hsent hstamp =>
    have hnone := h.outstanding_of_free hslot
    have hid' : txn.txnId = UInt16.ofNat (issued s.log) := by
      rw [hid, h.nextTxnId, UInt16.ofNat_add]
      simp
    refine ⟨⟨⟨hnone, htxn, hid', hsent⟩, h.legal⟩, fun i => ?_, h.nextTxnId⟩
    dsimp only
    rw [outstanding_request]
    by_cases hi : i = slot
    · subst hi
      rw [if_pos rfl, Function.update_self]
      change txn = { txn with retryCount := 0, lastTxTime := stamp env s.timeNowMs readAt }
      rw [← hretry, ← hstamp]
    · rw [if_neg hi, Function.update_of_ne hi]
      exact h.slots i

theorem timedOut (h : Sound env s) {slot : Fin uprotoMaxTransactions} {readAt : ℕ}
    (ht : TimedOut env s slot readAt) :
    ∃ r, outstanding s.log slot = some r ∧ s.slots slot = r.slot env s.timeNowMs ∧
      r.txn.timeoutMs ≤ stamp env s.timeNowMs readAt - stamp env s.timeNowMs r.readAt := by
  obtain ⟨r, hr, hslot⟩ := h.slot_eq (i := slot) (by rw [ht.waiting]; decide)
  have helapsed := ht.elapsed
  rw [hslot] at helapsed
  exact ⟨r, hr, hslot, helapsed⟩

theorem retries_lt (h : Sound env s) {slot : Fin uprotoMaxTransactions} {r : Outstanding}
    (hr : outstanding s.log slot = some r) (hslot : s.slots slot = r.slot env s.timeNowMs) :
    (s.slots slot).retryCount < (s.slots slot).maxRetries ↔ r.retries < r.txn.maxRetries.toNat := by
  rw [UInt8.lt_iff_toNat_lt, hslot, (h.valid hr).retryCount_toNat]
  rfl

theorem step (h : Sound env s) {s' : Session} (hstep : SessionStep env app s s') : Sound env s' := by
  cases hstep with
  | call hcall => exact h.callStep hcall
  | event event => exact h.observe (o := .event event) trivial rfl rfl _ _ _
  | handler entry txnId payload => exact h.observe (o := .handler entry txnId payload) trivial rfl rfl _ _ _
  | hello data sent => exact h.observe (o := .write s.asked data sent) trivial rfl rfl _ _ _
  | establish => exact ⟨h.legal, h.slots, h.nextTxnId⟩
  | lapse => exact ⟨h.legal, h.slots, h.nextTxnId⟩
  | crcError => exact ⟨h.legal, h.slots, h.nextTxnId⟩
  | handle frame => exact h.observe (o := .handle frame) trivial rfl rfl _ _ _
  | handled => exact h.observe (o := .handled) trivial rfl rfl _ _ _
  | retransmit slot readAt sent ht hretry =>
    obtain ⟨r, hr, hslot, helapsed⟩ := h.timedOut ht
    have hlt := (h.retries_lt hr hslot).mp hretry
    refine ⟨⟨trivial, ⟨r, hr, hlt, ht.readAt_le, helapsed⟩, h.legal⟩, fun i => ?_, h.nextTxnId⟩
    change SlotMatches env s.timeNowMs _ (outstanding (.retransmit slot readAt s.asked :: s.log) i)
    dsimp only
    rw [outstanding_retransmit]
    by_cases hi : i = slot
    · subst hi
      rw [if_pos rfl, Function.update_self, hr, hslot]
      change _ = Outstanding.slot env s.timeNowMs _
      simp only [Outstanding.slot, UInt8.ofNat_add]
      rfl
    · rw [if_neg hi, Function.update_of_ne hi]
      exact h.slots i
  | expire slot readAt ht hretry =>
    obtain ⟨r, hr, hslot, helapsed⟩ := h.timedOut ht
    have hle := (h.valid hr).retries_le
    have hge := Nat.le_of_not_lt (mt (h.retries_lt hr hslot).mpr hretry)
    exact h.observe (o := .expire slot readAt s.asked)
      ⟨r, hr, Nat.le_antisymm hle hge, ht.readAt_le, helapsed⟩ rfl rfl _ _ _
  | complete slot err rsp hslot hnone hcause =>
    obtain ⟨r, hr, heq⟩ := h.slot_eq hslot
    refine h.observe (o := .complete slot (s.slots slot) err rsp) ⟨r, hr, hnone, heq, ?_⟩ rfl rfl _ _ _
    rcases hcause with ⟨herr, f, hf, hid, hrsp⟩ | ⟨herr, hrsp, hretry⟩
    · refine .inl ⟨herr, f, hf, ?_, hrsp⟩
      rw [hid, heq]
      rfl
    · have hle := (h.valid hr).retries_le
      have hge := Nat.le_of_not_lt (mt (h.retries_lt hr heq).mpr hretry)
      exact .inr ⟨herr, hrsp, Nat.le_antisymm hle hge⟩
  | invoke slot txn cb err rsp hlog hcb =>
    exact h.observe (o := .invoke slot cb txn.user err rsp) ⟨txn, _, hlog, hcb, rfl⟩ rfl rfl _ _ _
  | release slot hslot hdue =>
    refine ⟨⟨⟨hslot, hdue⟩, h.legal⟩, fun i => ?_, h.nextTxnId⟩
    dsimp only
    rw [outstanding_release]
    by_cases hi : i = slot
    · subst hi
      rw [if_pos rfl, Function.update_self]
      rfl
    · rw [if_neg hi, Function.update_of_ne hi]
      exact h.slots i

theorem runs (h : Sound env s) {s' : Session} (hruns : Runs env app s s') : Sound env s' :=
  hruns.invariant (P := Sound env) (fun _ _ hstep hs => hs.step hstep) h

end Sound

theorem Endpoint.init_sound (env : Env) (portWrite timeNowMs : Bool) (config : Option UprotoConfig) :
    Sound env (init portWrite timeNowMs config).link.session where
  legal := trivial
  slots _ := rfl
  nextTxnId := rfl

theorem Endpoint.run_sound (env : Env) (portWrite timeNowMs : Bool) (config : Option UprotoConfig)
    (inputs : List UprotoInput) :
    Sound env ((init portWrite timeNowMs config).run env inputs).link.session ∧
      completing ((init portWrite timeNowMs config).run env inputs).link.log = none := by
  have hreached := (init_reached env Set.univ portWrite timeNowMs config).run env.uses_univ
    fun i (_ : i ∈ inputs) => i.uses_univ
  exact ⟨(init_sound env portWrite timeNowMs config).runs hreached.runs, hreached.resting⟩

theorem Endpoint.run_legal (env : Env) (portWrite timeNowMs : Bool) (config : Option UprotoConfig)
    (inputs : List UprotoInput) :
    Legal env timeNowMs ((init portWrite timeNowMs config).run env inputs).link.log := by
  have hreached := (init_reached env Set.univ portWrite timeNowMs config).run env.uses_univ
    fun i (_ : i ∈ inputs) => i.uses_univ
  obtain ⟨hsound, -⟩ := run_sound env portWrite timeNowMs config inputs
  have hlegal := hsound.legal
  rwa [hreached.runs.timeNowMs, Link.session_log] at hlegal

end SpVision
