import SpVision.Uproto.SessionRuns

set_option autoImplicit false

/-!
# Starts that fail

A request that cannot be sent gives its slot back. A handshake is begun before its request is
sent and is not taken back with it.
-/
namespace SpVision

inductive UprotoStart
  | handshake
  | request (type : UInt8) (payload : Option (List UInt8)) (len : ℕ) (timeoutMs : UInt32) (retries : UInt8)
      (callback : Option ℕ) (user : ℕ)

def uprotoStart (env : Env) (l : Link) : UprotoStart → UprotoError × Link
  | .handshake => uprotoStartHandshake env l
  | .request type payload len timeoutMs retries callback user =>
    uprotoSendRequest env type payload len timeoutMs retries callback user l

namespace Link

theorem setTransaction_transactions (l : Link) (slot : Fin uprotoMaxTransactions) (txn : UprotoTransaction) :
    (l.setTransaction slot txn).ctx.transactions = Function.update l.ctx.transactions slot txn := rfl

/-- What a caller that wants to try again relies on. -/
structure Unchanged (l l' : Link) : Prop where
  state : l'.ctx.state = l.ctx.state
  waiting : ∀ slot, (l.ctx.transactions slot).state = .waiting ∨ (l'.ctx.transactions slot).state = .waiting →
    l'.ctx.transactions slot = l.ctx.transactions slot
  stats : l'.ctx.stats = l.ctx.stats
  lastTxTime : l'.ctx.lastTxTime = l.ctx.lastTxTime

theorem Unchanged.refl (l : Link) : l.Unchanged l := ⟨rfl, fun _ _ => rfl, rfl, rfl⟩

/-- The call leaves no trace if it fails. -/
def FailsCleanly (env : Env) (l : Link) (start : UprotoStart) : Prop :=
  (uprotoStart env l start).1 ≠ .ok → l.Unchanged (uprotoStart env l start).2

def hello (l : Link) : List UInt8 :=
  uprotoEncodeFrame uprotoFlagRequest uprotoMsgHello l.ctx.nextTxnId l.ctx.localSeq 0 none 0

def HelloTaken (env : Env) (l : Link) : Prop :=
  uprotoAllocTransaction l.ctx ≠ none ∧ env.write (uprotoNow env l).2.step l.hello = l.hello.length

end Link

variable (env : Env)

theorem Link.unchanged_offered (l : Link) {slot : Fin uprotoMaxTransactions}
    (halloc : uprotoAllocTransaction l.ctx = some slot) (txData : List UInt8) :
    l.Unchanged ((l.offered env slot txData).setTransaction slot
      { l.ctx.transactions slot with txData := txData, state := .free }) where
  state := rfl
  waiting i hwaiting := by
    have hfree := uprotoAllocTransaction_free halloc
    have hother : i ≠ slot := by
      rintro rfl
      rcases hwaiting with hbefore | hafter
      · exact absurd (hfree.symm.trans hbefore) nofun
      · rw [setTransaction_transactions, Function.update_self] at hafter
        exact absurd hafter nofun
    rw [setTransaction_transactions, Function.update_of_ne hother, offered_transactions, Function.update_of_ne hother]
  stats := rfl
  lastTxTime := rfl

theorem uprotoSendRequest_failed (type : UInt8) (payload : Option (List UInt8)) (len : ℕ) (timeoutMs : UInt32)
    (retries : UInt8) (callback : Option ℕ) (user : ℕ) (l : Link)
    (h : (uprotoSendRequest env type payload len timeoutMs retries callback user l).1 ≠ .ok) :
    l.Unchanged (uprotoSendRequest env type payload len timeoutMs retries callback user l).2 := by
  have hcases := uprotoSendRequest_cases env type payload len timeoutMs retries callback user l
  generalize uprotoSendRequest env type payload len timeoutMs retries callback user l = result at h hcases ⊢
  cases hcases with
  | refused err herr hrefused => exact .refl l
  | full slot halloc hfull => exact l.unchanged_offered env halloc _
  | sent slot txn halloc => exact absurd rfl h

/-- A request that is not too long is sent if there is a slot for it and the port takes it. -/
theorem uprotoSendRequest_ok_iff (type : UInt8) (payload : Option (List UInt8)) (len : ℕ) (timeoutMs : UInt32)
    (retries : UInt8) (callback : Option ℕ) (user : ℕ) (l : Link) (hlen : len ≤ uprotoMaxPayload) :
    (uprotoSendRequest env type payload len timeoutMs retries callback user l).1 = .ok ↔
      uprotoAllocTransaction l.ctx ≠ none ∧
      env.write l.step (uprotoEncodeFrame uprotoFlagRequest type l.ctx.nextTxnId l.ctx.localSeq 0 payload len) =
        (uprotoEncodeFrame uprotoFlagRequest type l.ctx.nextTxnId l.ctx.localSeq 0 payload len).length := by
  have hcases := uprotoSendRequest_cases env type payload len timeoutMs retries callback user l
  generalize uprotoSendRequest env type payload len timeoutMs retries callback user l = result at hcases ⊢
  cases hcases with
  | refused err herr hrefused =>
    refine ⟨fun hok => absurd hok herr, fun hsent => ?_⟩
    rcases hrefused with hlong | hnone
    · exact absurd hlen (Nat.not_le.mpr hlong)
    · exact absurd hnone hsent.1
  | full slot halloc hfull => exact ⟨nofun, fun hsent => absurd hsent.2 hfull⟩
  | sent slot txn halloc hsent => exact ⟨fun _ => ⟨by rw [halloc]; nofun, hsent⟩, fun _ => rfl⟩

theorem uprotoSendRequest_state (type : UInt8) (payload : Option (List UInt8)) (len : ℕ) (timeoutMs : UInt32)
    (retries : UInt8) (callback : Option ℕ) (user : ℕ) (l : Link) :
    (uprotoSendRequest env type payload len timeoutMs retries callback user l).2.ctx.state = l.ctx.state := by
  have hcases := uprotoSendRequest_cases env type payload len timeoutMs retries callback user l
  generalize uprotoSendRequest env type payload len timeoutMs retries callback user l = result at hcases ⊢
  cases hcases with
  | refused err herr hrefused => rfl
  | full slot halloc hfull => rfl
  | sent slot txn halloc =>
    change (uprotoNow env _).2.ctx.state = _
    rw [uprotoNow_ctx]
    rfl

theorem uprotoStartHandshake_busy {l : Link} (h : l.ctx.state ≠ .idle) : uprotoStartHandshake env l = (.busy, l) :=
  if_pos h

theorem uprotoStartHandshake_idle {l : Link} (h : l.ctx.state = .idle) :
    (uprotoStartHandshake env l).2.ctx.state = .handshaking ∧
      ((uprotoStartHandshake env l).1 = .ok ↔ l.HelloTaken env) := by
  have hnow := uprotoNow_ctx env (l.setState .handshaking)
  have hstep : (uprotoNow env (l.setState .handshaking)).2.step = (uprotoNow env l).2.step := by
    unfold uprotoNow
    split_ifs <;> first | rfl | contradiction
  rw [uprotoStartHandshake, if_neg (not_not.mpr h)]
  dsimp only
  constructor
  · rw [uprotoSendRequest_state, hnow]
    rfl
  · rw [uprotoSendRequest_ok_iff _ _ _ _ _ _ _ _ _ (by decide)]
    dsimp only
    rw [hnow, hstep]
    rfl

/-- A start that fails leaves no trace, unless it is a handshake in an idle context with no free slot or a
    port that does not take the HELLO. -/
theorem uproto_start_fails_cleanly_iff (l : Link) (start : UprotoStart) :
    l.FailsCleanly env start ↔ (start = .handshake → l.ctx.state = .idle → l.HelloTaken env) := by
  cases start with
  | request type payload len timeoutMs retries callback user =>
    exact iff_of_true (uprotoSendRequest_failed env type payload len timeoutMs retries callback user l) nofun
  | handshake =>
    by_cases hidle : l.ctx.state = .idle
    · obtain ⟨hstate, hok⟩ := uprotoStartHandshake_idle env hidle
      constructor
      · intro hclean _ _
        by_contra htaken
        have hunchanged := (hclean fun h => htaken (hok.mp h)).state
        change (uprotoStartHandshake env l).2.ctx.state = _ at hunchanged
        rw [hstate, hidle] at hunchanged
        exact absurd hunchanged nofun
      · intro htaken hfailed
        exact absurd (hok.mpr (htaken rfl hidle)) hfailed
    · refine iff_of_true (fun _ => ?_) fun _ h => absurd h hidle
      change l.Unchanged (uprotoStartHandshake env l).2
      rw [uprotoStartHandshake_busy env hidle]
      exact .refl l

def fullEnv : Env := { quietEnv with write := fun _ _ => 0 }

/-- The handshake of a new context fails, and no other can be started. -/
theorem uproto_start_handshake_stuck : ∃ l : Link, l = ⟨uprotoInit true true none, 0, []⟩ ∧
    ¬ l.FailsCleanly fullEnv .handshake ∧ (uprotoStartHandshake fullEnv l).1 = .txFull ∧
    (uprotoStartHandshake quietEnv (uprotoTick quietEnv (uprotoStartHandshake fullEnv l).2)).1 = .busy := by
  refine ⟨_, rfl, fun h => ?_, by decide +kernel, by decide +kernel⟩
  have hstate := (h (by decide +kernel)).state
  exact absurd hstate (by decide +kernel)

end SpVision
