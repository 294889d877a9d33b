import SpVision.Link.Attitude

set_option autoImplicit false

/-!
# The samples around the time of a query
-/
namespace SpVision

namespace AttitudeTrace

variable {α : Type}

/-- The last sample before `t` and the one after it have been received, neither has been lost, and the first
    was not popped before the current call. -/
def Reaches (tr : AttitudeTrace α) (t : ℤ) : Prop :=
  ∃ p n, [p, n] <:+: tr.received ∧ p.t < t ∧ t ≤ n.t ∧ p ∉ tr.before ∧ p ∉ tr.lost ∧ n ∉ tr.lost

/-- The interpolation of two samples that were received one after the other and enclose `t`. -/
def Bracketed (tr : AttitudeTrace α) (c : Attitude α) : Prop :=
  [c.a, c.b] <:+: tr.received ∧ c.a.t < c.t ∧ c.t ≤ c.b.t ∧
    0 < qWeight c.t c.a.t c.b.t ∧ qWeight c.t c.a.t c.b.t ≤ 1

/-- What is between two attitudes of a set is in the set where the interpolation keeps to it. -/
theorem Bracketed.value_mem {tr : AttitudeTrace α} {c : Attitude α} (h : tr.Bracketed c) {slerp : α → ℚ → α → α}
    {s : Set α} (hslerp : ∀ p ∈ s, ∀ q ∈ s, ∀ k, 0 < k → k ≤ 1 → slerp p k q ∈ s) (ha : c.a.q ∈ s) (hb : c.b.q ∈ s) :
    c.value slerp ∈ s :=
  hslerp _ ha _ hb _ h.2.2.2.1 h.2.2.2.2

/-- The samples that the current call has passed over are followed by others before `t`. -/
def PassedOver (tr : AttitudeTrace α) (t : ℤ) (passed : List (AttitudeSample α)) : Prop :=
  ∀ x ∈ passed, x ∉ tr.before → x.t < t → ∃ y ∈ tr.received, x.t < y.t ∧ y.t < t

/-- What the current call has popped. -/
def CallInv (tr : AttitudeTrace α) : Prop :=
  match tr.link.call with
  | .starting => True
  | .idle => True
  | .popping t => tr.PassedOver t tr.popped
  | .fronting t a => ∃ passed, tr.popped = passed ++ [a] ∧ tr.before <+: passed ∧ tr.PassedOver t passed

structure Inv (tr : AttitudeTrace α) : Prop where
  order : (tr.popped ++ tr.link.queue).Sublist tr.received
  kept : ∀ s ∈ tr.received, s ∈ tr.popped ∨ s ∈ tr.link.queue ∨ s ∈ tr.lost
  lost : ∀ s ∈ tr.lost, s ∈ tr.received ∧ s ∉ tr.popped ∧ s ∉ tr.link.queue
  before : tr.before <+: tr.popped
  call : tr.CallInv

theorem PassedOver.mono {tr tr' : AttitudeTrace α} {t : ℤ} {passed : List (AttitudeSample α)}
    (h : tr.PassedOver t passed) (hbefore : tr'.before = tr.before) (hreceived : tr.received ⊆ tr'.received) :
    tr'.PassedOver t passed := by
  intro x hx hnew hlt
  obtain ⟨y, hy, hxy, hyt⟩ := h x hx (hbefore ▸ hnew) hlt
  exact ⟨y, hreceived hy, hxy, hyt⟩

theorem CallInv.mono {tr tr' : AttitudeTrace α} (h : tr.CallInv) (hcall : tr'.link.call = tr.link.call)
    (hpopped : tr'.popped = tr.popped) (hbefore : tr'.before = tr.before)
    (hreceived : tr.received ⊆ tr'.received) : tr'.CallInv := by
  unfold CallInv at h ⊢
  rw [hcall, hpopped, hbefore]
  cases hc : tr.link.call with
  | starting => trivial
  | idle => trivial
  | popping t =>
    rw [hc] at h
    exact PassedOver.mono h hbefore hreceived
  | fronting t a =>
    rw [hc] at h
    obtain ⟨passed, heq, hpast, hpassed⟩ := h
    exact ⟨passed, heq, hpast, hpassed.mono hbefore hreceived⟩

variable {tr : AttitudeTrace α} {maxSize : ℕ}

theorem Inv.popping (h : tr.Inv) {t : ℤ} (hcall : tr.link.call = .popping t) : tr.PassedOver t tr.popped := by
  have hinv := h.call
  rw [CallInv, hcall] at hinv
  exact hinv

theorem Inv.fronting (h : tr.Inv) (hinc : Increasing AttitudeSample.t tr.received) {t : ℤ} {a : AttitudeSample α}
    (hcall : tr.link.call = .fronting t a) :
    ∃ passed, tr.popped = passed ++ [a] ∧ tr.before <+: passed ∧ tr.PassedOver t passed ∧ ∀ s ∈ passed, s.t < a.t := by
  have hinv := h.call
  rw [CallInv, hcall] at hinv
  obtain ⟨passed, hpopped, hpast, hpassed⟩ := hinv
  have horder : Increasing AttitudeSample.t (passed ++ [a]) := by
    rw [← hpopped]
    exact hinc.sublist ((List.sublist_append_left _ _).trans h.order)
  exact ⟨passed, hpopped, hpast, hpassed, fun s hs => horder.lt hs (List.mem_singleton_self a)⟩

theorem Inv.receive_full (h : tr.Inv) {s : AttitudeSample α}
    (hinc : Increasing AttitudeSample.t (tr.received ++ [s])) (hfull : tr.link.queue.length ≥ maxSize) :
    (tr.step maxSize (.receive s)).Inv := by
  have hnew : s ∉ tr.received := hinc.notMem (List.mem_singleton_self s)
  have hqueue : (tr.step maxSize (.receive s)).link.queue = tr.link.queue := if_pos hfull
  have hlost : (tr.step maxSize (.receive s)).lost = tr.lost ++ [s] := if_pos hfull
  refine ⟨?_, ?_, ?_, h.before, h.call.mono rfl rfl rfl (List.subset_append_left _ _)⟩
  · rw [hqueue]
    exact h.order.trans (List.sublist_append_left _ _)
  · intro x hx
    rw [hqueue, hlost]
    rcases List.mem_append.1 hx with hx | hx
    · exact (h.kept x hx).imp id (Or.imp id (List.mem_append_left _))
    · exact .inr (.inr (List.mem_append_right _ hx))
  · intro x hx
    rw [hqueue]
    rw [hlost] at hx
    rcases List.mem_append.1 hx with hx | hx
    · exact ⟨List.mem_append_left _ (h.lost x hx).1, (h.lost x hx).2⟩
    · rw [List.mem_singleton.1 hx]
      exact ⟨List.mem_append_right _ (List.mem_singleton_self s),
        fun hp => hnew (h.order.subset (List.mem_append_left _ hp)),
        fun hq => hnew (h.order.subset (List.mem_append_right _ hq))⟩

theorem Inv.receive_room (h : tr.Inv) {s : AttitudeSample α}
    (hinc : Increasing AttitudeSample.t (tr.received ++ [s])) (hroom : ¬ tr.link.queue.length ≥ maxSize) :
    (tr.step maxSize (.receive s)).Inv := by
  have hnew : s ∉ tr.received := hinc.notMem (List.mem_singleton_self s)
  have hqueue : (tr.step maxSize (.receive s)).link.queue = tr.link.queue ++ [s] := if_neg hroom
  have hlost : (tr.step maxSize (.receive s)).lost = tr.lost := if_neg hroom
  refine ⟨?_, ?_, ?_, h.before, h.call.mono rfl rfl rfl (List.subset_append_left _ _)⟩
  · rw [hqueue, ← List.append_assoc]
    exact h.order.append (List.Sublist.refl _)
  · intro x hx
    rw [hqueue, hlost]
    rcases List.mem_append.1 hx with hx | hx
    · exact (h.kept x hx).imp id (Or.imp (List.mem_append_left _) id)
    · exact .inr (.inl (List.mem_append_right _ hx))
  · intro x hx
    rw [hlost] at hx
    rw [hqueue, List.mem_append, List.mem_singleton]
    obtain ⟨hreceived, hpopped, hqueued⟩ := h.lost x hx
    refine ⟨List.mem_append_left _ hreceived, hpopped, ?_⟩
    rintro (hq | rfl)
    · exact hqueued hq
    · exact hnew hreceived

theorem Inv.receive (h : tr.Inv) {s : AttitudeSample α}
    (hinc : Increasing AttitudeSample.t (tr.received ++ [s])) : (tr.step maxSize (.receive s)).Inv := by
  by_cases hfull : tr.link.queue.length ≥ maxSize
  · exact h.receive_full hinc hfull
  · exact h.receive_room hinc hfull

theorem Inv.reconnect (h : tr.Inv) (hinc : Increasing AttitudeSample.t tr.received) :
    (tr.step maxSize .reconnect).Inv := by
  have hqueue : (tr.step maxSize .reconnect).link.queue = [] := rfl
  have hlost : (tr.step maxSize .reconnect).lost = tr.lost ++ tr.link.queue := rfl
  have horder : Increasing AttitudeSample.t (tr.popped ++ tr.link.queue) := hinc.sublist h.order
  refine ⟨?_, ?_, ?_, h.before, h.call.mono rfl rfl rfl (List.Subset.refl _)⟩
  · rw [hqueue, List.append_nil]
    exact (List.sublist_append_left _ _).trans h.order
  · intro x hx
    rw [hlost]
    exact (h.kept x hx).imp id fun hrest => .inr (List.mem_append.2 hrest.symm)
  · intro x hx
    rw [hlost] at hx
    rw [hqueue]
    rcases List.mem_append.1 hx with hx | hx
    · exact ⟨(h.lost x hx).1, (h.lost x hx).2.1, List.not_mem_nil⟩
    · exact ⟨h.order.subset (List.mem_append_right _ hx), horder.notMem hx, List.not_mem_nil⟩

theorem Inv.query (h : tr.Inv) (t : ℤ) : (tr.step maxSize (.query t)).Inv := by
  cases hcall : tr.link.call with
  | idle =>
    have hstep : tr.step maxSize (.query t) =
        { tr with link := { tr.link with call := .popping t }, before := tr.popped } := by
      simp only [step, AttitudeLink.step, hcall]
    rw [hstep]
    exact ⟨h.order, h.kept, h.lost, List.prefix_rfl, fun x hx hnew => absurd hx hnew⟩
  | _ =>
    have hstep : tr.step maxSize (.query t) = tr := by
      simp only [step, hcall]
    rw [hstep]
    exact h

theorem Inv.pop (h : tr.Inv) {tr' : AttitudeTrace α} {a : AttitudeSample α} {rest : List (AttitudeSample α)}
    (hqueue : tr.link.queue = a :: rest) (hqueue' : tr'.link.queue = rest)
    (hpopped : tr'.popped = tr.popped ++ [a]) (hreceived : tr'.received = tr.received)
    (hlost : tr'.lost = tr.lost) (hbefore : tr'.before = tr.before) (hcall : tr'.CallInv) : tr'.Inv := by
  refine ⟨?_, ?_, ?_, ?_, hcall⟩
  · rw [hpopped, hqueue', hreceived, List.append_assoc, List.singleton_append, ← hqueue]
    exact h.order
  · intro x hx
    rw [hpopped, hqueue', hlost]
    have hkept := h.kept x (hreceived ▸ hx)
    rw [hqueue, List.mem_cons] at hkept
    rw [List.mem_append, List.mem_singleton]
    tauto
  · intro x hx
    rw [hpopped, hqueue', hreceived]
    have hgone := h.lost x (hlost ▸ hx)
    rw [hqueue, List.mem_cons] at hgone
    rw [List.mem_append, List.mem_singleton]
    tauto
  · rw [hpopped, hbefore]
    exact h.before.trans (List.prefix_append _ _)

/-- The queue stays, and with it everything but the call. -/
theorem Inv.stay (h : tr.Inv) (call : QCall α)
    (hcall : ({ tr with link := { tr.link with call } } : AttitudeTrace α).CallInv) :
    ({ tr with link := { tr.link with call } } : AttitudeTrace α).Inv :=
  ⟨h.order, h.kept, h.lost, h.before, hcall⟩

theorem Inv.turn (h : tr.Inv) (hinc : Increasing AttitudeSample.t tr.received) : (tr.step maxSize .turn).Inv := by
  have horder : Increasing AttitudeSample.t (tr.popped ++ tr.link.queue) := hinc.sublist h.order
  rcases tr.turn_cases maxSize with ⟨hstep, -, -⟩ | ⟨a, rest, -, hqueue, -, hstep⟩ |
      ⟨t, a, rest, hpopping, hqueue, -, hstep⟩ | ⟨t, a, b, rest, hfronting, hqueue, hnear, hfar, -, hstep⟩ |
      ⟨t, a, b, rest, -, -, -, -, hstep⟩ <;> rw [hstep]
  · exact h
  · exact h.pop hqueue rfl rfl rfl rfl rfl trivial
  · exact h.pop hqueue rfl rfl rfl rfl rfl ⟨tr.popped, rfl, h.before, h.popping hpopping⟩
  · obtain ⟨passed, hpopped, -, hpassed, -⟩ := h.fronting hinc hfronting
    refine h.stay _ ?_
    -- the sample just passed over is followed by `b`, which is before `t` as well
    intro x hx hnew hlt
    rw [show ({ tr with link := { tr.link with call := .popping t } } : AttitudeTrace α).popped =
      passed ++ [a] from hpopped, List.mem_append, List.mem_singleton] at hx
    rcases hx with hx | rfl
    · exact hpassed x hx hnew hlt
    · have hb : b ∈ tr.link.queue := hqueue ▸ List.mem_cons_self
      have hxb : x.t < b.t := horder.lt (hpopped ▸ List.mem_append_right _ (List.mem_singleton_self x)) hb
      exact ⟨b, h.order.subset (List.mem_append_right _ hb), hxb, by omega⟩
  · exact h.stay _ trivial

theorem Inv.step (h : tr.Inv) {event : AttitudeEvent α}
    (hinc : Increasing AttitudeSample.t (tr.step maxSize event).received) : (tr.step maxSize event).Inv := by
  cases event with
  | receive s => exact h.receive hinc
  | reconnect => exact h.reconnect hinc
  | query t => exact h.query t
  | turn => exact h.turn hinc

theorem inv_run (maxSize : ℕ) (events : List (AttitudeEvent α)) :
    Increasing AttitudeSample.t (events.filterMap AttitudeEvent.sample?) → (run maxSize events).Inv := by
  induction events using List.reverseRecOn with
  | nil => exact fun _ => ⟨List.Sublist.refl _, by simp [run], by simp [run], List.prefix_rfl, trivial⟩
  | append_singleton pre event ih =>
    intro hinc
    have hpre : Increasing AttitudeSample.t (pre.filterMap AttitudeEvent.sample?) :=
      hinc.sublist ((List.sublist_append_left _ _).filterMap _)
    rw [← received_run maxSize, run_append] at hinc
    rw [run_append]
    exact (ih hpre).step hinc

theorem PassedOver.notMem {t : ℤ} {passed : List (AttitudeSample α)} (h : tr.PassedOver t passed)
    (hinc : Increasing AttitudeSample.t tr.received) {p n : AttitudeSample α} (hpair : [p, n] <:+: tr.received)
    (hlt : p.t < t) (hle : t ≤ n.t) (hnew : p ∉ tr.before) : p ∉ passed := by
  intro hp
  obtain ⟨y, hy, hpy, hyt⟩ := h p hp hnew hlt
  rcases hinc.consecutive hpair hy with hyp | hny <;> omega

theorem Inv.not_waiting (h : tr.Inv) (hinc : Increasing AttitudeSample.t tr.received) {t : ℤ}
    (hasks : tr.link.call.asks? = some t) (hreach : tr.Reaches t) : tr.link.queue ≠ [] := by
  intro hempty
  obtain ⟨p, n, hpair, hlt, hle, hnew, hp, hn⟩ := hreach
  have hpopped : ∀ s ∈ tr.received, s ∉ tr.lost → s ∈ tr.popped := by
    intro s hs hlost
    rcases h.kept s hs with hs | hs | hs
    · exact hs
    · exact absurd (hempty ▸ hs) List.not_mem_nil
    · exact absurd hs hlost
  have hpp : p ∈ tr.popped := hpopped p (hpair.subset (by simp)) hp
  have hnp : n ∈ tr.popped := hpopped n (hpair.subset (by simp)) hn
  cases hcall : tr.link.call with
  | starting => simp [hcall, QCall.asks?] at hasks
  | idle => simp [hcall, QCall.asks?] at hasks
  | popping t' =>
    rw [hcall] at hasks
    cases hasks
    exact (h.popping hcall).notMem hinc hpair hlt hle hnew hpp
  | fronting t' a =>
    rw [hcall] at hasks
    cases hasks
    obtain ⟨passed, heq, -, hpassed, hhand⟩ := h.fronting hinc hcall
    have hnotPassed : p ∉ passed := hpassed.notMem hinc hpair hlt hle hnew
    rw [heq, List.mem_append, List.mem_singleton, or_iff_right hnotPassed] at hpp
    -- `p` is the sample in hand and `n` comes after it, so `n` has not been popped
    rw [heq, List.mem_append, List.mem_singleton] at hnp
    rcases hnp with hnp | hnp
    · have hbehind := hhand n hnp
      rw [← hpp] at hbehind
      omega
    · rw [hnp, ← hpp] at hle
      omega

theorem Inv.reaches_of_bracketed (h : tr.Inv) (hinc : Increasing AttitudeSample.t tr.received) {c : Attitude α}
    (hanswer : tr.link.turn.2 = some c) (hbracketed : tr.Bracketed c) : tr.Reaches c.t := by
  obtain ⟨hfronting, ⟨rest, hqueue⟩, -⟩ := turn_answers hanswer
  obtain ⟨hpair, hlt, hle, -⟩ := hbracketed
  obtain ⟨passed, heq, hpast, -, hhand⟩ := h.fronting hinc hfronting
  have ha : c.a ∈ tr.popped := heq ▸ List.mem_append_right _ (List.mem_singleton_self _)
  have hb : c.b ∈ tr.link.queue := hqueue ▸ List.mem_cons_self
  refine ⟨c.a, c.b, hpair, hlt, hle, ?_, fun hlost => (h.lost _ hlost).2.1 ha, fun hlost => (h.lost _ hlost).2.2 hb⟩
  exact fun hbefore => lt_irrefl _ (hhand _ (hpast.subset hbefore))

theorem Inv.bracketed_of_reaches (h : tr.Inv) (hinc : Increasing AttitudeSample.t tr.received) {c : Attitude α}
    (hanswer : tr.link.turn.2 = some c) (hreach : tr.Reaches c.t) : tr.Bracketed c := by
  obtain ⟨hfronting, ⟨rest, hqueue⟩, hdone⟩ := turn_answers hanswer
  obtain ⟨p, n, hpair, hlt, hle, hnew, hp, hn⟩ := hreach
  obtain ⟨passed, heq, -, hpassed, hhand⟩ := h.fronting hinc hfronting
  have horder : Increasing AttitudeSample.t (tr.popped ++ tr.link.queue) := hinc.sublist h.order
  have hqueued : Increasing AttitudeSample.t tr.link.queue := (List.pairwise_append.1 horder).2.1
  have hb : c.b ∈ tr.link.queue := hqueue ▸ List.mem_cons_self
  have hfirst : ∀ s ∈ tr.link.queue, c.b.t ≤ s.t := fun s hs => hqueued.le_head (by rw [hqueue]; rfl) hs
  have ha : c.a ∈ tr.popped := heq ▸ List.mem_append_right _ (List.mem_singleton_self _)
  have hab : c.a.t < c.b.t := horder.lt ha hb
  -- the sample before `t` is the one in hand: it was not passed over and is not behind the front
  have hpa : p = c.a := by
    rcases h.kept p (hpair.subset (by simp)) with hpopped | hwaiting | hlost
    · rw [heq, List.mem_append, List.mem_singleton] at hpopped
      exact hpopped.resolve_left (hpassed.notMem hinc hpair hlt hle hnew)
    · have := hfirst p hwaiting
      omega
    · exact absurd hlost hp
  have hnb : n = c.b := by
    have hnext : c.a.t < n.t := by
      rw [hpa] at hlt
      omega
    have hnq : n ∈ tr.link.queue := by
      rcases h.kept n (hpair.subset (by simp)) with hpopped | hwaiting | hlost
      · rw [heq, List.mem_append, List.mem_singleton] at hpopped
        rcases hpopped with hpopped | rfl
        · exact absurd (hhand n hpopped) hnext.not_gt
        · exact absurd hnext (lt_irrefl _)
      · exact hwaiting
      · exact absurd hlost hn
    have hreceived : ∀ s ∈ tr.link.queue, s ∈ tr.received :=
      fun s hs => h.order.subset (List.mem_append_right _ hs)
    refine hinc.eq_of_key_eq (hreceived n hnq) (hreceived c.b hb) (le_antisymm ?_ (hfirst n hnq))
    rcases hinc.consecutive hpair (hreceived c.b hb) with hbefore | hafter
    · rw [hpa] at hbefore
      omega
    · exact hafter
  rw [hpa, hnb] at hpair
  rw [hpa] at hlt
  rw [hnb] at hle
  exact ⟨hpair, hlt, hle, (qWeight_mem_iff hab).2 ⟨hlt, hle⟩⟩

/-- The turns that a call needs at most with the samples in the queue. -/
def turnsLeft (tr : AttitudeTrace α) : ℕ :=
  match tr.link.call with
  | .fronting _ _ => 2 * tr.link.queue.length + 1
  | _ => 2 * tr.link.queue.length

theorem Inv.returns (maxSize fuel : ℕ) : ∀ {tr : AttitudeTrace α}, tr.Inv → Increasing AttitudeSample.t tr.received →
    ∀ {t : ℤ}, tr.link.call.asks? = some t → tr.Reaches t → tr.turnsLeft ≤ fuel →
    ∃ k c, ((List.replicate k .turn).foldl (AttitudeTrace.step maxSize) tr).link.turn.2 = some c ∧ c.t = t ∧
      ((List.replicate k .turn).foldl (AttitudeTrace.step maxSize) tr).Bracketed c := by
  induction fuel with
  | zero =>
    intro tr h hinc t hasks hreach hfuel
    have hlength := List.length_pos_iff.2 (h.not_waiting hinc hasks hreach)
    unfold turnsLeft at hfuel
    split at hfuel <;> omega
  | succ fuel ih =>
    intro tr h hinc t hasks hreach hfuel
    have hqueue := h.not_waiting hinc hasks hreach
    have hturn : (tr.step maxSize .turn).Inv := h.turn hinc
    unfold turnsLeft at hfuel
    rcases tr.turn_cases maxSize with ⟨-, -, hwaits⟩ | ⟨a, rest, hcall, -⟩ | ⟨t', a, rest, hcall, hq, -, hstep⟩ |
        ⟨t', a, b, rest, hcall, hq, -, -, -, hstep⟩ | ⟨t', a, b, rest, hcall, hq, -, hsome, -⟩
    · exact absurd (hwaits (by simp [hasks])) hqueue
    · simp [hcall, QCall.asks?] at hasks
    · rw [hcall] at hasks hfuel
      obtain ⟨k, c, hreturns⟩ := ih hturn hinc (by rw [hstep]; exact hasks)
        (by rw [hstep]; exact hreach) (by rw [hstep]; simp [turnsLeft, hq] at hfuel ⊢; omega)
      exact ⟨k + 1, c, hreturns⟩
    · rw [hcall] at hasks hfuel
      obtain ⟨k, c, hreturns⟩ := ih hturn hinc (by rw [hstep]; exact hasks)
        (by rw [hstep]; exact hreach) (by rw [hstep]; simp [turnsLeft, hq] at hfuel ⊢; omega)
      exact ⟨k + 1, c, hreturns⟩
    · rw [hcall] at hasks
      cases hasks
      exact ⟨0, _, hsome, rfl, h.bracketed_of_reaches hinc hsome hreach⟩

end AttitudeTrace

open AttitudeTrace

/-- A call returns an interpolation of two samples that were received one after the other and enclose its time
    exactly if the two can still be reached, and then it does return. -/
theorem q_bracketed_iff {α : Type} (maxSize : ℕ) (events : List (AttitudeEvent α))
    (hinc : Increasing AttitudeSample.t (events.filterMap AttitudeEvent.sample?)) :
    (∀ c, (run maxSize events).link.turn.2 = some c →
      ((run maxSize events).Bracketed c ↔ (run maxSize events).Reaches c.t)) ∧
    ∀ t, (run maxSize events).link.call.asks? = some t → (run maxSize events).Reaches t →
      ∃ k c, (run maxSize (events ++ List.replicate k .turn)).link.turn.2 = some c ∧ c.t = t ∧
        (run maxSize (events ++ List.replicate k .turn)).Bracketed c := by
  have hinv := inv_run maxSize events hinc
  have hreceived : Increasing AttitudeSample.t (run maxSize events).received := by
    rw [received_run]
    exact hinc
  refine ⟨fun c hc => ⟨hinv.reaches_of_bracketed hreceived hc, hinv.bracketed_of_reaches hreceived hc⟩, ?_⟩
  intro t hasks hreach
  obtain ⟨k, c, hreturns⟩ := hinv.returns maxSize _ hreceived hasks hreach le_rfl
  rw [← run_append] at hreturns
  exact ⟨k, c, hreturns⟩

theorem first_query_bracketed : (run 1000 [.receive ⟨(), 0⟩, .turn, .receive ⟨(), 10⟩, .receive ⟨(), 20⟩,
    .query 12, .turn]).Bracketed ⟨12, ⟨(), 10⟩, ⟨(), 20⟩⟩ := by
  have hinc : Increasing AttitudeSample.t ([.receive ⟨(), 0⟩, .turn, .receive ⟨(), 10⟩, .receive ⟨(), 20⟩,
      .query 12, .turn].filterMap AttitudeEvent.sample? : List (AttitudeSample Unit)) := by
    unfold Increasing
    decide
  exact ((q_bracketed_iff 1000 _ hinc).1 _ (by decide +kernel)).2
    ⟨⟨(), 10⟩, ⟨(), 20⟩, by decide +kernel, by decide, by decide, by decide +kernel, by decide +kernel, by decide +kernel⟩

/-- The samples come in order, and the calls ask for times in order, after the first sample that the
    constructor leaves and not after the last. -/
def QueriesInOrder {α : Type} (events : List (AttitudeEvent α)) : Prop :=
  Increasing AttitudeSample.t (events.filterMap AttitudeEvent.sample?) ∧
  (events.filterMap AttitudeEvent.time?).Pairwise (· ≤ ·) ∧
  ∀ t ∈ events.filterMap AttitudeEvent.time?,
    (∃ s ∈ (events.filterMap AttitudeEvent.sample?)[1]?, s.t < t) ∧
    ∃ s ∈ (events.filterMap AttitudeEvent.sample?).getLast?, t ≤ s.t

/-! ### A queue that was full -/

/-- Samples at the times from `start` on. -/
def ticks (start count : ℕ) : List (AttitudeSample Unit) := (List.range' start count).map fun i : ℕ => ⟨(), (i : ℤ)⟩

theorem ticks_succ (start count : ℕ) : ticks start (count + 1) = ⟨(), start⟩ :: ticks (start + 1) count := rfl

theorem ticks_append (start m n : ℕ) : ticks start m ++ ticks (start + m) n = ticks start (m + n) := by
  rw [ticks, ticks, ← List.map_append, List.range'_append_1]
  rfl

theorem ticks_increasing (start count : ℕ) : Increasing AttitudeSample.t (ticks start count) := by
  rw [Increasing, ticks, List.pairwise_map]
  exact (List.pairwise_lt_range' 1).imp fun hlt => Int.ofNat_lt.2 hlt

theorem foldl_receive (maxSize : ℕ) (samples : List (AttitudeSample Unit)) (link : AttitudeLink Unit)
    (hroom : link.queue.length + samples.length ≤ maxSize) :
    (samples.map AttitudeEvent.receive).foldl (AttitudeLink.step maxSize) link =
      { link with queue := link.queue ++ samples } := by
  induction samples generalizing link with
  | nil => rw [List.append_nil]; rfl
  | cons s rest ih =>
    rw [List.length_cons] at hroom
    have hpush : link.step maxSize (.receive s) = { link with queue := link.queue ++ [s] } := by
      rw [AttitudeLink.step, queuePush, if_neg (by omega)]
    rw [List.map_cons, List.foldl_cons, hpush, ih]
    · rw [List.append_assoc]
      rfl
    · rw [List.length_append, List.length_singleton]
      omega

/-- A call passes over the samples before its time, two turns for each. -/
theorem foldl_turn (maxSize : ℕ) {t : ℤ} (z : AttitudeSample Unit) (count : ℕ) : ∀ start : ℕ, start + count < t →
    (List.replicate (2 * count) .turn).foldl (AttitudeLink.step maxSize)
      ⟨ticks (start + 1) count ++ [z], .fronting t ⟨(), start⟩⟩ = ⟨[z], .fronting t ⟨(), start + count⟩⟩ := by
  induction count with
  | zero =>
    intro start _
    rw [Nat.cast_zero, add_zero]
    rfl
  | succ count ih =>
    intro start hlt
    push_cast at hlt
    have hpass : AttitudeLink.step maxSize ⟨ticks (start + 1) (count + 1) ++ [z], .fronting t ⟨(), start⟩⟩ .turn =
        ⟨ticks (start + 1) (count + 1) ++ [z], .popping t⟩ := by
      have hnear : ¬ t < start := by omega
      have hfar : ¬ ((start : ℤ) < t ∧ t ≤ ((start + 1 : ℕ) : ℤ)) := by omega
      simp only [AttitudeLink.step, AttitudeLink.turn, ticks_succ, List.cons_append, hnear, hfar, if_false, not_false_iff,
        if_true]
    have hpop : AttitudeLink.step maxSize ⟨ticks (start + 1) (count + 1) ++ [z], .popping t⟩ .turn =
        ⟨ticks (start + 1 + 1) count ++ [z], .fronting t ⟨(), (start + 1 : ℕ)⟩⟩ := rfl
    rw [show 2 * (count + 1) = 2 * count + 1 + 1 by omega, List.replicate_succ, List.replicate_succ, List.foldl_cons,
      List.foldl_cons, hpass, hpop, ih (start + 1) (by push_cast; omega)]
    push_cast
    rw [add_assoc, add_comm (1 : ℤ)]

/-- The queue is filled up, one more sample is dropped, and then a call makes room for the next. -/
def overload (m : ℕ) : List (AttitudeEvent Unit) :=
  [.receive ⟨(), 0⟩, .turn] ++ ((ticks 1 (m + 1)).map .receive ++
    ([.receive ⟨(), (m + 2 : ℕ)⟩, .query (m + 2 : ℕ), .turn, .receive ⟨(), (m + 3 : ℕ)⟩] ++
      List.replicate (2 * m) .turn))

theorem overload_samples (m : ℕ) : (overload m).filterMap AttitudeEvent.sample? = ticks 0 (m + 4) := by
  have hturns : (List.replicate (2 * m) AttitudeEvent.turn).filterMap AttitudeEvent.sample? =
      ([] : List (AttitudeSample Unit)) := by
    rw [List.filterMap_replicate_of_none]
    rfl
  have hfill : ((ticks 1 (m + 1)).map AttitudeEvent.receive).filterMap AttitudeEvent.sample? = ticks 1 (m + 1) := by
    rw [List.filterMap_map]
    exact List.filterMap_some
  have hlast : [⟨(), (m + 2 : ℕ)⟩, ⟨(), (m + 3 : ℕ)⟩] = ticks (1 + (m + 1)) 2 := by
    rw [ticks_succ, ticks_succ, show 1 + (m + 1) = m + 2 by omega]
    rfl
  rw [overload, List.filterMap_append, List.filterMap_append, List.filterMap_append, hturns, hfill, List.append_nil]
  change ⟨(), 0⟩ :: (ticks 1 (m + 1) ++ [⟨(), (m + 2 : ℕ)⟩, ⟨(), (m + 3 : ℕ)⟩]) = ticks 0 (m + 4)
  rw [hlast, ticks_append, ticks_succ 0 (m + 3), show m + 1 + 2 = m + 3 by omega]
  rfl

theorem overload_queries (m : ℕ) : (overload m).filterMap AttitudeEvent.time? = [((m + 2 : ℕ) : ℤ)] := by
  have hturns : (List.replicate (2 * m) (AttitudeEvent.turn : AttitudeEvent Unit)).filterMap AttitudeEvent.time? =
      [] := by
    rw [List.filterMap_replicate_of_none]
    rfl
  have hfill : ((ticks 1 (m + 1)).map AttitudeEvent.receive).filterMap AttitudeEvent.time? = [] := by
    rw [List.filterMap_map]
    exact List.filterMap_eq_nil_iff.2 fun _ _ => rfl
  rw [overload, List.filterMap_append, List.filterMap_append, List.filterMap_append, hturns, hfill]
  rfl

theorem overload_answer (m : ℕ) : (run (m + 1) (overload m)).link.turn.2 =
    some ⟨(m + 2 : ℕ), ⟨(), (m + 1 : ℕ)⟩, ⟨(), (m + 3 : ℕ)⟩⟩ := by
  have hlength (start count : ℕ) : (ticks start count).length = count := by
    rw [ticks, List.length_map, List.length_range']
  have hfirst : [.receive ⟨(), 0⟩, .turn].foldl (AttitudeLink.step (m + 1)) {} =
      (⟨[], .idle⟩ : AttitudeLink Unit) := by
    simp [AttitudeLink.step, AttitudeLink.turn, queuePush]
  have hmiddle : [.receive ⟨(), (m + 2 : ℕ)⟩, .query (m + 2 : ℕ), .turn, .receive ⟨(), (m + 3 : ℕ)⟩].foldl
      (AttitudeLink.step (m + 1)) ⟨ticks 1 (m + 1), .idle⟩ =
      ⟨ticks (1 + 1) m ++ [⟨(), (m + 3 : ℕ)⟩], .fronting (m + 2 : ℕ) ⟨(), (1 : ℕ)⟩⟩ := by
    have hfull : queuePush (m + 1) (ticks 1 (m + 1)) ⟨(), ((m + 2 : ℕ) : ℤ)⟩ = ticks 1 (m + 1) :=
      if_pos (hlength _ _).ge
    have hroom : queuePush (m + 1) (ticks (1 + 1) m) ⟨(), ((m + 3 : ℕ) : ℤ)⟩ =
        ticks (1 + 1) m ++ [⟨(), ((m + 3 : ℕ) : ℤ)⟩] :=
      if_neg (by rw [hlength]; omega)
    simp only [List.foldl_cons, List.foldl_nil, AttitudeLink.step, AttitudeLink.turn, hfull]
    rw [ticks_succ]
    dsimp only
    rw [hroom]
  have hpassed := foldl_turn (m + 1) (t := (m + 2 : ℕ)) ⟨(), (m + 3 : ℕ)⟩ m 1 (by push_cast; omega)
  rw [link_run, overload, List.foldl_append, List.foldl_append, List.foldl_append, hfirst,
    foldl_receive _ _ _ (by rw [hlength]; simp), List.nil_append, hmiddle, hpassed]
  have hlast : ((1 : ℕ) : ℤ) + m = (m + 1 : ℕ) := by
    push_cast
    rw [add_comm]
  have hnear : ¬ ((m + 2 : ℕ) : ℤ) < (m + 1 : ℕ) := by omega
  have hfar : ((m + 1 : ℕ) : ℤ) < (m + 2 : ℕ) ∧ ((m + 2 : ℕ) : ℤ) ≤ (m + 3 : ℕ) := by omega
  simp only [hlast, AttitudeLink.turn, hnear, hfar, and_self, not_true, if_false]

/-- A call extrapolates when an earlier one has taken the sample before its time, and a call after an overload
    interpolates across a sample that was received in between. -/
theorem queries_not_bracketed :
    (∃ events : List (AttitudeEvent Unit), QueriesInOrder events ∧ (run 1000 events).lost = [] ∧
      ∃ c, (run 1000 events).link.turn.2 = some c ∧ qWeight c.t c.a.t c.b.t = -1 / 2 ∧
        ¬ (run 1000 events).Bracketed c) ∧
    ∃ events : List (AttitudeEvent Unit), QueriesInOrder events ∧
      events.filterMap AttitudeEvent.time? = [1001] ∧
      ∃ c, (run 1000 events).link.turn.2 = some c ∧ c.a.t = 1000 ∧ c.b.t = 1002 ∧
        ¬ (run 1000 events).Bracketed c := by
  constructor
  · refine ⟨[.receive ⟨(), 0⟩, .turn, .receive ⟨(), 10⟩, .receive ⟨(), 20⟩, .receive ⟨(), 30⟩,
      .query 12, .turn, .turn, .query 15, .turn], ⟨?_, ?_, ?_⟩, by decide +kernel, ⟨15, ⟨(), 20⟩, ⟨(), 30⟩⟩,
      by decide +kernel, by decide +kernel, ?_⟩
    · unfold Increasing
      decide
    · decide
    · intro t ht
      have htimes : 12 = t ∨ 15 = t := by simpa [AttitudeEvent.time?] using ht
      refine ⟨⟨⟨(), 10⟩, rfl, ?_⟩, ⟨⟨(), 30⟩, rfl, ?_⟩⟩ <;> dsimp only <;> omega
    · exact fun h => absurd h.2.1 (by decide)
  · refine ⟨overload 999, ⟨?_, ?_, ?_⟩, overload_queries 999, _, overload_answer 999, rfl, rfl, ?_⟩
    · rw [overload_samples]
      exact ticks_increasing 0 _
    · rw [overload_queries]
      exact List.pairwise_singleton _ _
    · rw [overload_queries, overload_samples]
      intro t ht
      rw [List.mem_singleton.1 ht]
      refine ⟨⟨⟨(), 1⟩, rfl, by decide⟩, ⟨⟨(), 1002⟩, ?_, by decide⟩⟩
      rw [← ticks_append 0 1002 1, ticks_succ, List.getLast?_append]
      rfl
    · intro h
      have hreceived : (run 1000 (overload 999)).received = ticks 0 1003 := by
        rw [received_run, overload_samples]
      have hdropped : (⟨(), 1001⟩ : AttitudeSample Unit) ∈ ticks 0 1003 :=
        List.mem_map.2 ⟨1001, List.mem_range'_1.2 (by omega), rfl⟩
      have hpair := h.1
      rw [hreceived] at hpair
      rcases (ticks_increasing 0 1003).consecutive hpair hdropped with hle | hle
      · exact absurd hle (by decide)
      · exact absurd hle (by decide)

end SpVision
