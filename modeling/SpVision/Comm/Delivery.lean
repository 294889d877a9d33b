import SpVision.Comm.Arbiter
import SpVision.Comm.MuxCodec

set_option autoImplicit false

/-!
# What becomes of a queued notification

A slot holds the latest accepted notification of its channel until it is sent. A failed
send leaves it there, and a later notification of the channel takes its place.
-/
namespace SpVision

/-! ### The log of one slot -/

/-- The arguments of `ch_uproto_queue_notify`. -/
structure Notification where
  chId : UInt8
  sid : UInt16
  flags : UInt8
  payload : Option (List UInt8)
  len : UInt16
  deriving DecidableEq, Repr

namespace Notification

def bytes (n : Notification) : List UInt8 := (n.payload.getD []).take n.len.toNat

/-- The payload pointer is good for `len` bytes; it may be null for an empty payload. -/
def Readable (n : Notification) : Prop :=
  0 < n.len.toNat → ∃ p, n.payload = some p ∧ n.len.toNat ≤ p.length

structure Fills (n : Notification) (item : PendingNotify) : Prop where
  chId : item.chId = n.chId
  sid : item.sid = n.sid
  flags : item.flags = n.flags
  len : item.len = n.len
  payload : n.Readable → item.payload.take n.len.toNat = n.bytes

/-- What a receiver of `buf` decodes is the notification. -/
structure SentAs (n : Notification) (hdr : MuxHdr) (buf : List UInt8) : Prop where
  channel : hdr.channel = n.chId
  sid : hdr.sid = n.sid
  flags : hdr.flags = n.flags
  len : hdr.len = n.len
  payload : n.Readable → muxDecode buf buf.length = some (hdr, n.bytes)

end Notification

variable {σ : Type} {send : SendNotify σ} {m : ChannelManager} {w : Fin chMax}

/-- The notification of slot `w` that waits to be sent. -/
def waitingNote (m : ChannelManager) (w : Fin chMax) : List MuxObs → Option Notification
  | [] => none
  | .queued chId sid flags payload len :: log =>
    if m.slotOf chId = some w then some ⟨chId, sid, flags, payload, len⟩ else waitingNote m w log
  | .notify slot _ _ err :: log => if slot = w ∧ err = .ok then none else waitingNote m w log

/-- The latest notification accepted for slot `w`. -/
def latestNote (m : ChannelManager) (w : Fin chMax) : List MuxObs → Option Notification
  | [] => none
  | .queued chId sid flags payload len :: log =>
    if m.slotOf chId = some w then some ⟨chId, sid, flags, payload, len⟩ else latestNote m w log
  | .notify _ _ _ _ :: log => latestNote m w log

def MuxObs.AcceptedFor (m : ChannelManager) (w : Fin chMax) : MuxObs → Prop
  | .queued chId _ _ _ _ => m.slotOf chId = some w
  | .notify _ _ _ _ => False

def MuxObs.SentFor (w : Fin chMax) : MuxObs → Prop
  | .queued _ _ _ _ _ => False
  | .notify slot _ _ err => slot = w ∧ err = .ok

theorem latestNote_of_waitingNote {log : List MuxObs} {n : Notification} (h : waitingNote m w log = some n) :
    latestNote m w log = some n := by
  induction log with
  | nil => cases h
  | cons o log ih =>
    cases o with
    | queued chId sid flags payload len =>
      simp only [waitingNote, latestNote] at h ⊢
      split_ifs at h ⊢ with hslot
      · exact h
      · exact ih h
    | notify slot hdr buf err =>
      simp only [waitingNote, latestNote] at h ⊢
      split_ifs at h
      exact ih h

/-- After a successful send nothing waits until the next notification is accepted. -/
theorem exists_accepted_of_waitingNote {after before : List MuxObs} {o : MuxObs} {n : Notification}
    (ho : o.SentFor w) (h : waitingNote m w (after ++ o :: before) = some n) :
    ∃ a ∈ after, a.AcceptedFor m w := by
  induction after with
  | nil =>
    cases o with
    | queued => exact ho.elim
    | notify slot hdr buf err =>
      exact absurd ((if_pos ho).symm.trans h) (by simp)
  | cons a after ih =>
    have hrest (h' : waitingNote m w (after ++ o :: before) = some n) :
        ∃ b ∈ a :: after, b.AcceptedFor m w := by
      obtain ⟨b, hb, haccepted⟩ := ih h'
      exact ⟨b, List.mem_cons_of_mem _ hb, haccepted⟩
    cases a with
    | queued chId sid flags payload len =>
      rw [List.cons_append, waitingNote] at h
      split_ifs at h with hslot
      · exact ⟨_, List.mem_cons_self, hslot⟩
      · exact hrest h
    | notify slot hdr buf err =>
      rw [List.cons_append, waitingNote] at h
      split_ifs at h
      exact hrest h

/-- What waits keeps waiting until it is sent or replaced. -/
theorem waitingNote_append {after before : List MuxObs}
    (h : ∀ o ∈ after, ¬ o.AcceptedFor m w ∧ ¬ o.SentFor w) :
    waitingNote m w (after ++ before) = waitingNote m w before := by
  induction after with
  | nil => rfl
  | cons o after ih =>
    obtain ⟨haccepted, hsent⟩ := h o List.mem_cons_self
    have hafter := ih fun o ho => h o (List.mem_cons_of_mem _ ho)
    cases o with
    | queued => exact (if_neg haccepted).trans hafter
    | notify => exact (if_neg hsent).trans hafter

/-! ### The slots hold what waits -/

theorem bumpAges_pending (m : ChannelManager) (b : ChUprotoBind) (i : Fin chMax) :
    ∃ age, (b.pending i).age ≤ age ∧ (bumpAges m b).pending i = { b.pending i with age := age } := by
  unfold bumpAges
  dsimp only
  split_ifs
  · exact ⟨_, Nat.le_succ _, rfl⟩
  · exact ⟨_, Nat.le_refl _, rfl⟩

theorem Notification.Fills.older {n : Notification} {b : ChUprotoBind} {i : Fin chMax}
    (h : n.Fills (b.pending i)) (m : ChannelManager) : n.Fills ((bumpAges m b).pending i) := by
  obtain ⟨age, -, hage⟩ := bumpAges_pending m b i
  rw [hage]
  exact ⟨h.chId, h.sid, h.flags, h.len, h.payload⟩

theorem Notification.fills_replaced (n : Notification) (old : PendingNotify) :
    n.Fills (old.replaced n.chId n.sid n.flags n.payload n.len) := by
  refine ⟨rfl, rfl, rfl, rfl, fun hread => ?_⟩
  rcases Nat.eq_zero_or_pos n.len.toNat with hzero | hpos
  · rw [bytes, hzero, List.take_zero, List.take_zero]
  · obtain ⟨p, hp, hlen⟩ := hread hpos
    simp only [PendingNotify.replaced, bytes, hp]
    exact List.take_left' (List.length_take_of_le hlen)

/-- Each slot holds what the log says. -/
structure Delivers (m : ChannelManager) (b : ChUprotoBind) (log : List MuxObs) : Prop where
  mgr : b.mgr = some m
  len_le : ∀ w, (b.pending w).len.toNat ≤ commChannelPendingPayloadSize
  idle : ∀ w, waitingNote m w log = none → ¬ (b.pending w).used
  filled : ∀ w n, waitingNote m w log = some n →
    (b.pending w).used ∧ n.Fills (b.pending w) ∧ m.slotOf n.chId = some w

theorem chUprotoBind_delivers (ctx : Bool) (msgType : UInt8) (m : ChannelManager) :
    Delivers m (chUprotoBind ctx msgType (some m)) [] where
  mgr := rfl
  len_le _ := Nat.zero_le _
  idle _ _ := Bool.false_ne_true
  filled _ _ h := by cases h

namespace Delivers

variable {b : ChUprotoBind} {log : List MuxObs}

theorem note (h : Delivers m b log) (hw : (b.pending w).used) : ∃ n, waitingNote m w log = some n ∧
    n.Fills (b.pending w) ∧ m.slotOf n.chId = some w := by
  cases hn : waitingNote m w log with
  | none => exact absurd hw (h.idle w hn)
  | some n => exact ⟨n, rfl, (h.filled w n hn).2⟩

theorem used_lt (h : Delivers m b log) (i : Fin chMax) (hi : (b.pending i).used) : i.val < m.count := by
  obtain ⟨n, -, -, hslot⟩ := h.note hi
  exact m.slotOf_lt hslot

theorem older (h : Delivers m b log) : Delivers m (bumpAges m b) log where
  mgr := h.mgr
  len_le w := by
    obtain ⟨age, -, hage⟩ := bumpAges_pending m b w
    rw [hage]
    exact h.len_le w
  idle w hn := by
    obtain ⟨age, -, hage⟩ := bumpAges_pending m b w
    rw [hage]
    exact h.idle w hn
  filled w n hn := by
    obtain ⟨hused, hfills, hslot⟩ := h.filled w n hn
    refine ⟨?_, hfills.older m, hslot⟩
    obtain ⟨age, -, hage⟩ := bumpAges_pending m b w
    rw [hage]
    exact hused

theorem of_pending {b' : ChUprotoBind} (h : Delivers m b log) (hmgr : b'.mgr = b.mgr)
    (hpending : b'.pending = b.pending) : Delivers m b' log where
  mgr := hmgr.trans h.mgr
  len_le := hpending ▸ h.len_le
  idle := hpending ▸ h.idle
  filled := hpending ▸ h.filled

theorem accept (h : Delivers m b log) {n : Notification} {i : Fin chMax} (hslot : m.slotOf n.chId = some i)
    (hlen : n.len.toNat ≤ commChannelPendingPayloadSize) :
    Delivers m (b.setPending i ((b.pending i).replaced n.chId n.sid n.flags n.payload n.len))
      (.queued n.chId n.sid n.flags n.payload n.len :: log) where
  mgr := h.mgr
  len_le w := by
    rcases eq_or_ne w i with rfl | hwi
    · rw [b.setPending_self]
      exact hlen
    · rw [b.setPending_of_ne hwi]
      exact h.len_le w
  idle w hn := by
    rw [waitingNote, hslot] at hn
    split_ifs at hn with hiw
    rw [b.setPending_of_ne fun hwi => hiw (congrArg some hwi.symm)]
    exact h.idle w hn
  filled w n' hn := by
    rw [waitingNote, hslot] at hn
    split_ifs at hn with hiw
    · cases hiw
      cases hn
      rw [b.setPending_self]
      exact ⟨rfl, n.fills_replaced _, hslot⟩
    · rw [b.setPending_of_ne fun hwi => hiw (congrArg some hwi.symm)]
      exact h.filled w n' hn

theorem sent (h : Delivers m b log) (w : Fin chMax) (hdr : MuxHdr) (buf : List UInt8) :
    Delivers m (b.clearPending w) (.notify w hdr buf .ok :: log) where
  mgr := h.mgr
  len_le i := by
    rcases eq_or_ne i w with rfl | hiw
    · rw [b.clearPending_self]
      exact h.len_le i
    · rw [b.clearPending_of_ne hiw]
      exact h.len_le i
  idle i hn := by
    rcases eq_or_ne i w with rfl | hiw
    · rw [b.clearPending_self]
      exact Bool.false_ne_true
    · rw [waitingNote, if_neg fun hsame => hiw hsame.1.symm] at hn
      rw [b.clearPending_of_ne hiw]
      exact h.idle i hn
  filled i n hn := by
    rw [waitingNote] at hn
    split_ifs at hn with hwi
    rw [b.clearPending_of_ne fun hiw => hwi ⟨hiw.symm, rfl⟩]
    exact h.filled i n hn

theorem failed (h : Delivers m b log) {err : UprotoError} (herr : err ≠ .ok) (hdr : MuxHdr)
    (buf : List UInt8) : Delivers m b (.notify w hdr buf err :: log) where
  mgr := h.mgr
  len_le := h.len_le
  idle i hn := h.idle i ((if_neg fun hok => herr hok.2).symm.trans hn)
  filled i n hn := h.filled i n ((if_neg fun hok => herr hok.2).symm.trans hn)

/-- What `ch_uproto_queue_notify` accepts always fits the buffer of the arbiter. -/
theorem nextHdr_fits (h : Delivers m b log) (w : Fin chMax) :
    muxEncode commMuxTxBufferSize (b.nextHdr w) (b.pending w).payload ≠ none := by
  rw [Ne, muxEncode_eq_none_iff]
  have hlen := h.len_le w
  have hhdr : (b.nextHdr w).len = (b.pending w).len := rfl
  rintro (hsof | hver | hroom)
  · exact hsof rfl
  · exact hver rfl
  · simp only [hhdr, muxHdrSize, commMuxTxBufferSize, commChannelPendingPayloadSize] at hroom hlen
    omega

theorem sentAs {n : Notification} {buf : List UInt8} (hfills : n.Fills (b.pending w))
    (hbuf : muxEncode commMuxTxBufferSize (b.nextHdr w) (b.pending w).payload = some buf) :
    n.SentAs (b.nextHdr w) buf where
  channel := hfills.chId
  sid := hfills.sid
  flags := hfills.flags
  len := hfills.len
  payload hread := by
    have hhdr : (b.nextHdr w).len = n.len := hfills.len
    have htake : muxEncode commMuxTxBufferSize (b.nextHdr w) n.bytes = some buf := by
      rw [← hbuf, ← hfills.payload hread]
      unfold muxEncode
      dsimp only
      rw [hhdr, List.take_take, Nat.min_self]
    have hbytes : n.bytes.length = (b.nextHdr w).len.toNat := by
      rw [hhdr, Notification.bytes]
      rcases Nat.eq_zero_or_pos n.len.toNat with hzero | hpos
      · rw [hzero]
        rfl
      · obtain ⟨p, hp, hlen⟩ := hread hpos
        rw [hp]
        exact List.length_take_of_le hlen
    have hdecode := muxDecode_encode hbytes htake []
    rwa [List.append_nil] at hdecode

end Delivers

/-! ### Steps -/

/-- Every transmission carries what waited in its slot. -/
def SentWaiting (m : ChannelManager) (log : List MuxObs) : Prop :=
  ∀ before w hdr buf err, (.notify w hdr buf err :: before) <:+ log →
    ∃ n, waitingNote m w before = some n ∧ n.SentAs hdr buf

theorem SentWaiting.cons {log : List MuxObs} {o : MuxObs} (h : SentWaiting m log)
    (ho : ∀ w hdr buf err, o = .notify w hdr buf err →
      ∃ n, waitingNote m w log = some n ∧ n.SentAs hdr buf) : SentWaiting m (o :: log) := by
  intro before w hdr buf err hsuffix
  rcases List.suffix_cons_iff.mp hsuffix with heq | hsuffix
  · cases heq
    exact ho w hdr buf err rfl
  · exact h before w hdr buf err hsuffix

structure MuxLink.Delivering (m : ChannelManager) (x : MuxLink σ) : Prop where
  slots : Delivers m x.bind x.log
  sent : SentWaiting m x.log

def muxStart (ctx : Bool) (msgType : UInt8) (m : ChannelManager) (transport : σ) : MuxLink σ :=
  ⟨chUprotoBind ctx msgType (some m), transport, []⟩

theorem muxStart_delivering (ctx : Bool) (msgType : UInt8) (m : ChannelManager) (transport : σ) :
    (muxStart ctx msgType m transport).Delivering m where
  slots := chUprotoBind_delivers ctx msgType m
  sent _ _ _ _ _ hsuffix := absurd (List.suffix_nil.mp hsuffix) (List.cons_ne_nil _ _)

namespace MuxLink

variable {x : MuxLink σ}

theorem step_queueNotify (send : SendNotify σ) (h : x.bind.mgr = some m) (n : Notification) :
    x.step send (.queueNotify n.chId n.sid n.flags n.payload n.len) = x ∨
      ∃ i, m.slotOf n.chId = some i ∧ n.len.toNat ≤ commChannelPendingPayloadSize ∧
        x.step send (.queueNotify n.chId n.sid n.flags n.payload n.len) =
          { x with
            bind := x.bind.setPending i ((x.bind.pending i).replaced n.chId n.sid n.flags n.payload n.len)
            log := .queued n.chId n.sid n.flags n.payload n.len :: x.log } := by
  have hqueued := chUprotoQueueNotify_queued h n.chId n.sid n.flags n.payload n.len
  unfold step
  dsimp only
  generalize chUprotoQueueNotify x.bind n.chId n.sid n.flags n.payload n.len = result at hqueued ⊢
  cases hqueued with
  | refused => exact .inl rfl
  | accepted i hslot hlen => exact .inr ⟨i, hslot, hlen, rfl⟩

theorem Delivering.step (h : x.Delivering m) (input : MuxInput) : (x.step send input).Delivering m := by
  cases input with
  | queueNotify chId sid flags payload len =>
    rcases step_queueNotify send h.slots.mgr ⟨chId, sid, flags, payload, len⟩ with heq | ⟨i, hslot, hlen, heq⟩
    · rw [heq]
      exact h
    · rw [heq]
      exact ⟨h.slots.accept hslot hlen, h.sent.cons nofun⟩
  | arbiterTick =>
    have hticked := chUprotoArbiterTick_ticked send h.slots.mgr h.slots.used_lt
    change (chUprotoArbiterTick send x).Delivering m
    generalize chUprotoArbiterTick send x = y at hticked ⊢
    cases hticked with
    | off hctx => exact h
    | idle hctx hidle => exact ⟨h.slots.older, h.sent⟩
    | dropped w rrCursor hctx hnext hw hchoose hbuf => exact absurd hbuf (h.slots.older.nextHdr_fits w)
    | sent w rrCursor hctx hnext hw hchoose buf hbuf err transport hsend =>
      have hchosen : Delivers m (x.bind.chosen m w rrCursor) x.log := h.slots.older.of_pending rfl rfl
      obtain ⟨n, hnote, hfills, -⟩ := h.slots.older.note hw
      refine ⟨?_, h.sent.cons ?_⟩
      · dsimp only
        split_ifs with herr
        · rw [herr]
          exact hchosen.sent w _ buf
        · exact hchosen.failed herr _ buf
      · rintro _ _ _ _ ⟨⟩
        exact ⟨n, hnote, Delivers.sentAs hfills hbuf⟩

theorem Delivering.run (h : x.Delivering m) (inputs : List MuxInput) : (x.run send inputs).Delivering m := by
  induction inputs generalizing x with
  | nil => exact h
  | cons input inputs ih => exact ih (h.step input)

theorem run_cons (send : SendNotify σ) (x : MuxLink σ) (input : MuxInput) (inputs : List MuxInput) :
    x.run send (input :: inputs) = (x.step send input).run send inputs := rfl

theorem run_append (send : SendNotify σ) (x : MuxLink σ) (inputs rest : List MuxInput) :
    x.run send (inputs ++ rest) = (x.run send inputs).run send rest := List.foldl_append

theorem new_eq_singleton {log new : List MuxObs} {o : MuxObs} (h : o :: log = new ++ log) : new = [o] :=
  List.append_cancel_right (show new ++ log = [o] ++ log from h.symm)

/-- A tick that does not send from slot `w` leaves the content of the slot. -/
theorem Delivering.tick_pending (h : x.Delivering m) (hctx : x.bind.ctx) {new : List MuxObs}
    (hlog : (x.step send .arbiterTick).log = new ++ x.log) (hnew : ∀ o ∈ new, ¬ o.SentFor w) :
    (x.step send .arbiterTick).bind.pending w = (bumpAges m x.bind).pending w := by
  have hticked := chUprotoArbiterTick_ticked send h.slots.mgr h.slots.used_lt
  change (chUprotoArbiterTick send x).log = _ at hlog
  change (chUprotoArbiterTick send x).bind.pending w = _
  generalize chUprotoArbiterTick send x = y at hticked hlog ⊢
  cases hticked with
  | off hoff => exact absurd hctx hoff
  | idle hctx hidle => rfl
  | dropped i rrCursor hctx hnext hw hchoose hbuf => exact absurd hbuf (h.slots.older.nextHdr_fits i)
  | sent i rrCursor hctx hnext hw hchoose buf hbuf err transport hsend =>
    have hmem := hnew _ (new_eq_singleton hlog ▸ List.mem_singleton_self _)
    dsimp only
    split_ifs with herr
    · rw [ChUprotoBind.clearPending_of_ne _ fun hwi => hmem ⟨hwi.symm, herr⟩]
      rfl
    · rfl

/-- A step that neither sends from slot `w` nor accepts for it leaves its content and does not
    reset its age. -/
theorem Delivering.step_pending (h : x.Delivering m) {input : MuxInput} {new : List MuxObs}
    (hlog : (x.step send input).log = new ++ x.log)
    (hnew : ∀ o ∈ new, ¬ o.AcceptedFor m w ∧ ¬ o.SentFor w) :
    ∃ age, (x.bind.pending w).age ≤ age ∧
      (x.step send input).bind.pending w = { x.bind.pending w with age := age } := by
  cases input with
  | queueNotify chId sid flags payload len =>
    rcases step_queueNotify send h.slots.mgr ⟨chId, sid, flags, payload, len⟩ with
      heq | ⟨i, hslot, hlen, heq⟩
    · rw [heq]
      exact ⟨_, Nat.le_refl _, rfl⟩
    · rw [heq] at hlog ⊢
      have hmem := (hnew _ (new_eq_singleton hlog ▸ List.mem_singleton_self _)).1
      have hwi : w ≠ i := fun heq => hmem (heq ▸ hslot)
      dsimp only
      rw [x.bind.setPending_of_ne hwi]
      exact ⟨_, Nat.le_refl _, rfl⟩
  | arbiterTick =>
    by_cases hctx : x.bind.ctx
    · rw [h.tick_pending hctx hlog fun o ho => (hnew o ho).2]
      exact bumpAges_pending m x.bind w
    · have hoff : x.step send .arbiterTick = x := if_pos (.inl hctx)
      rw [hoff]
      exact ⟨_, Nat.le_refl _, rfl⟩

theorem run_cons_new {input : MuxInput} {inputs : List MuxInput} {new : List MuxObs}
    (hlog : (x.run send (input :: inputs)).log = new ++ x.log) :
    ∃ first rest, new = rest ++ first ∧ (x.step send input).log = first ++ x.log ∧
      ((x.step send input).run send inputs).log = rest ++ (x.step send input).log := by
  obtain ⟨first, hfirst⟩ := x.step_log send input
  obtain ⟨rest, hrest⟩ := (x.step send input).run_log send inputs
  have hboth : new ++ x.log = (rest ++ first) ++ x.log := by
    rw [← hlog, run_cons, ← hrest, ← hfirst, List.append_assoc]
  exact ⟨first, rest, List.append_cancel_right hboth, hfirst.symm, hrest.symm⟩

theorem Delivering.run_pending (h : x.Delivering m) {inputs : List MuxInput} {new : List MuxObs}
    (hlog : (x.run send inputs).log = new ++ x.log)
    (hnew : ∀ o ∈ new, ¬ o.AcceptedFor m w ∧ ¬ o.SentFor w) :
    ∃ age, (x.bind.pending w).age ≤ age ∧
      (x.run send inputs).bind.pending w = { x.bind.pending w with age := age } := by
  induction inputs generalizing x new with
  | nil => exact ⟨_, Nat.le_refl _, rfl⟩
  | cons input inputs ih =>
    obtain ⟨first, rest, hsplit, hfirst, hrest⟩ := run_cons_new hlog
    rw [hsplit] at hnew
    obtain ⟨age, hage, hstep⟩ := h.step_pending hfirst fun o ho => hnew o (List.mem_append_right _ ho)
    obtain ⟨age', hage', hrun⟩ := ih (h.step input) hrest fun o ho => hnew o (List.mem_append_left _ ho)
    rw [hstep] at hage' hrun
    exact ⟨age', hage.trans hage', hrun⟩

theorem queued_of_mem_run {inputs : List MuxInput} {new : List MuxObs} {n : Notification}
    (hlog : (x.run send inputs).log = new ++ x.log)
    (hn : .queued n.chId n.sid n.flags n.payload n.len ∈ new) :
    .queueNotify n.chId n.sid n.flags n.payload n.len ∈ inputs := by
  induction inputs generalizing x new with
  | nil =>
    rw [List.self_eq_append_left.mp hlog] at hn
    cases hn
  | cons input inputs ih =>
    obtain ⟨first, rest, hsplit, hfirst, hrest⟩ := run_cons_new hlog
    rw [hsplit] at hn
    rcases List.mem_append.mp hn with hn | hn
    · exact List.mem_cons_of_mem _ (ih hrest hn)
    rcases x.step_logs send input with heq | ⟨o, hlogs, heq⟩
    · rw [List.append_left_eq_self.mp (hfirst.symm.trans heq)] at hn
      cases hn
    · rw [new_eq_singleton (heq.symm.trans hfirst), List.mem_singleton] at hn
      cases hn
      cases hlogs
      exact List.mem_cons_self

end MuxLink

/-! ### Keep-latest and at-most-once -/

def MuxInput.Readable : MuxInput → Prop
  | .queueNotify chId sid flags payload len => Notification.Readable ⟨chId, sid, flags, payload, len⟩
  | .arbiterTick => True

theorem mem_of_latestNote {log : List MuxObs} {n : Notification} (h : latestNote m w log = some n) :
    .queued n.chId n.sid n.flags n.payload n.len ∈ log := by
  induction log with
  | nil => cases h
  | cons o log ih =>
    cases o with
    | queued chId sid flags payload len =>
      rw [latestNote] at h
      split_ifs at h with hslot
      · cases h
        exact List.mem_cons_self
      · exact List.mem_cons_of_mem _ (ih h)
    | notify => exact List.mem_cons_of_mem _ (ih h)

/-- Keep-latest and at-most-once. A frame carries the latest notification accepted for its slot,
    between two successful sends of a slot a notification is accepted for it, and an item whose send
    failed stays as it is, with its age not reset, until it is sent or replaced. -/
theorem chUprotoArbiterTick_keepLatest (send : SendNotify σ) (m : ChannelManager) (ctx : Bool)
    (msgType : UInt8) (transport : σ) (inputs : List MuxInput) (hinputs : ∀ i ∈ inputs, i.Readable) :
    let x := (muxStart ctx msgType m transport).run send inputs
    (∀ before w hdr buf err, (.notify w hdr buf err :: before) <:+ x.log →
      ∃ n, latestNote m w before = some n ∧ hdr.channel = n.chId ∧ hdr.sid = n.sid ∧
        hdr.flags = n.flags ∧ muxDecode buf buf.length = some (hdr, n.bytes)) ∧
    (∀ before between w hdr hdr' buf buf' err,
      (.notify w hdr' buf' err :: (between ++ .notify w hdr buf .ok :: before)) <:+ x.log →
        ∃ o ∈ between, o.AcceptedFor m w) ∧
    ∀ rest w hdr buf err new, (x.step send .arbiterTick).log = .notify w hdr buf err :: x.log →
      err ≠ .ok → (x.run send (.arbiterTick :: rest)).log = new ++ x.log →
      (∀ o ∈ new, ¬ o.AcceptedFor m w ∧ ¬ o.SentFor w) →
        (x.bind.pending w).used ∧ ∃ age, (x.bind.pending w).age ≤ age ∧
          (x.run send (.arbiterTick :: rest)).bind.pending w = { x.bind.pending w with age := age } := by
  intro x
  have hx : x.Delivering m := (muxStart_delivering ctx msgType m transport).run inputs
  refine ⟨?_, ?_, ?_⟩
  · intro before w hdr buf err hsuffix
    obtain ⟨n, hnote, hsent⟩ := hx.sent before w hdr buf err hsuffix
    have hlatest := latestNote_of_waitingNote hnote
    have hmem := hsuffix.subset (List.mem_cons_of_mem _ (mem_of_latestNote hlatest))
    have hasked := MuxLink.queued_of_mem_run (x := muxStart ctx msgType m transport) (n := n)
      (List.append_nil x.log).symm hmem
    exact ⟨n, hlatest, hsent.channel, hsent.sid, hsent.flags, hsent.payload (hinputs _ hasked)⟩
  · intro before between w hdr hdr' buf buf' err hsuffix
    obtain ⟨n, hnote, -⟩ := hx.sent _ _ _ _ _ hsuffix
    have hok : MuxObs.SentFor w (.notify w hdr buf .ok) := ⟨rfl, rfl⟩
    exact exists_accepted_of_waitingNote hok hnote
  · intro rest w hdr buf err new hfailed herr hlog hnew
    have hstep : (x.step send .arbiterTick).Delivering m := hx.step .arbiterTick
    obtain ⟨n, hnote, -⟩ := hstep.sent x.log w hdr buf err (hfailed ▸ List.suffix_rfl)
    exact ⟨(hx.slots.filled w n hnote).1, hx.run_pending hlog hnew⟩

theorem twoChannelsInputs_readable : ∀ i ∈ twoChannelsInputs, i.Readable := by
  simp [twoChannelsInputs, MuxInput.Readable, Notification.Readable]

theorem chUprotoArbiterTick_keepLatest_two :
    let x := (muxStart true 0x25 twoChannels ⟨uprotoInit true true none, 0, []⟩).run
      (uprotoNotify quietEnv) twoChannelsInputs
    x.log.length = 5 ∧ ∀ before w hdr buf err, (.notify w hdr buf err :: before) <:+ x.log →
      ∃ n, latestNote twoChannels w before = some n ∧ hdr.channel = n.chId ∧ hdr.sid = n.sid ∧
        hdr.flags = n.flags ∧ muxDecode buf buf.length = some (hdr, n.bytes) :=
  ⟨by decide +kernel, (chUprotoArbiterTick_keepLatest (uprotoNotify quietEnv) twoChannels true 0x25
    ⟨uprotoInit true true none, 0, []⟩ twoChannelsInputs twoChannelsInputs_readable).1⟩

/-! ### What becomes of a notification -/

namespace Notification

def input (n : Notification) : MuxInput := .queueNotify n.chId n.sid n.flags n.payload n.len

def accepted (n : Notification) : MuxObs := .queued n.chId n.sid n.flags n.payload n.len

def TransmittedIn (n : Notification) (log : List MuxObs) : Prop :=
  ∃ w hdr buf, .notify w hdr buf .ok ∈ log ∧ n.SentAs hdr buf

def SupersededIn (n : Notification) (log : List MuxObs) : Prop :=
  ∃ n' : Notification, n'.chId = n.chId ∧ n'.accepted ∈ log

def Waits (n : Notification) (m : ChannelManager) (b : ChUprotoBind) : Prop :=
  ∃ w, m.slotOf n.chId = some w ∧ (b.pending w).used ∧ n.Fills (b.pending w)

end Notification

def MuxInput.isTick : MuxInput → Bool
  | .arbiterTick => true
  | .queueNotify _ _ _ _ _ => false

namespace MuxLink

variable {x : MuxLink σ}

theorem Delivering.step_ctx (h : x.Delivering m) (input : MuxInput) :
    (x.step send input).bind.ctx = x.bind.ctx := by
  cases input with
  | queueNotify chId sid flags payload len =>
    rcases step_queueNotify send h.slots.mgr ⟨chId, sid, flags, payload, len⟩ with heq | ⟨i, -, -, heq⟩
    · rw [heq]
    · rw [heq]
      rfl
  | arbiterTick =>
    have hticked := chUprotoArbiterTick_ticked send h.slots.mgr h.slots.used_lt
    change (chUprotoArbiterTick send x).bind.ctx = _
    generalize chUprotoArbiterTick send x = y at hticked ⊢
    cases hticked with
    | off | idle | dropped => rfl
    | sent w rrCursor hctx hnext hw hchoose buf hbuf err transport hsend =>
      dsimp only
      split_ifs <;> rfl

theorem Delivering.run_ctx (h : x.Delivering m) (inputs : List MuxInput) :
    (x.run send inputs).bind.ctx = x.bind.ctx := by
  induction inputs generalizing x with
  | nil => rfl
  | cons input inputs ih => exact (ih (h.step input)).trans (h.step_ctx input)

theorem Delivering.run_age (h : x.Delivering m) (hfair : x.bind.Fair m) (hctx : x.bind.ctx)
    (hused : (x.bind.pending w).used) {inputs : List MuxInput} {new : List MuxObs}
    (hlog : (x.run send inputs).log = new ++ x.log)
    (hnew : ∀ o ∈ new, ¬ o.AcceptedFor m w ∧ ¬ o.SentFor w)
    (hsent : ∀ slot hdr buf err, .notify slot hdr buf err ∈ (x.run send inputs).log → err = .ok) :
    (x.bind.pending w).age + inputs.countP MuxInput.isTick ≤ 24 := by
  induction inputs generalizing x new with
  | nil => exact hfair.age_le w
  | cons input inputs ih =>
    obtain ⟨first, rest, hsplit, hfirst, hrest⟩ := run_cons_new hlog
    rw [hsplit] at hnew
    have hfirstNew : ∀ o ∈ first, ¬ o.AcceptedFor m w ∧ ¬ o.SentFor w := fun o ho =>
      hnew o (List.mem_append_right _ ho)
    have hstepFair : (x.step send input).bind.Fair m := step_fair hfair input
      fun slot hdr buf err hmem => hsent slot hdr buf err (((x.step send input).run_log send inputs).subset hmem)
    obtain ⟨age, hage, hpending⟩ := h.step_pending hfirst hfirstNew
    have hnext := ih (h.step input) hstepFair (by rwa [h.step_ctx]) (by rw [hpending]; exact hused) hrest
      (fun o ho => hnew o (List.mem_append_left _ ho)) hsent
    cases input with
    | queueNotify chId sid flags payload len =>
      rw [hpending] at hnext
      rw [List.countP_cons_of_neg Bool.false_ne_true]
      exact (Nat.add_le_add_right hage _).trans hnext
    | arbiterTick =>
      rw [h.tick_pending hctx hfirst fun o ho => (hfirstNew o ho).2, hfair.bumpAges_pending, if_pos hused]
        at hnext
      rw [List.countP_cons_of_pos rfl, Nat.add_comm _ 1, ← Nat.add_assoc]
      exact hnext

theorem step_accepted (send : SendNotify σ) (h : x.bind.mgr = some m) {n : Notification}
    (haccepted : (chUprotoQueueNotify x.bind n.chId n.sid n.flags n.payload n.len).1 = true) :
    ∃ i, m.slotOf n.chId = some i ∧ (x.step send n.input).log = n.accepted :: x.log := by
  have hqueued := chUprotoQueueNotify_queued h n.chId n.sid n.flags n.payload n.len
  unfold step Notification.input
  dsimp only
  generalize chUprotoQueueNotify x.bind n.chId n.sid n.flags n.payload n.len = result at hqueued haccepted ⊢
  cases hqueued with
  | refused => cases haccepted
  | accepted i hslot hlen => exact ⟨i, hslot, rfl⟩

end MuxLink

/-- The first entry that takes the item out of slot `w`, or none. -/
theorem exists_first_settled (m : ChannelManager) (w : Fin chMax) (new : List MuxObs) :
    (∀ o ∈ new, ¬ o.AcceptedFor m w ∧ ¬ o.SentFor w) ∨
      ∃ after o before, new = after ++ o :: before ∧ (o.AcceptedFor m w ∨ o.SentFor w) ∧
        ∀ o ∈ before, ¬ o.AcceptedFor m w ∧ ¬ o.SentFor w := by
  induction new with
  | nil => exact .inl nofun
  | cons o new ih =>
    rcases ih with hnone | ⟨after, first, before, hsplit, hfirst, hbefore⟩
    · by_cases ho : o.AcceptedFor m w ∨ o.SentFor w
      · exact .inr ⟨[], o, new, rfl, ho, hnone⟩
      · exact .inl (List.forall_mem_cons.mpr ⟨not_or.mp ho, hnone⟩)
    · exact .inr ⟨o :: after, first, before, congrArg (List.cons o) hsplit, hfirst, hbefore⟩

/-- The first thing that happens to the slot of a waiting notification transmits it or replaces it. -/
theorem MuxLink.Delivering.settled {y : MuxLink σ} (hy : y.Delivering m) {n : Notification}
    (hslot : m.slotOf n.chId = some w) {after before log : List MuxObs} {o : MuxObs}
    (hwaiting : waitingNote m w log = some n) (hlog : y.log = after ++ o :: (before ++ log))
    (ho : o.AcceptedFor m w ∨ o.SentFor w) (hbefore : ∀ o ∈ before, ¬ o.AcceptedFor m w ∧ ¬ o.SentFor w) :
    n.TransmittedIn (after ++ o :: before) ∨ n.SupersededIn (after ++ o :: before) := by
  have hmem : o ∈ after ++ o :: before := List.mem_append_right _ List.mem_cons_self
  cases o with
  | queued chId sid flags payload len =>
    have hsame : m.slotOf chId = some w := ho.resolve_right id
    obtain ⟨ch, hch, hid⟩ := m.slotOf_some hslot
    obtain ⟨ch', hch', hid'⟩ := m.slotOf_some hsame
    rw [hch, Option.some.injEq] at hch'
    refine .inr ⟨⟨chId, sid, flags, payload, len⟩, ?_, hmem⟩
    rw [← hid, ← hid', hch']
  | notify slot hdr buf err =>
    obtain ⟨rfl, rfl⟩ := ho.resolve_left id
    refine .inl ⟨slot, hdr, buf, hmem, ?_⟩
    obtain ⟨n', hn', hsentAs⟩ := hy.sent (before ++ log) slot hdr buf .ok (hlog ▸ List.suffix_append _ _)
    rw [waitingNote_append hbefore, hwaiting] at hn'
    cases hn'
    exact hsentAs

/-- What becomes of an accepted notification. It is transmitted, or replaced by a later one of
    its channel, whatever the service ids, or it waits in its slot. It does not wait for long
    while sends succeed. -/
theorem chUprotoQueueNotify_settled (send : SendNotify σ) (m : ChannelManager) (ctx : Bool)
    (msgType : UInt8) (transport : σ) (pre post : List MuxInput) (n : Notification)
    (haccepted : (chUprotoQueueNotify ((muxStart ctx msgType m transport).run send pre).bind
      n.chId n.sid n.flags n.payload n.len).1 = true) :
    let x := (muxStart ctx msgType m transport).run send pre
    let y := (muxStart ctx msgType m transport).run send (pre ++ n.input :: post)
    ∃ new, y.log = new ++ n.accepted :: x.log ∧
      (n.TransmittedIn new ∨ n.SupersededIn new ∨ n.Waits m y.bind) ∧
      (ctx = true → (∀ slot hdr buf err, .notify slot hdr buf err ∈ y.log → err = .ok) →
        24 < post.countP MuxInput.isTick → n.TransmittedIn new ∨ n.SupersededIn new) := by
  intro x y
  have hx : x.Delivering m := (muxStart_delivering ctx msgType m transport).run pre
  have hxy : y = (x.step send n.input).run send post := MuxLink.run_append send _ pre _
  obtain ⟨w, hslot, hstep⟩ := MuxLink.step_accepted send hx.slots.mgr haccepted
  obtain ⟨new, hnew⟩ := (x.step send n.input).run_log send post
  rw [← hxy] at hnew
  have hx' : (x.step send n.input).Delivering m := hx.step n.input
  have hy : y.Delivering m := hxy ▸ hx'.run post
  have hwaiting : waitingNote m w (x.step send n.input).log = some n := by
    rw [hstep]
    exact if_pos hslot
  refine ⟨new, by rw [← hnew, hstep], ?_⟩
  rcases exists_first_settled m w new with hnone | ⟨after, o, before, hsplit, ho, hbefore⟩
  · have hkept : waitingNote m w y.log = some n := by
      rw [← hnew, waitingNote_append hnone, hwaiting]
    obtain ⟨hused, hfills, -⟩ := hy.slots.filled w n hkept
    refine ⟨.inr (.inr ⟨w, hslot, hused, hfills⟩), fun hctx hsent hticks => ?_⟩
    have hbefore : ∀ slot hdr buf err, .notify slot hdr buf err ∈ (x.step send n.input).log → err = .ok := by
      intro slot hdr buf err hmem
      exact hsent slot hdr buf err (hnew ▸ List.mem_append_right new hmem)
    have hfair : x.bind.Fair m := MuxLink.run_fair (chUprotoBind_fair ctx msgType m) pre
      fun slot hdr buf err hmem => hbefore slot hdr buf err ((x.step_log send n.input).subset hmem)
    have hstart : (x.step send n.input).bind.ctx = true := by
      rw [hx.step_ctx, (muxStart_delivering ctx msgType m transport).run_ctx, ← hctx]
      rfl
    have hage := hx'.run_age (MuxLink.step_fair hfair n.input hbefore) hstart
      (hx'.slots.filled w n hwaiting).1 (hxy ▸ hnew.symm) hnone (hxy ▸ hsent)
    omega
  · have hlog : y.log = after ++ o :: (before ++ (x.step send n.input).log) := by
      rw [← hnew, hsplit, List.append_assoc, List.cons_append]
    have hsettled := hsplit ▸ hy.settled hslot hwaiting hlog ho hbefore
    exact ⟨hsettled.elim .inl (.inr ∘ .inl), fun _ _ _ => hsettled⟩

theorem chUprotoQueueNotify_settled_two :
    let x := (muxStart true 0x25 twoChannels ⟨uprotoInit true true none, 0, []⟩).run (uprotoNotify quietEnv) []
    let n : Notification := ⟨1, 0, 0, some [7], 1⟩
    (chUprotoQueueNotify x.bind n.chId n.sid n.flags n.payload n.len).1 = true ∧
      ∃ new, (x.run (uprotoNotify quietEnv) [n.input, .arbiterTick]).log = new ++ n.accepted :: x.log ∧
        (n.TransmittedIn new ∨ n.SupersededIn new ∨
          n.Waits twoChannels (x.run (uprotoNotify quietEnv) [n.input, .arbiterTick]).bind) := by
  intro x n
  have haccepted : (chUprotoQueueNotify x.bind n.chId n.sid n.flags n.payload n.len).1 = true := by
    decide +kernel
  obtain ⟨new, hnew, hsettled, -⟩ := chUprotoQueueNotify_settled (uprotoNotify quietEnv) twoChannels true
    0x25 ⟨uprotoInit true true none, 0, []⟩ [] [.arbiterTick] n haccepted
  exact ⟨haccepted, new, hnew, hsettled⟩

theorem accepted_of_waitingNote {new log : List MuxObs} {n : Notification}
    (h : waitingNote m w (new ++ log) = some n) : waitingNote m w log = some n ∨ n.accepted ∈ new := by
  induction new with
  | nil => exact .inl h
  | cons o new ih =>
    have htail (h : waitingNote m w (new ++ log) = some n) :
        waitingNote m w log = some n ∨ n.accepted ∈ o :: new :=
      (ih h).imp_right (List.mem_cons_of_mem o)
    cases o with
    | queued chId sid flags payload len =>
      rw [List.cons_append, waitingNote] at h
      split_ifs at h with hslot
      · cases h
        exact .inr List.mem_cons_self
      · exact htail h
    | notify slot hdr buf err =>
      rw [List.cons_append, waitingNote] at h
      split_ifs at h
      exact htail h

theorem MuxLink.Delivering.sent_later {x : MuxLink σ} {inputs : List MuxInput} (h : x.Delivering m)
    {new : List MuxObs} (hlog : (x.run send inputs).log = new ++ x.log) {hdr : MuxHdr} {buf : List UInt8}
    {err : UprotoError} (hmem : .notify w hdr buf err ∈ new) :
    ∃ n : Notification, n.SentAs hdr buf ∧ (waitingNote m w x.log = some n ∨ n.input ∈ inputs) := by
  obtain ⟨after, before, hsplit⟩ := List.append_of_mem hmem
  have hsuffix : (.notify w hdr buf err :: (before ++ x.log)) <:+ (x.run send inputs).log := by
    rw [hlog, hsplit, List.append_assoc]
    exact List.suffix_append after _
  obtain ⟨n, hnote, hsent⟩ := (h.run inputs).sent _ _ _ _ _ hsuffix
  refine ⟨n, hsent, (accepted_of_waitingNote hnote).imp_right fun haccepted => ?_⟩
  apply queued_of_mem_run hlog
  rw [hsplit]
  exact List.mem_append_right _ (List.mem_cons_of_mem _ haccepted)

/-- The gimbal channel, alone. -/
def gimbalChannel : ChannelManager := (chmgrRegister chmgrInit ⟨4, 3⟩).getD chmgrInit

def refereeNote : Notification := ⟨4, 0x204, 0, some (List.replicate 28 0), 28⟩

def stateNote : Notification := ⟨4, 0x201, 0, some (List.replicate 30 0), 30⟩

/-- A state published before the next tick erases the referee message, and without another referee
    message it is neither transmitted nor superseded, however many ticks follow. -/
theorem chUprotoQueueNotify_other_kind_lost : ∃ x : MuxLink Link,
    x = (muxStart true 0x25 gimbalChannel ⟨uprotoInit true true none, 0, []⟩).run (uprotoNotify quietEnv)
      [refereeNote.input, stateNote.input] ∧ x.log = [stateNote.accepted, refereeNote.accepted] ∧
    ∀ rest new, (x.run (uprotoNotify quietEnv) rest).log = new ++ x.log →
      (∀ n : Notification, n.input ∈ rest → n.chId = refereeNote.chId → n.sid ≠ refereeNote.sid) →
        ¬ refereeNote.TransmittedIn new ∧
          ¬ ∃ n : Notification, n.chId = refereeNote.chId ∧ n.sid = refereeNote.sid ∧ n.accepted ∈ new := by
  let start := muxStart true 0x25 gimbalChannel (⟨uprotoInit true true none, 0, []⟩ : Link)
  let x := start.run (uprotoNotify quietEnv) [refereeNote.input, stateNote.input]
  have hx : x.Delivering gimbalChannel := (muxStart_delivering _ _ _ _).run _
  have hxlog : x.log = [stateNote.accepted, refereeNote.accepted] := by decide +kernel
  refine ⟨x, rfl, hxlog, fun rest new hlog hrest => ⟨?_, ?_⟩⟩
  · rintro ⟨w, hdr, buf, hmem, hsent⟩
    obtain ⟨n, hn, hwaits | hasked⟩ := hx.sent_later hlog hmem
    · rw [hxlog, Notification.accepted, Notification.accepted, waitingNote, waitingNote] at hwaits
      split_ifs at hwaits with hslot hslot'
      · cases hwaits
        exact absurd (hn.sid.symm.trans hsent.sid) (by decide)
      · exact absurd hslot' hslot
      · cases hwaits
    · exact hrest n hasked (hn.channel.symm.trans hsent.channel) (hn.sid.symm.trans hsent.sid)
  · rintro ⟨n, hchId, hsid, hmem⟩
    exact hrest n (MuxLink.queued_of_mem_run hlog hmem) hchId hsid

end SpVision
