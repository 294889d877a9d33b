import SpVision.Comm.Delivery

set_option autoImplicit false

/-!
# Sequence numbers

Every attempt to send draws the next number of a counter, which the channels of equal id
modulo `CH_MAX` share. The numbers of a channel that reach the wire have no gap as long as
nothing else draws from its counter.
-/
namespace SpVision

variable {σ : Type}

/-! ### Sending at once -/

/-- A null payload leaves the place of the payload in the buffer as it is; `stale` are the bytes
    there. -/
def chUprotoSendNotify (send : SendNotify σ) (x : MuxLink σ) (chId : UInt8) (sid : UInt16) (flags : UInt8)
    (payload : Option (List UInt8)) (stale : ℕ → UInt8) (len : UInt16) : Bool × MuxLink σ :=
  if ¬ x.bind.ctx then (false, x)
  else
    let counter := Fin.ofNat chMax chId.toNat
    let seq := x.bind.seqCounters counter + 1
    let b := { x.bind with seqCounters := Function.update x.bind.seqCounters counter seq }
    let hdr : MuxHdr :=
      { sof := muxSof, ver := muxVer, channel := chId, flags := flags, len := len, sid := sid
        seq := seq, rsv := 0 }
    match muxEncode commMuxTxBufferSize hdr (payload.getD ((List.range len.toNat).map stale)) with
    | none => (false, { x with bind := b })
    | some buf =>
      let (err, transport) := send b.msgType buf x.transport
      (err = .ok, { x with bind := b, transport := transport })

/-! ### What the transport is given -/

/-- A call of the transport: the frame it is given and its answer. -/
structure MuxSend where
  buf : List UInt8
  err : UprotoError
  deriving DecidableEq, Repr

/-- A frame of channel `c`, by its own header, that is transmitted. -/
def MuxSend.SentBy (c : UInt8) (f : MuxSend) : Prop := (readMuxHdr f.buf).channel = c ∧ f.err = .ok

instance (c : UInt8) (f : MuxSend) : Decidable (f.SentBy c) := inferInstanceAs (Decidable (_ ∧ _))

/-- The transport with the calls of it, the latest first. -/
def recorded (send : SendNotify σ) : SendNotify (σ × List MuxSend) := fun type buf t =>
  let (err, transport) := send type buf t.1
  (err, transport, ⟨buf, err⟩ :: t.2)

/-- The `seq` fields of the transmitted frames of channel `c`, in the order of sending. -/
def sentSeqs (c : UInt8) (sends : List MuxSend) : List UInt32 :=
  ((sends.filter fun f => f.SentBy c).map fun f => (readMuxHdr f.buf).seq).reverse

/-! ### The numbers drawn -/

/-- A number drawn for `channel`, and the frame that the transport is given with it. -/
structure SeqDraw where
  channel : UInt8
  frame : Option MuxSend
  deriving DecidableEq, Repr

def SeqDraw.counter (d : SeqDraw) : Fin chMax := Fin.ofNat chMax d.channel.toNat

def SeqDraw.SentBy (c : UInt8) (d : SeqDraw) : Prop := ∃ f ∈ d.frame, f.SentBy c

instance (c : UInt8) (d : SeqDraw) : Decidable (d.SentBy c) :=
  inferInstanceAs (Decidable (∃ f ∈ d.frame, f.SentBy c))

/-- A draw from the counter of channel `c` that is not a transmitted frame of `c`. -/
def SeqDraw.Other (c : UInt8) (d : SeqDraw) : Prop := d.counter = Fin.ofNat chMax c.toNat ∧ ¬ d.SentBy c

instance (c : UInt8) (d : SeqDraw) : Decidable (d.Other c) := inferInstanceAs (Decidable (_ ∧ _))

def MuxObs.draw? : MuxObs → Option SeqDraw
  | .notify _ hdr buf err => some ⟨hdr.channel, some ⟨buf, err⟩⟩
  | .queued _ _ _ _ _ => none

inductive MuxCall
  | sendNotify (chId : UInt8) (sid : UInt16) (flags : UInt8) (payload : Option (List UInt8))
      (stale : ℕ → UInt8) (len : UInt16)
  | input (i : MuxInput)

/-- A channel binding on a recorded transport and the numbers drawn, the latest first. -/
structure MuxSender (σ : Type) where
  link : MuxLink (σ × List MuxSend)
  draws : List SeqDraw

namespace MuxSender

/-- The calls of the transport so far. -/
def sends (x : MuxSender σ) : List MuxSend := x.link.transport.2

def step (send : SendNotify σ) (x : MuxSender σ) : MuxCall → MuxSender σ
  | .sendNotify chId sid flags payload stale len =>
    let link := (chUprotoSendNotify (recorded send) x.link chId sid flags payload stale len).2
    let new := link.transport.2.take (link.transport.2.length - x.sends.length)
    { link := link, draws := if x.link.bind.ctx then ⟨chId, new.head?⟩ :: x.draws else x.draws }
  | .input i =>
    let link := x.link.step (recorded send) i
    let new := link.log.take (link.log.length - x.link.log.length)
    { link := link, draws := new.filterMap MuxObs.draw? ++ x.draws }

def run (send : SendNotify σ) (x : MuxSender σ) (calls : List MuxCall) : MuxSender σ :=
  calls.foldl (step send) x

def start (ctx : Bool) (msgType : UInt8) (m : ChannelManager) (transport : σ) : MuxSender σ :=
  ⟨muxStart ctx msgType m (transport, []), []⟩

end MuxSender

/-! ### A number counts the draws from its counter -/

def drawsOf (k : Fin chMax) (draws : List SeqDraw) : ℕ := draws.countP fun d => d.counter = k

theorem drawsOf_cons (k : Fin chMax) (d : SeqDraw) (draws : List SeqDraw) :
    drawsOf k (d :: draws) = drawsOf k draws + if d.counter = k then 1 else 0 := by
  simp [drawsOf, List.countP_cons]

theorem drawsOf_eq (c : UInt8) {draws : List SeqDraw}
    (hchannel : ∀ d ∈ draws, ∀ f ∈ d.frame, (readMuxHdr f.buf).channel = d.channel) :
    drawsOf (Fin.ofNat chMax c.toNat) draws =
      draws.countP (fun d => d.SentBy c) + draws.countP (fun d => d.Other c) := by
  induction draws with
  | nil => rfl
  | cons d draws ih =>
    obtain ⟨hfirst, hrest⟩ := List.forall_mem_cons.mp hchannel
    rw [drawsOf_cons, ih hrest, List.countP_cons, List.countP_cons]
    by_cases hsent : d.SentBy c
    · have hcounter : d.counter = Fin.ofNat chMax c.toNat := by
        obtain ⟨f, hf, hc, -⟩ := id hsent
        rw [SeqDraw.counter, ← hfirst f hf, hc]
      simp only [hsent, hcounter, SeqDraw.Other]
      simp
      omega
    · simp only [hsent, SeqDraw.Other, not_false_eq_true, and_true]
      simp
      omega

structure Numbered (b : ChUprotoBind) (draws : List SeqDraw) : Prop where
  counters : ∀ k, b.seqCounters k = UInt32.ofNat (drawsOf k draws)
  drawn : ∀ d before, (d :: before) <:+ draws → ∀ f ∈ d.frame,
    (readMuxHdr f.buf).channel = d.channel ∧
      (readMuxHdr f.buf).seq = UInt32.ofNat (drawsOf d.counter before + 1)

namespace Numbered

variable {b b' : ChUprotoBind} {draws : List SeqDraw}

theorem of_seqCounters (h : Numbered b draws) (heq : b'.seqCounters = b.seqCounters) : Numbered b' draws :=
  ⟨heq ▸ h.counters, h.drawn⟩

theorem draw (h : Numbered b draws) (chId : UInt8) (frame : Option MuxSend) (hframe : ∀ f ∈ frame,
      (readMuxHdr f.buf).channel = chId ∧
        (readMuxHdr f.buf).seq = b.seqCounters (Fin.ofNat chMax chId.toNat) + 1) :
    Numbered (b.drawSeq chId) (⟨chId, frame⟩ :: draws) := by
  have hnext (k : Fin chMax) : b.seqCounters k + 1 = UInt32.ofNat (drawsOf k draws + 1) := by
    rw [h.counters, UInt32.ofNat_add]
    rfl
  constructor
  · intro k
    have hcounter : SeqDraw.counter ⟨chId, frame⟩ = Fin.ofNat chMax chId.toNat := rfl
    rw [drawsOf_cons, hcounter, ChUprotoBind.drawSeq]
    dsimp only
    rcases eq_or_ne (Fin.ofNat chMax chId.toNat) k with rfl | hk
    · rw [Function.update_self, if_pos rfl]
      exact hnext _
    · rw [Function.update_of_ne hk.symm, if_neg hk]
      exact h.counters k
  · intro d before hsuffix
    rcases List.suffix_cons_iff.mp hsuffix with heq | hsuffix
    · cases heq
      exact fun f hf => ⟨(hframe f hf).1, (hframe f hf).2.trans (hnext _)⟩
    · exact h.drawn d before hsuffix

end Numbered

/-! ### Gaps -/

/-- The frames that the transport is given with the numbers drawn. -/
def framesOf (draws : List SeqDraw) : List MuxSend := draws.filterMap SeqDraw.frame

theorem sentSeqs_framesOf_cons {c : UInt8} {d : SeqDraw} (draws : List SeqDraw) {f : MuxSend}
    (hf : f ∈ d.frame) (hsent : f.SentBy c) :
    sentSeqs c (framesOf (d :: draws)) = sentSeqs c (framesOf draws) ++ [(readMuxHdr f.buf).seq] := by
  simp [sentSeqs, framesOf, List.filterMap_cons_some (Option.mem_def.mp hf), hsent]

theorem sentSeqs_framesOf_cons_of_not {c : UInt8} {d : SeqDraw} (draws : List SeqDraw) (hd : ¬ d.SentBy c) :
    sentSeqs c (framesOf (d :: draws)) = sentSeqs c (framesOf draws) := by
  cases hframe : d.frame with
  | none => rw [framesOf, List.filterMap_cons_none hframe, ← framesOf]
  | some f =>
    have hf : ¬ f.SentBy c := fun hsent => hd ⟨f, hframe, hsent⟩
    simp [sentSeqs, framesOf, List.filterMap_cons_some hframe, hf]

theorem sentSeqs_framesOf_length (c : UInt8) (draws : List SeqDraw) :
    (sentSeqs c (framesOf draws)).length = draws.countP fun d => d.SentBy c := by
  induction draws with
  | nil => rfl
  | cons d draws ih =>
    rw [List.countP_cons, ← ih]
    by_cases hd : d.SentBy c
    · obtain ⟨f, hf, hsent⟩ := id hd
      rw [sentSeqs_framesOf_cons draws hf hsent]
      simp [hd]
    · rw [sentSeqs_framesOf_cons_of_not draws hd]
      simp [hd]

/-- The numbers 1, 2, 3, … modulo `2 ^ 32`. -/
def Consecutive (seqs : List UInt32) : Prop := ∀ k s, seqs[k]? = some s → s = UInt32.ofNat (k + 1)

theorem consecutive_append_singleton (seqs : List UInt32) (s : UInt32) :
    Consecutive (seqs ++ [s]) ↔ Consecutive seqs ∧ s = UInt32.ofNat (seqs.length + 1) := by
  constructor
  · refine fun h => ⟨fun k t hk => h k t ?_, h seqs.length s (by simp)⟩
    rw [List.getElem?_append_left (List.getElem?_eq_some_iff.mp hk).1, hk]
  · rintro ⟨h, hs⟩ k t hk
    rcases Nat.lt_or_ge k seqs.length with hlt | hge
    · rw [List.getElem?_append_left hlt] at hk
      exact h k t hk
    · rw [List.getElem?_append_right hge, List.getElem?_singleton] at hk
      split_ifs at hk with hlast
      cases hk
      rw [hs, show k = seqs.length by omega]

theorem ofNat_add_eq_iff (a o : ℕ) : UInt32.ofNat (a + o + 1) = UInt32.ofNat (a + 1) ↔ 2 ^ 32 ∣ o := by
  rw [← UInt32.toNat_inj, UInt32.toNat_ofNat', UInt32.toNat_ofNat']
  omega

theorem Numbered.consecutive_iff {b : ChUprotoBind} {draws : List SeqDraw} (h : Numbered b draws) (c : UInt8) :
    Consecutive (sentSeqs c (framesOf draws)) ↔
      ∀ d before, (d :: before) <:+ draws → d.SentBy c → 2 ^ 32 ∣ before.countP fun e => e.Other c := by
  replace h := h.drawn
  induction draws with
  | nil => exact iff_of_true nofun fun d before hsuffix => absurd (List.suffix_nil.mp hsuffix) (by simp)
  | cons d draws ih =>
    have hsplit : (∀ e before, (e :: before) <:+ d :: draws → e.SentBy c →
          2 ^ 32 ∣ before.countP fun e => e.Other c) ↔
        (d.SentBy c → 2 ^ 32 ∣ draws.countP fun e => e.Other c) ∧
          ∀ e before, (e :: before) <:+ draws → e.SentBy c → 2 ^ 32 ∣ before.countP fun e => e.Other c := by
      constructor
      · intro hall
        exact ⟨hall d draws List.suffix_rfl, fun e before hsuffix =>
          hall e before (hsuffix.trans (List.suffix_cons d draws))⟩
      · rintro ⟨hfirst, hrest⟩ e before hsuffix
        rcases List.suffix_cons_iff.mp hsuffix with heq | hsuffix
        · cases heq
          exact hfirst
        · exact hrest e before hsuffix
    have hrest : Consecutive (sentSeqs c (framesOf draws)) ↔ _ :=
      ih fun e before hsuffix => h e before (hsuffix.trans (List.suffix_cons d draws))
    rw [hsplit, ← hrest]
    by_cases hd : d.SentBy c
    · obtain ⟨f, hf, hsent⟩ := id hd
      obtain ⟨hchannel, hseq⟩ := h d draws List.suffix_rfl f hf
      have hcounter : d.counter = Fin.ofNat chMax c.toNat := by
        rw [SeqDraw.counter, ← hchannel, hsent.1]
      have hdraws : ∀ e ∈ draws, ∀ f ∈ e.frame, (readMuxHdr f.buf).channel = e.channel := by
        intro e he f hf
        obtain ⟨after, before, rfl⟩ := List.append_of_mem he
        have hsuffix : (e :: before) <:+ d :: (after ++ e :: before) :=
          (List.suffix_append after (e :: before)).trans (List.suffix_cons d _)
        exact (h e before hsuffix f hf).1
      rw [sentSeqs_framesOf_cons draws hf hsent, consecutive_append_singleton, sentSeqs_framesOf_length,
        hseq, hcounter, drawsOf_eq c hdraws, ofNat_add_eq_iff, and_comm]
      simp only [hd, true_imp_iff]
    · rw [sentSeqs_framesOf_cons_of_not draws hd]
      simp only [hd, false_imp_iff, true_and]

/-! ### Runs -/

/-- The number goes into the header of the frame that the transport is given. -/
theorem chUprotoSendNotify_cases (send : SendNotify σ) (x : MuxLink (σ × List MuxSend)) (chId : UInt8)
    (sid : UInt16) (flags : UInt8) (payload : Option (List UInt8)) (stale : ℕ → UInt8) (len : UInt16) :
    (¬ x.bind.ctx ∧ (chUprotoSendNotify (recorded send) x chId sid flags payload stale len).2 = x) ∨
      (x.bind.ctx ∧ ∃ (transport : σ) (frame : Option MuxSend),
        (chUprotoSendNotify (recorded send) x chId sid flags payload stale len).2 =
          { x with bind := x.bind.drawSeq chId, transport := (transport, frame.toList ++ x.transport.2) } ∧
        ∀ f ∈ frame, (readMuxHdr f.buf).channel = chId ∧
          (readMuxHdr f.buf).seq = x.bind.seqCounters (Fin.ofNat chMax chId.toNat) + 1) := by
  unfold chUprotoSendNotify
  by_cases hctx : x.bind.ctx
  · rw [if_neg (not_not.mpr hctx)]
    refine .inr ⟨hctx, ?_⟩
    dsimp only
    split
    · exact ⟨x.transport.1, none, rfl, nofun⟩
    case h_2 buf hbuf =>
      have hread := readMuxHdr_encode hbuf []
      rw [List.append_nil] at hread
      refine ⟨(send x.bind.msgType buf x.transport.1).2,
        some ⟨buf, (send x.bind.msgType buf x.transport.1).1⟩, rfl, ?_⟩
      rintro f ⟨⟩
      exact ⟨congrArg MuxHdr.channel hread, congrArg MuxHdr.seq hread⟩
  · rw [if_pos hctx]
    exact .inl ⟨hctx, rfl⟩

namespace MuxSender

variable {send : SendNotify σ} {m : ChannelManager} {x : MuxSender σ}

structure Sequenced (m : ChannelManager) (x : MuxSender σ) : Prop where
  link : x.link.Delivering m
  numbered : Numbered x.link.bind x.draws
  sends : x.sends = framesOf x.draws

theorem start_sequenced (ctx : Bool) (msgType : UInt8) (m : ChannelManager) (transport : σ) :
    (start ctx msgType m transport).Sequenced m where
  link := muxStart_delivering ctx msgType m (transport, [])
  numbered := ⟨fun _ => rfl, fun _ _ hsuffix => absurd (List.suffix_nil.mp hsuffix) (List.cons_ne_nil _ _)⟩
  sends := rfl

theorem take_new_append {α : Type} (new log : List α) :
    (new ++ log).take ((new ++ log).length - log.length) = new := by
  simp

/-- An input adds the draws of the entries it logs. -/
theorem Sequenced.input (h : x.Sequenced m) (i : MuxInput) (new : List MuxObs)
    (hlog : (x.link.step (recorded send) i).log = new ++ x.link.log)
    (hnumbered : Numbered (x.link.step (recorded send) i).bind (new.filterMap MuxObs.draw? ++ x.draws))
    (hsends : (x.link.step (recorded send) i).transport.2 = framesOf (new.filterMap MuxObs.draw? ++ x.draws)) :
    (x.step send (.input i)).Sequenced m := by
  have hdraws : (x.step send (.input i)).draws = new.filterMap MuxObs.draw? ++ x.draws := by
    rw [step]
    dsimp only
    rw [hlog, take_new_append]
  exact ⟨h.link.step i, hdraws ▸ hnumbered, hsends.trans (congrArg framesOf hdraws.symm)⟩

theorem Sequenced.tick (h : x.Sequenced m) : ∃ new : List MuxObs,
    (chUprotoArbiterTick (recorded send) x.link).log = new ++ x.link.log ∧
    Numbered (chUprotoArbiterTick (recorded send) x.link).bind (new.filterMap MuxObs.draw? ++ x.draws) ∧
    (chUprotoArbiterTick (recorded send) x.link).transport.2 =
      framesOf (new.filterMap MuxObs.draw? ++ x.draws) := by
  have hticked := chUprotoArbiterTick_ticked (recorded send) h.link.slots.mgr h.link.slots.used_lt
  generalize chUprotoArbiterTick (recorded send) x.link = y at hticked ⊢
  cases hticked with
  | off hctx => exact ⟨[], rfl, h.numbered, h.sends⟩
  | idle hctx hidle => exact ⟨[], rfl, h.numbered.of_seqCounters rfl, h.sends⟩
  | dropped w rrCursor hctx hnext hw hchoose hbuf => exact absurd hbuf (h.link.slots.older.nextHdr_fits w)
  | sent w rrCursor hctx hnext hw hchoose buf hbuf err transport hsend =>
    have hread := readMuxHdr_encode hbuf []
    rw [List.append_nil] at hread
    refine ⟨[.notify w ((bumpAges m x.link.bind).nextHdr w) buf err], rfl, ?_, ?_⟩
    · refine (h.numbered.draw ((bumpAges m x.link.bind).pending w).chId (some ⟨buf, err⟩) ?_).of_seqCounters ?_
      · rintro f ⟨⟩
        exact ⟨congrArg MuxHdr.channel hread, congrArg MuxHdr.seq hread⟩
      · split_ifs <;> rfl
    · cases hsend
      exact congrArg (List.cons _) h.sends

theorem Sequenced.step (h : x.Sequenced m) (call : MuxCall) : (x.step send call).Sequenced m := by
  cases call with
  | sendNotify chId sid flags payload stale len =>
    unfold MuxSender.step
    dsimp only
    rcases chUprotoSendNotify_cases send x.link chId sid flags payload stale len with
      ⟨hctx, heq⟩ | ⟨hctx, transport, frame, heq, hframe⟩
    · rw [heq, if_neg hctx]
      exact h
    · rw [heq, if_pos hctx]
      dsimp only [MuxSender.sends]
      rw [take_new_append]
      have hhead : frame.toList.head? = frame := by cases frame <;> rfl
      rw [hhead]
      refine ⟨⟨h.link.slots.of_pending rfl rfl, h.link.sent⟩, h.numbered.draw chId frame hframe, ?_⟩
      cases frame with
      | none => exact h.sends
      | some f => exact congrArg (List.cons f) h.sends
  | input i =>
    cases i with
    | arbiterTick =>
      obtain ⟨new, hlog, hnumbered, hsends⟩ := h.tick
      exact h.input .arbiterTick new hlog hnumbered hsends
    | queueNotify chId sid flags payload len =>
      rcases MuxLink.step_queueNotify (recorded send) h.link.slots.mgr ⟨chId, sid, flags, payload, len⟩ with
        heq | ⟨i, -, -, heq⟩
      · refine h.input (.queueNotify chId sid flags payload len) [] ?_ ?_ ?_
        all_goals rw [heq]
        · rfl
        · exact h.numbered
        · exact h.sends
      · refine h.input (.queueNotify chId sid flags payload len)
          [.queued chId sid flags payload len] ?_ ?_ ?_
        all_goals rw [heq]
        · rfl
        · exact h.numbered.of_seqCounters rfl
        · exact h.sends

theorem Sequenced.run (h : x.Sequenced m) (calls : List MuxCall) : (x.run send calls).Sequenced m := by
  induction calls generalizing x with
  | nil => exact h
  | cons call calls ih => exact ih (h.step call)

end MuxSender

/-- Sequence numbers have no gap exactly if each transmitted frame of the channel is drawn when
    the other draws from its counter, the failed sends and those of channels that share it, have come
    round to zero. -/
theorem chUprotoSendNotify_consecutive_iff (send : SendNotify σ) (m : ChannelManager) (ctx : Bool)
    (msgType : UInt8) (transport : σ) (calls : List MuxCall) (c : UInt8) :
    let x := (MuxSender.start ctx msgType m transport).run send calls
    Consecutive (sentSeqs c x.sends) ↔
      ∀ d before, (d :: before) <:+ x.draws → d.SentBy c → 2 ^ 32 ∣ before.countP fun e => e.Other c := by
  intro x
  have hx : x.Sequenced m := (MuxSender.start_sequenced ctx msgType m transport).run calls
  rw [hx.sends]
  exact hx.numbered.consecutive_iff c

/-- A notification that is too long for a frame, and one that is not. -/
theorem chUprotoSendNotify_gap :
    let x := (MuxSender.start true 0x25 twoChannels (⟨uprotoInit true true none, 0, []⟩ : Link)).run
      (uprotoNotify quietEnv)
      [.sendNotify 1 0 0 (some (List.replicate 300 0)) (fun _ => 0) 300, .sendNotify 1 0 0 (some [7]) (fun _ => 0) 1]
    sentSeqs 1 x.sends = [2] ∧ ¬ Consecutive (sentSeqs 1 x.sends) := by
  intro x
  have hseqs : sentSeqs 1 x.sends = [2] := by decide +kernel
  refine ⟨hseqs, fun hconsecutive => ?_⟩
  rw [hseqs] at hconsecutive
  exact absurd (hconsecutive 0 2 rfl) (by decide)

end SpVision
