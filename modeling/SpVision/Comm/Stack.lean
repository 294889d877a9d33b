import SpVision.Comm.Manager
import SpVision.Uproto.Line
import SpVision.Uproto.Serving

set_option autoImplicit false

/-!
# The whole stack, from a pending notification to a channel hook

One side queues notifications and its arbiter sends them over the line; the other side
has registered a handler for their message type. Everything else that either side does
with its context comes in between, in any order.
-/
namespace SpVision
open AllRuns

/-! ### Writes of one message type -/

def UprotoObs.writes (type : UInt8) : UprotoObs → Bool
  | .write _ data _ => wireType data = type
  | _ => false

/-- No slot in use would retransmit a frame of the type. -/
def Session.Spares (type : UInt8) (s : Session) : Prop :=
  ∀ i, (s.slots i).state ≠ .free → wireType (s.slots i).txData ≠ type

/-- The type is used neither by the application nor by the protocol. -/
structure Unused (app : Set UInt8) (type : UInt8) : Prop where
  wire : type ∉ wireTypes app
  helloAck : type ≠ uprotoMsgHelloAck

variable {env : Env} {app : Set UInt8} {type : UInt8}

theorem Session.Spares.update {s : Session} (h : s.Spares type) (slot : Fin uprotoMaxTransactions)
    {txn : UprotoTransaction} (htxn : txn.state ≠ .free → wireType txn.txData ≠ type) :
    ∀ i, (Function.update s.slots slot txn i).state ≠ .free →
      wireType (Function.update s.slots slot txn i).txData ≠ type := by
  intro i
  by_cases hi : i = slot
  · rw [hi, Function.update_self]
    exact htxn
  · rw [Function.update_of_ne hi]
    exact h i

theorem wireType_ne {data : List UInt8} (hunused : Unused app type) (hdata : wireType data ∈ wireTypes app) :
    wireType data ≠ type := fun heq => hunused.wire (heq ▸ hdata)

/-- Nothing but a send of the application writes a frame of an unused type. -/
theorem SessionStep.spares {s s' : Session} (hstep : SessionStep env app s s') (hunused : Unused app type)
    (h : s.Spares type) :
    s'.Spares type ∧ s'.log.filter (UprotoObs.writes type) = s.log.filter (UprotoObs.writes type) := by
  have hwrite {data : List UInt8} (hdata : wireType data ≠ type) (index sent : ℕ) (log : List UprotoObs) :
      (.write index data sent :: log).filter (UprotoObs.writes type) = log.filter (UprotoObs.writes type) :=
    List.filter_cons_of_neg (by simpa [UprotoObs.writes] using hdata)
  cases hstep with
  | call hcall =>
    cases hcall with
    | ask => exact ⟨h, rfl⟩
    | send data sent htype => exact ⟨h, hwrite (wireType_ne hunused htype) _ _ _⟩
    | issue => exact ⟨h, rfl⟩
    | prepare slot txn hslot htxn => exact ⟨h.update slot fun hne => absurd htxn hne, rfl⟩
    | accept slot txn sentAt readAt hslot htxn hretry hid htype =>
      exact ⟨h.update slot fun _ => wireType_ne hunused htype, rfl⟩
    | startHandshake => exact ⟨h, rfl⟩
  | hello data sent htype =>
    refine ⟨h, hwrite ?_ _ _ _⟩
    rw [htype]
    exact hunused.helloAck.symm
  | establish => exact ⟨h, rfl⟩
  | lapse => exact ⟨h, rfl⟩
  | crcError => exact ⟨h, rfl⟩
  | retransmit slot readAt sent ht hretry =>
    have hslot := h slot (by rw [ht.waiting]; decide)
    exact ⟨h.update slot fun _ => hslot, hwrite hslot _ _ _⟩
  | release slot hslot => exact ⟨h.update slot fun hne => absurd rfl hne, rfl⟩
  | event | handler | expire | complete | invoke | handle | handled => exact ⟨h, rfl⟩

theorem Runs.spares {s s' : Session} (hruns : Runs env app s s') (hunused : Unused app type)
    (h : s.Spares type) :
    s'.Spares type ∧ s'.log.filter (UprotoObs.writes type) = s.log.filter (UprotoObs.writes type) :=
  hruns.invariant (P := fun t => t.Spares type ∧
      t.log.filter (UprotoObs.writes type) = s.log.filter (UprotoObs.writes type))
    (fun _ _ hstep ht =>
      ⟨(hstep.spares hunused ht.1).1, (hstep.spares hunused ht.1).2.trans ht.2⟩) ⟨h, rfl⟩

/-! ### The frames of a type that were sent -/

def UprotoFrame.served? (type : UInt8) (f : UprotoFrame) : Option (UInt16 × List UInt8) :=
  if f.IsServed type then some (f.txnId, f.payload) else none

def sentServed (type : UInt8) (log : List UprotoObs) : List (UInt16 × List UInt8) :=
  (sentFrames log).filterMap (UprotoFrame.served? type)

theorem sentServed_filter (type : UInt8) (log : List UprotoObs) :
    sentServed type log = sentServed type (log.filter (UprotoObs.writes type)) := by
  unfold sentServed sentFrames
  rw [← List.filter_reverse, List.filterMap_filterMap, List.filterMap_filterMap, List.filterMap_filter]
  apply List.filterMap_congr
  intro o _
  by_cases ho : o.writes type
  · rw [if_pos ho]
  · rw [if_neg ho]
    cases o with
    | write index data sent =>
      rw [UprotoObs.sentFrame?]
      split_ifs with hsent
      · cases hdecode : uprotoDecodeFrame data data.length with
        | error err => rfl
        | ok f =>
          have htype : f.type = wireType data := by
            unfold uprotoDecodeFrame at hdecode
            dsimp only at hdecode
            split_ifs at hdecode
            cases hdecode
            rfl
          change UprotoFrame.served? type f = none
          rw [UprotoFrame.served?, if_neg]
          rintro ⟨heq, -⟩
          exact ho (by simpa [UprotoObs.writes] using htype.symm.trans heq)
      · rfl
    | _ => rfl

theorem sentServed_cons (type : UInt8) (o : UprotoObs) (log : List UprotoObs) :
    sentServed type (o :: log) =
      sentServed type log ++ (o.sentFrame?.bind (UprotoFrame.served? type)).toList := by
  unfold sentServed sentFrames
  rw [List.reverse_cons, List.filterMap_append, List.filterMap_append]
  congr 1
  cases ho : o.sentFrame? with
  | none => simp [ho]
  | some f => cases hf : f.served? type <;> simp [ho, hf]

/-- The log after `uproto_send_frame`. -/
inductive FrameSent (l : Link) (data : List UInt8) : UprotoError → List UprotoObs → Prop
  | whole : FrameSent l data .ok (.write l.step data data.length :: l.log)
  | part (sent : ℕ) (hsent : sent ≠ data.length) : FrameSent l data .txFull (.write l.step data sent :: l.log)
  | refused : FrameSent l data .invalidParam l.log

theorem uprotoSendFrame_sent (env : Env) (flags type : UInt8) (txnId : UInt16) (payload : Option (List UInt8))
    (len : ℕ) (l : Link) :
    FrameSent l (uprotoEncodeFrame flags type txnId l.ctx.localSeq 0 payload len)
        (uprotoSendFrame env flags type txnId payload len l).1
        (uprotoSendFrame env flags type txnId payload len l).2.log ∧
      (uprotoSendFrame env flags type txnId payload len l).2.ctx.transactions = l.ctx.transactions := by
  unfold uprotoSendFrame
  by_cases hport : ¬ l.ctx.portWrite
  · rw [if_pos hport]
    exact ⟨.refused, rfl⟩
  rw [if_neg hport]
  dsimp only
  generalize uprotoEncodeFrame flags type txnId l.ctx.localSeq 0 payload len = data
  split_ifs with hsent
  · simp only [Link.setLastTxTime, uprotoNow_log, uprotoNow_ctx]
    have hwhole : FrameSent l data .ok (.write l.step data (env.write l.step data) :: l.log) := by
      rw [show env.write l.step data = data.length from hsent]
      exact .whole
    exact ⟨hwhole, rfl⟩
  · exact ⟨.part _ hsent, rfl⟩

theorem uprotoSendNotify_served (env : Env) (type : UInt8) (buf : List UInt8) (l : Link) :
    (uprotoSendNotify env type (some buf) buf.length l).2.ctx.transactions = l.ctx.transactions ∧
      sentServed type (uprotoSendNotify env type (some buf) buf.length l).2.log = sentServed type l.log ++
        if (uprotoSendNotify env type (some buf) buf.length l).1 = .ok then [(0, buf)] else [] := by
  unfold uprotoSendNotify
  by_cases hlen : buf.length > uprotoMaxPayload
  · rw [if_pos hlen, if_neg (by simp), List.append_nil]
    exact ⟨rfl, rfl⟩
  rw [if_neg hlen]
  have hread : PayloadReadable (some buf) buf.length := fun _ => ⟨buf, rfl, le_refl _⟩
  obtain ⟨f, hbytes, hflags, htype, htxn, hpayload⟩ :=
    uprotoEncodeFrame_framed (Nat.le_of_not_lt hlen) hread 0 type 0 l.ctx.localSeq 0
  rw [Option.getD_some, List.take_length] at hpayload
  have hdecode := f.decode_bytes []
  rw [List.append_nil] at hdecode
  have hserved : f.frame.served? type = some (0, buf) := by
    rw [UprotoFrame.served?, if_pos ⟨htype, by rw [show f.frame.flags = f.flags from rfl, hflags]; rfl⟩]
    rw [show f.frame.txnId = f.txnId from rfl, show f.frame.payload = f.payload from rfl, htxn, hpayload]
  obtain ⟨hsent, htransactions⟩ := uprotoSendFrame_sent env 0 type 0 (some buf) buf.length l
  rw [← hbytes] at hsent
  refine ⟨htransactions, ?_⟩
  generalize uprotoSendFrame env 0 type 0 (some buf) buf.length l = result at hsent ⊢
  obtain ⟨err, l'⟩ := result
  dsimp only at hsent ⊢
  generalize l'.log = log' at hsent ⊢
  cases hsent with
  | whole =>
    rw [if_pos rfl, sentServed_cons, UprotoObs.sentFrame?, if_pos rfl, hdecode]
    simp [Except.toOption, hserved]
  | part sent hsent =>
    rw [if_neg (by decide), sentServed_cons, UprotoObs.sentFrame?, if_neg hsent]
    rfl
  | refused => rw [if_neg (by decide), List.append_nil]

/-! ### The stack -/

/-- `uproto_send_notify` of one side of a line. -/
def Line.notify (envs : Side → Env) (side : Side) : SendNotify Line := fun type buf n =>
  ((uprotoSendNotify (envs side) type (some buf) buf.length (n.ends side).link).1,
    n.step envs (.call side (.sendNotify type (some buf) buf.length)))

inductive StackMove
  | mux (input : MuxInput)
  | line (m : LineMove)

abbrev Stack : Type := MuxLink Line

namespace Stack

def step (envs : Side → Env) (x : Stack) : StackMove → Stack
  | .mux input => MuxLink.step (Line.notify envs .near) x input
  | .line m => { x with transport := x.transport.step envs m }

/-- MUX frames go through the queue: no other call of the near side uses their message type. -/
def Permits (msgType : UInt8) (x : Stack) : StackMove → Prop
  | .mux input => input.Readable
  | .line m => x.transport.Permits m ∧
    match m with
    | .call .near c => c.Uses {type | type ≠ msgType}
    | _ => True

/-- The far side has registered its handler before anything else happens. -/
def init (envs : Side → Env) (sides : Side → SideConfig) (msgType : UInt8) (handler user : ℕ)
    (m : ChannelManager) : Stack :=
  muxStart true msgType m
    ((Line.init sides).step envs (.call .far (.registerHandler msgType handler user)))

end Stack

/-- The notifications whose frames the port took, the earliest first. -/
def transmitted (m : ChannelManager) : List MuxObs → List Notification
  | [] => []
  | .queued _ _ _ _ _ :: log => transmitted m log
  | .notify w _ _ err :: log =>
    transmitted m log ++ if err = .ok then (waitingNote m w log).toList else []

/-- The buffers of these notifications, as the frames carry them. -/
def takenBufs : List MuxObs → List (UInt16 × List UInt8)
  | [] => []
  | .queued _ _ _ _ _ :: log => takenBufs log
  | .notify _ _ buf err :: log => takenBufs log ++ if err = .ok then [(0, buf)] else []

/-- What a receiver decodes from a buffer is the notification. -/
def Carries (n : Notification) (data : UInt16 × List UInt8) : Prop :=
  ∃ hdr, muxDecode data.2 data.2.length = some (hdr, n.bytes) ∧ hdr.channel = n.chId ∧ hdr.sid = n.sid ∧
    hdr.flags = n.flags

theorem transmitted_carried {m : ChannelManager} {log : List MuxObs} (hsent : SentWaiting m log)
    (hread : ∀ n : Notification, n.accepted ∈ log → n.Readable) :
    List.Forall₂ Carries (transmitted m log) (takenBufs log) := by
  induction log with
  | nil => exact .nil
  | cons o log ih =>
    have ih := ih (fun before w hdr buf err hsuffix => hsent before w hdr buf err
      (hsuffix.trans (List.suffix_cons _ _))) fun n hn => hread n (List.mem_cons_of_mem _ hn)
    cases o with
    | queued => exact ih
    | notify w hdr buf err =>
      refine List.rel_append ih ?_
      split_ifs with herr
      · obtain ⟨n, hnote, hcarry⟩ := hsent log w hdr buf err List.suffix_rfl
        have hmem := mem_of_latestNote (latestNote_of_waitingNote hnote)
        have hdecode := hcarry.payload (hread n (List.mem_cons_of_mem _ hmem))
        rw [hnote]
        exact .cons ⟨hdr, hdecode, hcarry.channel, hcarry.sid, hcarry.flags⟩ .nil
      · exact .nil

/-! ### The invariant -/

structure Stack.Good (m : ChannelManager) (msgType : UInt8) (entry : UprotoHandlerEntry) (x : Stack) : Prop where
  line : x.transport.Good
  delivering : x.Delivering m
  bound : x.bind.msgType = msgType
  spares : (x.transport.ends .near).link.session.Spares msgType
  sent : sentServed msgType (x.transport.ends .near).link.log = takenBufs x.log
  readable : ∀ n : Notification, n.accepted ∈ x.log → n.Readable
  serving : (x.transport.ends .far).link.Serving entry []

variable {envs : Side → Env}

theorem ne_of_userBase {msgType type : UInt8} (h : uprotoMsgUserBase ≤ msgType)
    (htype : type < uprotoMsgUserBase) : msgType ≠ type := by
  rintro rfl
  exact absurd htype (UInt8.not_lt.mpr h)

theorem Unused.of_userBase {msgType : UInt8} (h : uprotoMsgUserBase ≤ msgType) :
    Unused {type | type ≠ msgType} msgType := by
  refine ⟨?_, ne_of_userBase h (by decide)⟩
  simp only [wireTypes, Set.mem_union, Set.mem_ofPred_eq, Set.mem_insert_iff, Set.mem_singleton_iff, ne_eq,
    not_true_eq_false, false_or, not_or]
  exact ⟨ne_of_userBase h (by decide), ne_of_userBase h (by decide), ne_of_userBase h (by decide),
    ne_of_userBase h (by decide)⟩

theorem isControl_of_userBase {msgType : UInt8} (h : uprotoMsgUserBase ≤ msgType) : ¬ IsControl msgType := by
  rw [IsControl, not_or, not_or, not_or]
  exact ⟨ne_of_userBase h (by decide), ne_of_userBase h (by decide), ne_of_userBase h (by decide),
    ne_of_userBase h (by decide)⟩

/-- A move steps one end and leaves the other. -/
theorem Line.step_ends (envs : Side → Env) (n : Line) (m : LineMove) (side : Side) :
    (n.step envs m).ends side = n.ends side ∨ ∃ input, (∀ c, input = .call c → m = .call side c) ∧
      (n.step envs m).ends side = (n.ends side).step (envs side) input := by
  have hact (mover : Side) (input : UprotoInput) (hinput : ∀ c, input = .call c → m = .call mover c)
      (hends : (n.step envs m).ends = (n.stepEnd envs mover input).ends) :
      (n.step envs m).ends side = n.ends side ∨ ∃ input, (∀ c, input = .call c → m = .call side c) ∧
        (n.step envs m).ends side = (n.ends side).step (envs side) input := by
    rw [hends]
    by_cases hside : side = mover
    · subst hside
      exact .inr ⟨input, hinput, Line.stepEnd_self side input⟩
    · exact .inl (Line.stepEnd_of_ne hside input)
  cases m with
  | call mover c => exact hact mover (.call c) (by rintro _ ⟨⟩; rfl) rfl
  | tick mover => exact hact mover .tick nofun rfl
  | arrive mover k => exact hact mover (.rxBytes ((n.underWay mover).take k)) nofun rfl

namespace Stack

variable {m : ChannelManager} {msgType : UInt8} {entry : UprotoHandlerEntry} {x : Stack}

theorem Good.stepLine (h : Good m msgType entry x) (henvs : ∀ side, (envs side).Sound)
    (huses : (envs .near).Uses {type | type ≠ msgType}) (htype : uprotoMsgUserBase ≤ msgType)
    (hentry : entry.type = msgType) {mv : LineMove} (hmv : x.Permits msgType (.line mv)) :
    Good m msgType entry (x.step envs (.line mv)) := by
  obtain ⟨hpermits, hcalls⟩ := hmv
  have hnear : ((x.transport.step envs mv).ends .near).link.session.Spares msgType ∧
      sentServed msgType ((x.transport.step envs mv).ends .near).link.log =
        sentServed msgType (x.transport.ends .near).link.log := by
    rcases x.transport.step_ends envs mv .near with heq | ⟨input, hinput, heq⟩
    · rw [heq]
      exact ⟨h.spares, rfl⟩
    · rw [heq]
      have hreached : Reached (envs .near) {type | type ≠ msgType} (x.transport.ends .near).link.session
          (x.transport.ends .near).link := ⟨.refl, h.line.resting .near⟩
      have hinputUses : input.Uses {type | type ≠ msgType} := by
        cases input with
        | call c =>
          rw [hinput c rfl] at hcalls
          exact hcalls
        | rxBytes | tick => trivial
      have hruns := (hreached.step huses hinputUses).runs.spares (Unused.of_userBase htype) h.spares
      refine ⟨hruns.1, ?_⟩
      rw [sentServed_filter, sentServed_filter msgType (x.transport.ends .near).link.log]
      exact congrArg (sentServed msgType) hruns.2
  refine ⟨h.line.step henvs hpermits, ?_, h.bound, hnear.1, hnear.2.trans h.sent, h.readable, ?_⟩
  · exact ⟨h.delivering.slots, h.delivering.sent⟩
  · change ((x.transport.step envs mv).ends .far).link.Serving entry []
    rcases x.transport.step_ends envs mv .far with heq | ⟨input, -, heq⟩
    · rw [heq]
      exact h.serving
    · rw [heq]
      exact Endpoint.step_serving _ h.serving (hentry ▸ isControl_of_userBase htype) input

theorem step_mux (envs : Side → Env) (x : Stack) (input : MuxInput) :
    x.step envs (.mux input) = MuxLink.step (Line.notify envs .near) x input := rfl

theorem Good.stepMux (h : Good m msgType entry x) (henvs : ∀ side, (envs side).Sound) {input : MuxInput}
    (hinput : input.Readable) : Good m msgType entry (x.step envs (.mux input)) := by
  have hdelivering : (MuxLink.step (Line.notify envs .near) x input).Delivering m := h.delivering.step input
  rw [step_mux]
  cases input with
  | queueNotify chId sid flags payload len =>
    rcases MuxLink.step_queueNotify (Line.notify envs .near) h.delivering.slots.mgr
      ⟨chId, sid, flags, payload, len⟩ with heq | ⟨i, -, -, heq⟩
    · rw [heq]
      exact h
    · rw [heq] at hdelivering ⊢
      refine ⟨h.line, hdelivering, h.bound, h.spares, h.sent, ?_, h.serving⟩
      intro n hn
      rcases List.mem_cons.mp hn with hnew | hn
      · cases n
        cases hnew
        exact hinput
      · exact h.readable n hn
  | arbiterTick =>
    have hticked := chUprotoArbiterTick_ticked (Line.notify envs .near) h.delivering.slots.mgr
      h.delivering.slots.used_lt
    change Good m msgType entry (chUprotoArbiterTick (Line.notify envs .near) x)
    change (chUprotoArbiterTick (Line.notify envs .near) x).Delivering m at hdelivering
    generalize chUprotoArbiterTick (Line.notify envs .near) x = y at hticked hdelivering ⊢
    cases hticked with
    | off => exact h
    | idle => exact ⟨h.line, hdelivering, h.bound, h.spares, h.sent, h.readable, h.serving⟩
    | dropped => exact ⟨h.line, hdelivering, h.bound, h.spares, h.sent, h.readable, h.serving⟩
    | sent w rrCursor hctx hnext hw hchoose buf hbuf err transport hsend =>
      rw [h.bound] at hsend
      obtain ⟨rfl, rfl⟩ := Prod.mk.inj hsend
      have hcall : x.transport.Permits (.call .near (.sendNotify msgType (some buf) buf.length)) :=
        fun _ => ⟨buf, rfl, le_refl _⟩
      obtain ⟨hslots, hserved⟩ := uprotoSendNotify_served (envs .near) msgType buf (x.transport.ends .near).link
      have hnear : ((x.transport.step envs (.call .near (.sendNotify msgType (some buf) buf.length))).ends
          .near).link = (uprotoSendNotify (envs .near) msgType (some buf) buf.length
            (x.transport.ends .near).link).2 := by
        change ((x.transport.stepEnd envs .near _).ends .near).link = _
        rw [Line.stepEnd_self]
        rfl
      have hfar : (x.transport.step envs (.call .near (.sendNotify msgType (some buf) buf.length))).ends
          .far = x.transport.ends .far := Line.stepEnd_of_ne (by decide) _
      refine ⟨h.line.step henvs hcall, hdelivering, ?_, ?_, ?_, ?_, ?_⟩
      · dsimp only
        split_ifs <;> exact h.bound
      · intro i
        dsimp only
        rw [hnear]
        simp only [Link.session, hslots]
        exact h.spares i
      · dsimp only
        rw [hnear, hserved, h.sent]
        rfl
      · intro n hn
        rcases List.mem_cons.mp hn with hnew | hn
        · cases hnew
        · exact h.readable n hn
      · dsimp only
        rw [hfar]
        exact h.serving

theorem init_good (sides : Side → SideConfig) (henvs : ∀ side, (envs side).Sound) (msgType : UInt8)
    (handler user : ℕ) (m : ChannelManager) :
    Good m msgType ⟨msgType, handler, user⟩ (init envs sides msgType handler user m) := by
  have hregister : (Line.init sides).Permits (.call .far (.registerHandler msgType handler user)) := trivial
  have hnear : ((Line.init sides).step envs (.call .far (.registerHandler msgType handler user))).ends .near =
      (Line.init sides).ends .near := Line.stepEnd_of_ne (by decide) _
  have hfar : ((Line.init sides).step envs (.call .far (.registerHandler msgType handler user))).ends .far =
      ((Line.init sides).ends .far).step (envs .far) (.call (.registerHandler msgType handler user)) :=
    Line.stepEnd_self _ _
  refine ⟨(Line.init_good sides).step henvs hregister, muxStart_delivering true msgType m _, rfl, ?_, ?_,
    nofun, ?_⟩
  · intro i hne
    dsimp only [init, muxStart] at hne
    rw [hnear] at hne
    exact absurd rfl hne
  · dsimp only [init, muxStart]
    rw [hnear]
    rfl
  · dsimp only [init, muxStart]
    rw [hfar]
    exact Endpoint.registerHandler_serving _ ((Line.init sides).ends .far) _ _ _ (Nat.succ_pos 15) rfl

end Stack

/-! ### From queue to hook -/

theorem foldl_carried {σ : Type} (hooks : ChannelHooks σ) (m : ChannelManager) {notes : List Notification}
    {calls : List (UInt16 × List UInt8)} (h : List.Forall₂ Carries notes calls) (s : σ) :
    calls.foldl (fun s data => onMuxRx hooks (some m) data.2 s) s =
      notes.foldl (fun s n => chmgrDispatchRx hooks m n.chId n.bytes s) s := by
  induction h generalizing s with
  | nil => rfl
  | cons hcarry _ ih =>
    obtain ⟨hdr, hdecode, hchannel, -⟩ := hcarry
    rw [List.foldl_cons, List.foldl_cons, ih]
    congr 1
    unfold onMuxRx
    dsimp only
    rw [hdecode, ← hchannel]

/-- End to end. Whatever the two sides do in between, the calls of the receiving handler do to the hooks
    what the first of the transmitted notifications would do if they were dispatched there directly, each
    once and in the order they were sent, and all of them once no byte is under way. A notification is
    transmitted as it was last queued for its slot. -/
theorem chUprotoStack_dispatch {σ : Type} (envs : Side → Env) (henvs : ∀ side, (envs side).Sound)
    {msgType : UInt8} (htype : uprotoMsgUserBase ≤ msgType)
    (huses : (envs .near).Uses {type | type ≠ msgType}) (sides : Side → SideConfig)
    (m m' : ChannelManager) (handler user : ℕ) (moves : List StackMove)
    (hmoves : LegalRun (Stack.step envs) (Stack.Permits msgType)
      (Stack.init envs sides msgType handler user m) moves) (hooks : ChannelHooks σ) (s : σ) :
    let x := moves.foldl (Stack.step envs) (Stack.init envs sides msgType handler user m)
    let calls := handlerCalls ⟨msgType, handler, user⟩ (x.transport.ends .far).link.log
    calls.foldl (fun s data => onMuxRx hooks (some m') data.2 s) s =
        ((transmitted m x.log).take calls.length).foldl
          (fun s n => chmgrDispatchRx hooks m' n.chId n.bytes s) s ∧
      calls.length ≤ (transmitted m x.log).length ∧
      (x.transport.underWay .far = [] → calls.length = (transmitted m x.log).length) := by
  intro x calls
  have hgood : Stack.Good m msgType ⟨msgType, handler, user⟩ x := by
    refine inv_foldl (Stack.step envs) (Stack.Good m msgType ⟨msgType, handler, user⟩) ?_
      (Stack.init_good sides henvs msgType handler user m) hmoves
    intro y mv hy hmv
    cases mv with
    | mux input => exact hy.stepMux henvs hmv
    | line mv => exact hy.stepLine henvs huses htype rfl hmv
  have hcarried := transmitted_carried hgood.delivering.sent hgood.readable
  obtain ⟨done, todo, hreceived⟩ := hgood.line.received .far
  have hsent : takenBufs x.log = calls ++ (todo.map TxFrame.frame).filterMap (UprotoFrame.served? msgType) := by
    have hcalls : calls = (done.map TxFrame.frame).filterMap (UprotoFrame.served? msgType) := by
      obtain ⟨since, hcalls, hserved⟩ := hgood.serving.calls
      rw [← hreceived.handled]
      exact hcalls.trans hserved.symm
    rw [hcalls, ← hgood.sent, sentServed, ← List.filterMap_append, ← List.map_append]
    exact congrArg _ hreceived.sent.frames
  rw [hsent] at hcarried
  have hlen := hcarried.length_eq
  rw [List.length_append] at hlen
  refine ⟨foldl_carried hooks m' ?_ s, by omega, ?_⟩
  · exact List.forall₂_take_append _ _ _ hcarried
  · intro hempty
    have hstream := hreceived.stream
    rw [hempty, List.append_nil] at hstream
    obtain rfl := (hstream ▸ hreceived.partway : Partway todo (frameBytes todo)).eq_nil
    simpa using hlen.symm

def recordHooks : ChannelHooks (List (Fin chMax × List UInt8)) where
  onRx i := some fun payload s => s ++ [(i, payload)]
  onTick _ := none

def relayMoves : List StackMove :=
  [.mux (.queueNotify 4 0x201 0 (some [1, 2]) 2), .mux (.queueNotify 4 0x201 0 (some [3, 4, 5]) 3),
    .mux .arbiterTick, .line (.arrive .far 7), .line (.call .near .startHandshake), .line (.arrive .far 200)]

theorem chUprotoStack_dispatch_relay :
    let x := relayMoves.foldl (Stack.step fun _ => quietEnv)
      (Stack.init (fun _ => quietEnv) (fun _ => handshakeSide) 0x25 7 0 gimbalChannel)
    let calls := handlerCalls ⟨0x25, 7, 0⟩ (x.transport.ends .far).link.log
    (transmitted gimbalChannel x.log).map Notification.bytes = [[3, 4, 5]] ∧
      calls.length = (transmitted gimbalChannel x.log).length ∧
      calls.foldl (fun s data => onMuxRx recordHooks (some gimbalChannel) data.2 s) [] = [(0, [3, 4, 5])] := by
  have hlegal : LegalRun (Stack.step fun _ => quietEnv) (Stack.Permits 0x25)
      (Stack.init (fun _ => quietEnv) (fun _ => handshakeSide) 0x25 7 0 gimbalChannel) relayMoves := by
    refine ⟨fun _ => ⟨_, rfl, by decide⟩, fun _ => ⟨_, rfl, by decide⟩, trivial, ⟨?_, trivial⟩,
      ⟨trivial, trivial⟩, ⟨?_, trivial⟩, trivial⟩ <;> unfold Line.Permits <;> decide +kernel
  have hsound : ∀ _ : Side, quietEnv.Sound := fun _ => quietEnv_sound
  have htype : uprotoMsgUserBase ≤ (0x25 : UInt8) := by decide
  obtain ⟨hfold, -, hall⟩ := chUprotoStack_dispatch (fun _ => quietEnv) hsound htype
    (fun _ _ hc => nomatch hc) (fun _ => handshakeSide) gimbalChannel gimbalChannel 7 0 relayMoves hlegal
    recordHooks []
  have hnotes : (transmitted gimbalChannel (relayMoves.foldl (Stack.step fun _ => quietEnv)
      (Stack.init (fun _ => quietEnv) (fun _ => handshakeSide) 0x25 7 0 gimbalChannel)).log).map
        Notification.bytes = [[3, 4, 5]] := by decide +kernel
  refine ⟨hnotes, hall (by decide +kernel), ?_⟩
  exact hfold.trans (by decide +kernel)

end SpVision
