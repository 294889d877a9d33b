import SpVision.Uproto.Context

set_option autoImplicit false

/-!
# Channels over one uproto link

The channel manager, the MUX envelope and the sending half of `comm.c`: one pending
notification for each registered channel, and the arbiter that sends one of them in
each tick. How `uproto_send_notify` answers is a parameter; it may depend on and
change a state of its own.
-/
namespace SpVision

abbrev chMax : ℕ := 8
def chArbFairAge : ℕ := 10
def commChannelPendingPayloadSize : ℕ := 128
def commMuxTxBufferSize : ℕ := 520

/-- What the sending half reads of `struct channel`; `priority` is that of `cfg`. -/
structure Channel where
  id : UInt8
  priority : UInt8
  deriving DecidableEq, Repr

/-- `channel_manager_t`: the channels are registered from slot 0 on. -/
structure ChannelManager where
  slots : Fin chMax → Option Channel
  count : ℕ
  count_le : count ≤ chMax
  registered : ∀ i, (slots i).isSome ↔ i.val < count

def chmgrInit : ChannelManager :=
  { slots := fun _ => none, count := 0, count_le := Nat.zero_le _, registered := fun _ => by simp }

def chmgrRegister (m : ChannelManager) (ch : Channel) : Option ChannelManager :=
  if h : m.count < chMax then
    some
      { slots := Function.update m.slots ⟨m.count, h⟩ (some ch)
        count := m.count + 1
        count_le := h
        registered := fun i => by
          by_cases hi : i = ⟨m.count, h⟩
          · simp [hi]
          · have hne : i.val ≠ m.count := fun heq => hi (Fin.ext heq)
            rw [Function.update_of_ne hi, m.registered]
            omega }
  else none

/-- The slots that the loops up to `count` visit. -/
def ChannelManager.indices (m : ChannelManager) : List (Fin chMax) :=
  (List.finRange chMax).filter fun i => i.val < m.count

/-! ### The MUX envelope -/

structure MuxHdr where
  sof : UInt8
  ver : UInt8
  channel : UInt8
  flags : UInt8
  len : UInt16
  sid : UInt16
  seq : UInt32
  rsv : UInt16
  deriving DecidableEq, Repr

def muxSof : UInt8 := 0xA5
def muxVer : UInt8 := 0x01

def writeU32Le (val : UInt32) : List UInt8 :=
  writeU16Le val.toUInt16 ++ writeU16Le (val >>> 16).toUInt16

def MuxHdr.bytes (h : MuxHdr) : List UInt8 :=
  [h.sof, h.ver, h.channel, h.flags] ++ writeU16Le h.len ++ writeU16Le h.sid ++ writeU32Le h.seq ++
    writeU16Le h.rsv

/-- `none` is the result 0; the payload is not null. -/
def muxEncode (outCap : ℕ) (hdr : MuxHdr) (payload : List UInt8) : Option (List UInt8) :=
  if hdr.sof ≠ muxSof ∨ hdr.ver ≠ muxVer then none
  else if outCap < 14 + hdr.len.toNat + 2 then none
  else
    let out := hdr.bytes ++ payload.take hdr.len.toNat
    some (out ++ writeU16Le (crc16Ccitt out.tail))

/-! ### Pending notifications -/

/-- An entry of `pending`; `payload` is the whole array. -/
structure PendingNotify where
  used : Bool
  chId : UInt8
  sid : UInt16
  flags : UInt8
  len : UInt16
  payload : List UInt8
  age : ℕ
  deriving DecidableEq, Repr

/-- `ch_uproto_bind_t`; `ctx` says whether the context is set. -/
structure ChUprotoBind where
  ctx : Bool
  msgType : UInt8
  mgr : Option ChannelManager
  seqCounters : Fin chMax → UInt32
  pending : Fin chMax → PendingNotify
  rrCursor : ℕ

def chUprotoBind (ctx : Bool) (msgType : UInt8) (mgr : Option ChannelManager) : ChUprotoBind :=
  { ctx := ctx, msgType := msgType, mgr := mgr, seqCounters := fun _ => 0
    pending := fun _ =>
      { used := false, chId := 0, sid := 0, flags := 0, len := 0
        payload := List.replicate commChannelPendingPayloadSize 0, age := 0 }
    rrCursor := 0 }

namespace ChUprotoBind

def setPending (b : ChUprotoBind) (i : Fin chMax) (item : PendingNotify) : ChUprotoBind :=
  { b with pending := Function.update b.pending i item }

def clearPending (b : ChUprotoBind) (i : Fin chMax) : ChUprotoBind :=
  b.setPending i { b.pending i with used := false, age := 0 }

variable (b : ChUprotoBind) {i j : Fin chMax}

@[simp] theorem setPending_self (i : Fin chMax) (item : PendingNotify) : (b.setPending i item).pending i = item := by
  simp [setPending]

theorem setPending_of_ne (h : j ≠ i) (item : PendingNotify) : (b.setPending i item).pending j = b.pending j := by
  simp [setPending, h]

@[simp] theorem clearPending_self (i : Fin chMax) :
    (b.clearPending i).pending i = { b.pending i with used := false, age := 0 } :=
  b.setPending_self i _

theorem clearPending_of_ne (h : j ≠ i) : (b.clearPending i).pending j = b.pending j :=
  b.setPending_of_ne h _

end ChUprotoBind

def chUprotoQueueNotify (b : ChUprotoBind) (chId : UInt8) (sid : UInt16) (flags : UInt8)
    (payload : Option (List UInt8)) (len : UInt16) : Bool × ChUprotoBind :=
  match b.mgr with
  | none => (false, b)
  | some m =>
    match (List.finRange chMax).find? fun i => (m.slots i).any fun ch => ch.id = chId with
    | none => (false, b)
    | some i =>
      if len.toNat > commChannelPendingPayloadSize then (false, b)
      else
        let prevAge := if (b.pending i).used then (b.pending i).age else 0
        let old := (b.pending i).payload
        let payload := match payload with
          | some p => p.take len.toNat ++ old.drop len.toNat
          | none => old
        (true, b.setPending i
          { used := true, chId := chId, sid := sid, flags := flags, len := len
            payload := payload, age := prevAge })

/-! ### The arbiter -/

/-- The first loop of `find_next_ready_index`; an age stays below `0x10000`. -/
def bumpAges (m : ChannelManager) (b : ChUprotoBind) : ChUprotoBind :=
  { b with pending := fun i =>
      if i.val < m.count ∧ (b.pending i).used ∧ (b.pending i).age < 0xFFFF then
        { b.pending i with age := (b.pending i).age + 1 }
      else b.pending i }

/-- `best` and `best_prio` after the first pass. -/
def findBest (m : ChannelManager) (b : ChUprotoBind) : Option (Fin chMax × UInt8) :=
  m.indices.foldl (fun best i =>
    match m.slots i with
    | none => best
    | some ch =>
      if ¬ (b.pending i).used then best
      else match best with
        | none => some (i, ch.priority)
        | some (_, bestPrio) => if ch.priority > bestPrio then some (i, ch.priority) else best) none

/-- `aged_idx` and `max_age` after the starvation guard. -/
def findAged (m : ChannelManager) (b : ChUprotoBind) (bestPrio : UInt8) : Option (Fin chMax) × ℕ :=
  m.indices.foldl (fun aged i =>
    match m.slots i with
    | none => aged
    | some ch =>
      if (b.pending i).used ∧ ch.priority < bestPrio ∧ (b.pending i).age ≥ chArbFairAge ∧
          (b.pending i).age > aged.2 then (some i, (b.pending i).age)
      else aged) (none, 0)

def turnOrder (m : ChannelManager) (b : ChUprotoBind) : List (Fin chMax) :=
  (List.range m.count).map fun off => Fin.ofNat chMax ((b.rrCursor % m.count + off) % m.count)

def findTurn (m : ChannelManager) (b : ChUprotoBind) (prio : UInt8) : Option (Fin chMax) :=
  (turnOrder m b).find? fun idx =>
    (b.pending idx).used ∧ (m.slots idx).any fun ch => ch.priority = prio

def findNextReadyIndex (b : ChUprotoBind) : Option (Fin chMax) × ChUprotoBind :=
  match b.mgr with
  | none => (none, b)
  | some m =>
    let b := bumpAges m b
    match findBest m b with
    | none => (none, b)
    | some (best, bestPrio) =>
      match (findAged m b bestPrio).1 with
      | some idx => (some idx, b)
      | none =>
        match findTurn m b bestPrio with
        | some idx => (some idx, { b with rrCursor := idx.val + 1 })
        | none => (some best, b)

inductive MuxObs
  | queued (chId : UInt8) (sid : UInt16) (flags : UInt8) (payload : Option (List UInt8)) (len : UInt16)
  | notify (slot : Fin chMax) (hdr : MuxHdr) (buf : List UInt8) (err : UprotoError)
  deriving DecidableEq, Repr

variable {σ : Type}

/-- A channel binding in the middle of a run, on a transport in state `transport`; the log has the
    latest entry first. -/
structure MuxLink (σ : Type) where
  bind : ChUprotoBind
  transport : σ
  log : List MuxObs

abbrev SendNotify (σ : Type) : Type := UInt8 → List UInt8 → σ → UprotoError × σ

def uprotoNotify (env : Env) : SendNotify Link := fun type buf l =>
  uprotoSendNotify env type (some buf) buf.length l

def chUprotoArbiterTick (send : SendNotify σ) (x : MuxLink σ) : MuxLink σ :=
  if ¬ x.bind.ctx ∨ x.bind.mgr.isNone then x
  else
    match findNextReadyIndex x.bind with
    | (none, b) => { x with bind := b }
    | (some idx, b) =>
      let item := b.pending idx
      let counter := Fin.ofNat chMax item.chId.toNat
      let seq := b.seqCounters counter + 1
      let b := { b with seqCounters := Function.update b.seqCounters counter seq }
      let hdr : MuxHdr :=
        { sof := muxSof, ver := muxVer, channel := item.chId, flags := item.flags, len := item.len
          sid := item.sid, seq := seq, rsv := 0 }
      match muxEncode commMuxTxBufferSize hdr item.payload with
      | none => { x with bind := b.clearPending idx }
      | some buf =>
        let (err, transport) := send b.msgType buf x.transport
        { bind := if err = .ok then b.clearPending idx else b
          transport := transport
          log := .notify idx hdr buf err :: x.log }

inductive MuxInput
  | queueNotify (chId : UInt8) (sid : UInt16) (flags : UInt8) (payload : Option (List UInt8))
      (len : UInt16)
  | arbiterTick

namespace MuxLink

def step (send : SendNotify σ) (x : MuxLink σ) : MuxInput → MuxLink σ
  | .queueNotify chId sid flags payload len =>
    match chUprotoQueueNotify x.bind chId sid flags payload len with
    | (true, b) => { x with bind := b, log := .queued chId sid flags payload len :: x.log }
    | (false, b) => { x with bind := b }
  | .arbiterTick => chUprotoArbiterTick send x

def run (send : SendNotify σ) (x : MuxLink σ) (inputs : List MuxInput) : MuxLink σ :=
  inputs.foldl (step send) x

end MuxLink

end SpVision
