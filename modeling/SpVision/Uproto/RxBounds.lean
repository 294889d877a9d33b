import SpVision.Library.Guarded
import SpVision.Uproto.RxReader

set_option autoImplicit false

/-!
# The receive loop ends and stays in bounds

The loop once more with every read of `rx_buffer` guarded by `rx_pos`, every unsigned
difference guarded against wrapping, and no result if it runs out of turns.
-/
namespace SpVision

/-! ### The guarded loop -/

/-- One byte, as in `rx_buffer[i]`. -/
def byteAt (xs : List UInt8) : UInt8 := xs.getD 0 0

/-- The search for the magic over a list of indices. -/
def scanMagic? (limit : ℕ) (buffer : List UInt8) : List ℕ → Option (Option ℕ)
  | [] => some none
  | i :: rest => do
    let first ← Guarded.read limit 1 byteAt buffer i
    if first = uprotoMagic0 then do
      let second ← Guarded.read limit 1 byteAt buffer (i + 1)
      if second = uprotoMagic1 then some (some i) else scanMagic? limit buffer rest
    else scanMagic? limit buffer rest

/-- `memmove` of the bytes from `n` on, with its length and the cells it reads guarded. -/
def RxBuffer.discard? (rx : RxBuffer) (n : ℕ) : Option RxBuffer := do
  let len ← Guarded.sub rx.rxPos n
  let _ ← Guarded.read rx.rxPos len id rx.rxBuffer.toList n
  return rx.discard n

/-- The bytes before the magic are dropped. -/
def RxBuffer.front? (rx : RxBuffer) (frameStart : ℕ) : Option RxBuffer :=
  if frameStart > 0 then rx.discard? frameStart else some rx

/-- A turn from the check for a complete frame on. -/
def rxHeadTurn? (rx : RxBuffer) : Option RxTurn :=
  if rx.rxPos < uprotoHeaderSize then some (.stop rx)
  else do
    let payloadLen ← Guarded.read rx.rxPos 2 readU16Le rx.rxBuffer.toList 12
    let totalLen := uprotoHeaderSize + payloadLen.toNat + 2
    if payloadLen.toNat > uprotoMaxPayload then (rx.discard? 2).map .again
    else if rx.rxPos < totalLen then some (.stop rx)
    else some (.complete rx totalLen)

def rxTurn? (rx : RxBuffer) : Option RxTurn :=
  if rx.rxPos < uprotoHeaderSize + 2 then some (.stop rx)
  else do
    let last ← Guarded.sub rx.rxPos 1
    let magic ← scanMagic? rx.rxPos rx.rxBuffer.toList (List.range last)
    match magic with
    | none => some (.stop rx.clear)
    | some frameStart => (rx.front? frameStart).bind rxHeadTurn?

/-- `uproto_decode_frame` with its reads guarded by `limit`. -/
def uprotoDecodeFrame? (limit : ℕ) (data : List UInt8) (len : ℕ) : Option (Except UprotoError UprotoFrame) :=
  if len < uprotoHeaderSize + 2 then some (.error .length)
  else do
    let magic0 ← Guarded.read limit 1 byteAt data 0
    let magic1 ← Guarded.when (magic0 = uprotoMagic0) (Guarded.read limit 1 byteAt data 1) 0
    if magic0 ≠ uprotoMagic0 ∨ magic1 ≠ uprotoMagic1 then some (.error .length)
    else do
      let version ← Guarded.read limit 1 byteAt data 2
      let flags ← Guarded.read limit 1 byteAt data 3
      let type ← Guarded.read limit 1 byteAt data 4
      let reserved ← Guarded.read limit 1 byteAt data 5
      let txnId ← Guarded.read limit 2 readU16Le data 6
      let seq ← Guarded.read limit 2 readU16Le data 8
      let ack ← Guarded.read limit 2 readU16Le data 10
      let frameLen ← Guarded.read limit 2 readU16Le data 12
      let hdrCrcRx ← Guarded.read limit 2 readU16Le data 14
      let hdrCrcCalc ← Guarded.read limit 12 crc16Ccitt data 2
      if hdrCrcRx ≠ hdrCrcCalc then some (.error .crc)
      else if frameLen.toNat > uprotoMaxPayload then some (.error .length)
      else if len < uprotoHeaderSize + frameLen.toNat + 2 then some (.error .length)
      else do
        let payload ← Guarded.read limit frameLen.toNat id data uprotoHeaderSize
        let frameCrcRx ← Guarded.read limit 2 readU16Le data (uprotoHeaderSize + frameLen.toNat)
        let frameCrcCalc ← Guarded.read limit (uprotoHeaderSize - 2 + frameLen.toNat) crc16Ccitt data 2
        if frameCrcRx ≠ frameCrcCalc then some (.error .crc)
        else some (.ok
          { version := version, flags := flags, type := type, reserved := reserved, txnId := txnId, seq := seq
            ack := ack, len := frameLen, payload := payload })

/-- No result if the turns run out. -/
def uprotoRxLoop? {σ : Type} (sink : RxSink σ) : ℕ → RxBuffer → σ → Option (RxBuffer × σ)
  | 0, _, _ => none
  | fuel + 1, rx, s => do
    match ← rxTurn? rx with
    | .stop rx => some (rx, s)
    | .again rx => uprotoRxLoop? sink fuel rx s
    | .complete rx totalLen =>
      let result ← uprotoDecodeFrame? rx.rxPos rx.rxBuffer.toList totalLen
      let rest ← rx.discard? totalLen
      uprotoRxLoop? sink fuel rest (sink.result result s)

/-! ### No guard fails -/

theorem byteAt_reads : Guarded.Reads 1 byteAt := fun xs => by cases xs <;> rfl

theorem byteAt_drop (xs : List UInt8) (i : ℕ) : byteAt (xs.drop i) = xs.getD i 0 := by
  rw [byteAt, List.getD_eq_getElem?_getD, List.getElem?_drop, List.getD_eq_getElem?_getD, Nat.add_zero]

theorem read_byte {limit i : ℕ} (xs : List UInt8) (h : i + 1 ≤ limit) :
    Guarded.read limit 1 byteAt xs i = some (xs.getD i 0) := by
  rw [Guarded.read_eq byteAt_reads xs h, byteAt_drop]

theorem readU16Le_reads : Guarded.Reads 2 readU16Le := by
  intro xs
  rcases xs with - | ⟨a, - | ⟨b, rest⟩⟩ <;> rfl

theorem scanMagic?_eq {limit : ℕ} (buffer : List UInt8) (indices : List ℕ) (h : ∀ i ∈ indices, i + 2 ≤ limit) :
    scanMagic? limit buffer indices = some (indices.find? fun i =>
      buffer.getD i 0 = uprotoMagic0 ∧ buffer.getD (i + 1) 0 = uprotoMagic1) := by
  induction indices with
  | nil => rfl
  | cons i rest ih =>
    have hi := h i List.mem_cons_self
    have hrest := ih fun j hj => h j (List.mem_cons_of_mem i hj)
    rw [scanMagic?, read_byte buffer (by omega), Option.bind_eq_bind, Option.bind_some, List.find?_cons]
    by_cases hfirst : buffer.getD i 0 = uprotoMagic0
    · rw [if_pos hfirst, read_byte buffer (by omega), Option.bind_some]
      by_cases hsecond : buffer.getD (i + 1) 0 = uprotoMagic1
      · rw [if_pos hsecond, decide_eq_true ⟨hfirst, hsecond⟩]
      · rw [if_neg hsecond, hrest, decide_eq_false fun hboth => hsecond hboth.2]
    · rw [if_neg hfirst, hrest, decide_eq_false fun hboth => hfirst hboth.1]

theorem RxBuffer.discard?_eq (rx : RxBuffer) {n : ℕ} (h : n ≤ rx.rxPos) : rx.discard? n = some (rx.discard n) := by
  rw [discard?, Guarded.sub_eq h, Option.bind_eq_bind, Option.bind_some,
    Guarded.read_span id rx.rxBuffer.toList (by omega)]
  rfl

theorem RxBuffer.findMagic_lt {rx : RxBuffer} {n : ℕ} (h : rx.findMagic = some n) : n < rx.rxPos - 1 :=
  List.mem_range.mp (List.mem_of_find?_eq_some h)

theorem RxBuffer.front?_eq (rx : RxBuffer) {n : ℕ} (h : n ≤ rx.rxPos) :
    rx.front? n = some (if n > 0 then rx.discard n else rx) := by
  unfold front?
  split_ifs
  · exact rx.discard?_eq h
  · rfl

theorem rxHeadTurn?_eq (rx : RxBuffer) : rxHeadTurn? rx = some (
    if rx.rxPos < uprotoHeaderSize then .stop rx
    else if (readU16Le (rx.rxBuffer.toList.drop 12)).toNat > uprotoMaxPayload then .again (rx.discard 2)
    else if rx.rxPos < uprotoHeaderSize + (readU16Le (rx.rxBuffer.toList.drop 12)).toNat + 2 then .stop rx
    else .complete rx (uprotoHeaderSize + (readU16Le (rx.rxBuffer.toList.drop 12)).toNat + 2)) := by
  unfold rxHeadTurn?
  by_cases hheader : rx.rxPos < uprotoHeaderSize
  · rw [if_pos hheader, if_pos hheader]
  have hpos : 16 ≤ rx.rxPos := Nat.le_of_not_lt hheader
  rw [if_neg hheader, if_neg hheader, Guarded.read_eq readU16Le_reads _ (by omega), Option.bind_eq_bind,
    Option.bind_some, rx.discard?_eq (by omega)]
  dsimp only
  split_ifs <;> rfl

theorem rxTurn?_eq (rx : RxBuffer) : rxTurn? rx = some (rxTurn rx) := by
  unfold rxTurn? rxTurn
  by_cases hshort : rx.rxPos < uprotoHeaderSize + 2
  · rw [if_pos hshort, if_pos hshort]
  have hpos : 18 ≤ rx.rxPos := Nat.le_of_not_lt hshort
  have hscan : scanMagic? rx.rxPos rx.rxBuffer.toList (List.range (rx.rxPos - 1)) = some rx.findMagic :=
    scanMagic?_eq _ _ fun i hi => by
      have hlt := List.mem_range.mp hi
      omega
  rw [if_neg hshort, if_neg hshort, Guarded.sub_eq (by omega), Option.bind_eq_bind, Option.bind_some,
    Option.bind_eq_bind, hscan, Option.bind_some]
  cases hmagic : rx.findMagic with
  | none => rfl
  | some n =>
    have hn := RxBuffer.findMagic_lt hmagic
    dsimp only
    rw [rx.front?_eq (by omega), Option.bind_some, rxHeadTurn?_eq]

/-- A turn that does not leave the loop shortens the buffer, and a complete frame lies within it. -/
theorem rxTurn_shrinks (rx : RxBuffer) : (∀ rx', rxTurn rx = .again rx' → rx'.rxPos < rx.rxPos) ∧
    ∀ rx' total, rxTurn rx = .complete rx' total → 0 < total ∧ total ≤ rx'.rxPos ∧ rx'.rxPos ≤ rx.rxPos := by
  have hfront (n : ℕ) : (if n > 0 then rx.discard n else rx).rxPos ≤ rx.rxPos := by
    split_ifs
    · exact Nat.sub_le _ _
    · exact le_rfl
  unfold rxTurn
  by_cases hshort : rx.rxPos < uprotoHeaderSize + 2
  · rw [if_pos hshort]
    exact ⟨fun _ h => (by cases h), fun _ _ h => (by cases h)⟩
  rw [if_neg hshort]
  cases rx.findMagic with
  | none => exact ⟨fun _ h => (by cases h), fun _ _ h => (by cases h)⟩
  | some n =>
    have hn := hfront n
    dsimp only
    generalize (if n > 0 then rx.discard n else rx) = front at hn ⊢
    split_ifs with hheader hbad hwait
    · exact ⟨fun _ h => (by cases h), fun _ _ h => (by cases h)⟩
    · refine ⟨fun rx' h => ?_, fun _ _ h => (by cases h)⟩
      have hpos : 16 ≤ front.rxPos := Nat.le_of_not_lt hheader
      rw [← RxTurn.again.inj h, front.discard_rxPos]
      omega
    · exact ⟨fun _ h => (by cases h), fun _ _ h => (by cases h)⟩
    · refine ⟨fun _ h => (by cases h), fun rx' total h => ?_⟩
      obtain ⟨hrx, htotal⟩ := RxTurn.complete.inj h
      rw [← hrx, ← htotal]
      exact ⟨by omega, Nat.le_of_not_lt hwait, hn⟩

theorem uprotoDecodeFrame?_eq {limit len : ℕ} (data : List UInt8) (h : len ≤ limit) :
    uprotoDecodeFrame? limit data len = some (uprotoDecodeFrame data len) := by
  unfold uprotoDecodeFrame? uprotoDecodeFrame
  by_cases hshort : len < uprotoHeaderSize + 2
  · rw [if_pos hshort, if_pos hshort]
  have hlen : 18 ≤ len := Nat.le_of_not_lt hshort
  rw [if_neg hshort, if_neg hshort, read_byte data (by omega), Option.bind_eq_bind, Option.bind_some,
    read_byte data (by omega), Guarded.when_eq 0 fun _ => rfl, Option.bind_some]
  have hmagic : (data.getD 0 0 ≠ uprotoMagic0 ∨
      (if data.getD 0 0 = uprotoMagic0 then data.getD 1 0 else 0) ≠ uprotoMagic1) ↔
        data.getD 0 0 ≠ uprotoMagic0 ∨ data.getD 1 0 ≠ uprotoMagic1 := by
    by_cases hfirst : data.getD 0 0 = uprotoMagic0
    · rw [if_pos hfirst]
    · exact iff_of_true (.inl hfirst) (.inl hfirst)
  by_cases hno : data.getD 0 0 ≠ uprotoMagic0 ∨ data.getD 1 0 ≠ uprotoMagic1
  · rw [if_pos (hmagic.mpr hno), if_pos hno]
  rw [if_neg (mt hmagic.mp hno), if_neg hno, read_byte data (by omega), read_byte data (by omega),
    read_byte data (by omega), read_byte data (by omega), Guarded.read_eq readU16Le_reads data (by omega),
    Guarded.read_eq readU16Le_reads data (by omega), Guarded.read_eq readU16Le_reads data (by omega),
    Guarded.read_eq readU16Le_reads data (by omega), Guarded.read_eq readU16Le_reads data (by omega),
    Guarded.read_span crc16Ccitt data (by omega)]
  simp only [Option.bind_eq_bind, Option.bind_some]
  by_cases hcrc : readU16Le (data.drop 14) ≠ crc16Ccitt ((data.drop 2).take 12)
  · rw [if_pos hcrc, if_pos hcrc]
  rw [if_neg hcrc, if_neg hcrc]
  by_cases hlarge : (readU16Le (data.drop 12)).toNat > uprotoMaxPayload
  · rw [if_pos hlarge, if_pos hlarge]
  rw [if_neg hlarge, if_neg hlarge]
  by_cases hpart : len < uprotoHeaderSize + (readU16Le (data.drop 12)).toNat + 2
  · rw [if_pos hpart, if_pos hpart]
  have hfits : 16 + (readU16Le (data.drop 12)).toNat + 2 ≤ limit := (Nat.le_of_not_lt hpart).trans h
  rw [if_neg hpart, if_neg hpart, Guarded.read_span id data (by omega),
    Guarded.read_eq readU16Le_reads data (by omega), Guarded.read_span crc16Ccitt data (by omega)]
  simp only [Option.bind_some, id]
  split_ifs <;> rfl

theorem uprotoRxLoop?_eq {σ : Type} (sink : RxSink σ) (fuel : ℕ) (rx : RxBuffer) (s : σ) (h : rx.rxPos < fuel) :
    uprotoRxLoop? sink fuel rx s = some (uprotoRxLoop sink fuel rx s) := by
  induction fuel generalizing rx s with
  | zero => exact absurd h (Nat.not_lt_zero _)
  | succ fuel ih =>
    obtain ⟨hagain, hcomplete⟩ := rxTurn_shrinks rx
    rw [uprotoRxLoop?, uprotoRxLoop, rxTurn?_eq, Option.bind_eq_bind, Option.bind_some]
    cases hturn : rxTurn rx with
    | stop rx' => rfl
    | again rx' =>
      have hlt := hagain rx' hturn
      exact ih rx' s (by omega)
    | complete rx' total =>
      obtain ⟨htotal, hfits, hle⟩ := hcomplete rx' total hturn
      dsimp only
      rw [uprotoDecodeFrame?_eq _ hfits, Option.bind_eq_bind, Option.bind_some, rx'.discard?_eq hfits,
        Option.bind_eq_bind, Option.bind_some]
      exact ih _ _ (by rw [RxBuffer.discard_rxPos]; omega)

/-! ### What is left in the buffer -/

theorem rxRead_rest_length (offset : ℕ) (b : List UInt8) : (rxRead offset b).2.length ≤ 273 := by
  induction hb : b.length using Nat.strong_induction_on generalizing offset b with
  | _ len ih =>
    subst hb
    cases rxRead_cases offset b with
    | short hlen hr =>
      rw [hr]
      exact (Nat.le_of_lt hlen).trans (by decide)
    | clear hlen hno hr =>
      rw [hr]
      exact Nat.zero_le _
    | wait n hlen hm hpart hr =>
      rw [hr, List.length_drop]
      rcases hpart with hheader | ⟨hok, hpayload⟩ <;> omega
    | skip n hm hpart hbad hr =>
      rw [hr]
      exact ih _ (by rw [List.length_drop]; omega) _ _ rfl
    | frame n total hm hok htotal hpart hr =>
      rw [hr]
      exact ih _ (by rw [List.length_drop]; omega) _ _ rfl

theorem uprotoOnRxBytes_rxPos {σ : Type} (sink : RxSink σ) (data : List UInt8) (rx : RxBuffer) (s : σ) :
    (uprotoOnRxBytes sink data rx s).1.rxPos ≤ uprotoHeaderSize + uprotoMaxPayload + 1 := by
  rw [← RxBuffer.bytes_length, (uprotoOnRxBytes_call sink data rx s 0).1]
  exact rxRead_rest_length _ _

theorem foldl_store_rxPos (rx : RxBuffer) (data : List UInt8) (h : rx.rxPos + data.length ≤ uprotoRxBufferSize) :
    (data.foldl RxBuffer.store rx).rxPos = rx.rxPos + data.length := by
  induction data generalizing rx with
  | nil => rfl
  | cons byte data ih =>
    rw [List.length_cons] at h ⊢
    have hstore : (rx.store byte).rxPos = rx.rxPos + 1 := by
      rw [RxBuffer.store, dif_pos (by omega)]
    rw [List.foldl_cons, ih _ (by omega), hstore]
    omega

/-- The receive loop ends and stays in bounds. From every buffer it ends within `rx_pos + 1` turns, each index it
    reads lies below `rx_pos` and no length is negative. A call leaves at most 273 bytes, and on so many a
    chunk of at most 239 bytes is stored without an overflow. -/
theorem uproto_rx_in_bounds {σ : Type} (sink : RxSink σ) (rx : RxBuffer) (s : σ) :
    uprotoRxLoop? sink (rx.rxPos + 1) rx s = some (uprotoProcessRxBuffer sink rx s) ∧
      (∀ data, (uprotoOnRxBytes sink data rx s).1.rxPos ≤ uprotoHeaderSize + uprotoMaxPayload + 1) ∧
        (rx.rxPos ≤ uprotoHeaderSize + uprotoMaxPayload + 1 → ∀ chunk pre byte post, chunk.length ≤ 239 →
          chunk = pre ++ byte :: post → (pre.foldl RxBuffer.store rx).rxPos < uprotoRxBufferSize) := by
  refine ⟨uprotoRxLoop?_eq sink _ rx s (Nat.lt_succ_self _), fun data => uprotoOnRxBytes_rxPos sink data rx s, ?_⟩
  intro hrest chunk pre byte post hchunk hsplit
  simp only [uprotoHeaderSize, uprotoMaxPayload] at hrest
  rw [hsplit, List.length_append, List.length_cons] at hchunk
  rw [foldl_store_rxPos _ pre (by simp only [uprotoRxBufferSize]; omega)]
  simp only [uprotoRxBufferSize]
  omega

/-- The last byte of a chunk of 239 in a buffer that holds as much as a call can leave. -/
theorem longest_rest_no_overflow : ∃ rx : RxBuffer, rx.rxPos = 273 ∧
    ((List.replicate 238 0).foldl RxBuffer.store rx).rxPos < uprotoRxBufferSize := by
  have hfull : 273 ≤ uprotoRxBufferSize := by decide
  refine ⟨⟨Vector.replicate uprotoRxBufferSize 0, 273, hfull⟩, rfl, ?_⟩
  exact (uproto_rx_in_bounds (σ := Unit) ⟨fun _ _ => (), fun _ => ()⟩ _ ()).2.2 le_rfl (List.replicate 239 0)
    (List.replicate 238 0) 0 [] List.length_replicate.le List.replicate_succ'

end SpVision
