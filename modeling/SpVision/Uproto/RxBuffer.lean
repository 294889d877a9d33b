import SpVision.Uproto.Frame

set_option autoImplicit false

/-!
# The receive buffer: `uproto_process_rx_buffer` and `uproto_on_rx_bytes`

`rx_buffer` and `rx_pos` are kept apart from the rest of the context. The calls
that the loop makes into the rest of the library, `uproto_handle_frame` and the
`crc_error` event, act on a state of their own (`RxSink`): handlers do not
re-enter `uproto_on_rx_bytes`, so the buffer is not theirs to change.
-/
namespace SpVision

abbrev uprotoRxBufferSize : ℕ := 512

attribute [simp] uprotoRxBufferSize

/-- The fields `rx_buffer` and `rx_pos` of `struct uproto_context`. -/
structure RxBuffer where
  rxBuffer : Vector UInt8 uprotoRxBufferSize
  rxPos : ℕ
  rxPos_le : rxPos ≤ uprotoRxBufferSize

namespace RxBuffer

def empty : RxBuffer := ⟨Vector.replicate uprotoRxBufferSize 0, 0, Nat.zero_le _⟩

/-- The received bytes that have not been consumed yet. -/
def bytes (rx : RxBuffer) : List UInt8 := rx.rxBuffer.toList.take rx.rxPos

def memmoveDown (buffer : Vector UInt8 uprotoRxBufferSize) (source n : ℕ) :
    Vector UInt8 uprotoRxBufferSize :=
  Vector.ofFn fun i => if i.val < n then buffer.toList.getD (source + i.val) 0 else buffer[i]

/-- Move the bytes from `n` on to the front and reduce `rx_pos` by `n`. -/
def discard (rx : RxBuffer) (n : ℕ) : RxBuffer :=
  ⟨memmoveDown rx.rxBuffer n (rx.rxPos - n), rx.rxPos - n, (Nat.sub_le _ _).trans rx.rxPos_le⟩

def clear (rx : RxBuffer) : RxBuffer := ⟨rx.rxBuffer, 0, Nat.zero_le _⟩

def store (rx : RxBuffer) (byte : UInt8) : RxBuffer :=
  if h : rx.rxPos < uprotoRxBufferSize then ⟨rx.rxBuffer.set rx.rxPos byte, rx.rxPos + 1, h⟩
  else rx.clear

def findMagic (rx : RxBuffer) : Option ℕ :=
  (List.range (rx.rxPos - 1)).find? fun i =>
    rx.rxBuffer.toList.getD i 0 = uprotoMagic0 ∧ rx.rxBuffer.toList.getD (i + 1) 0 = uprotoMagic1

end RxBuffer

/-- How one turn of the `while` loop ends before any frame is decoded: out of the loop,
    with `continue`, or with a complete frame at the front of the buffer. -/
inductive RxTurn
  | stop (rx : RxBuffer)
  | again (rx : RxBuffer)
  | complete (rx : RxBuffer) (totalLen : ℕ)

def rxTurn (rx : RxBuffer) : RxTurn :=
  if rx.rxPos < uprotoHeaderSize + 2 then .stop rx
  else match rx.findMagic with
    | none => .stop rx.clear
    | some frameStart =>
      let rx := if frameStart > 0 then rx.discard frameStart else rx
      if rx.rxPos < uprotoHeaderSize then .stop rx
      else
        let payloadLen := readU16Le (rx.rxBuffer.toList.drop 12)
        let totalLen := uprotoHeaderSize + payloadLen.toNat + 2
        if payloadLen.toNat > uprotoMaxPayload then .again (rx.discard 2)
        else if rx.rxPos < totalLen then .stop rx
        else .complete rx totalLen

/-- What the loop calls: `uproto_handle_frame`, and the `crc_error` count and event. -/
structure RxSink (σ : Type) where
  handleFrame : UprotoFrame → σ → σ
  crcError : σ → σ

def RxSink.result {σ : Type} (sink : RxSink σ) (r : Except UprotoError UprotoFrame) (s : σ) : σ :=
  match r with
  | .ok frame => sink.handleFrame frame s
  | .error .crc => sink.crcError s
  | .error _ => s

def uprotoRxLoop {σ : Type} (sink : RxSink σ) : ℕ → RxBuffer → σ → RxBuffer × σ
  | 0, rx, s => (rx, s)
  | fuel + 1, rx, s =>
    match rxTurn rx with
    | .stop rx => (rx, s)
    | .again rx => uprotoRxLoop sink fuel rx s
    | .complete rx totalLen =>
      let s := sink.result (uprotoDecodeFrame rx.rxBuffer.toList totalLen) s
      uprotoRxLoop sink fuel (rx.discard totalLen) s

/-- Every turn that does not leave the loop shortens the buffer, so `rx_pos + 1` turns
    suffice. -/
def uprotoProcessRxBuffer {σ : Type} (sink : RxSink σ) (rx : RxBuffer) (s : σ) : RxBuffer × σ :=
  uprotoRxLoop sink (rx.rxPos + 1) rx s

def uprotoOnRxBytes {σ : Type} (sink : RxSink σ) (data : List UInt8) (rx : RxBuffer) (s : σ) :
    RxBuffer × σ :=
  uprotoProcessRxBuffer sink (data.foldl RxBuffer.store rx) s

namespace RxBuffer

@[simp] theorem bytes_length (rx : RxBuffer) : rx.bytes.length = rx.rxPos := by
  have h := rx.rxPos_le
  simp only [bytes, List.length_take, Vector.length_toList]
  omega

@[simp] theorem clear_bytes (rx : RxBuffer) : rx.clear.bytes = [] := by simp [clear, bytes]

@[simp] theorem empty_bytes : empty.bytes = [] := by simp [empty, bytes]

@[simp] theorem discard_rxPos (rx : RxBuffer) (n : ℕ) : (rx.discard n).rxPos = rx.rxPos - n := rfl

theorem discard_bytes (rx : RxBuffer) (n : ℕ) : (rx.discard n).bytes = rx.bytes.drop n := by
  have hpos := rx.rxPos_le
  apply List.ext_getElem
  · simp
  · intro i h₁ h₂
    have hi : i < rx.rxPos - n := by simpa using h₁
    have hin : n + i < rx.rxBuffer.toList.length := by rw [Vector.length_toList]; omega
    simp only [bytes, discard, memmoveDown, List.getElem_take, List.getElem_drop,
      Vector.getElem_toList, Vector.getElem_ofFn, hi, if_true]
    rw [List.getD_eq_getElem _ _ hin, Vector.getElem_toList]

theorem store_bytes (rx : RxBuffer) (byte : UInt8) :
    (rx.store byte).bytes = if rx.rxPos < uprotoRxBufferSize then rx.bytes ++ [byte] else [] := by
  unfold store
  split_ifs with h
  · simp only [bytes, Vector.toList_set]
    have hlen : rx.rxPos < (rx.rxBuffer.toList.set rx.rxPos byte).length := by
      rw [List.length_set, Vector.length_toList]; exact h
    rw [List.take_succ_eq_append_getElem hlen, List.getElem_set_self,
      List.take_set_of_le (le_refl _)]
  · simp

theorem getD_bytes (rx : RxBuffer) (i : ℕ) (h : i < rx.rxPos) :
    rx.bytes.getD i 0 = rx.rxBuffer.toList.getD i 0 := by
  simp [bytes, List.getD_eq_getElem?_getD, h]

end RxBuffer

end SpVision
