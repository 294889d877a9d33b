import Mathlib.Data.List.GetD
import Mathlib.Tactic
import SpVision.Uproto.Crc

set_option autoImplicit false

/-!
# uproto frames: `uproto_encode_frame` and `uproto_decode_frame`

A byte buffer is the list of its bytes, a payload pointer an optional list
(`none` is `NULL`). The fields `magic`, `hdr_crc` and `frame_crc` of
`struct uproto_frame` are never written or read by the code and are left out.
-/
namespace SpVision

abbrev uprotoMaxPayload : ℕ := 256
abbrev uprotoHeaderSize : ℕ := 16
def uprotoMagic0 : UInt8 := 0xAA
def uprotoMagic1 : UInt8 := 0x55
def uprotoVersion : UInt8 := 0x01

def uprotoFlagRequest : UInt8 := 0x01
def uprotoFlagResponse : UInt8 := 0x02

def uprotoMsgHello : UInt8 := 0x01
def uprotoMsgHelloAck : UInt8 := 0x02
def uprotoMsgPing : UInt8 := 0x03
def uprotoMsgPong : UInt8 := 0x04
def uprotoMsgError : UInt8 := 0x0F
def uprotoMsgUserBase : UInt8 := 0x10

attribute [simp] uprotoMaxPayload uprotoHeaderSize

inductive UprotoError
  | ok | invalidParam | noMemory | timeout | crc | length | version | noHandler | txFull | busy
  deriving DecidableEq, Repr

/-- The fields of `struct uproto_frame` that the decoder fills in; `payload` holds the
    first `len` bytes of the payload array. -/
structure UprotoFrame where
  version : UInt8
  flags : UInt8
  type : UInt8
  reserved : UInt8
  txnId : UInt16
  seq : UInt16
  ack : UInt16
  len : UInt16
  payload : List UInt8
  deriving DecidableEq, Repr

def readU16Le (p : List UInt8) : UInt16 :=
  (p.getD 0 0).toUInt16 ||| ((p.getD 1 0).toUInt16 <<< 8)

def writeU16Le (val : UInt16) : List UInt8 := [(val &&& 0xff).toUInt8, ((val >>> 8) &&& 0xff).toUInt8]

def uprotoHeader (flags type : UInt8) (txnId seq ack len : UInt16) : List UInt8 :=
  [uprotoVersion, flags, type, 0] ++ writeU16Le txnId ++ writeU16Le seq ++ writeU16Le ack ++ writeU16Le len

/-- The bytes copied by `if (payload && payload_len > 0)`. -/
def uprotoPayloadBytes (payload : Option (List UInt8)) (payloadLen : ℕ) : List UInt8 :=
  match payload with
  | some p => if payloadLen > 0 then p.take payloadLen else []
  | none => []

def uprotoEncodeFrame (flags type : UInt8) (txnId seq ack : UInt16)
    (payload : Option (List UInt8)) (payloadLen : ℕ) : List UInt8 :=
  let hdr := uprotoHeader flags type txnId seq ack (UInt16.ofNat payloadLen)
  let body := hdr ++ writeU16Le (crc16Ccitt hdr) ++ uprotoPayloadBytes payload payloadLen
  [uprotoMagic0, uprotoMagic1] ++ body ++ writeU16Le (crc16Ccitt body)

def uprotoDecodeFrame (data : List UInt8) (len : ℕ) : Except UprotoError UprotoFrame :=
  if len < uprotoHeaderSize + 2 then .error .length
  else if data.getD 0 0 ≠ uprotoMagic0 ∨ data.getD 1 0 ≠ uprotoMagic1 then .error .length
  else
    let frameLen := readU16Le (data.drop 12)
    let hdrCrcRx := readU16Le (data.drop 14)
    let hdrCrcCalc := crc16Ccitt ((data.drop 2).take 12)
    if hdrCrcRx ≠ hdrCrcCalc then .error .crc
    else if frameLen.toNat > uprotoMaxPayload then .error .length
    else if len < uprotoHeaderSize + frameLen.toNat + 2 then .error .length
    else
      let frameCrcRx := readU16Le (data.drop (uprotoHeaderSize + frameLen.toNat))
      let frameCrcCalc := crc16Ccitt ((data.drop 2).take (uprotoHeaderSize - 2 + frameLen.toNat))
      if frameCrcRx ≠ frameCrcCalc then .error .crc
      else .ok
        { version := data.getD 2 0
          flags := data.getD 3 0
          type := data.getD 4 0
          reserved := data.getD 5 0
          txnId := readU16Le (data.drop 6)
          seq := readU16Le (data.drop 8)
          ack := readU16Le (data.drop 10)
          len := frameLen
          payload := (data.drop uprotoHeaderSize).take frameLen.toNat }

/-! ### Little-endian fields -/

@[simp] theorem writeU16Le_length (val : UInt16) : (writeU16Le val).length = 2 := rfl

theorem toNat_lowByte (val : UInt16) : (val &&& 0xff).toUInt8.toNat = val.toNat % 256 := by
  have hmask : val.toNat &&& 255 = val.toNat % 256 := Nat.and_two_pow_sub_one_eq_mod val.toNat 8
  simp only [UInt16.toNat_toUInt8, UInt16.toNat_and, UInt16.reduceToNat, hmask]
  omega

theorem toNat_highByte (val : UInt16) : ((val >>> 8) &&& 0xff).toUInt8.toNat = val.toNat / 256 := by
  have hval := val.toNat_lt
  have hmask : ∀ n : ℕ, n &&& 255 = n % 256 := fun n => Nat.and_two_pow_sub_one_eq_mod n 8
  simp only [UInt16.toNat_toUInt8, UInt16.toNat_and, UInt16.toNat_shiftRight, UInt16.reduceToNat,
    Nat.reduceMod, Nat.shiftRight_eq_div_pow, hmask]
  omega

theorem toNat_readU16Le (a b : UInt8) (rest : List UInt8) :
    (readU16Le (a :: b :: rest)).toNat = a.toNat + 256 * b.toNat := by
  have ha := a.toNat_lt
  have hb := b.toNat_lt
  simp only [readU16Le, List.getD_cons_zero, List.getD_cons_succ, UInt16.toNat_or,
    UInt16.toNat_shiftLeft, UInt8.toNat_toUInt16, UInt16.reduceToNat, Nat.reduceMod]
  rw [Nat.or_comm, Nat.mod_eq_of_lt (by rw [Nat.shiftLeft_eq]; omega),
    ← Nat.shiftLeft_add_eq_or_of_lt (by omega), Nat.shiftLeft_eq]
  omega

@[simp] theorem readU16Le_writeU16Le (val : UInt16) (rest : List UInt8) :
    readU16Le (writeU16Le val ++ rest) = val := by
  apply UInt16.toNat_inj.mp
  change (readU16Le ((val &&& 0xff).toUInt8 :: ((val >>> 8) &&& 0xff).toUInt8 :: rest)).toNat = val.toNat
  rw [toNat_readU16Le, toNat_lowByte, toNat_highByte]
  exact Nat.mod_add_div val.toNat 256

theorem writeU16Le_readU16Le (a b : UInt8) (rest : List UInt8) :
    writeU16Le (readU16Le (a :: b :: rest)) = [a, b] := by
  have ha := a.toNat_lt
  have hval := toNat_readU16Le a b rest
  generalize readU16Le (a :: b :: rest) = val at hval
  have hlow : (val &&& 0xff).toUInt8 = a := by
    apply UInt8.toNat_inj.mp
    rw [toNat_lowByte, hval]
    omega
  have hhigh : ((val >>> 8) &&& 0xff).toUInt8 = b := by
    apply UInt8.toNat_inj.mp
    rw [toNat_highByte, hval]
    omega
  rw [writeU16Le, hlow, hhigh]

theorem take_add_readU16Le {data : List UInt8} {n : ℕ} (hn : n + 2 ≤ data.length) :
    data.take (n + 2) = data.take n ++ writeU16Le (readU16Le (data.drop n)) := by
  rw [List.take_add]
  congr 1
  match hdrop : data.drop n with
  | a :: b :: rest => exact (writeU16Le_readU16Le a b rest).symm
  | [] | [_] =>
    have hlen := congrArg List.length hdrop
    simp only [List.length_drop, List.length_nil, List.length_singleton] at hlen
    omega

theorem take_four {data : List UInt8} (hlen : 4 ≤ data.length) :
    data.take 4 = [data.getD 0 0, data.getD 1 0, data.getD 2 0, data.getD 3 0] := by
  match data with
  | a :: b :: c :: d :: rest => rfl
  | [] | [_] | [_, _] | [_, _, _] =>
    simp only [List.length_nil, List.length_cons] at hlen
    omega

theorem readU16Le_take_drop (l : List UInt8) (n i : ℕ) (h : i + 2 ≤ n) :
    readU16Le ((l.take n).drop i) = readU16Le (l.drop i) := by
  have h0 : i < n := by omega
  have h1 : i + 1 < n := by omega
  simp [readU16Le, List.getD_eq_getElem?_getD, h0, h1]

/-! ### What the encoder produces -/

/-- The arguments of an encoder call whose payload has exactly `payload_len ≤ 256` bytes. -/
structure TxFrame where
  flags : UInt8
  type : UInt8
  txnId : UInt16
  seq : UInt16
  ack : UInt16
  payload : List UInt8
  payload_le : payload.length ≤ uprotoMaxPayload

namespace TxFrame

def bytes (f : TxFrame) : List UInt8 :=
  uprotoEncodeFrame f.flags f.type f.txnId f.seq f.ack (some f.payload) f.payload.length

/-- The frame that the receiver's handler is meant to see. -/
def frame (f : TxFrame) : UprotoFrame :=
  { version := uprotoVersion, flags := f.flags, type := f.type, reserved := 0
    txnId := f.txnId, seq := f.seq, ack := f.ack
    len := UInt16.ofNat f.payload.length, payload := f.payload }

def header (f : TxFrame) : List UInt8 :=
  uprotoHeader f.flags f.type f.txnId f.seq f.ack (UInt16.ofNat f.payload.length)

def body (f : TxFrame) : List UInt8 := f.header ++ writeU16Le (crc16Ccitt f.header) ++ f.payload

theorem header_length (f : TxFrame) : f.header.length = 12 := rfl

theorem body_length (f : TxFrame) : f.body.length = 14 + f.payload.length := by
  simp only [body, List.length_append, header_length, writeU16Le_length]

theorem bytes_eq (f : TxFrame) :
    f.bytes = uprotoMagic0 :: uprotoMagic1 :: (f.body ++ writeU16Le (crc16Ccitt f.body)) := by
  have hp : uprotoPayloadBytes (some f.payload) f.payload.length = f.payload := by
    cases f.payload <;> simp [uprotoPayloadBytes]
  simp [bytes, uprotoEncodeFrame, hp, body, header]

theorem bytes_length (f : TxFrame) : f.bytes.length = 18 + f.payload.length := by
  simp [bytes_eq, body_length]
  omega

theorem len_toNat (f : TxFrame) : (UInt16.ofNat f.payload.length).toNat = f.payload.length := by
  have h := f.payload_le
  simp only [uprotoMaxPayload] at h
  rw [UInt16.toNat_ofNat']
  omega

theorem lenField_bytes (f : TxFrame) (rest : List UInt8) :
    readU16Le ((f.bytes ++ rest).drop 12) = UInt16.ofNat f.payload.length := by
  simp only [bytes_eq, body, header, uprotoHeader, List.cons_append, List.nil_append,
    List.append_assoc]
  exact readU16Le_writeU16Le _ _

theorem bytes_append (f : TxFrame) (rest : List UInt8) :
    f.bytes ++ rest = uprotoMagic0 :: uprotoMagic1 :: uprotoVersion :: f.flags :: f.type :: 0 ::
      (writeU16Le f.txnId ++ (writeU16Le f.seq ++ (writeU16Le f.ack ++
        (writeU16Le (UInt16.ofNat f.payload.length) ++ (writeU16Le (crc16Ccitt f.header) ++
          (f.payload ++ (writeU16Le (crc16Ccitt f.body) ++ rest))))))) := by
  simp only [bytes_eq, body, header, uprotoHeader, List.cons_append, List.nil_append,
    List.append_assoc]

/-- Decoding undoes encoding, whatever follows the frame in the buffer. -/
theorem decode_bytes (f : TxFrame) (rest : List UInt8) :
    uprotoDecodeFrame (f.bytes ++ rest) f.bytes.length = .ok f.frame := by
  have hlen := f.bytes_length
  have hpay := f.payload_le
  simp only [uprotoMaxPayload] at hpay
  have hdr : ((f.bytes ++ rest).drop 2).take 12 = f.header := by rw [bytes_append]; rfl
  have hcrc : readU16Le ((f.bytes ++ rest).drop 14) = crc16Ccitt f.header := by
    rw [bytes_append]; exact readU16Le_writeU16Le _ _
  have htxn : readU16Le ((f.bytes ++ rest).drop 6) = f.txnId := by
    rw [bytes_append]; exact readU16Le_writeU16Le _ _
  have hseq : readU16Le ((f.bytes ++ rest).drop 8) = f.seq := by
    rw [bytes_append]; exact readU16Le_writeU16Le _ _
  have hack : readU16Le ((f.bytes ++ rest).drop 10) = f.ack := by
    rw [bytes_append]; exact readU16Le_writeU16Le _ _
  have hbody : ((f.bytes ++ rest).drop 2).take (14 + f.payload.length) = f.body := by
    rw [← body_length, bytes_eq]
    simp
  have hpl : ((f.bytes ++ rest).drop 16) = f.payload ++ (writeU16Le (crc16Ccitt f.body) ++ rest) := by
    rw [bytes_append]; rfl
  have hfcrc : readU16Le ((f.bytes ++ rest).drop (16 + f.payload.length)) = crc16Ccitt f.body := by
    rw [← List.drop_drop, hpl, List.drop_left]
    exact readU16Le_writeU16Le _ _
  unfold uprotoDecodeFrame
  simp only [uprotoHeaderSize, uprotoMaxPayload, lenField_bytes, len_toNat, hdr, hcrc, htxn, hseq,
    hack, hbody, hpl, hfcrc, Nat.reduceSub, List.take_left]
  rw [if_neg (by omega), if_neg (by rw [bytes_append]; simp), if_neg (by simp), if_neg (by omega),
    if_neg (by omega), if_neg (by simp), bytes_append]
  rfl

end TxFrame

/-! ### What the decoder accepts -/

def StartsMagic (data : List UInt8) : Prop :=
  data.getD 0 0 = uprotoMagic0 ∧ data.getD 1 0 = uprotoMagic1

instance (data : List UInt8) : Decidable (StartsMagic data) :=
  inferInstanceAs (Decidable (_ ∧ _))

/-- The block of bytes that a decoded frame stands for: magic, both checksums and the payload. -/
structure FrameBlock (block : List UInt8) (f : UprotoFrame) : Prop where
  length : block.length = uprotoHeaderSize + f.len.toNat + 2
  magic : StartsMagic block
  headerCrc : readU16Le (block.drop 14) = crc16Ccitt ((block.drop 2).take 12)
  frameCrc : readU16Le (block.drop (uprotoHeaderSize + f.len.toNat)) =
    crc16Ccitt ((block.drop 2).take (uprotoHeaderSize - 2 + f.len.toNat))
  payload : f.payload = (block.drop uprotoHeaderSize).take f.len.toNat
  decoded : uprotoDecodeFrame block block.length = .ok f

theorem uprotoDecodeFrame_take (data : List UInt8) (len : ℕ) :
    uprotoDecodeFrame (data.take len) len = uprotoDecodeFrame data len := by
  unfold uprotoDecodeFrame
  by_cases hlen : len < uprotoHeaderSize + 2
  · rw [if_pos hlen, if_pos hlen]
  rw [if_neg hlen, if_neg hlen]
  simp only [uprotoHeaderSize] at hlen
  have hget : ∀ i, i < 18 → (data.take len).getD i 0 = data.getD i 0 := by
    intro i hi
    have hi' : i < len := by omega
    simp [List.getD_eq_getElem?_getD, hi']
  have hread : ∀ i, i + 2 ≤ len → readU16Le ((data.take len).drop i) = readU16Le (data.drop i) :=
    fun i hi => readU16Le_take_drop data len i hi
  have hsub : ∀ i n, i + n ≤ len → ((data.take len).drop i).take n = (data.drop i).take n := by
    intro i n hn
    rw [List.drop_take, List.take_take, Nat.min_eq_left (by omega)]
  rw [hget 0 (by omega), hget 1 (by omega), hget 2 (by omega), hget 3 (by omega), hget 4 (by omega),
    hget 5 (by omega), hread 12 (by omega), hread 14 (by omega), hread 6 (by omega),
    hread 8 (by omega), hread 10 (by omega), hsub 2 12 (by omega)]
  simp only [uprotoHeaderSize, uprotoMaxPayload, Nat.reduceSub]
  by_cases hshort : len < 16 + (readU16Le (data.drop 12)).toNat + 2
  · simp only [hshort, if_true]
  · have hn := Nat.le_of_not_lt hshort
    simp only [hread (16 + (readU16Le (data.drop 12)).toNat) hn,
      hsub 2 (14 + (readU16Le (data.drop 12)).toNat) (by omega),
      hsub 16 (readU16Le (data.drop 12)).toNat (by omega)]

theorem uprotoDecodeFrame_ok {data : List UInt8} {len : ℕ} {f : UprotoFrame}
    (h : uprotoDecodeFrame data len = .ok f) :
    uprotoHeaderSize + f.len.toNat + 2 ≤ len ∧ StartsMagic data ∧
      f.len = readU16Le (data.drop 12) ∧ f.len.toNat ≤ uprotoMaxPayload ∧
      readU16Le (data.drop 14) = crc16Ccitt ((data.drop 2).take 12) ∧
      readU16Le (data.drop (uprotoHeaderSize + f.len.toNat)) =
        crc16Ccitt ((data.drop 2).take (uprotoHeaderSize - 2 + f.len.toNat)) ∧
      f.payload = (data.drop uprotoHeaderSize).take f.len.toNat := by
  unfold uprotoDecodeFrame at h
  dsimp only at h
  split_ifs at h with hlen hmagic hhdr hmax hshort hfrm
  simp only [Except.ok.injEq] at h
  subst h
  rw [not_or, not_not, not_not] at hmagic
  exact ⟨Nat.le_of_not_lt hshort, hmagic, rfl, Nat.le_of_not_lt hmax, not_not.mp hhdr,
    not_not.mp hfrm, rfl⟩

theorem FrameBlock.of_decode {data : List UInt8} {f : UprotoFrame} {len : ℕ}
    (hlen : len = uprotoHeaderSize + (readU16Le (data.drop 12)).toNat + 2)
    (hle : len ≤ data.length) (h : uprotoDecodeFrame data len = .ok f) :
    FrameBlock (data.take len) f := by
  have hd : uprotoDecodeFrame (data.take len) len = .ok f := by
    rw [uprotoDecodeFrame_take data len, h]
  have hl : (data.take len).length = len := by simpa using hle
  obtain ⟨-, -, hf, -⟩ := uprotoDecodeFrame_ok h
  obtain ⟨-, hm, -, -, hh, hc, hp⟩ := uprotoDecodeFrame_ok hd
  exact ⟨by rw [hl, hlen, hf], hm, hh, hc, hp, by rw [hl, hd]⟩

end SpVision
