import SpVision.Library.ReflectedCrc
import SpVision.Uproto.Frame

set_option autoImplicit false

/-!
# Burst errors in a frame

The table of `CRC8_CRC16.c` divides by the reflected polynomial `0x8408`. A frame holds two
code words, the header inside the body, and an error burst of at most 16 bits that reaches
one of them damages it.
-/
namespace SpVision
open ReflectedCrc

def crcPoly : BitVec 16 := 0x8408#16

theorem crcPoly_top : crcPoly.getLsbD (16 - 1) = true := rfl

/-- The bits of a byte in the order of the line, lowest first. -/
def byteBits (b : UInt8) : List Bool := bits b.toBitVec

def messageBits (message : List UInt8) : List Bool := message.flatMap byteBits

@[simp] theorem byteBits_length (b : UInt8) : (byteBits b).length = 8 := by
  rw [byteBits, bits_length]

@[simp] theorem messageBits_nil : messageBits [] = [] := rfl

theorem messageBits_cons (b : UInt8) (message : List UInt8) :
    messageBits (b :: message) = byteBits b ++ messageBits message := rfl

theorem messageBits_append (xs ys : List UInt8) :
    messageBits (xs ++ ys) = messageBits xs ++ messageBits ys := List.flatMap_append

theorem messageBits_length (message : List UInt8) : (messageBits message).length = 8 * message.length := by
  induction message with
  | nil => rfl
  | cons b message ih =>
    rw [messageBits_cons, List.length_append, byteBits_length, ih, List.length_cons]
    omega

/-! ### The table is a division table -/

/-- A step of the division on numbers. -/
def shiftNat (c : ℕ) : ℕ := (c / 2) ^^^ (c % 2 * 0x8408)

theorem shift_toNat (c : BitVec 16) : (shift crcPoly c).toNat = shiftNat c.toNat := by
  have hlow : c.getLsbD 0 = decide (c.toNat % 2 = 1) := Nat.testBit_zero _
  rw [shift, shiftNat, hlow]
  by_cases hone : c.toNat % 2 = 1
  · rw [if_pos (decide_eq_true hone), BitVec.toNat_xor, BitVec.toNat_ushiftRight, Nat.shiftRight_one, hone]
    rfl
  · have hzero : c.toNat % 2 = 0 := by omega
    rw [if_neg (by rw [decide_eq_false hone]; decide), BitVec.toNat_ushiftRight, Nat.shiftRight_one, hzero,
      Nat.zero_mul, Nat.xor_zero]

theorem feed_false_toNat (n : ℕ) (c : BitVec 16) :
    (feed crcPoly c (List.replicate n false)).toNat = shiftNat^[n] c.toNat := by
  induction n generalizing c with
  | zero => rfl
  | succ n ih => rw [List.replicate_succ, feed_cons, bit_false, ih, shift_toNat, Function.iterate_succ_apply]

theorem wCRCTable_toNat : wCRCTable.toList.map UInt16.toNat = (List.range 256).map shiftNat^[8] := by
  decide +kernel

theorem wCRCTable_eq (i : Fin 256) : (wCRCTable.getD i 0).toBitVec =
    feed crcPoly (BitVec.ofNat 16 i) (List.replicate 8 false) := by
  have hrow : (wCRCTable[i.val]?).map UInt16.toNat = some (shiftNat^[8] i) := by
    have hrows := congrArg (fun rows => rows[i.val]?) wCRCTable_toNat
    rwa [List.getElem?_map, Array.getElem?_toList, List.getElem?_map, List.getElem?_range i.isLt] at hrows
  have hentry : (wCRCTable.getD i 0).toNat = shiftNat^[8] i := by
    obtain ⟨entry, hentry, hvalue⟩ := Option.map_eq_some_iff.mp hrow
    rw [Array.getD_eq_getD_getElem?, hentry]
    exact hvalue
  apply BitVec.eq_of_toNat_eq
  have hindex : (BitVec.ofNat 16 i).toNat = i := Nat.mod_eq_of_lt (i.isLt.trans (by decide))
  rw [feed_false_toNat, hindex, ← hentry]
  rfl

theorem crc16Byte_toBitVec (wCRC : UInt16) (chData : UInt8) :
    (crc16Byte wCRC chData).toBitVec = feed crcPoly wCRC.toBitVec (byteBits chData) := by
  have hwide : byteBits chData = (List.range 8).map (chData.toUInt16.toBitVec).getLsbD := by
    apply List.map_congr_left
    intro i hi
    rw [List.mem_range] at hi
    change _ = (BitVec.setWidth 16 chData.toBitVec).getLsbD i
    rw [BitVec.getLsbD_setWidth, decide_eq_true (by omega), Bool.true_and]
  have hmask : ∀ i, i < 16 → (0xff#16).getLsbD i = decide (i < 8) := by decide
  have hindex : ((wCRC ^^^ chData.toUInt16) &&& 0x00ff).toNat < 256 := by
    rw [UInt16.toNat_and]
    exact Nat.lt_of_le_of_lt Nat.and_le_right (by decide)
  have htable := wCRCTable_eq ⟨_, hindex⟩
  have hdata : chData.toUInt16.toBitVec >>> 8 = 0#16 := by
    apply BitVec.eq_of_toNat_eq
    have hlt := chData.toNat_lt
    rw [BitVec.toNat_ushiftRight, Nat.shiftRight_eq_div_pow]
    change chData.toUInt16.toNat / 2 ^ 8 = 0
    rw [UInt8.toNat_toUInt16]
    omega
  have hlow : (wCRC.toBitVec ^^^ chData.toUInt16.toBitVec) &&& 0xff#16 =
      BitVec.ofNat 16 ((wCRC ^^^ chData.toUInt16) &&& 0x00ff).toNat := by
    change _ = BitVec.ofNat 16 ((wCRC ^^^ chData.toUInt16) &&& 0x00ff).toBitVec.toNat
    rw [BitVec.ofNat_toNat, BitVec.setWidth_eq]
    rfl
  dsimp only at htable
  rw [hwide, feed_range_xor, feed_false_split hmask, hlow, ← htable, BitVec.ushiftRight_xor_distrib,
    hdata, BitVec.xor_zero, BitVec.xor_zero, BitVec.xor_comm]
  rfl

theorem getCRC16CheckSum_toBitVec (message : List UInt8) (wCRC : UInt16) :
    (getCRC16CheckSum (some message) wCRC).toBitVec = feed crcPoly wCRC.toBitVec (messageBits message) := by
  change (message.foldl crc16Byte wCRC).toBitVec = _
  induction message generalizing wCRC with
  | nil => rfl
  | cons b message ih =>
    rw [List.foldl_cons, ih, crc16Byte_toBitVec, messageBits_cons, feed_append]

/-! ### Code words -/

theorem messageBits_writeU16Le (val : UInt16) : messageBits (writeU16Le val) = bits val.toBitVec := by
  have hlow : ∀ i, i < 8 → (val &&& 0xff).toUInt8.toBitVec.getLsbD i = val.toBitVec.getLsbD i := by
    intro i hi
    interval_cases i <;> simp
  have hhigh : ∀ i, i < 8 →
      ((val >>> 8) &&& 0xff).toUInt8.toBitVec.getLsbD i = val.toBitVec.getLsbD (8 + i) := by
    intro i hi
    interval_cases i <;> simp
  have hsplit : List.range 16 = List.range 8 ++ (List.range 8).map (8 + ·) := @List.range_add 8 8
  rw [bits, hsplit, List.map_append, List.map_map]
  change byteBits _ ++ (byteBits _ ++ []) = _
  rw [List.append_nil, byteBits, byteBits]
  congr 1
  · exact List.map_congr_left fun i hi => hlow i (List.mem_range.mp hi)
  · exact List.map_congr_left fun i hi => hhigh i (List.mem_range.mp hi)

/-- The check of a received checksum against the bytes before it. -/
def CodeWord (word : List UInt8) : Prop := feed crcPoly 0xffff#16 (messageBits word) = 0#16

theorem codeWord_iff {data : List UInt8} {n : ℕ} (hn : n + 2 ≤ data.length) :
    readU16Le (data.drop n) = crc16Ccitt (data.take n) ↔ CodeWord (data.take (n + 2)) := by
  have hcrc := getCRC16CheckSum_toBitVec (data.take n) 0xffff
  rw [CodeWord, take_add_readU16Le hn, messageBits_append, feed_append, messageBits_writeU16Le,
    feed_bits_eq_zero_iff crcPoly_top, eq_comm, ← UInt16.toBitVec_inj, crc16Ccitt, hcrc]
  rfl

def xorBytes (data e : List UInt8) : List UInt8 := List.zipWith (· ^^^ ·) data e

theorem byteBits_xor (a b : UInt8) :
    byteBits (a ^^^ b) = List.zipWith (· ^^ ·) (byteBits a) (byteBits b) := by
  rw [byteBits, UInt8.toBitVec_xor, bits_xor]
  rfl

theorem messageBits_xorBytes {data e : List UInt8} (hlen : data.length = e.length) :
    messageBits (xorBytes data e) = List.zipWith (· ^^ ·) (messageBits data) (messageBits e) := by
  induction data generalizing e with
  | nil => rfl
  | cons a data ih =>
    cases e with
    | nil => cases hlen
    | cons b e =>
      change messageBits ((a ^^^ b) :: xorBytes data e) = _
      rw [messageBits_cons, messageBits_cons, messageBits_cons, List.zipWith_append (by simp),
        byteBits_xor, ih (Nat.succ.inj hlen)]

theorem true_mem_messageBits {e : List UInt8} {b : UInt8} (hb : b ∈ e) (hne : b ≠ 0) :
    true ∈ messageBits e := by
  have hbits : b.toBitVec ≠ 0#8 := fun hzero => hne (UInt8.toBitVec_inj.mp hzero)
  exact List.mem_flatMap.mpr ⟨b, hb, true_mem_bits hbits⟩

/-- Two code words never differ by a burst. -/
theorem CodeWord.eq_zero {data e : List UInt8} (h : CodeWord data) (h' : CodeWord (xorBytes data e))
    (hlen : data.length = e.length) (hburst : Burst 16 (messageBits e)) : ∀ b ∈ e, b = 0 := by
  intro b hb
  by_contra hne
  have hbits : (messageBits data).length = (messageBits e).length := by
    rw [messageBits_length, messageBits_length, hlen]
  apply feed_burst_ne_zero crcPoly_top h hbits (true_mem_messageBits hb hne) hburst
  rw [← messageBits_xorBytes hlen]
  exact h'

/-! ### Damaged frames -/

theorem messageBits_drop (message : List UInt8) (n : ℕ) :
    messageBits (message.drop n) = (messageBits message).drop (8 * n) := by
  induction n generalizing message with
  | zero => rfl
  | succ n ih =>
    cases message with
    | nil => simp
    | cons b message =>
      rw [List.drop_succ_cons, ih, messageBits_cons, Nat.mul_succ, Nat.add_comm, ← List.drop_drop,
        List.drop_left' (byteBits_length b)]

theorem messageBits_take (message : List UInt8) (n : ℕ) :
    messageBits (message.take n) = (messageBits message).take (8 * n) := by
  by_cases hn : n ≤ message.length
  · have hlen : (messageBits (message.take n)).length = 8 * n := by
      rw [messageBits_length, List.length_take_of_le hn]
    have hsplit := messageBits_append (message.take n) (message.drop n)
    rw [List.take_append_drop] at hsplit
    rw [hsplit, List.take_left' hlen]
  · rw [List.take_of_length_le (by omega), List.take_of_length_le]
    rw [messageBits_length]
    omega

theorem xorBytes_length {data e : List UInt8} (hlen : e.length = data.length) :
    (xorBytes data e).length = data.length := by
  simp [xorBytes, hlen]

theorem xorBytes_slice (data e : List UInt8) (i n : ℕ) :
    ((xorBytes data e).drop i).take n = xorBytes ((data.drop i).take n) ((e.drop i).take n) := by
  rw [xorBytes, xorBytes, List.drop_zipWith, List.take_zipWith]

theorem xorBytes_zero {data e : List UInt8} (hlen : e.length = data.length) (he : ∀ b ∈ e, b = 0) :
    xorBytes data e = data := by
  rw [List.eq_replicate_of_mem he]
  apply List.ext_getElem <;> simp [xorBytes, hlen]

/-- Both checksums of a block that the decoder accepts, as code words. -/
theorem uprotoDecodeFrame_codeWords {data : List UInt8} {len : ℕ} {g : UprotoFrame}
    (hlen : len ≤ data.length) (h : uprotoDecodeFrame data len = .ok g) :
    CodeWord ((data.drop 2).take 14) ∧ CodeWord ((data.drop 2).take (16 + g.len.toNat)) := by
  obtain ⟨hshort, -, -, -, hhdr, hfrm, -⟩ := uprotoDecodeFrame_ok h
  simp only [uprotoHeaderSize, Nat.reduceSub] at hshort hfrm
  have hdrop : (data.drop 2).length = data.length - 2 := List.length_drop
  constructor
  · rw [← codeWord_iff (n := 12) (by omega), List.drop_drop]
    exact hhdr
  · rw [show 16 + g.len.toNat = 14 + g.len.toNat + 2 by omega,
      ← codeWord_iff (n := 14 + g.len.toNat) (by omega), List.drop_drop]
    rw [show 2 + (14 + g.len.toNat) = 16 + g.len.toNat by omega]
    exact hfrm

/-- An error that leaves the magic as it is leaves its two bytes alone. -/
theorem eq_zero_of_magic {f : TxFrame} {e : List UInt8} (hlen : e.length = f.bytes.length)
    (hmagic : (xorBytes f.bytes e).getD 0 0 = uprotoMagic0 ∧ (xorBytes f.bytes e).getD 1 0 = uprotoMagic1)
    (hrest : ∀ b ∈ e.drop 2, b = 0) : ∀ b ∈ e, b = 0 := by
  rw [f.bytes_length] at hlen
  rcases e with _ | ⟨a, _ | ⟨b, rest⟩⟩
  · exact nofun
  · rw [List.length_singleton] at hlen
    omega
  rw [f.bytes_eq] at hmagic
  obtain ⟨ha, hb⟩ := hmagic
  change uprotoMagic0 ^^^ a = uprotoMagic0 at ha
  change uprotoMagic1 ^^^ b = uprotoMagic1 at hb
  refine List.forall_mem_cons.mpr ⟨?_, List.forall_mem_cons.mpr ⟨?_, hrest⟩⟩
  · exact (UInt8.xor_right_inj uprotoMagic0).mp (ha.trans UInt8.xor_zero.symm)
  · exact (UInt8.xor_right_inj uprotoMagic1).mp (hb.trans UInt8.xor_zero.symm)

/-- Burst errors are always detected. No frame of the encoder, damaged by a burst of at most
    16 bits anywhere, is accepted at its length. -/
theorem uprotoDecodeFrame_burst (f : TxFrame) (e : List UInt8) (hlen : e.length = f.bytes.length)
    (hdamaged : ∃ b ∈ e, b ≠ 0) (hburst : Burst 16 (messageBits e)) :
    ∀ g, uprotoDecodeFrame (xorBytes f.bytes e) f.bytes.length ≠ .ok g := by
  intro g hok
  have hbytes := f.bytes_length
  have hsent := f.decode_bytes []
  rw [List.append_nil] at hsent
  obtain ⟨hhdr, hfrm⟩ := uprotoDecodeFrame_codeWords (Nat.le_refl _) hsent
  obtain ⟨hhdr', hfrm'⟩ := uprotoDecodeFrame_codeWords (xorBytes_length hlen).ge hok
  obtain ⟨-, hmagic, hglen, -⟩ := uprotoDecodeFrame_ok hok
  have hslice (n : ℕ) :
      ((f.bytes.drop 2).take n).length = ((e.drop 2).take n).length := by
    simp only [List.length_take, List.length_drop, hlen]
  have hpart (n : ℕ) : Burst 16 (messageBits ((e.drop 2).take n)) := by
    rw [messageBits_take, messageBits_drop]
    exact (hburst.drop _).take _
  -- the header checksum leaves nothing of the burst in the header
  rw [xorBytes_slice] at hhdr'
  have hzero := hhdr.eq_zero hhdr' (hslice 14) (hpart 14)
  have hheader := xorBytes_zero (hslice 14).symm hzero
  rw [← xorBytes_slice] at hheader
  have hfield := congrArg (fun l => readU16Le (l.drop 10)) hheader
  rw [readU16Le_take_drop _ _ _ (by omega), readU16Le_take_drop _ _ _ (by omega), List.drop_drop,
    List.drop_drop] at hfield
  have hlenField := f.lenField_bytes []
  rw [List.append_nil] at hlenField
  have hsame : g.len.toNat = f.payload.length := by
    rw [hglen, hfield, hlenField, f.len_toNat]
  have hsame' : f.frame.len.toNat = f.payload.length := f.len_toNat
  -- so the frame checksum is read where it was written
  rw [hsame, xorBytes_slice] at hfrm'
  rw [hsame'] at hfrm
  have hrest := hfrm.eq_zero hfrm' (hslice _) (hpart _)
  rw [List.take_of_length_le (by rw [List.length_drop]; omega)] at hrest
  obtain ⟨b, hb, hne⟩ := hdamaged
  exact hne (eq_zero_of_magic hlen hmagic hrest b hb)

def straddledFrame : TxFrame := ⟨uprotoFlagRequest, uprotoMsgUserBase, 7, 1, 0, [0x5A], by decide⟩

/-- The last bit of the header checksum and the first of the payload. -/
def straddlingError : List UInt8 := List.replicate 15 0 ++ [0x80, 0x01] ++ List.replicate 2 0

theorem uprotoDecodeFrame_burst_straddling : ¬ ∃ g,
    uprotoDecodeFrame (xorBytes straddledFrame.bytes straddlingError) straddledFrame.bytes.length =
      .ok g := by
  rintro ⟨g, hg⟩
  refine uprotoDecodeFrame_burst straddledFrame straddlingError straddledFrame.bytes_length.symm
    ⟨0x80, by decide, by decide⟩ ⟨127, fun i hi => ?_⟩ g hg
  have hlow : (messageBits straddlingError).take 127 = List.replicate 127 false := by decide +kernel
  have hhigh : (messageBits straddlingError).drop 129 = List.replicate 23 false := by decide +kernel
  by_contra hout
  by_cases hi' : i < 127
  · rw [← List.getElem?_take_of_lt hi', hlow, List.getElem?_replicate] at hi
    simp at hi
  · obtain ⟨j, rfl⟩ := Nat.exists_eq_add_of_le (show 129 ≤ i by omega)
    rw [← List.getElem?_drop, hhigh, List.getElem?_replicate] at hi
    simp at hi

end SpVision
