import SpVision.Comm.Channel

set_option autoImplicit false

/-!
# The MUX envelope: `mux_encode` and `mux_decode`

The host is little-endian and `mux_hdr_t` is packed, so the copied header is the list of
its fields in order.
-/
namespace SpVision

/-- `comm_read_u32_le`; also a copied `uint32_t` field. -/
def readU32Le (p : List UInt8) : UInt32 :=
  (p.getD 0 0).toUInt32 ||| ((p.getD 1 0).toUInt32 <<< 8) ||| ((p.getD 2 0).toUInt32 <<< 16) |||
    ((p.getD 3 0).toUInt32 <<< 24)

abbrev muxHdrSize : ℕ := 14

/-- `memcpy(&hdr, data, sizeof(hdr))`. -/
def readMuxHdr (data : List UInt8) : MuxHdr :=
  { sof := data.getD 0 0, ver := data.getD 1 0, channel := data.getD 2 0, flags := data.getD 3 0
    len := readU16Le (data.drop 4), sid := readU16Le (data.drop 6), seq := readU32Le (data.drop 8)
    rsv := readU16Le (data.drop 12) }

/-- `none` is `false`; the payload is the view `*out_payload` of `hdr.len` bytes. -/
def muxDecode (data : List UInt8) (len : ℕ) : Option (MuxHdr × List UInt8) :=
  if len < muxHdrSize + 2 then none
  else
    let hdr := readMuxHdr data
    if hdr.sof ≠ muxSof ∨ hdr.ver ≠ muxVer then none
    else if len < muxHdrSize + hdr.len.toNat + 2 then none
    else
      let crcRx := readU16Le (data.drop (muxHdrSize + hdr.len.toNat))
      let crcCalc := crc16Ccitt ((data.drop 1).take (muxHdrSize - 1 + hdr.len.toNat))
      if crcRx ≠ crcCalc then none
      else some (hdr, (data.drop muxHdrSize).take hdr.len.toNat)

/-! ### Header fields -/

theorem toNat_readU32Le (a b c d : UInt8) (rest : List UInt8) : (readU32Le (a :: b :: c :: d :: rest)).toNat =
    a.toNat + 256 * b.toNat + 65536 * c.toNat + 16777216 * d.toNat := by
  have ha := a.toNat_lt
  have hb := b.toNat_lt
  have hc := c.toNat_lt
  have hd := d.toNat_lt
  have hor (x y k : ℕ) (hx : x < 2 ^ k) : x ||| y <<< k = x + 2 ^ k * y := by
    rw [Nat.or_comm, ← Nat.shiftLeft_add_eq_or_of_lt hx, Nat.shiftLeft_eq, Nat.add_comm, Nat.mul_comm]
  have hshift (x : UInt8) (k : ℕ) (hk : k ≤ 24) : x.toNat <<< k % 2 ^ 32 = x.toNat <<< k := by
    have hx := x.toNat_lt
    have hpow : 2 ^ k ≤ 2 ^ 24 := Nat.pow_le_pow_right Nat.two_pos hk
    rw [Nat.shiftLeft_eq]
    exact Nat.mod_eq_of_lt (by nlinarith)
  simp only [readU32Le, List.getD_cons_zero, List.getD_cons_succ, UInt32.toNat_or,
    UInt32.toNat_shiftLeft, UInt8.toNat_toUInt32, UInt32.reduceToNat, Nat.reduceMod]
  rw [hshift b 8 (by omega), hshift c 16 (by omega), hshift d 24 (by omega), hor _ _ 8 (by omega),
    hor _ _ 16 (by omega), hor _ _ 24 (by omega)]
  omega

theorem toNat_writeU16Le (val : UInt16) : (writeU16Le val).map UInt8.toNat =
    [val.toNat % 256, val.toNat / 256] := by
  change [(val &&& 0xff).toUInt8.toNat, ((val >>> 8) &&& 0xff).toUInt8.toNat] = _
  rw [toNat_highByte, toNat_lowByte]

theorem toNat_writeU32Le (val : UInt32) : (writeU32Le val).map UInt8.toNat =
    [val.toNat % 256, val.toNat / 256 % 256, val.toNat / 65536 % 256, val.toNat / 16777216 % 256] := by
  have hval := val.toNat_lt
  have hlow : val.toUInt16.toNat = val.toNat % 65536 := UInt32.toNat_toUInt16 val
  have hhigh : (val >>> 16).toUInt16.toNat = val.toNat / 65536 := by
    simp only [UInt32.toNat_toUInt16, UInt32.toNat_shiftRight, UInt32.reduceToNat, Nat.reduceMod,
      Nat.shiftRight_eq_div_pow]
    omega
  rw [writeU32Le, List.map_append, toNat_writeU16Le, toNat_writeU16Le, hlow, hhigh]
  simp only [List.cons_append, List.nil_append, List.cons.injEq, and_true, true_and]
  omega

theorem readU32Le_writeU32Le (val : UInt32) (rest : List UInt8) :
    readU32Le (writeU32Le val ++ rest) = val := by
  have hval := val.toNat_lt
  have hbytes := toNat_writeU32Le val
  obtain ⟨a, b, c, d, hw⟩ : ∃ a b c d, writeU32Le val = [a, b, c, d] := ⟨_, _, _, _, rfl⟩
  rw [hw] at hbytes ⊢
  simp only [List.map_cons, List.map_nil, List.cons.injEq, and_true] at hbytes
  apply UInt32.toNat_inj.mp
  rw [List.cons_append, List.cons_append, List.cons_append, List.cons_append, toNat_readU32Le]
  omega

theorem writeU32Le_readU32Le (a b c d : UInt8) (rest : List UInt8) :
    writeU32Le (readU32Le (a :: b :: c :: d :: rest)) = [a, b, c, d] := by
  have ha := a.toNat_lt
  have hb := b.toNat_lt
  have hc := c.toNat_lt
  have hd := d.toNat_lt
  have hinj : Function.Injective UInt8.toNat := fun _ _ h => UInt8.toNat_inj.mp h
  apply List.map_injective_iff.mpr hinj
  rw [toNat_writeU32Le, toNat_readU32Le]
  simp only [List.map_cons, List.map_nil, List.cons.injEq, and_true]
  omega

theorem take_add_readU32Le {data : List UInt8} {n : ℕ} (hn : n + 4 ≤ data.length) :
    data.take (n + 4) = data.take n ++ writeU32Le (readU32Le (data.drop n)) := by
  rw [List.take_add]
  congr 1
  match hdrop : data.drop n with
  | a :: b :: c :: d :: rest => exact (writeU32Le_readU32Le a b c d rest).symm
  | [] | [_] | [_, _] | [_, _, _] =>
    have hlen := congrArg List.length hdrop
    simp only [List.length_drop, List.length_nil, List.length_cons] at hlen
    omega

theorem MuxHdr.bytes_length (h : MuxHdr) : h.bytes.length = muxHdrSize := rfl

theorem readMuxHdr_bytes (h : MuxHdr) (rest : List UInt8) : readMuxHdr (h.bytes ++ rest) = h := by
  have hbytes : h.bytes ++ rest = h.sof :: h.ver :: h.channel :: h.flags :: (writeU16Le h.len ++
      (writeU16Le h.sid ++ (writeU32Le h.seq ++ (writeU16Le h.rsv ++ rest)))) := by
    simp only [MuxHdr.bytes, List.cons_append, List.nil_append, List.append_assoc]
  have hlen : readU16Le ((h.bytes ++ rest).drop 4) = h.len := by
    rw [hbytes]
    exact readU16Le_writeU16Le _ _
  have hsid : readU16Le ((h.bytes ++ rest).drop 6) = h.sid := by
    rw [hbytes]
    exact readU16Le_writeU16Le _ _
  have hseq : readU32Le ((h.bytes ++ rest).drop 8) = h.seq := by
    rw [hbytes]
    exact readU32Le_writeU32Le _ _
  have hrsv : readU16Le ((h.bytes ++ rest).drop 12) = h.rsv := by
    rw [hbytes]
    exact readU16Le_writeU16Le _ _
  unfold readMuxHdr
  rw [hlen, hsid, hseq, hrsv, hbytes]
  rfl

theorem bytes_readMuxHdr {data : List UInt8} (hlen : muxHdrSize ≤ data.length) :
    (readMuxHdr data).bytes = data.take muxHdrSize := by
  simp only [muxHdrSize] at hlen ⊢
  rw [take_add_readU16Le (n := 12) (by omega), take_add_readU32Le (n := 8) (by omega),
    take_add_readU16Le (n := 6) (by omega), take_add_readU16Le (n := 4) (by omega),
    take_four (by omega)]
  rfl

/-! ### Exactness -/

/-- A payload of the announced length is refused only for the fixed header fields or for want of
    room. -/
theorem muxEncode_eq_none_iff (outCap : ℕ) (hdr : MuxHdr) (payload : List UInt8) :
    muxEncode outCap hdr payload = none ↔
      hdr.sof ≠ muxSof ∨ hdr.ver ≠ muxVer ∨ outCap < muxHdrSize + hdr.len.toNat + 2 := by
  unfold muxEncode
  dsimp only
  split_ifs with hfixed hcap
  · simp only [true_iff]
    exact hfixed.elim .inl (.inr ∘ .inl)
  · simp only [true_iff]
    exact .inr (.inr hcap)
  · simp only [false_iff]
    rintro (hsof | hver | hroom)
    · exact hfixed (.inl hsof)
    · exact hfixed (.inr hver)
    · exact hcap hroom

theorem muxEncode_eq_some {outCap : ℕ} {hdr : MuxHdr} {payload out : List UInt8}
    (h : muxEncode outCap hdr payload = some out) :
    hdr.sof = muxSof ∧ hdr.ver = muxVer ∧ muxHdrSize + hdr.len.toNat + 2 ≤ outCap ∧
      out = hdr.bytes ++ payload.take hdr.len.toNat ++
        writeU16Le (crc16Ccitt (hdr.bytes ++ payload.take hdr.len.toNat).tail) := by
  unfold muxEncode at h
  dsimp only at h
  split_ifs at h with hfixed hcap
  rw [not_or, not_not, not_not] at hfixed
  exact ⟨hfixed.1, hfixed.2, Nat.le_of_not_lt hcap, (Option.some.inj h).symm⟩

theorem readMuxHdr_encode {outCap : ℕ} {hdr : MuxHdr} {payload out : List UInt8}
    (h : muxEncode outCap hdr payload = some out) (rest : List UInt8) : readMuxHdr (out ++ rest) = hdr := by
  obtain ⟨-, -, -, hout⟩ := muxEncode_eq_some h
  rw [hout, List.append_assoc, List.append_assoc]
  exact readMuxHdr_bytes hdr _

theorem muxDecode_encode {outCap : ℕ} {hdr : MuxHdr} {payload out : List UInt8}
    (hpayload : payload.length = hdr.len.toNat) (h : muxEncode outCap hdr payload = some out)
    (rest : List UInt8) : muxDecode (out ++ rest) (out ++ rest).length = some (hdr, payload) := by
  have hsize : muxHdrSize = 14 := rfl
  obtain ⟨hsof, hver, -, hout⟩ := muxEncode_eq_some h
  rw [List.take_of_length_le hpayload.le] at hout
  generalize hcrc : crc16Ccitt (hdr.bytes ++ payload).tail = crc at hout
  have hbody : (hdr.bytes ++ payload).length = muxHdrSize + hdr.len.toNat := by
    rw [List.length_append, hdr.bytes_length, hpayload]
  have hdata : out ++ rest = (hdr.bytes ++ payload) ++ (writeU16Le crc ++ rest) := by
    rw [hout, List.append_assoc]
  have hlen : (out ++ rest).length = muxHdrSize + hdr.len.toNat + 2 + rest.length := by
    rw [hdata, List.length_append, hbody, List.length_append, writeU16Le_length]
    omega
  have hrx : readU16Le ((out ++ rest).drop (muxHdrSize + hdr.len.toNat)) = crc := by
    rw [hdata, List.drop_left' hbody]
    exact readU16Le_writeU16Le _ _
  have hcalc : ((out ++ rest).drop 1).take (muxHdrSize - 1 + hdr.len.toNat) =
      (hdr.bytes ++ payload).tail := by
    rw [hdata, List.drop_one, List.tail_append_of_ne_nil (List.ne_nil_of_length_pos (by omega))]
    apply List.take_left'
    rw [List.length_tail, hbody]
    omega
  have hview : ((out ++ rest).drop muxHdrSize).take hdr.len.toNat = payload := by
    rw [hdata, List.append_assoc, List.drop_left' hdr.bytes_length]
    exact List.take_left' hpayload
  unfold muxDecode
  dsimp only
  rw [if_neg (by omega), readMuxHdr_encode h, if_neg (by simp [hsof, hver]), if_neg (by omega), hrx,
    hcalc, hcrc, if_neg (by simp), hview]

theorem muxEncode_decode {data : List UInt8} {hdr : MuxHdr} {payload : List UInt8}
    (h : muxDecode data data.length = some (hdr, payload)) :
    hdr.sof = muxSof ∧ hdr.ver = muxVer ∧ payload.length = hdr.len.toNat ∧
      muxEncode (muxHdrSize + hdr.len.toNat + 2) hdr payload =
        some (data.take (muxHdrSize + hdr.len.toNat + 2)) := by
  have hsize : muxHdrSize = 14 := rfl
  unfold muxDecode at h
  dsimp only at h
  split_ifs at h with hshort hfixed hlong hcrc
  rw [Option.some.injEq, Prod.mk.injEq] at h
  obtain ⟨hhdr, hview⟩ := h
  rw [hhdr] at hfixed hlong hcrc hview
  rw [not_or, not_not, not_not] at hfixed
  have hpayload : payload.length = hdr.len.toNat := by
    rw [← hview, List.length_take, List.length_drop]
    omega
  have hbytes : hdr.bytes = data.take muxHdrSize := by
    rw [← hhdr]
    exact bytes_readMuxHdr (by omega)
  have hbody : hdr.bytes ++ payload = data.take (muxHdrSize + hdr.len.toNat) := by
    rw [hbytes, ← hview, ← List.take_add]
  have htail : (data.take (muxHdrSize + hdr.len.toNat)).tail =
      (data.drop 1).take (muxHdrSize - 1 + hdr.len.toNat) := by
    rw [← List.drop_one, List.drop_take]
    congr 1
    omega
  refine ⟨hfixed.1, hfixed.2, hpayload, ?_⟩
  unfold muxEncode
  dsimp only
  rw [if_neg (by simp [hfixed.1, hfixed.2]), if_neg (by omega), List.take_of_length_le hpayload.le,
    hbody, htail, ← not_not.mp hcrc, ← take_add_readU16Le (by omega)]

/-- The codec is exact. Decoding succeeds precisely on the byte strings that begin with an
    encoded header and payload and returns these, and encoding fails only for a wrong fixed field
    or too small a buffer. -/
theorem muxDecode_eq_some_iff (data : List UInt8) (hdr : MuxHdr) (payload : List UInt8) :
    (muxDecode data data.length = some (hdr, payload) ↔
      hdr.sof = muxSof ∧ hdr.ver = muxVer ∧ payload.length = hdr.len.toNat ∧
        ∃ out, muxEncode (muxHdrSize + hdr.len.toNat + 2) hdr payload = some out ∧ out <+: data) ∧
    ∀ outCap, (muxEncode outCap hdr payload = none ↔
      hdr.sof ≠ muxSof ∨ hdr.ver ≠ muxVer ∨ outCap < muxHdrSize + hdr.len.toNat + 2) := by
  refine ⟨⟨fun h => ?_, ?_⟩, fun outCap => muxEncode_eq_none_iff outCap hdr payload⟩
  · obtain ⟨hsof, hver, hpayload, hencode⟩ := muxEncode_decode h
    exact ⟨hsof, hver, hpayload, _, hencode, List.take_prefix _ _⟩
  · rintro ⟨-, -, hpayload, out, hencode, rest, rfl⟩
    exact muxDecode_encode hpayload hencode rest

end SpVision
