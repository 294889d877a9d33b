import SpVision.Uproto.Endpoint

set_option autoImplicit false

/-!
# Frames on the wire and the encoder's image

The decoder accepts whatever passes both checksums, also a frame of another protocol
version, and the three send functions write one frame that the decoder accepts unless a
null payload comes with a length.
-/
namespace SpVision

/-! ### What is decoded, encoded again -/

def UprotoFrame.encodeAgain (f : UprotoFrame) : List UInt8 :=
  uprotoEncodeFrame f.flags f.type f.txnId f.seq f.ack (some f.payload) f.len.toNat

theorem uprotoDecodeFrame_fields {data : List UInt8} {len : ℕ} {f : UprotoFrame}
    (h : uprotoDecodeFrame data len = .ok f) :
    f = { version := data.getD 2 0, flags := data.getD 3 0, type := data.getD 4 0
          reserved := data.getD 5 0, txnId := readU16Le (data.drop 6), seq := readU16Le (data.drop 8)
          ack := readU16Le (data.drop 10), len := readU16Le (data.drop 12)
          payload := (data.drop 16).take (readU16Le (data.drop 12)).toNat } := by
  unfold uprotoDecodeFrame at h
  dsimp only at h
  split_ifs at h
  exact (Except.ok.inj h).symm

theorem uprotoPayloadBytes_some (p : List UInt8) (len : ℕ) :
    uprotoPayloadBytes (some p) len = p.take len := by
  unfold uprotoPayloadBytes
  dsimp only
  split_ifs with hpos
  · rfl
  · rw [Nat.eq_zero_of_not_pos hpos, List.take_zero]

/-- The encoder gives back the first `18 + len` bytes, with its own version and reserved bytes. -/
theorem uprotoDecodeFrame_encodeAgain {data : List UInt8} {len : ℕ} {f : UprotoFrame}
    (hlen : len ≤ data.length) (h : uprotoDecodeFrame data len = .ok f)
    (hversion : data.getD 2 0 = uprotoVersion) (hreserved : data.getD 5 0 = 0) :
    f.encodeAgain = data.take (18 + f.len.toNat) := by
  obtain ⟨hshort, ⟨hmagic0, hmagic1⟩, -, -, hhdr, hfrm, -⟩ := uprotoDecodeFrame_ok h
  have hfields := uprotoDecodeFrame_fields h
  simp only [uprotoHeaderSize, Nat.reduceSub] at hshort hfrm
  have hrest : (data.drop 2).length = data.length - 2 := List.length_drop
  have hheader : uprotoHeader f.flags f.type f.txnId f.seq f.ack f.len = (data.drop 2).take 12 := by
    rw [take_add_readU16Le (n := 10) (by omega), take_add_readU16Le (n := 8) (by omega),
      take_add_readU16Le (n := 6) (by omega), take_add_readU16Le (n := 4) (by omega),
      take_four (by omega)]
    simp only [List.drop_drop, List.getD_eq_getElem?_getD, List.getElem?_drop] at hversion hreserved ⊢
    rw [hfields]
    simp only [hversion, hreserved, uprotoHeader, List.getD_eq_getElem?_getD]
  have hpayload : f.payload = ((data.drop 2).drop 14).take f.len.toNat := by
    rw [List.drop_drop, hfields]
  have hplen : f.payload.length ≤ f.len.toNat := by
    rw [hpayload]
    exact List.length_take_le _ _
  have hhdrCrc : writeU16Le (crc16Ccitt ((data.drop 2).take 12)) =
      writeU16Le (readU16Le ((data.drop 2).drop 12)) := by
    rw [← hhdr, List.drop_drop]
  have hfrmCrc : writeU16Le (crc16Ccitt ((data.drop 2).take (14 + f.len.toNat))) =
      writeU16Le (readU16Le ((data.drop 2).drop (14 + f.len.toNat))) := by
    rw [← hfrm, List.drop_drop]
    congr 3
    omega
  have hbody : (data.drop 2).take 12 ++ writeU16Le (crc16Ccitt ((data.drop 2).take 12)) ++ f.payload =
      (data.drop 2).take (14 + f.len.toNat) := by
    rw [hhdrCrc, ← take_add_readU16Le (by omega), hpayload, ← List.take_add]
  have hmagic : data.take 2 = [uprotoMagic0, uprotoMagic1] := by
    rcases data with _ | ⟨a, _ | ⟨b, rest⟩⟩
    · simp only [List.length_nil] at hlen
      omega
    · simp only [List.length_singleton] at hlen
      omega
    · exact congrArg₂ (fun a b => [a, b]) hmagic0 hmagic1
  unfold UprotoFrame.encodeAgain uprotoEncodeFrame
  dsimp only
  rw [UInt16.ofNat_toNat, uprotoPayloadBytes_some, List.take_of_length_le hplen, hheader,
    hbody, List.append_assoc, hfrmCrc, ← take_add_readU16Le (by omega), ← hmagic, Nat.add_assoc,
    ← List.take_add]
  congr 1
  omega

/-- What the decoder accepts is in the encoder's image exactly if the version byte and the
    reserved byte are those of the encoder. -/
theorem uprotoDecodeFrame_image_iff {data : List UInt8} {len : ℕ} {f : UprotoFrame}
    (hlen : len ≤ data.length) (h : uprotoDecodeFrame data len = .ok f) :
    f.version = uprotoVersion ∧ f.reserved = 0 ∧ f.encodeAgain = data.take (18 + f.len.toNat) ↔
      data.getD 2 0 = uprotoVersion ∧ data.getD 5 0 = 0 := by
  have hfields := uprotoDecodeFrame_fields h
  constructor
  · rintro ⟨hversion, hreserved, -⟩
    rw [hfields] at hversion hreserved
    exact ⟨hversion, hreserved⟩
  · rintro ⟨hversion, hreserved⟩
    refine ⟨?_, ?_, uprotoDecodeFrame_encodeAgain hlen h hversion hreserved⟩
    · rw [hfields]
      exact hversion
    · rw [hfields]
      exact hreserved

theorem uprotoDecodeFrame_image_iff_ping :
    uprotoDecodeFrame pingFrame.bytes pingFrame.bytes.length = .ok pingFrame.frame ∧
      (pingFrame.frame.version = uprotoVersion ∧ pingFrame.frame.reserved = 0 ∧
          pingFrame.frame.encodeAgain = pingFrame.bytes.take (18 + pingFrame.frame.len.toNat) ↔
        pingFrame.bytes.getD 2 0 = uprotoVersion ∧ pingFrame.bytes.getD 5 0 = 0) := by
  have hok := pingFrame.decode_bytes []
  rw [List.append_nil] at hok
  exact ⟨hok, uprotoDecodeFrame_image_iff (Nat.le_refl _) hok⟩

/-- An empty request of protocol version 2, with both checksums correct. -/
def otherVersionBytes : List UInt8 :=
  let hdr : List UInt8 := [2, uprotoFlagRequest, uprotoMsgUserBase, 0, 1, 0, 0, 0, 0, 0, 0, 0]
  let body := hdr ++ writeU16Le (crc16Ccitt hdr)
  [uprotoMagic0, uprotoMagic1] ++ body ++ writeU16Le (crc16Ccitt body)

/-- The frame is accepted, is not what the encoder writes, and reaches a handler. -/
theorem uprotoDecodeFrame_other_version : ∃ data f entry,
    uprotoDecodeFrame data data.length = .ok f ∧ f.version ≠ uprotoVersion ∧
      f.encodeAgain ≠ data.take (18 + f.len.toNat) ∧
      .handler entry f.txnId f.payload ∈ ((Endpoint.init true false none).run quietEnv
        [.call (.registerHandler f.type entry.handler entry.user), .rxBytes data]).link.log := by
  refine ⟨otherVersionBytes, ⟨2, uprotoFlagRequest, uprotoMsgUserBase, 0, 1, 0, 0, 0, []⟩,
    ⟨uprotoMsgUserBase, 5, 0⟩, ?_⟩
  decide +kernel

/-! ### What the send functions write -/

/-- A call of one of the send functions. -/
inductive UprotoSend
  | request (type : UInt8) (payload : Option (List UInt8)) (len : ℕ) (timeoutMs : UInt32)
      (retries : UInt8) (callback : Option ℕ) (user : ℕ)
  | response (txnId : UInt16) (type : UInt8) (payload : Option (List UInt8)) (len : ℕ)
  | notify (type : UInt8) (payload : Option (List UInt8)) (len : ℕ)

namespace UprotoSend

def send (env : Env) (l : Link) : UprotoSend → UprotoError × Link
  | request type payload len timeoutMs retries callback user =>
    uprotoSendRequest env type payload len timeoutMs retries callback user l
  | response txnId type payload len => uprotoSendResponse env txnId type payload len l
  | notify type payload len => uprotoSendNotify env type payload len l

def flags : UprotoSend → UInt8
  | request _ _ _ _ _ _ _ => uprotoFlagRequest
  | response _ _ _ _ => uprotoFlagResponse
  | notify _ _ _ => 0

def type : UprotoSend → UInt8
  | request type _ _ _ _ _ _ | response _ type _ _ | notify type _ _ => type

/-- The id of the frame; a request draws it from the context. -/
def txnId (ctx : UprotoContext) : UprotoSend → UInt16
  | request _ _ _ _ _ _ _ => ctx.nextTxnId
  | response txnId _ _ _ => txnId
  | notify _ _ _ => 0

def payload : UprotoSend → Option (List UInt8)
  | request _ payload _ _ _ _ _ | response _ _ payload _ | notify _ payload _ => payload

def len : UprotoSend → ℕ
  | request _ _ len _ _ _ _ | response _ _ _ len | notify _ _ len => len

def frameBytes (l : Link) (s : UprotoSend) : List UInt8 :=
  uprotoEncodeFrame s.flags s.type (s.txnId l.ctx) l.ctx.localSeq 0 s.payload s.len

end UprotoSend

def UprotoObs.written? : UprotoObs → Option (List UInt8)
  | .write _ data _ => some data
  | _ => none

/-- One frame that the decoder accepts at its length, with as many payload bytes as it says. -/
def IsFrame (flags type : UInt8) (txnId : UInt16) (data : List UInt8) : Prop :=
  ∃ f, uprotoDecodeFrame data data.length = .ok f ∧ f.flags = flags ∧ f.type = type ∧
    f.txnId = txnId ∧ data.length = 18 + f.len.toNat

theorem uprotoEncodeFrame_length_none (flags type : UInt8) (txnId seq ack : UInt16) (len : ℕ) :
    (uprotoEncodeFrame flags type txnId seq ack none len).length = 18 := rfl

theorem TxFrame.isFrame (f : TxFrame) : IsFrame f.flags f.type f.txnId f.bytes := by
  have hok := f.decode_bytes []
  rw [List.append_nil] at hok
  refine ⟨f.frame, hok, rfl, rfl, rfl, ?_⟩
  rw [f.bytes_length, show f.frame.len.toNat = f.payload.length from f.len_toNat]

theorem uprotoEncodeFrame_isFrame_iff {flags type : UInt8} {txnId seq : UInt16}
    {payload : Option (List UInt8)} {len : ℕ} (hmax : len ≤ uprotoMaxPayload)
    (hread : ∀ p, payload = some p → len ≤ p.length) :
    IsFrame flags type txnId (uprotoEncodeFrame flags type txnId seq 0 payload len) ↔
      payload.isSome ∨ len = 0 := by
  cases payload with
  | some p =>
    have hlen : (p.take len).length = len := List.length_take_of_le (hread p rfl)
    have hbytes : uprotoEncodeFrame flags type txnId seq 0 (some p) len =
        (TxFrame.mk flags type txnId seq 0 (p.take len) (hlen.trans_le hmax)).bytes := by
      unfold TxFrame.bytes uprotoEncodeFrame
      dsimp only
      rw [uprotoPayloadBytes_some, uprotoPayloadBytes_some, hlen, List.take_take, Nat.min_self]
    rw [hbytes]
    exact iff_of_true (TxFrame.isFrame _) (.inl rfl)
  | none =>
    by_cases hlen : len = 0
    · subst hlen
      exact iff_of_true (TxFrame.isFrame ⟨flags, type, txnId, seq, 0, [], Nat.zero_le _⟩) (.inr rfl)
    · refine iff_of_false ?_ (by simp [hlen])
      rintro ⟨f, hok, -⟩
      obtain ⟨hshort, -, hfield, -⟩ := uprotoDecodeFrame_ok hok
      have hlenField : f.len = UInt16.ofNat len := hfield.trans (readU16Le_writeU16Le _ _)
      rw [uprotoEncodeFrame_length_none, hlenField, UInt16.toNat_ofNat'] at hshort
      simp only [uprotoHeaderSize, uprotoMaxPayload] at hshort hmax
      omega

theorem uprotoSendFrame_written {env : Env} {flags type : UInt8} {txnId : UInt16}
    {payload : Option (List UInt8)} {len : ℕ} {l : Link}
    (hok : (uprotoSendFrame env flags type txnId payload len l).1 = .ok) :
    ∃ after, (uprotoSendFrame env flags type txnId payload len l).2.log = after ++ l.log ∧
      after.filterMap UprotoObs.written? =
        [uprotoEncodeFrame flags type txnId l.ctx.localSeq 0 payload len] := by
  unfold uprotoSendFrame at hok ⊢
  dsimp only at hok ⊢
  split_ifs at hok ⊢ with hport hsent
  refine ⟨[_], (uprotoNow_log env _).trans rfl, rfl⟩

theorem uprotoSendRequest_written {env : Env} {type : UInt8} {payload : Option (List UInt8)} {len : ℕ}
    {timeoutMs : UInt32} {retries : UInt8} {cb : Option ℕ} {user : ℕ} {l : Link}
    (hok : (uprotoSendRequest env type payload len timeoutMs retries cb user l).1 = .ok) :
    ∃ after, (uprotoSendRequest env type payload len timeoutMs retries cb user l).2.log = after ++ l.log ∧
      after.filterMap UprotoObs.written? =
        [uprotoEncodeFrame uprotoFlagRequest type l.ctx.nextTxnId l.ctx.localSeq 0 payload len] := by
  have hcases := uprotoSendRequest_cases env type payload len timeoutMs retries cb user l
  generalize uprotoEncodeFrame uprotoFlagRequest type l.ctx.nextTxnId l.ctx.localSeq 0 payload len =
    txData at hcases ⊢
  generalize uprotoSendRequest env type payload len timeoutMs retries cb user l = result at hcases hok ⊢
  cases hcases with
  | refused err herr hrefused => exact absurd hok herr
  | full slot halloc hfull => cases hok
  | sent slot txn halloc hsent hstate hid hretry hdata hstamp =>
    have hlog := (uprotoNow_log env (l.offered env slot txData)).trans (Link.offered_log env l slot txData)
    exact ⟨[_, _, _], congrArg (List.cons _) hlog, rfl⟩

theorem UprotoSend.send_written {env : Env} {l : Link} {s : UprotoSend} (hok : (s.send env l).1 = .ok) :
    s.len ≤ uprotoMaxPayload ∧ ∃ after, (s.send env l).2.log = after ++ l.log ∧
      after.filterMap UprotoObs.written? = [s.frameBytes l] := by
  cases s with
  | request type payload len timeoutMs retries callback user =>
    refine ⟨?_, uprotoSendRequest_written hok⟩
    by_contra hlen
    have hlong : len > uprotoMaxPayload := Nat.lt_of_not_le hlen
    change (uprotoSendRequest env type payload len timeoutMs retries callback user l).1 = .ok at hok
    rw [uprotoSendRequest, if_pos hlong] at hok
    cases hok
  | response txnId type payload len =>
    simp only [send, uprotoSendResponse] at hok ⊢
    split_ifs at hok ⊢ with hlen
    exact ⟨Nat.le_of_not_lt hlen, uprotoSendFrame_written hok⟩
  | notify type payload len =>
    simp only [send, uprotoSendNotify] at hok ⊢
    split_ifs at hok ⊢ with hlen
    exact ⟨Nat.le_of_not_lt hlen, uprotoSendFrame_written hok⟩

/-- A send that succeeds writes one well-formed frame with the flags, type and id of the call,
    exactly if its payload is not null or its length is zero. -/
theorem uprotoSend_isFrame_iff {env : Env} {l : Link} {s : UprotoSend}
    (hread : ∀ p, s.payload = some p → s.len ≤ p.length) (hok : (s.send env l).1 = .ok) :
    (∃ after data, (s.send env l).2.log = after ++ l.log ∧
        after.filterMap UprotoObs.written? = [data] ∧ IsFrame s.flags s.type (s.txnId l.ctx) data) ↔
      s.payload.isSome ∨ s.len = 0 := by
  obtain ⟨hmax, after, hlog, hwritten⟩ := UprotoSend.send_written hok
  have hframe : IsFrame s.flags s.type (s.txnId l.ctx) (s.frameBytes l) ↔ s.payload.isSome ∨ s.len = 0 :=
    uprotoEncodeFrame_isFrame_iff hmax hread
  rw [← hframe]
  constructor
  · rintro ⟨after', data, hlog', hwritten', hframe⟩
    have hsame := List.append_cancel_right (hlog'.symm.trans hlog)
    rw [hsame, hwritten] at hwritten'
    exact (List.singleton_inj.mp hwritten').symm ▸ hframe
  · exact fun hframe => ⟨after, _, hlog, hwritten, hframe⟩

theorem uprotoSend_isFrame_iff_notify : ∃ l s,
    (∀ p, UprotoSend.payload s = some p → s.len ≤ p.length) ∧ (s.send quietEnv l).1 = .ok ∧
      ((∃ after data, (s.send quietEnv l).2.log = after ++ l.log ∧
          after.filterMap UprotoObs.written? = [data] ∧ IsFrame s.flags s.type (s.txnId l.ctx) data) ↔
        s.payload.isSome ∨ s.len = 0) := by
  let s : UprotoSend := .notify uprotoMsgUserBase (some [7, 8]) 2
  have hread : ∀ p, s.payload = some p → s.len ≤ p.length := by
    rintro p ⟨⟩
    decide
  have hok : (s.send quietEnv (Endpoint.init true true none).link).1 = .ok := by decide +kernel
  exact ⟨_, s, hread, hok, uprotoSend_isFrame_iff hread hok⟩

/-- A notification of four bytes and no payload is sent, and no decoder accepts it. -/
theorem uprotoSend_null_payload : ∃ l s,
    (∀ p, UprotoSend.payload s = some p → s.len ≤ p.length) ∧ (s.send quietEnv l).1 = .ok ∧
      ¬ ∃ after data, (s.send quietEnv l).2.log = after ++ l.log ∧
        after.filterMap UprotoObs.written? = [data] ∧ IsFrame s.flags s.type (s.txnId l.ctx) data := by
  let l := (Endpoint.init true true none).link
  let s : UprotoSend := .notify uprotoMsgUserBase none 4
  have hread : ∀ p, s.payload = some p → s.len ≤ p.length := by
    rintro p ⟨⟩
  refine ⟨l, s, hread, by decide +kernel, ?_⟩
  rintro ⟨after, data, hlog, hwritten, hframe⟩
  rw [show (s.send quietEnv l).2.log = [.write 0 (s.frameBytes l) 18] from rfl,
    show l.log = [] from rfl, List.append_nil] at hlog
  rw [← hlog] at hwritten
  have hdata : s.frameBytes l = data := List.singleton_inj.mp hwritten
  have hiff : IsFrame s.flags s.type (s.txnId l.ctx) (s.frameBytes l) ↔ s.payload.isSome ∨ s.len = 0 :=
    uprotoEncodeFrame_isFrame_iff (by decide) hread
  exact absurd (hiff.mp (hdata ▸ hframe)) (by decide)

end SpVision
