import SpVision.Uproto.Endpoint

set_option autoImplicit false

/-!
# Streams of valid frames

On a stream that consists of encoded frames, the receive buffer holds the part of
the next frame that has arrived, wherever the chunks end, and every frame comes
out of the loop as it went into the encoder.
-/
namespace SpVision
open Incremental

def frameBytes (fs : List TxFrame) : List UInt8 := (fs.map TxFrame.bytes).flatten

/-- The frames of a stream that starts at `offset`, as the loop takes them off the buffer. -/
def frameSegments : ℕ → List TxFrame → List RxSegment
  | _, [] => []
  | offset, f :: fs =>
    .block offset f.bytes.length (.ok f.frame) :: frameSegments (offset + f.bytes.length) fs

theorem frameBytes_cons (f : TxFrame) (fs : List TxFrame) :
    frameBytes (f :: fs) = f.bytes ++ frameBytes fs := rfl

theorem frameBytes_append (fs gs : List TxFrame) :
    frameBytes (fs ++ gs) = frameBytes fs ++ frameBytes gs := by
  simp [frameBytes]

theorem frameSegments_append (offset : ℕ) (fs gs : List TxFrame) :
    frameSegments offset (fs ++ gs) =
      frameSegments offset fs ++ frameSegments (offset + (frameBytes fs).length) gs := by
  induction fs generalizing offset with
  | nil => rfl
  | cons f fs ih =>
    rw [List.cons_append, frameSegments, ih, frameBytes_cons, List.length_append, ← Nat.add_assoc]
    rfl

/-- Frames sent one after the other from `offset` on, each with the offset of its first byte. -/
def frameOffsets : ℕ → List TxFrame → List (ℕ × UprotoFrame)
  | _, [] => []
  | offset, f :: fs => (offset, f.frame) :: frameOffsets (offset + f.bytes.length) fs

theorem deliveries_frameSegments_eq (offset : ℕ) (fs : List TxFrame) :
    deliveries (frameSegments offset fs) = frameOffsets offset fs := by
  induction fs generalizing offset with
  | nil => rfl
  | cons f fs ih => exact congrArg ((offset, f.frame) :: ·) (ih _)

theorem deliveries_frameSegments (offset : ℕ) (fs : List TxFrame) :
    (deliveries (frameSegments offset fs)).map Prod.snd = fs.map TxFrame.frame := by
  induction fs generalizing offset with
  | nil => rfl
  | cons f fs ih => exact congrArg (f.frame :: ·) (ih _)

/-! ### One frame at the front of the buffer -/

theorem FirstMagic.eq_zero {b : List UInt8} {n : ℕ} (hm : FirstMagic b n) (h : StartsMagic b) :
    n = 0 := by
  by_contra hn
  exact hm.first 0 (by omega) h

theorem TxFrame.startsMagic (f : TxFrame) (rest : List UInt8) : StartsMagic (f.bytes ++ rest) := by
  rw [f.bytes_append]
  exact ⟨rfl, rfl⟩

theorem TxFrame.lenField (f : TxFrame) (rest : List UInt8) :
    SpVision.lenField (f.bytes ++ rest) = f.payload.length := by
  rw [SpVision.lenField, f.lenField_bytes, f.len_toNat]

theorem rxRead_frame (offset : ℕ) (f : TxFrame) (rest : List UInt8) :
    rxRead offset (f.bytes ++ rest) =
      (.block offset f.bytes.length (.ok f.frame) :: (rxRead (offset + f.bytes.length) rest).1,
        (rxRead (offset + f.bytes.length) rest).2) := by
  have hmagic := f.startsMagic rest
  have hfield := f.lenField rest
  have hpay := f.payload_le
  simp only [uprotoMaxPayload] at hpay
  have hlen : (f.bytes ++ rest).length = 18 + f.payload.length + rest.length := by
    rw [List.length_append, f.bytes_length]
  cases rxRead_cases offset (f.bytes ++ rest) with
  | short hshort => omega
  | clear _ hno => exact absurd hmagic (by simpa using hno 0)
  | wait n _ hm hpart =>
    obtain rfl := hm.eq_zero hmagic
    rw [List.drop_zero, hfield] at hpart
    omega
  | skip n hm _ hbad =>
    obtain rfl := hm.eq_zero hmagic
    rw [List.drop_zero, hfield] at hbad
    omega
  | frame n total hm _ htotal _ hr =>
    obtain rfl := hm.eq_zero hmagic
    rw [List.drop_zero, hfield] at htotal
    have htotal' : total = f.bytes.length := by rw [htotal, f.bytes_length]
    rw [hr, htotal', Nat.zero_add, List.drop_zero, List.drop_left, f.decode_bytes]
    rfl

theorem rxRead_part (offset : ℕ) (f : TxFrame) {p rest : List UInt8} (hp : p <+: f.bytes ++ rest)
    (hlt : p.length < f.bytes.length) : rxRead offset p = ([], p) := by
  obtain ⟨t, ht⟩ := hp
  have hlen := f.bytes_length
  have hmagic : 2 ≤ p.length → StartsMagic p := fun h2 =>
    (startsMagic_append h2).mp (ht ▸ f.startsMagic rest)
  have hfield : 14 ≤ p.length → lenField p = f.payload.length := fun h14 => by
    rw [← f.lenField rest, ← ht, lenField_append h14]
  cases rxRead_cases offset p with
  | short _ hr => exact hr
  | clear h18 hno => exact absurd (hmagic (by omega)) (by simpa using hno 0)
  | wait n h18 hm _ hr =>
    obtain rfl := hm.eq_zero (hmagic (by omega))
    exact hr
  | skip n hm hpart hbad =>
    obtain rfl := hm.eq_zero (hmagic (by omega))
    rw [List.drop_zero, hfield (by omega)] at hbad
    have hpay := f.payload_le
    simp only [uprotoMaxPayload] at hpay
    omega
  | frame n total hm hok htotal hpart =>
    obtain rfl := hm.eq_zero (hmagic (by omega))
    rw [List.drop_zero, hfield (by omega)] at htotal
    omega

/-! ### A buffer between two frames -/

/-- `p` is the part of the first frame of `fs` that has arrived. -/
structure Partway (fs : List TxFrame) (p : List UInt8) : Prop where
  isPrefix : p <+: frameBytes fs
  short : ∀ f ∈ fs.head?, p.length < f.bytes.length

theorem Partway.nil (fs : List TxFrame) : Partway fs [] where
  isPrefix := List.nil_prefix
  short f _ := by rw [f.bytes_length, List.length_nil]; omega

theorem Partway.rxRead {fs : List TxFrame} {p : List UInt8} (h : Partway fs p) (offset : ℕ) :
    rxRead offset p = ([], p) := by
  cases fs with
  | nil =>
    have hp : p = [] := List.prefix_nil.mp h.isPrefix
    rw [hp]
    rfl
  | cons f fs => exact rxRead_part offset f h.isPrefix (h.short f rfl)

theorem rxRead_frames (offset : ℕ) (gs hs : List TxFrame) {p : List UInt8} (hp : Partway hs p) :
    rxRead offset (frameBytes gs ++ p) = (frameSegments offset gs, p) := by
  induction gs generalizing offset with
  | nil => exact hp.rxRead offset
  | cons g gs ih =>
    rw [frameBytes_cons, List.append_assoc, rxRead_frame, ih]
    rfl

/-- Any prefix of the stream is some whole frames and part of the next one. -/
theorem exists_partway {fs : List TxFrame} {q : List UInt8} (h : q <+: frameBytes fs) :
    ∃ gs hs p, fs = gs ++ hs ∧ q = frameBytes gs ++ p ∧ Partway hs p := by
  induction fs generalizing q with
  | nil =>
    have hq : q = [] := List.prefix_nil.mp h
    exact ⟨[], [], [], rfl, hq, .nil []⟩
  | cons f fs ih =>
    by_cases hlt : q.length < f.bytes.length
    · refine ⟨[], f :: fs, q, rfl, rfl, h, ?_⟩
      intro g hg
      obtain rfl : f = g := by simpa using hg
      exact hlt
    · rw [frameBytes_cons] at h
      obtain ⟨q', rfl⟩ := List.prefix_of_prefix_length_le (List.prefix_append _ _) h (Nat.le_of_not_lt hlt)
      obtain ⟨gs, hs, p, rfl, rfl, hp⟩ := ih ((List.prefix_append_right_inj _).mp h)
      exact ⟨f :: gs, hs, p, rfl, by rw [frameBytes_cons, List.append_assoc], hp⟩

theorem Partway.eq_nil {fs : List TxFrame} (h : Partway fs (frameBytes fs)) : fs = [] := by
  cases fs with
  | nil => rfl
  | cons f fs =>
    have hlt := h.short f rfl
    rw [frameBytes_cons, List.length_append] at hlt
    omega

theorem rxRead_call_frames (offset : ℕ) (gs hs : List TxFrame) {b c p : List UInt8}
    (hfit : b.length + c.length ≤ uprotoRxBufferSize) (hbc : b ++ c = frameBytes gs ++ p)
    (hp : Partway hs p) :
    rxRead.call uprotoRxBufferSize offset b c =
      ⟨frameSegments offset gs, offset + (frameBytes gs).length, p⟩ := by
  rw [rxRead.call_of_fits offset hfit, hbc, rxRead_frames offset gs hs hp]
  simp only [List.length_append, Progress.mk.injEq, true_and, and_true]
  omega

/-- However a stream of frames is cut, all of them come out, in order, and nothing else. -/
theorem rxRead_feed_frames (offset : ℕ) (fs : List TxFrame) {b : List UInt8}
    {chunks : List (List UInt8)} (hb : Partway fs b) (hstream : b ++ chunks.flatten = frameBytes fs)
    (hfits : rxRead.Fits uprotoRxBufferSize offset b chunks) :
    (rxRead.feed uprotoRxBufferSize offset b chunks).out = frameSegments offset fs ∧
      (rxRead.feed uprotoRxBufferSize offset b chunks).rest = [] := by
  induction chunks generalizing offset fs b with
  | nil =>
    rw [List.flatten_nil, List.append_nil] at hstream
    obtain rfl := (hstream ▸ hb).eq_nil
    exact ⟨rfl, hstream⟩
  | cons c cs ih =>
    rw [List.flatten_cons, ← List.append_assoc] at hstream
    obtain ⟨gs, hs, p, rfl, hbc, hp⟩ := exists_partway ⟨cs.flatten, hstream⟩
    obtain ⟨hfit, hfits⟩ := hfits
    have hcall := rxRead_call_frames offset gs hs hfit hbc hp
    rw [hcall] at hfits
    rw [hbc, List.append_assoc, frameBytes_append] at hstream
    obtain ⟨hout, hrest⟩ := ih _ hs hp (List.append_cancel_left hstream) hfits
    simp only [Reader.feed, hcall, hout, hrest, frameSegments_append]
    exact ⟨trivial, trivial⟩

/-! ### The context on such a stream -/

theorem rxSink_frames_crcErrors (env : Env) (offset : ℕ) (fs : List TxFrame) (l : Link) :
    ((frameSegments offset fs).foldl (rxSink env).segment l).ctx.stats.crcErrors =
      l.ctx.stats.crcErrors := by
  induction fs generalizing offset l with
  | nil => rfl
  | cons f fs ih =>
    exact (ih _ (uprotoHandleFrame env f.frame l)).trans (uprotoHandleFrame_traffic env f.frame l).2

/-- Decoding a stream undoes encoding it, for every way of cutting the stream into chunks
    that fit the receive buffer. -/
theorem uprotoOnRxBytes_frames (env : Env) (e : Endpoint) (fs : List TxFrame)
    (chunks : List (List UInt8)) (hpos : e.rx.rxPos = 0) (hstream : chunks.flatten = frameBytes fs)
    (hfits : e.Fits env chunks) :
    handledFrames (e.feed env chunks).link.log =
        handledFrames e.link.log ++ fs.map TxFrame.frame ∧
      (e.feed env chunks).link.ctx.stats.crcErrors = e.link.ctx.stats.crcErrors ∧
      (e.feed env chunks).rx.rxPos = 0 := by
  have hb : e.rx.bytes = [] := by rw [← List.length_eq_zero_iff, e.rx.bytes_length, hpos]
  have hfits' := (e.fits_iff env chunks 0).mp hfits
  rw [hb] at hfits'
  obtain ⟨hout, hrest⟩ := rxRead_feed_frames 0 fs (.nil fs) hstream hfits'
  refine ⟨?_, ?_, ?_⟩
  · rw [e.feed_frames env chunks 0, hb, hout, deliveries_frameSegments]
  · have hlink := (rxFeed_feed (rxSink env) chunks e.rx e.link 0).2
    rw [hb, hout] at hlink
    change (rxFeed (rxSink env) chunks e.rx e.link).2.ctx.stats.crcErrors = _
    rw [hlink, rxSink_frames_crcErrors]
  · rw [← RxBuffer.bytes_length, e.feed_bytes env chunks 0, hb, hrest]
    rfl

theorem uprotoOnRxBytes_frames_ping :
    handledFrames ((Endpoint.init true true none).feed quietEnv
        [pingFrame.bytes ++ [0xAA], pingFrame.bytes.drop 1]).link.log =
      [pingFrame.frame, pingFrame.frame] := by
  refine (uprotoOnRxBytes_frames quietEnv _ [pingFrame, pingFrame] _ rfl (by decide +kernel) ?_).1
  rw [Endpoint.fits_iff _ _ _ 0, Endpoint.init_bytes]
  exact ⟨by decide +kernel, by decide +kernel, trivial⟩

end SpVision
