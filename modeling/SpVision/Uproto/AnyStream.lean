import SpVision.Uproto.Endpoint

set_option autoImplicit false

/-!
# Arbitrary byte streams

Whatever the bytes and the chunks, frames come from disjoint valid blocks of the
stream. Whether the chunks matter depends on one thing only: the loop clearing the
buffer between the two bytes of a magic.
-/
namespace SpVision
open Incremental

theorem mem_deliveries {segs : List RxSegment} {d : ℕ × UprotoFrame} (h : d ∈ deliveries segs) :
    ∃ len, .block d.1 len (.ok d.2) ∈ segs := by
  rw [deliveries, List.mem_filterMap] at h
  obtain ⟨seg, hseg, hd⟩ := h
  cases seg with
  | noise => cases hd
  | badLength => cases hd
  | block start len result =>
    cases result with
    | error => cases hd
    | ok frame =>
      cases hd
      exact ⟨len, hseg⟩

theorem RxSegment.Describes.frameBlock {start len : ℕ} {f : UprotoFrame} {x : List UInt8}
    (h : (RxSegment.block start len (.ok f)).Describes x) :
    len = uprotoHeaderSize + f.len.toNat + 2 ∧ FrameBlock (x.take len) f := by
  obtain ⟨-, hlen, hle, hdec⟩ := h
  rw [uprotoDecodeFrame_take] at hdec
  obtain ⟨-, -, hfield, -⟩ := uprotoDecodeFrame_ok hdec.symm
  refine ⟨?_, FrameBlock.of_decode hlen hle hdec.symm⟩
  rw [hlen, hfield]
  rfl

theorem deliveries_pairwise {segs : List RxSegment}
    (hlen : ∀ s len f, RxSegment.block s len (.ok f) ∈ segs →
      len = uprotoHeaderSize + f.len.toNat + 2)
    (hord : segs.Pairwise fun a b => a.start + a.size ≤ b.start) :
    (deliveries segs).Pairwise fun a b =>
      a.1 + (uprotoHeaderSize + a.2.len.toNat + 2) ≤ b.1 := by
  induction segs with
  | nil => exact .nil
  | cons seg segs ih =>
    obtain ⟨hseg, hsegs⟩ := List.pairwise_cons.mp hord
    have hrest := ih (fun s len f hs => hlen s len f (List.mem_cons_of_mem _ hs)) hsegs
    cases seg with
    | noise => exact hrest
    | badLength => exact hrest
    | block start len result =>
      cases result with
      | error => exact hrest
      | ok frame =>
        refine .cons (fun d hd => ?_) hrest
        obtain ⟨len', hd'⟩ := mem_deliveries hd
        have hle := hseg _ hd'
        rw [← hlen start len frame List.mem_cons_self]
        exact hle

/-- No frame is made up. In every run, each handled frame is the decoding of a block of
    the received stream with both checksums right, and the blocks are disjoint and in
    stream order. -/
theorem uprotoHandleFrame_blocks (env : Env) (e : Endpoint) (inputs : List UprotoInput) :
    ∃ blocks : List (ℕ × UprotoFrame),
      handledFrames (e.run env inputs).link.log =
          handledFrames e.link.log ++ blocks.map Prod.snd ∧
        (∀ b ∈ blocks, FrameBlock
          (((e.rx.bytes ++ (Endpoint.received inputs).flatten).drop b.1).take
            (uprotoHeaderSize + b.2.len.toNat + 2)) b.2) ∧
        blocks.Pairwise fun a b => a.1 + (uprotoHeaderSize + a.2.len.toNat + 2) ≤ b.1 := by
  generalize hstream : e.rx.bytes ++ (Endpoint.received inputs).flatten = stream
  have hdescribes := Reader.feed_local rxRead_keepsSuffix RxSegment.describes_append rxRead_describes
    uprotoRxBufferSize stream 0 e.rx.bytes (Endpoint.received inputs) hstream.symm
  have hordered := Reader.feed_ordered rxRead_ordered uprotoRxBufferSize 0 e.rx.bytes
    (Endpoint.received inputs)
  refine ⟨_, e.run_frames env inputs 0, ?_, ?_⟩
  · intro b hb
    obtain ⟨len, hmem⟩ := mem_deliveries hb
    obtain ⟨hlen, hblock⟩ := (hdescribes _ hmem).frameBlock
    rw [← hlen]
    exact hblock
  · exact deliveries_pairwise (fun s len f hs => (hdescribes _ hs).frameBlock.1) hordered.pairwise

/-! ### Chunks -/

/-- No call clears the buffer between the two bytes of a magic: when the loop ends by clearing
    a buffer whose last byte is `AA`, the next byte to arrive is not `55`. -/
def Endpoint.KeepsMagic (env : Env) : Endpoint → List (List UInt8) → Prop
  | _, [] => True
  | e, data :: chunks => SpVision.KeepsMagic (e.rx.bytes ++ data) chunks.flatten ∧
      KeepsMagic env (e.onRxBytes env data) chunks

theorem Endpoint.KeepsMagic.along {env : Env} {e : Endpoint} {chunks : List (List UInt8)}
    (h : e.KeepsMagic env chunks) (hfits : e.Fits env chunks) (offset : ℕ) :
    rxRead.Along uprotoRxBufferSize SpVision.KeepsMagic offset e.rx.bytes chunks := by
  induction chunks generalizing e offset with
  | nil => trivial
  | cons data chunks ih =>
    have hbytes := (uprotoOnRxBytes_call (rxSink env) data e.rx e.link offset).1
    have hfit : e.rx.bytes.length + data.length ≤ uprotoRxBufferSize := by
      rw [e.rx.bytes_length]
      exact hfits.1
    refine ⟨?_, ?_⟩
    · rw [absorb_of_fits _ _ _ hfit]
      exact h.1
    · rw [← hbytes]
      exact ih h.2 hfits.2 _

/-- The chunks do not matter where no call cuts a magic in two. -/
theorem uprotoOnRxBytes_chunks (env env' : Env) (e e' : Endpoint) (chunks chunks' : List (List UInt8))
    (hpos : e.rx.rxPos = 0) (hpos' : e'.rx.rxPos = 0) (hsame : chunks.flatten = chunks'.flatten)
    (hfits : e.Fits env chunks) (hfits' : e'.Fits env' chunks')
    (hkeeps : e.KeepsMagic env chunks) (hkeeps' : e'.KeepsMagic env' chunks') :
    ∃ frames, handledFrames (e.feed env chunks).link.log = handledFrames e.link.log ++ frames ∧
      handledFrames (e'.feed env' chunks').link.log = handledFrames e'.link.log ++ frames := by
  have hframes : ∀ (env : Env) (e : Endpoint) (chunks : List (List UInt8)), e.rx.rxPos = 0 →
      e.Fits env chunks → e.KeepsMagic env chunks →
      handledFrames (e.feed env chunks).link.log = handledFrames e.link.log ++
        (deliveries (rxParse 0 chunks.flatten)).map Prod.snd := by
    intro env e chunks hpos hfits hkeeps
    have hb : e.rx.bytes = [] := by rw [← List.length_eq_zero_iff, e.rx.bytes_length, hpos]
    have halong := hkeeps.along hfits 0
    have hfits' := (e.fits_iff env chunks 0).mp hfits
    rw [hb] at halong hfits'
    rw [e.feed_frames env chunks 0, hb,
      deliveries_feed (settled_of_short (by decide)) hfits' halong, List.nil_append]
  refine ⟨_, hframes env e chunks hpos hfits hkeeps, ?_⟩
  rw [hsame]
  exact hframes env' e' chunks' hpos' hfits' hkeeps'

theorem uprotoOnRxBytes_chunks_ping :
    ∃ frames, handledFrames ((Endpoint.init true true none).feed quietEnv [pingFrame.bytes]).link.log =
        [] ++ frames ∧
      handledFrames ((Endpoint.init true true none).feed quietEnv
        [pingFrame.bytes.take 5, pingFrame.bytes.drop 5]).link.log = [] ++ frames := by
  refine uprotoOnRxBytes_chunks quietEnv quietEnv (Endpoint.init true true none)
    (Endpoint.init true true none) [pingFrame.bytes]
    [pingFrame.bytes.take 5, pingFrame.bytes.drop 5] rfl rfl (by decide +kernel) ?_ ?_ ?_ ?_
  · rw [Endpoint.fits_iff _ _ _ 0, Endpoint.init_bytes]
    exact ⟨by decide +kernel, trivial⟩
  · rw [Endpoint.fits_iff _ _ _ 0, Endpoint.init_bytes]
    exact ⟨by decide +kernel, by decide +kernel, trivial⟩
  · exact ⟨fun _ => nofun, trivial⟩
  · refine ⟨fun hlost => absurd hlost ?_, fun _ => nofun, trivial⟩
    rw [Endpoint.init_bytes]
    decide +kernel

/-- Seventeen bytes of noise, and a frame cut after the first byte of its magic: the eighteen
    bytes that have arrived by then are cleared, and the frame is lost. -/
theorem uprotoOnRxBytes_chunks_magic_lost :
    ∃ chunks chunks' : List (List UInt8), chunks.flatten = chunks'.flatten ∧
      (Endpoint.init true true none).Fits quietEnv chunks ∧
      (Endpoint.init true true none).Fits quietEnv chunks' ∧
      handledFrames ((Endpoint.init true true none).feed quietEnv chunks).link.log ≠
        handledFrames ((Endpoint.init true true none).feed quietEnv chunks').link.log := by
  refine ⟨[List.replicate 17 0 ++ pingFrame.bytes],
    [List.replicate 17 0 ++ pingFrame.bytes.take 1, pingFrame.bytes.drop 1],
    by decide +kernel, ?_, ?_, ?_⟩
  · rw [Endpoint.fits_iff _ _ _ 0, Endpoint.init_bytes]
    exact ⟨by decide +kernel, trivial⟩
  · rw [Endpoint.fits_iff _ _ _ 0, Endpoint.init_bytes]
    exact ⟨by decide +kernel, by decide +kernel, trivial⟩
  · rw [Endpoint.feed_frames _ _ _ 0, Endpoint.feed_frames _ _ _ 0, Endpoint.init_bytes]
    decide +kernel

end SpVision
