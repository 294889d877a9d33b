import SpVision.Uproto.CleanStream

set_option autoImplicit false

/-!
# `Driver::poll`: how the serial port fills the receive buffer

`poll` reads up to 1024 bytes at a time and passes each read to
`uproto_on_rx_bytes`, whose buffer holds 512.
-/
namespace SpVision
open Incremental

abbrev pollBufferSize : ℕ := 1024

attribute [simp] pollBufferSize

/-- The answer of `read_some(buf, sizeof(buf))`; no bytes stand for `n <= 0`. -/
structure ReadSome where
  data : List UInt8
  data_le : data.length ≤ pollBufferSize

/-- `isOpen` says that `impl_`, `impl_->open` and `impl_->transport` are all set. -/
structure Driver where
  isOpen : Bool
  uproto : Endpoint

def pollLoop (env : Env) : List ReadSome → Endpoint → Endpoint
  | [], e => e
  | r :: reads, e => if r.data.length > 0 then pollLoop env reads (e.onRxBytes env r.data) else e

def Driver.poll (env : Env) (d : Driver) (reads : List ReadSome) : Driver :=
  if ¬ d.isOpen then d else { d with uproto := pollLoop env reads d.uproto }

def Driver.run (env : Env) (d : Driver) (polls : List (List ReadSome)) : Driver :=
  polls.foldl (poll env) d

/-! ### The overflow branch -/

/-- Storing the bytes one by one finds `rx_pos == UPROTO_RX_BUFFER_SIZE`. -/
def RxBuffer.Overflows : RxBuffer → List UInt8 → Prop
  | _, [] => False
  | rx, byte :: data => ¬ rx.rxPos < uprotoRxBufferSize ∨ Overflows (rx.store byte) data

def PollOverflows (env : Env) : List ReadSome → Endpoint → Prop
  | [], _ => False
  | r :: reads, e => r.data.length > 0 ∧
      (e.rx.Overflows r.data ∨ PollOverflows env reads (e.onRxBytes env r.data))

def Driver.Overflows (env : Env) : Driver → List (List ReadSome) → Prop
  | _, [] => False
  | d, reads :: polls => d.isOpen ∧ PollOverflows env reads d.uproto ∨
      Overflows env (d.poll env reads) polls

def pollChunks (reads : List ReadSome) : List (List UInt8) :=
  (reads.map ReadSome.data).takeWhile fun data => data.length > 0

theorem RxBuffer.overflows_iff (rx : RxBuffer) (data : List UInt8) :
    rx.Overflows data ↔ uprotoRxBufferSize < rx.rxPos + data.length := by
  have h : rx.Overflows data ↔ Incremental.Overflows uprotoRxBufferSize rx.bytes data := by
    induction data generalizing rx with
    | nil => rfl
    | cons byte data ih =>
      unfold Overflows Incremental.Overflows
      rw [ih, store_bytes, rx.bytes_length]
      split_ifs with hfull
      · simp only [not_true_eq_false, false_or, hfull]
      · simp only [hfull, not_false_eq_true, true_or]
  have hle := rx.rxPos_le
  rw [h, Incremental.overflows_iff _ _ _ (by rw [rx.bytes_length]; exact hle), rx.bytes_length]

theorem Endpoint.fits_append (env : Env) (e : Endpoint) (chunks chunks' : List (List UInt8)) :
    e.Fits env (chunks ++ chunks') ↔ e.Fits env chunks ∧ (e.feed env chunks).Fits env chunks' := by
  induction chunks generalizing e with
  | nil => exact ⟨fun h => ⟨trivial, h⟩, fun h => h.2⟩
  | cons data chunks ih =>
    rw [List.cons_append, e.fits_cons, e.fits_cons, ih, e.feed_cons, and_assoc]

theorem pollChunks_cons (r : ReadSome) (reads : List ReadSome) :
    pollChunks (r :: reads) = if r.data.length > 0 then r.data :: pollChunks reads else [] := by
  unfold pollChunks
  rw [List.map_cons, List.takeWhile_cons]
  simp only [decide_eq_true_eq]

theorem pollLoop_eq (env : Env) (reads : List ReadSome) (e : Endpoint) :
    pollLoop env reads e = e.feed env (pollChunks reads) := by
  induction reads generalizing e with
  | nil => rfl
  | cons r reads ih =>
    rw [pollLoop, pollChunks_cons]
    split_ifs with hr
    · rw [ih, Endpoint.feed_cons]
    · rfl

theorem pollOverflows_iff (env : Env) (reads : List ReadSome) (e : Endpoint) :
    PollOverflows env reads e ↔ ¬ e.Fits env (pollChunks reads) := by
  induction reads generalizing e with
  | nil => exact ⟨False.elim, fun h => h trivial⟩
  | cons r reads ih =>
    rw [PollOverflows, ih, RxBuffer.overflows_iff, pollChunks_cons]
    split_ifs with hr
    · rw [Endpoint.fits_cons, not_and_or, Nat.not_le]
      exact and_iff_right hr
    · exact ⟨fun h => absurd h.1 hr, fun h => absurd trivial h⟩

theorem pollChunks_singleton {r : ReadSome} (hr : r.data.length > 0) : pollChunks [r] = [r.data] := by
  rw [pollChunks_cons, if_pos hr]
  rfl

theorem Driver.poll_eq (env : Env) (d : Driver) (reads : List ReadSome) (hopen : d.isOpen) :
    d.poll env reads = { d with uproto := d.uproto.feed env (pollChunks reads) } := by
  rw [poll, if_neg (not_not.mpr hopen), pollLoop_eq]

theorem Driver.run_eq (env : Env) (d : Driver) (polls : List (List ReadSome)) (hopen : d.isOpen) :
    d.run env polls = { d with uproto := d.uproto.feed env (polls.flatMap pollChunks) } := by
  induction polls generalizing d with
  | nil => rfl
  | cons reads polls ih =>
    have hrest := ih { d with uproto := d.uproto.feed env (pollChunks reads) } hopen
    change (d.poll env reads).run env polls = _
    rw [d.poll_eq env reads hopen, hrest, List.flatMap_cons, Endpoint.feed_append]

theorem Driver.overflows_iff (env : Env) (d : Driver) (polls : List (List ReadSome))
    (hopen : d.isOpen) :
    d.Overflows env polls ↔ ¬ d.uproto.Fits env (polls.flatMap pollChunks) := by
  induction polls generalizing d with
  | nil => simp [Overflows, Endpoint.Fits]
  | cons reads polls ih =>
    have hrest := ih { d with uproto := d.uproto.feed env (pollChunks reads) } hopen
    unfold Overflows
    rw [d.poll_eq env reads hopen, hrest, pollOverflows_iff, List.flatMap_cons,
      Endpoint.fits_append, not_and_or]
    simp only [hopen, true_and]

/-! ### When a stream of frames fits -/

/-- How much of the current frame has arrived, for a stream of frames of these sizes of which
    `received` bytes have arrived. -/
def frameResidue : List ℕ → ℕ → ℕ
  | [], received => received
  | size :: sizes, received =>
    if received < size then received else frameResidue sizes (received - size)

/-- At every read, what has arrived of the current frame and the bytes of the read are
    together no more than the buffer holds. -/
def ReadsFit (sizes : List ℕ) : ℕ → List ℕ → Prop
  | _, [] => True
  | received, n :: reads =>
    frameResidue sizes received + n ≤ uprotoRxBufferSize ∧ ReadsFit sizes (received + n) reads

def frameSizes (fs : List TxFrame) : List ℕ := fs.map fun f => f.bytes.length

theorem frameResidue_partway (gs hs : List TxFrame) {p : List UInt8} (hp : Partway hs p) :
    frameResidue (frameSizes (gs ++ hs)) ((frameBytes gs).length + p.length) = p.length := by
  induction gs with
  | nil =>
    cases hs with
    | nil => simp [frameBytes, frameSizes, frameResidue]
    | cons h hs =>
      have hlt := hp.short h rfl
      simp [frameBytes, frameSizes, frameResidue, hlt]
  | cons g gs ih =>
    change frameResidue (g.bytes.length :: frameSizes (gs ++ hs)) _ = _
    rw [frameResidue, frameBytes_cons, List.length_append, if_neg (by omega), ← ih]
    congr 1
    omega

theorem rxRead_fits_iff (offset : ℕ) (gs hs : List TxFrame) {b : List UInt8}
    {chunks : List (List UInt8)} (hb : Partway hs b) (hstream : b ++ chunks.flatten <+: frameBytes hs) :
    rxRead.Fits uprotoRxBufferSize offset b chunks ↔
      ReadsFit (frameSizes (gs ++ hs)) ((frameBytes gs).length + b.length)
        (chunks.map List.length) := by
  induction chunks generalizing offset gs hs b with
  | nil => rfl
  | cons c cs ih =>
    rw [List.map_cons, ReadsFit, frameResidue_partway gs hs hb]
    apply and_congr_right
    intro hfit
    rw [List.flatten_cons, ← List.append_assoc] at hstream
    obtain ⟨gs', hs', p, rfl, hbc, hp⟩ := exists_partway ((List.prefix_append _ _).trans hstream)
    rw [rxRead_call_frames offset gs' hs' hfit hbc hp]
    rw [hbc, List.append_assoc, frameBytes_append, List.prefix_append_right_inj] at hstream
    have hlen := congrArg List.length hbc
    simp only [List.length_append] at hlen
    rw [ih _ (gs ++ gs') hs' hp hstream, List.append_assoc, frameBytes_append, List.length_append]
    have hrec : (frameBytes gs).length + (frameBytes gs').length + p.length =
        (frameBytes gs).length + b.length + c.length := by omega
    rw [hrec]

/-- `Driver::poll` stays clear of the overflow branch on a stream of valid frames exactly
    when no read is too long for what is left of the buffer. -/
theorem driverPoll_overflow_iff (env : Env) (d : Driver) (fs : List TxFrame)
    (polls : List (List ReadSome)) (hopen : d.isOpen) (hpos : d.uproto.rx.rxPos = 0)
    (hstream : (polls.flatMap pollChunks).flatten <+: frameBytes fs) :
    ¬ d.Overflows env polls ↔
      ReadsFit (frameSizes fs) 0 ((polls.flatMap pollChunks).map List.length) := by
  have hb : d.uproto.rx.bytes = [] := by
    rw [← List.length_eq_zero_iff, d.uproto.rx.bytes_length, hpos]
  rw [d.overflows_iff env polls hopen, not_not, d.uproto.fits_iff env _ 0, hb]
  exact rxRead_fits_iff 0 [] fs (.nil fs) hstream

theorem driverPoll_overflow_iff_three :
    ¬ (Driver.mk true (Endpoint.init true true none)).Overflows quietEnv
      [[⟨pingFrame.bytes ++ [0xAA], by decide +kernel⟩],
        [⟨pingFrame.bytes.drop 1 ++ pingFrame.bytes, by decide +kernel⟩]] :=
  (driverPoll_overflow_iff quietEnv ⟨true, Endpoint.init true true none⟩
    [pingFrame, pingFrame, pingFrame] _ rfl rfl (by decide +kernel)).mpr
    ⟨by decide +kernel, by decide +kernel, trivial⟩

/-- Twenty-nine frames in one read of 522 bytes: the buffer overflows, and none of them is
    handled. -/
theorem driverPoll_overflow_burst :
    ∃ polls : List (List ReadSome),
      (polls.flatMap pollChunks).flatten = frameBytes (List.replicate 29 pingFrame) ∧
        (Driver.mk true (Endpoint.init true true none)).Overflows quietEnv polls ∧
        handledFrames ((Driver.mk true (Endpoint.init true true none)).run quietEnv
          polls).uproto.link.log = [] := by
  have hlen : (frameBytes (List.replicate 29 pingFrame)).length = 522 := by decide +kernel
  generalize hdata : frameBytes (List.replicate 29 pingFrame) = data at hlen
  have hchunks : [[(⟨data, by rw [hlen]; decide⟩ : ReadSome)]].flatMap pollChunks = [data] := by
    rw [List.flatMap_singleton, pollChunks_singleton (by rw [hlen]; decide)]
  refine ⟨[[⟨data, by rw [hlen]; decide⟩]], ?_, ?_, ?_⟩
  · rw [hchunks, List.flatten_singleton]
  · rw [Driver.overflows_iff _ _ _ rfl, hchunks, Endpoint.fits_cons, hlen]
    intro hfits
    exact absurd hfits.1 (by decide)
  · rw [Driver.run_eq _ _ _ rfl, hchunks, Endpoint.feed_frames _ _ _ 0, Endpoint.init_bytes, ← hdata]
    decide +kernel

end SpVision
