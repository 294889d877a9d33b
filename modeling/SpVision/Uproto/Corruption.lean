import SpVision.Uproto.CleanStream
import SpVision.Uproto.LostMagic

set_option autoImplicit false

/-!
# One damaged frame in a stream of valid frames

The bytes of one frame after its magic are replaced, without creating a new magic.
The length field of the damaged header is believed before its checksum is looked
at: up to 256 it decides how many bytes are dropped with the header.
-/
namespace SpVision
open Incremental

/-- The bytes that replace a frame: they still begin with the magic, and contain no other. -/
structure DamagedFrame (bytes : List UInt8) : Prop where
  magic : StartsMagic bytes
  only : ∀ i, 0 < i → ¬ StartsMagic (bytes.drop i)
  length : 18 ≤ bytes.length

/-! ### What the stream means -/

theorem rxParse_frames (offset : ℕ) (fs : List TxFrame) (rest : List UInt8) :
    rxParse offset (frameBytes fs ++ rest) =
      frameSegments offset fs ++ rxParse (offset + (frameBytes fs).length) rest := by
  induction fs generalizing offset with
  | nil => rfl
  | cons f fs ih =>
    have hpay := f.payload_le
    simp only [uprotoMaxPayload] at hpay
    have hfield := f.lenField (frameBytes fs ++ rest)
    rw [frameBytes_cons, List.append_assoc,
      @rxParse_block offset f.bytes.length _ (f.startsMagic _) (by rw [hfield]; exact hpay)
        (by rw [hfield, f.bytes_length]) (by rw [List.length_append]; omega),
      f.decode_bytes, List.drop_left, ih, List.length_append, ← Nat.add_assoc]
    rfl

theorem frameBytes_head (fs : List TxFrame) : (frameBytes fs).head? ≠ some uprotoMagic1 := by
  cases fs with
  | nil => exact nofun
  | cons f fs =>
    rw [frameBytes_cons, f.bytes_append]
    simp [uprotoMagic0, uprotoMagic1]

theorem DamagedFrame.no_magic {bytes : List UInt8} (h : DamagedFrame bytes) (hs : List TxFrame)
    {i : ℕ} (hi : 0 < i) (hlt : i < bytes.length) :
    ¬ StartsMagic ((bytes ++ frameBytes hs).drop i) := by
  have hno := noMagic_append (b := bytes.drop 1) (x := frameBytes hs)
    (fun k => by rw [List.drop_drop]; exact h.only (1 + k) (by omega))
    (fun hjoin => frameBytes_head hs hjoin.2) (i - 1) (by rw [List.length_drop]; omega)
  rw [← List.drop_append_of_le_length (by omega), List.drop_drop] at hno
  have hi' : 1 + (i - 1) = i := by omega
  rw [hi'] at hno
  exact hno

/-- The header is dropped, or a block that ends within the damaged bytes; the rest of them is
    noise, and reading resumes with the next frame. -/
theorem DamagedFrame.rxParse_resumes {bytes : List UInt8} (h : DamagedFrame bytes)
    (hok : 256 < lenField bytes ∨ 18 + lenField bytes ≤ bytes.length) (s : ℕ) (hs : List TxFrame) :
    ∃ seg r, seg.isNoise = false ∧ s < r ∧
      rxParse s (bytes ++ frameBytes hs) =
        seg :: noises r (s + bytes.length - r) ++ frameSegments (s + bytes.length) hs := by
  have hlen := h.length
  have hmagic : StartsMagic (bytes ++ frameBytes hs) := (startsMagic_append (by omega)).mpr h.magic
  have hfield : lenField (bytes ++ frameBytes hs) = lenField bytes := lenField_append (by omega)
  have hrest : ∀ n, 0 < n → n ≤ bytes.length → rxParse (s + n) ((bytes ++ frameBytes hs).drop n) =
      noises (s + n) (s + bytes.length - (s + n)) ++ frameSegments (s + bytes.length) hs := by
    intro n hn hle
    have hframes := rxParse_frames (s + bytes.length) hs []
    rw [List.append_nil, rxParse_nil, List.append_nil] at hframes
    have hsub : s + bytes.length - (s + n) = bytes.length - n := by omega
    have hadd : s + n + (bytes.length - n) = s + bytes.length := by omega
    have hadd' : n + (bytes.length - n) = bytes.length := by omega
    rw [hsub, @rxParse_noise (s + n) (bytes.length - n), hadd, List.drop_drop, hadd', List.drop_left,
      hframes]
    · rw [List.length_drop, List.length_append]
      omega
    · intro i hi
      rw [List.drop_drop]
      exact h.no_magic hs (by omega) (by omega)
  by_cases hbad : 256 < lenField bytes
  · refine ⟨.badLength s, s + 2, rfl, by omega, ?_⟩
    rw [rxParse_badLength hmagic (by rw [List.length_append]; omega) (by rw [hfield]; exact hbad),
      hrest 2 (by omega) (by omega)]
    rfl
  · have hle : 18 + lenField bytes ≤ bytes.length := hok.resolve_left hbad
    refine ⟨.block s (18 + lenField bytes)
      (uprotoDecodeFrame (bytes ++ frameBytes hs) (18 + lenField bytes)), s + (18 + lenField bytes), rfl,
      by omega, ?_⟩
    rw [@rxParse_block s (18 + lenField bytes) _ hmagic (by rw [hfield]; omega) (by rw [hfield])
      (by rw [List.length_append]; omega), hrest _ (by omega) hle]
    rfl

theorem rxParse_start {offset : ℕ} {b : List UInt8} : ∀ seg ∈ rxParse offset b, offset ≤ seg.start := by
  induction hb : b.length using Nat.strong_induction_on generalizing offset b with
  | _ len ih =>
    subst hb
    intro seg hseg
    by_cases hnil : b = []
    · rw [hnil, rxParse_nil] at hseg
      cases hseg
    have hpos := List.length_pos_iff.mpr hnil
    rw [rxParse, dif_neg hnil] at hseg
    split_ifs at hseg
    · cases hseg
    · rcases List.mem_cons.mp hseg with rfl | hseg
      · exact le_refl offset
      · exact (Nat.le_add_right _ _).trans (ih _ (by rw [List.length_drop]; omega) rfl seg hseg)
    · cases hseg
    · rcases List.mem_cons.mp hseg with rfl | hseg
      · exact le_refl offset
      · exact (Nat.le_add_right _ _).trans (ih _ (by rw [List.length_drop]; omega) rfl seg hseg)
    · rcases List.mem_cons.mp hseg with rfl | hseg
      · exact le_refl offset
      · exact (Nat.le_add_right _ _).trans (ih _ (by rw [List.length_tail]; omega) rfl seg hseg)

/-- A block that reaches beyond the damaged bytes takes the beginning of the next frame away. -/
theorem DamagedFrame.rxParse_swallows {bytes : List UInt8} (h : DamagedFrame bytes)
    (hbad : lenField bytes ≤ 256 ∧ bytes.length < 18 + lenField bytes) (s : ℕ) (hs : List TxFrame) :
    ∀ seg ∈ rxParse s (bytes ++ frameBytes hs),
      seg.isNoise = false ∧ seg.start = s ∨ s + bytes.length < seg.start := by
  have hlen := h.length
  have hmagic : StartsMagic (bytes ++ frameBytes hs) := (startsMagic_append (by omega)).mpr h.magic
  have hfield : lenField (bytes ++ frameBytes hs) = lenField bytes := lenField_append (by omega)
  intro seg hseg
  by_cases hfull : 18 + lenField bytes ≤ (bytes ++ frameBytes hs).length
  · rw [@rxParse_block s (18 + lenField bytes) _ hmagic (by rw [hfield]; exact hbad.1)
      (by rw [hfield]) hfull] at hseg
    rcases List.mem_cons.mp hseg with rfl | hseg
    · exact .inl ⟨rfl, rfl⟩
    · have hstart := rxParse_start seg hseg
      right
      omega
  · rw [rxParse_wait hmagic (.inr (by rw [hfield]; omega))] at hseg
    cases hseg

theorem mem_frameSegments {offset : ℕ} {fs : List TxFrame} {seg : RxSegment}
    (h : seg ∈ frameSegments offset fs) :
    seg.isNoise = false ∧ offset ≤ seg.start ∧ seg.start < offset + (frameBytes fs).length := by
  induction fs generalizing offset with
  | nil => cases h
  | cons f fs ih =>
    have hlen := f.bytes_length
    rw [frameBytes_cons, List.length_append]
    rcases List.mem_cons.mp h with rfl | h
    · exact ⟨rfl, le_refl _, by simp only [RxSegment.start]; omega⟩
    · obtain ⟨hn, hlo, hhi⟩ := ih h
      exact ⟨hn, by omega, by omega⟩

/-- Frames at the beginning of the stream come before any noise. -/
theorem frameSegments_prefix {offset j n : ℕ} {fs : List TxFrame} {before after rest : List RxSegment}
    (hn : 0 < n) (h : frameSegments offset fs ++ rest = before ++ noises j n ++ after) :
    frameSegments offset fs <+: before := by
  induction fs generalizing offset before with
  | nil => exact List.nil_prefix
  | cons f fs ih =>
    cases before with
    | nil =>
      obtain ⟨n, rfl⟩ : ∃ m, n = m + 1 := ⟨n - 1, by omega⟩
      rw [List.nil_append, noises, List.range'_succ] at h
      cases h
    | cons seg before =>
      simp only [frameSegments, List.cons_append, List.cons.injEq] at h
      obtain ⟨rfl, h⟩ := h
      exact (List.prefix_cons_inj _).mpr (ih h)

/-! ### What comes out -/

theorem not_mem_frameSegments_noise {offset k : ℕ} {fs : List TxFrame} :
    .noise k ∉ frameSegments offset fs := by
  intro h
  cases (mem_frameSegments h).1

theorem noise_mem_noises {j n k : ℕ} (hlo : j ≤ k) (hhi : k < j + n) : .noise k ∈ noises j n :=
  List.mem_map.mpr ⟨k, List.mem_range'.mpr ⟨k - j, by omega, by omega⟩, rfl⟩

theorem start_inj {segs : List RxSegment} (hpos : ∀ s ∈ segs, 0 < s.size)
    (hord : segs.Pairwise fun a b => a.start + a.size ≤ b.start) {a b : RxSegment} (ha : a ∈ segs)
    (hb : b ∈ segs) (h : a.start = b.start) : a = b := by
  induction segs with
  | nil => cases ha
  | cons s segs ih =>
    obtain ⟨hs, hsegs⟩ := List.pairwise_cons.mp hord
    have hsize := hpos s List.mem_cons_self
    rcases List.mem_cons.mp ha with rfl | ha'
    · rcases List.mem_cons.mp hb with rfl | hb'
      · rfl
      · have hlt := hs b hb'
        omega
    · rcases List.mem_cons.mp hb with rfl | hb'
      · have hlt := hs a ha'
        omega
      · exact ih (fun t ht => hpos t (List.mem_cons_of_mem _ ht)) hsegs ha' hb'

section Run

variable {pre hs : List TxFrame} {bytes b : List UInt8} {chunks : List (List UInt8)}

theorem deliveries_before (hfits : rxRead.Fits uprotoRxBufferSize 0 [] chunks)
    (hstream : chunks.flatten = frameBytes pre ++ (bytes ++ frameBytes hs)) :
    (deliveries (frameSegments 0 pre)).Sublist
      (deliveries (rxRead.feed uprotoRxBufferSize 0 [] chunks).out) := by
  have hparse := rxParse_frames 0 pre (bytes ++ frameBytes hs)
  rw [← hstream] at hparse
  rcases rxRead_feed_or_loses hfits with halong | ⟨k, j, before, after, later, -, -, hjk, -, hp, ho, -⟩
  · rw [deliveries_feed (settled_of_short (by decide)) hfits halong, List.nil_append, hparse,
      deliveries_append]
    exact List.sublist_append_left _ _
  · rw [List.nil_append, hparse] at hp
    have hpre := frameSegments_prefix (by omega) hp
    rw [ho, List.append_assoc, deliveries_append]
    exact ((hpre.filterMap _).sublist).trans (List.sublist_append_left _ _)

/-- The frames after the damage come out too, if the damaged header announces no more bytes
    than there are, and the loop does not clear the magic of the next frame. -/
theorem deliveries_after (hd : DamagedFrame bytes)
    (hok : 256 < lenField bytes ∨ 18 + lenField bytes ≤ bytes.length)
    (hfits : rxRead.Fits uprotoRxBufferSize 0 [] chunks)
    (hstream : chunks.flatten = frameBytes pre ++ (bytes ++ frameBytes hs))
    (hkeeps : ¬ Reader.LosesMagicAt ((frameBytes pre).length + bytes.length) 0 [] chunks) :
    (deliveries (frameSegments 0 pre) ++
        deliveries (frameSegments ((frameBytes pre).length + bytes.length) hs)).Sublist
      (deliveries (rxRead.feed uprotoRxBufferSize 0 [] chunks).out) := by
  have hparse := rxParse_frames 0 pre (bytes ++ frameBytes hs)
  obtain ⟨seg, r, hseg, hr, hrest⟩ := hd.rxParse_resumes hok (frameBytes pre).length hs
  rw [← hstream, Nat.zero_add, hrest] at hparse
  rcases rxRead_feed_or_loses hfits with
    halong | ⟨k, j, before, after, later, hat, -, hjk, hm, hp, -, -⟩
  · rw [deliveries_feed (settled_of_short (by decide)) hfits halong, List.nil_append, hparse,
      deliveries_append]
    apply List.Sublist.append (List.Sublist.refl _)
    rw [deliveries_append]
    exact List.sublist_append_right _ _
  · -- the noise before a lost magic can only be what is left of the damaged bytes
    exfalso
    rw [List.nil_append, hparse] at hp
    have hnoise : .noise (k - 1) ∈ before ++ noises j (k - j) ++ after :=
      List.mem_append_left _ (List.mem_append_right _ (noise_mem_noises (by omega) (by omega)))
    rw [← hp, List.mem_append, List.mem_append, List.mem_cons] at hnoise
    rcases hnoise with hnoise | (hnoise | hnoise) | hnoise
    · exact not_mem_frameSegments_noise hnoise
    · rw [← hnoise] at hseg
      cases hseg
    · obtain ⟨i, hi, hk⟩ := mem_noises hnoise
      rw [RxSegment.noise.injEq] at hk
      by_cases hkq : k = (frameBytes pre).length + bytes.length
      · exact hkeeps (hkq ▸ hat)
      · have hsplit : k - 0 = (frameBytes pre).length + (k - (frameBytes pre).length) := by omega
        rw [List.nil_append, hstream, hsplit, ← List.drop_drop, List.drop_left] at hm
        exact hd.no_magic hs (by omega) (by omega) hm
    · exact not_mem_frameSegments_noise hnoise

/-- If the loop clears the magic of the next frame, that frame does not come out. -/
theorem delivery_lost {q : ℕ} (f : UprotoFrame) (hfits : rxRead.Fits uprotoRxBufferSize 0 [] chunks)
    (hlost : Reader.LosesMagicAt q 0 [] chunks) :
    (q, f) ∉ deliveries (rxRead.feed uprotoRxBufferSize 0 [] chunks).out := by
  intro hmem
  obtain ⟨len, hblock⟩ := mem_deliveries hmem
  have hdescribes := Reader.feed_local rxRead_keepsSuffix RxSegment.describes_append rxRead_describes
    uprotoRxBufferSize chunks.flatten 0 [] chunks rfl
  have hord := (Reader.feed_ordered rxRead_ordered uprotoRxBufferSize 0 [] chunks).pairwise
  have hpos : ∀ s ∈ (rxRead.feed uprotoRxBufferSize 0 [] chunks).out, 0 < s.size := by
    intro s hs
    cases s with
    | noise => exact Nat.one_pos
    | badLength => exact Nat.two_pos
    | block start len result =>
      obtain ⟨-, hlen, -⟩ := hdescribes _ hs
      rw [RxSegment.size, hlen]
      exact Nat.succ_pos _
  have hsame := start_inj hpos hord (hlost.noise hfits) hblock rfl
  cases hsame

/-- If the damaged header announces more bytes than there are, the next frame does not come
    out. -/
theorem delivery_swallowed (hd : DamagedFrame bytes) (f : UprotoFrame)
    (hbad : lenField bytes ≤ 256 ∧ bytes.length < 18 + lenField bytes)
    (hfits : rxRead.Fits uprotoRxBufferSize 0 [] chunks)
    (hstream : chunks.flatten = frameBytes pre ++ (bytes ++ frameBytes hs)) :
    ((frameBytes pre).length + bytes.length, f) ∉
      deliveries (rxRead.feed uprotoRxBufferSize 0 [] chunks).out := by
  have hlen := hd.length
  have hparse := rxParse_frames 0 pre (bytes ++ frameBytes hs)
  rw [← hstream, Nat.zero_add] at hparse
  -- what the stream as a whole contains
  have hwhole : ∀ seg ∈ rxParse 0 chunks.flatten,
      seg.isNoise = false ∧ seg.start < (frameBytes pre).length + bytes.length ∨
        (frameBytes pre).length + bytes.length < seg.start := by
    intro seg hseg
    rw [hparse, List.mem_append] at hseg
    rcases hseg with hseg | hseg
    · obtain ⟨hn, -, hlt⟩ := mem_frameSegments hseg
      exact .inl ⟨hn, by omega⟩
    · rcases hd.rxParse_swallows hbad _ hs seg hseg with ⟨hn, hstart⟩ | hlt
      · exact .inl ⟨hn, by omega⟩
      · exact .inr hlt
  intro hmem
  obtain ⟨len, hblock⟩ := mem_deliveries hmem
  rcases rxRead_feed_or_loses hfits with halong | ⟨k, j, before, after, later, -, -, hjk, -, hp, ho, hl⟩
  · rw [deliveries_feed (settled_of_short (by decide)) hfits halong, List.nil_append] at hmem
    obtain ⟨len', hblock'⟩ := mem_deliveries hmem
    rcases hwhole _ hblock' with ⟨-, hlt⟩ | hlt
    · exact absurd hlt (lt_irrefl _)
    · exact absurd hlt (lt_irrefl _)
  · rw [List.nil_append] at hp
    rw [hp] at hwhole
    have hnoise := hwhole (.noise (k - 1)) (List.mem_append_left _ (List.mem_append_right _
      (noise_mem_noises (by omega) (by omega))))
    rw [ho, List.mem_append, List.mem_append] at hblock
    rcases hblock with (hblock | hblock) | hblock
    · rcases hwhole _ (List.mem_append_left _ (List.mem_append_left _ hblock)) with ⟨-, hlt⟩ | hlt
      · exact absurd hlt (lt_irrefl _)
      · exact absurd hlt (lt_irrefl _)
    · obtain ⟨i, -, hi⟩ := mem_noises hblock
      cases hi
    · have hk := hl _ hblock
      rcases hnoise with ⟨hn, -⟩ | hlt
      · cases hn
      · simp only [RxSegment.start] at hk hlt
        omega

end Run

/-! ### The context on a damaged stream -/

namespace Endpoint

/-- The frames that the received bytes deliver, each with the offset of its first byte. -/
def deliveries (e : Endpoint) (chunks : List (List UInt8)) : List (ℕ × UprotoFrame) :=
  SpVision.deliveries (rxRead.feed uprotoRxBufferSize 0 e.rx.bytes chunks).out

/-- The call that receives byte `k` of the stream ends by clearing the buffer, and byte `k` is
    `AA`. The bytes received before the run are counted by `received`. -/
def LosesMagicAt (env : Env) (k : ℕ) : ℕ → Endpoint → List (List UInt8) → Prop
  | _, _, [] => False
  | received, e, data :: chunks =>
    received + data.length = k + 1 ∧ LosesMagic0 (e.rx.bytes ++ data) ∨
      LosesMagicAt env k (received + data.length) (e.onRxBytes env data) chunks

theorem losesMagicAt_iff (env : Env) (k offset : ℕ) (e : Endpoint) (chunks : List (List UInt8)) :
    LosesMagicAt env k (offset + e.rx.bytes.length) e chunks ↔
      Reader.LosesMagicAt k offset e.rx.bytes chunks := by
  induction chunks generalizing offset e with
  | nil => rfl
  | cons data chunks ih =>
    have hbytes := (uprotoOnRxBytes_call (rxSink env) data e.rx e.link offset).1
    have hreceived := Reader.call_received rxRead_keepsSuffix uprotoRxBufferSize offset e.rx.bytes data
    have hrest := ih (rxRead.call uprotoRxBufferSize offset e.rx.bytes data).offset (e.onRxBytes env data)
    change LosesMagicAt env k (_ + (uprotoOnRxBytes (rxSink env) data e.rx e.link).1.bytes.length) _ _ ↔
      Reader.LosesMagicAt k _ (uprotoOnRxBytes (rxSink env) data e.rx e.link).1.bytes _ at hrest
    rw [hbytes, hreceived] at hrest
    unfold LosesMagicAt Reader.LosesMagicAt
    rw [hrest]

theorem deliveries_nodup (e : Endpoint) (chunks : List (List UInt8)) :
    ((e.deliveries chunks).map Prod.fst).Nodup := by
  have hdescribes := Reader.feed_local rxRead_keepsSuffix RxSegment.describes_append rxRead_describes
    uprotoRxBufferSize (e.rx.bytes ++ chunks.flatten) 0 e.rx.bytes chunks rfl
  have hord := (Reader.feed_ordered rxRead_ordered uprotoRxBufferSize 0 e.rx.bytes chunks).pairwise
  have hpair := deliveries_pairwise (fun s len f hs => (hdescribes _ hs).frameBlock.1) hord
  rw [List.Nodup, List.pairwise_map]
  apply hpair.imp
  intro p q hle heq
  simp only [uprotoHeaderSize] at hle
  omega

end Endpoint

/-- Each of `others` is delivered exactly once, and they are delivered in order. -/
structure DeliveredOnce (others ds : List (ℕ × UprotoFrame)) : Prop where
  inOrder : others.Sublist ds
  once : (ds.map Prod.fst).Nodup

/-- Damage stays local exactly when no frame follows, or when the length field of the
    damaged header is out of range or covers no more than the damaged bytes, and the loop does
    not clear the buffer between the two bytes of the next frame's magic. -/
theorem uprotoOnRxBytes_damage_local_iff (env : Env) (e : Endpoint) (pre post further : List TxFrame)
    (bytes : List UInt8) (chunks : List (List UInt8)) (hpos : e.rx.rxPos = 0)
    (hd : DamagedFrame bytes) (hfits : e.Fits env chunks)
    (hstream : chunks.flatten = frameBytes pre ++ (bytes ++ frameBytes (post ++ further))) :
    handledFrames (e.feed env chunks).link.log =
        handledFrames e.link.log ++ (e.deliveries chunks).map Prod.snd ∧
      (DeliveredOnce
          (frameOffsets 0 pre ++ frameOffsets ((frameBytes pre).length + bytes.length) post)
          (e.deliveries chunks) ↔
        post = [] ∨ (256 < lenField bytes ∨ 18 + lenField bytes ≤ bytes.length) ∧
          ¬ e.LosesMagicAt env ((frameBytes pre).length + bytes.length) 0 chunks) := by
  refine ⟨e.feed_frames env chunks 0, ?_⟩
  have hb : e.rx.bytes = [] := by rw [← List.length_eq_zero_iff, e.rx.bytes_length, hpos]
  have hfits' := (e.fits_iff env chunks 0).mp hfits
  have hlost := e.losesMagicAt_iff env ((frameBytes pre).length + bytes.length) 0 chunks
  have hnodup := e.deliveries_nodup chunks
  rw [hb] at hfits' hlost
  unfold Endpoint.deliveries at hnodup ⊢
  rw [hb] at hnodup ⊢
  rw [List.length_nil, Nat.add_zero] at hlost
  rw [hlost]
  constructor
  · intro honce
    cases post with
    | nil => exact .inl rfl
    | cons f post =>
      have hmem := honce.inOrder.subset (List.mem_append_right _ List.mem_cons_self)
      refine .inr ⟨?_, fun hcut => delivery_lost f.frame hfits' hcut hmem⟩
      by_contra hbad
      rw [not_or, Nat.not_lt, Nat.not_le] at hbad
      exact delivery_swallowed hd f.frame hbad hfits' hstream hmem
  · intro hcond
    refine ⟨?_, hnodup⟩
    rw [← deliveries_frameSegments_eq, ← deliveries_frameSegments_eq]
    rcases hcond with rfl | ⟨hok, hkeeps⟩
    · rw [show deliveries (frameSegments _ []) = [] from rfl, List.append_nil]
      exact deliveries_before hfits' hstream
    · refine List.Sublist.trans ?_ (deliveries_after hd hok hfits' hstream hkeeps)
      rw [frameSegments_append, deliveries_append]
      exact List.Sublist.append (List.Sublist.refl _) (List.sublist_append_left _ _)

theorem DamagedFrame.of_check {bytes : List UInt8} (hlen : 18 ≤ bytes.length)
    (hmagic : StartsMagic bytes)
    (honly : ∀ i < bytes.length, 0 < i → ¬ StartsMagic (bytes.drop i)) : DamagedFrame bytes := by
  refine ⟨hmagic, fun i hi hm => ?_, hlen⟩
  have htwo := hm.two_le
  rw [List.length_drop] at htwo
  exact honly i (by omega) hi hm

theorem uprotoOnRxBytes_damage_local_iff_type :
    DeliveredOnce [(0, pingFrame.frame), (36, pingFrame.frame)]
      ((Endpoint.init true true none).deliveries
        [pingFrame.bytes ++ (pingFrame.bytes.set 4 0x7F ++ pingFrame.bytes)]) := by
  refine (uprotoOnRxBytes_damage_local_iff quietEnv (Endpoint.init true true none) [pingFrame] [pingFrame]
    [] (pingFrame.bytes.set 4 0x7F) _ rfl ?_ ?_ (by decide +kernel)).2.mpr (.inr ⟨?_, ?_⟩)
  · exact .of_check (by decide +kernel) (by decide +kernel) (by decide +kernel)
  · exact ⟨by decide +kernel, trivial⟩
  · exact .inr (by decide +kernel)
  · rintro (⟨hlen, -⟩ | hnil)
    · exact absurd hlen (by decide +kernel)
    · exact hnil

/-- The length field of a frame is changed from 0 to 36, which takes the next two frames away:
    of the three that follow, only the last is handled. -/
theorem uprotoOnRxBytes_damage_spreads :
    ∃ bytes, DamagedFrame bytes ∧ bytes.length = pingFrame.bytes.length ∧
      (Endpoint.init true true none).Fits quietEnv
        [bytes ++ frameBytes [pingFrame, pingFrame, pingFrame]] ∧
      ¬ DeliveredOnce (frameOffsets bytes.length [pingFrame, pingFrame])
        ((Endpoint.init true true none).deliveries
          [bytes ++ frameBytes [pingFrame, pingFrame, pingFrame]]) ∧
      handledFrames ((Endpoint.init true true none).feed quietEnv
        [bytes ++ frameBytes [pingFrame, pingFrame, pingFrame]]).link.log = [pingFrame.frame] := by
  refine ⟨pingFrame.bytes.set 12 36, ?_, by decide +kernel, ⟨by decide +kernel, trivial⟩, ?_, ?_⟩
  · exact .of_check (by decide +kernel) (by decide +kernel) (by decide +kernel)
  · intro honce
    have hlen := honce.inOrder.length_le
    unfold Endpoint.deliveries at hlen
    rw [Endpoint.init_bytes] at hlen
    exact absurd hlen (by decide +kernel)
  · rw [Endpoint.feed_frames _ _ _ 0, Endpoint.init_bytes]
    decide +kernel

end SpVision
