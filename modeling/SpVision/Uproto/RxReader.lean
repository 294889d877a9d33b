import SpVision.Library.Reader
import SpVision.Uproto.RxBuffer

set_option autoImplicit false

/-!
# The receive loop as a reader of the byte stream

The loop on `rx_buffer` is the incremental reader `rxRead`, which keeps a record
of what becomes of every byte: dropped while looking for the magic, dropped with
a header whose length field is out of range, or consumed as a block that went
through the decoder.
-/
namespace SpVision
open Incremental

/-- What became of a stretch of the stream that starts at offset `start`. -/
inductive RxSegment
  | noise (start : ℕ)
  | badLength (start : ℕ)
  | block (start len : ℕ) (result : Except UprotoError UprotoFrame)

namespace RxSegment

def start : RxSegment → ℕ
  | noise s => s
  | badLength s => s
  | block s _ _ => s

def size : RxSegment → ℕ
  | noise _ => 1
  | badLength _ => 2
  | block _ len _ => len

/-- The frame handed to `uproto_handle_frame`, with the offset of its first byte. -/
def delivery : RxSegment → Option (ℕ × UprotoFrame)
  | block s _ (.ok f) => some (s, f)
  | _ => none

end RxSegment

def RxSink.segment {σ : Type} (sink : RxSink σ) (s : σ) : RxSegment → σ
  | .block _ _ r => sink.result r s
  | _ => s

def noises (offset n : ℕ) : List RxSegment := (List.range' offset n).map .noise

def findMagic (b : List UInt8) : Option ℕ :=
  (List.range (b.length - 1)).find? fun i =>
    b.getD i 0 = uprotoMagic0 ∧ b.getD (i + 1) 0 = uprotoMagic1

def lenField (b : List UInt8) : ℕ := (readU16Le (b.drop 12)).toNat

def rxDrain : ℕ → Reader UInt8 RxSegment
  | 0, _, b => ([], b)
  | fuel + 1, offset, b =>
    if b.length < uprotoHeaderSize + 2 then ([], b)
    else match findMagic b with
      | none => (noises offset b.length, [])
      | some n =>
        let h := b.drop n
        if h.length < uprotoHeaderSize then (noises offset n, h)
        else if lenField h > uprotoMaxPayload then
          let t := rxDrain fuel (offset + n + 2) (h.drop 2)
          (noises offset n ++ .badLength (offset + n) :: t.1, t.2)
        else if h.length < uprotoHeaderSize + lenField h + 2 then (noises offset n, h)
        else
          let total := uprotoHeaderSize + lenField h + 2
          let t := rxDrain fuel (offset + n + total) (h.drop total)
          (noises offset n ++ .block (offset + n) total (uprotoDecodeFrame h total) :: t.1, t.2)

def rxRead : Reader UInt8 RxSegment := fun offset b => rxDrain (b.length + 1) offset b

/-! ### Looking for the magic -/

theorem StartsMagic.two_le {b : List UInt8} (h : StartsMagic b) : 2 ≤ b.length := by
  by_contra hlt
  have hz : b.getD 1 0 = 0 := List.getD_eq_default _ _ (by omega)
  rw [StartsMagic, hz] at h
  exact absurd h.2 (by decide)

theorem startsMagic_drop (b : List UInt8) (i : ℕ) :
    StartsMagic (b.drop i) ↔ b.getD i 0 = uprotoMagic0 ∧ b.getD (i + 1) 0 = uprotoMagic1 := by
  simp [StartsMagic, List.getD_eq_getElem?_getD]

theorem findMagic_none {b : List UInt8} (h : findMagic b = none) (i : ℕ) :
    ¬ StartsMagic (b.drop i) := by
  intro hm
  have hlen := hm.two_le
  rw [List.length_drop] at hlen
  rw [findMagic, List.find?_eq_none] at h
  apply h i (List.mem_range.mpr (by omega))
  simpa using (startsMagic_drop b i).mp hm

theorem findMagic_some {b : List UInt8} {n : ℕ} (h : findMagic b = some n) :
    StartsMagic (b.drop n) ∧ ∀ i < n, ¬ StartsMagic (b.drop i) := by
  rw [findMagic, List.find?_range_eq_some] at h
  obtain ⟨hn, -, hlt⟩ := h
  refine ⟨(startsMagic_drop b n).mpr (by simpa using hn), fun i hi hm => ?_⟩
  have hi' := hlt i hi
  rw [startsMagic_drop] at hm
  rw [decide_eq_true hm] at hi'
  exact absurd hi' (by decide)

/-! ### One turn of the loop -/

structure FirstMagic (b : List UInt8) (n : ℕ) : Prop where
  here : StartsMagic (b.drop n)
  first : ∀ i < n, ¬ StartsMagic (b.drop i)

/-- What one turn of the loop does, with `r` the result of the whole loop. -/
inductive RxTurnCase (offset : ℕ) (b : List UInt8) (r : List RxSegment × List UInt8) : Prop
  | short (hlen : b.length < 18) (hr : r = ([], b))
  | clear (hlen : 18 ≤ b.length) (hno : ∀ i, ¬ StartsMagic (b.drop i))
      (hr : r = (noises offset b.length, []))
  | wait (n : ℕ) (hlen : 18 ≤ b.length) (hm : FirstMagic b n)
      (hpart : b.length - n < 16 ∨ lenField (b.drop n) ≤ 256 ∧ b.length - n < 18 + lenField (b.drop n))
      (hr : r = (noises offset n, b.drop n))
  | skip (n : ℕ) (hm : FirstMagic b n) (hpart : n + 16 ≤ b.length)
      (hbad : 256 < lenField (b.drop n))
      (hr : r = (noises offset n ++ .badLength (offset + n) ::
        (rxRead (offset + n + 2) (b.drop (n + 2))).1, (rxRead (offset + n + 2) (b.drop (n + 2))).2))
  | frame (n total : ℕ) (hm : FirstMagic b n) (hok : lenField (b.drop n) ≤ 256)
      (htotal : total = 18 + lenField (b.drop n)) (hpart : n + total ≤ b.length)
      (hr : r = (noises offset n ++ .block (offset + n) total (uprotoDecodeFrame (b.drop n) total) ::
        (rxRead (offset + n + total) (b.drop (n + total))).1,
        (rxRead (offset + n + total) (b.drop (n + total))).2))

theorem rxDrain_fuel (fuel offset : ℕ) (b : List UInt8) (h : b.length < fuel) :
    rxDrain fuel offset b = rxRead offset b := by
  unfold rxRead
  induction hb : b.length using Nat.strong_induction_on generalizing fuel offset b with
  | _ len ih =>
    subst hb
    obtain ⟨fuel, rfl⟩ : ∃ k, fuel = k + 1 := ⟨fuel - 1, by omega⟩
    simp only [rxDrain]
    split_ifs with hlen
    · rfl
    cases hm : findMagic b with
    | none => rfl
    | some n =>
      have hlen' : 18 ≤ b.length := by simpa using hlen
      have hn : n + 2 ≤ b.length := by
        have := (findMagic_some hm).1.two_le
        rw [List.length_drop] at this
        omega
      simp only [List.drop_drop]
      split_ifs with h16 hbad hwait
      · rfl
      · have hl : (b.drop (n + 2)).length < b.length := by rw [List.length_drop]; omega
        rw [ih _ hl fuel _ _ (by omega) rfl, ih _ hl b.length _ _ hl rfl]
      · rfl
      · have hl : (b.drop (n + (uprotoHeaderSize + lenField (b.drop n) + 2))).length < b.length := by
          rw [List.length_drop]; omega
        rw [ih _ hl fuel _ _ (by omega) rfl, ih _ hl b.length _ _ hl rfl]

theorem rxRead_cases (offset : ℕ) (b : List UInt8) : RxTurnCase offset b (rxRead offset b) := by
  have hunfold : rxRead offset b = rxDrain (b.length + 1) offset b := rfl
  simp only [rxDrain, uprotoHeaderSize, uprotoMaxPayload] at hunfold
  by_cases hlen : b.length < 16 + 2
  · rw [if_pos hlen] at hunfold
    exact .short hlen hunfold
  rw [if_neg hlen] at hunfold
  cases hm : findMagic b with
  | none =>
    rw [hm] at hunfold
    exact .clear (by omega) (findMagic_none hm) hunfold
  | some n =>
    have hfm : FirstMagic b n := ⟨(findMagic_some hm).1, (findMagic_some hm).2⟩
    have hn := hfm.here.two_le
    rw [hm] at hunfold
    simp only [List.length_drop, List.drop_drop] at hunfold hn
    split_ifs at hunfold with h16 hbad hwait
    · exact .wait n (by omega) hfm (.inl h16) hunfold
    · rw [rxDrain_fuel _ _ _ (by rw [List.length_drop]; omega)] at hunfold
      exact .skip n hfm (by omega) hbad hunfold
    · exact .wait n (by omega) hfm (.inr ⟨by omega, by omega⟩) hunfold
    · rw [rxDrain_fuel _ _ _ (by rw [List.length_drop]; omega)] at hunfold
      have htotal : 16 + lenField (b.drop n) + 2 = 18 + lenField (b.drop n) := by omega
      rw [htotal] at hunfold
      exact .frame n _ hfm (by omega) rfl (by omega) hunfold

/-! ### The loop on the array is this reader -/

theorem RxBuffer.findMagic_bytes (rx : RxBuffer) : rx.findMagic = SpVision.findMagic rx.bytes := by
  unfold RxBuffer.findMagic SpVision.findMagic
  rw [rx.bytes_length]
  apply List.find?_congr
  intro i hi
  have hi' := List.mem_range.mp hi
  rw [rx.getD_bytes i (by omega), rx.getD_bytes (i + 1) (by omega)]

theorem RxBuffer.payloadLen_bytes (rx : RxBuffer) (h : 14 ≤ rx.rxPos) :
    (readU16Le (rx.rxBuffer.toList.drop 12)).toNat = lenField rx.bytes := by
  rw [lenField, RxBuffer.bytes, readU16Le_take_drop _ _ _ h]

theorem foldl_noises {σ : Type} (sink : RxSink σ) (offset n : ℕ) (s : σ) :
    (noises offset n).foldl sink.segment s = s := by
  induction n generalizing offset with
  | zero => rfl
  | succ n ih => exact ih (offset + 1)

theorem uprotoRxLoop_drain {σ : Type} (sink : RxSink σ) (fuel offset : ℕ) (rx : RxBuffer) (s : σ) :
    (uprotoRxLoop sink fuel rx s).1.bytes = (rxDrain fuel offset rx.bytes).2 ∧
      (uprotoRxLoop sink fuel rx s).2 = (rxDrain fuel offset rx.bytes).1.foldl sink.segment s := by
  induction fuel generalizing offset rx s with
  | zero => exact ⟨rfl, rfl⟩
  | succ fuel ih =>
    unfold uprotoRxLoop rxTurn rxDrain
    rw [rx.bytes_length, rx.findMagic_bytes]
    by_cases hshort : rx.rxPos < uprotoHeaderSize + 2
    · simp only [hshort, if_true]
      exact ⟨trivial, rfl⟩
    simp only [hshort, if_false]
    cases hm : findMagic rx.bytes with
    | none => exact ⟨rx.clear_bytes, (foldl_noises sink offset rx.rxPos s).symm⟩
    | some n =>
      have hhead : (if n > 0 then rx.discard n else rx).bytes = rx.bytes.drop n := by
        split_ifs with hn
        · exact rx.discard_bytes n
        · obtain rfl : n = 0 := by omega
          rfl
      dsimp only
      generalize (if n > 0 then rx.discard n else rx) = head at hhead ⊢
      simp only [← hhead, head.bytes_length]
      by_cases h16 : head.rxPos < uprotoHeaderSize
      · simp only [h16, if_true]
        exact ⟨trivial, (foldl_noises sink offset n s).symm⟩
      have hlen : (readU16Le (head.rxBuffer.toList.drop 12)).toNat = lenField head.bytes :=
        head.payloadLen_bytes (by simp only [uprotoHeaderSize] at h16; omega)
      simp only [h16, if_false, hlen]
      by_cases hbad : lenField head.bytes > uprotoMaxPayload
      · simp only [hbad, if_true]
        obtain ⟨hb, hs⟩ := ih (offset + n + 2) (head.discard 2) s
        rw [head.discard_bytes] at hb hs
        exact ⟨hb, by rw [hs, List.foldl_append, foldl_noises]; rfl⟩
      simp only [hbad, if_false]
      by_cases hwait : head.rxPos < uprotoHeaderSize + lenField head.bytes + 2
      · simp only [hwait, if_true]
        exact ⟨trivial, (foldl_noises sink offset n s).symm⟩
      simp only [hwait, if_false]
      generalize htotal : uprotoHeaderSize + lenField head.bytes + 2 = total at hwait ⊢
      have hdec : uprotoDecodeFrame head.rxBuffer.toList total = uprotoDecodeFrame head.bytes total := by
        have htake := uprotoDecodeFrame_take (head.rxBuffer.toList.take head.rxPos) total
        rw [List.take_take, Nat.min_eq_left (Nat.le_of_not_lt hwait), uprotoDecodeFrame_take] at htake
        exact htake
      obtain ⟨hb, hs⟩ := ih (offset + n + total) (head.discard total)
        (sink.result (uprotoDecodeFrame head.bytes total) s)
      rw [head.discard_bytes] at hb hs
      rw [hdec]
      exact ⟨hb, by rw [hs, List.foldl_append, foldl_noises]; rfl⟩

theorem foldl_store_bytes (data : List UInt8) (rx : RxBuffer) :
    (data.foldl RxBuffer.store rx).bytes = absorb uprotoRxBufferSize rx.bytes data := by
  induction data generalizing rx with
  | nil => rfl
  | cons x xs ih =>
    rw [List.foldl_cons, ih, RxBuffer.store_bytes, absorb, rx.bytes_length]
    split_ifs <;> rfl

theorem uprotoOnRxBytes_call {σ : Type} (sink : RxSink σ) (data : List UInt8) (rx : RxBuffer) (s : σ)
    (offset : ℕ) :
    (uprotoOnRxBytes sink data rx s).1.bytes =
        (rxRead.call uprotoRxBufferSize offset rx.bytes data).rest ∧
      (uprotoOnRxBytes sink data rx s).2 =
        (rxRead.call uprotoRxBufferSize offset rx.bytes data).out.foldl sink.segment s := by
  have hb := foldl_store_bytes data rx
  have h := uprotoRxLoop_drain sink ((data.foldl RxBuffer.store rx).rxPos + 1)
    (offset + (rx.bytes ++ data).length - (absorb uprotoRxBufferSize rx.bytes data).length)
    (data.foldl RxBuffer.store rx) s
  rw [rxDrain_fuel _ _ _ (by simp), hb] at h
  exact h

def rxFeed {σ : Type} (sink : RxSink σ) (chunks : List (List UInt8)) (rx : RxBuffer) (s : σ) :
    RxBuffer × σ :=
  chunks.foldl (fun p data => uprotoOnRxBytes sink data p.1 p.2) (rx, s)

theorem rxFeed_feed {σ : Type} (sink : RxSink σ) (chunks : List (List UInt8)) (rx : RxBuffer) (s : σ)
    (offset : ℕ) :
    (rxFeed sink chunks rx s).1.bytes =
        (rxRead.feed uprotoRxBufferSize offset rx.bytes chunks).rest ∧
      (rxFeed sink chunks rx s).2 =
        (rxRead.feed uprotoRxBufferSize offset rx.bytes chunks).out.foldl sink.segment s := by
  induction chunks generalizing rx s offset with
  | nil => exact ⟨rfl, rfl⟩
  | cons data chunks ih =>
    obtain ⟨hb, hs⟩ := uprotoOnRxBytes_call sink data rx s offset
    have h := ih (uprotoOnRxBytes sink data rx s).1 (uprotoOnRxBytes sink data rx s).2
      (rxRead.call uprotoRxBufferSize offset rx.bytes data).offset
    rw [hb] at h
    simp only [Reader.feed, List.foldl_append, ← hs]
    exact h

/-! ### What the segments stand for -/

theorem rxRead_keepsSuffix : Reader.KeepsSuffix rxRead := by
  intro offset b
  induction hb : b.length using Nat.strong_induction_on generalizing offset b with
  | _ len ih =>
    subst hb
    cases rxRead_cases offset b with
    | short hlen hr => rw [hr]
    | clear hlen hno hr => rw [hr]; exact List.nil_suffix
    | wait n hlen hm hpart hr => rw [hr]; exact List.drop_suffix n b
    | skip n hm hpart hbad hr =>
      rw [hr]
      exact (ih _ (by rw [List.length_drop]; omega) _ _ rfl).trans (List.drop_suffix _ b)
    | frame n total hm hok htotal hpart hr =>
      rw [hr]
      exact (ih _ (by rw [List.length_drop]; omega) _ _ rfl).trans (List.drop_suffix _ b)

theorem noises_ordered (offset n : ℕ) :
    Ordered RxSegment.start RxSegment.size offset (noises offset n) (offset + n) := by
  induction n generalizing offset with
  | zero => exact le_refl offset
  | succ n ih => exact ⟨le_refl offset, (ih (offset + 1)).mono (le_refl _) (by omega)⟩

theorem rxRead_ordered : rxRead.Ordered RxSegment.start RxSegment.size := by
  intro offset b
  induction hb : b.length using Nat.strong_induction_on generalizing offset b with
  | _ len ih =>
    subst hb
    have hle := (rxRead_keepsSuffix offset b).length_le
    cases rxRead_cases offset b with
    | short hlen hr => rw [hr]; exact Nat.le_sub_of_add_le (le_refl _)
    | clear hlen hno hr => rw [hr]; exact noises_ordered offset b.length
    | wait n hlen hm hpart hr =>
      have hn := hm.here.two_le
      rw [List.length_drop] at hn
      rw [hr]
      exact (noises_ordered offset n).mono (le_refl _) (by simp only [List.length_drop]; omega)
    | skip n hm hpart hbad hr =>
      have h := ih _ (by rw [List.length_drop]; omega) (offset + n + 2) (b.drop (n + 2)) rfl
      have hle' := (rxRead_keepsSuffix (offset + n + 2) (b.drop (n + 2))).length_le
      rw [List.length_drop] at h hle'
      rw [hr]
      exact (noises_ordered offset n).append
        ⟨le_refl _, h.mono (le_refl _) (by dsimp only; omega)⟩
    | frame n total hm hok htotal hpart hr =>
      have h := ih _ (by rw [List.length_drop]; omega) (offset + n + total) (b.drop (n + total)) rfl
      have hle' := (rxRead_keepsSuffix (offset + n + total) (b.drop (n + total))).length_le
      rw [List.length_drop] at h hle'
      rw [hr]
      exact (noises_ordered offset n).append
        ⟨le_refl _, h.mono (le_refl _) (by dsimp only; omega)⟩

theorem mem_noises {offset n : ℕ} {s : RxSegment} (h : s ∈ noises offset n) :
    ∃ i < n, s = .noise (offset + i) := by
  rw [noises, List.mem_map] at h
  obtain ⟨k, hk, rfl⟩ := h
  obtain ⟨i, hi, rfl⟩ := List.mem_range'.mp hk
  exact ⟨i, hi, by simp⟩

/-- A block is the decoder's answer on bytes that begin with the magic. -/
def RxSegment.Describes (s : RxSegment) (x : List UInt8) : Prop :=
  match s with
  | .block _ len result => StartsMagic x ∧ len = uprotoHeaderSize + lenField x + 2 ∧
      len ≤ x.length ∧ result = uprotoDecodeFrame (x.take len) len
  | _ => True

theorem RxSegment.describes_append (s : RxSegment) (x y : List UInt8) (h : s.Describes x) :
    s.Describes (x ++ y) := by
  cases s with
  | noise _ => trivial
  | badLength _ => trivial
  | block start len result =>
    obtain ⟨hm, hlen, hle, hr⟩ := h
    have h2 : 14 ≤ x.length := by simp only [uprotoHeaderSize] at hlen; omega
    refine ⟨?_, ?_, by rw [List.length_append]; omega, by rw [hr, List.take_append_of_le_length hle]⟩
    · rw [StartsMagic, List.getD_append _ _ _ _ (by omega), List.getD_append _ _ _ _ (by omega)]
      exact hm
    · have htake := readU16Le_take_drop (x ++ y) x.length 12 (by omega)
      rw [List.take_left] at htake
      rw [lenField, ← htake]
      exact hlen

theorem rxRead_describes (offset : ℕ) (b : List UInt8) : ∀ s ∈ (rxRead offset b).1,
    ∃ i, s.start = offset + i ∧ i ≤ b.length ∧ s.Describes (b.drop i) := by
  have hnoise : ∀ (offset n : ℕ) (b : List UInt8), n ≤ b.length → ∀ s ∈ noises offset n,
      ∃ i, s.start = offset + i ∧ i ≤ b.length ∧ s.Describes (b.drop i) := by
    intro offset n b hn s hs
    obtain ⟨i, hi, rfl⟩ := mem_noises hs
    exact ⟨i, rfl, by omega, trivial⟩
  induction hb : b.length using Nat.strong_induction_on generalizing offset b with
  | _ len ih =>
    subst hb
    intro s hs
    cases rxRead_cases offset b with
    | short hlen hr => rw [hr] at hs; cases hs
    | clear hlen hno hr => rw [hr] at hs; exact hnoise _ _ _ (le_refl _) s hs
    | wait n hlen hm hpart hr =>
      have hn := hm.here.two_le
      rw [List.length_drop] at hn
      rw [hr] at hs
      exact hnoise _ _ _ (by omega) s hs
    | skip n hm hpart hbad hr =>
      rw [hr, List.mem_append, List.mem_cons] at hs
      rcases hs with hs | rfl | hs
      · exact hnoise _ _ _ (by omega) s hs
      · exact ⟨n, rfl, by omega, trivial⟩
      · obtain ⟨i, hi, hib, hd⟩ := ih _ (by rw [List.length_drop]; omega) _ _ rfl s hs
        rw [List.length_drop] at hib
        exact ⟨n + 2 + i, by rw [hi]; omega, by omega, by rw [← List.drop_drop]; exact hd⟩
    | frame n total hm hok htotal hpart hr =>
      rw [hr, List.mem_append, List.mem_cons] at hs
      rcases hs with hs | rfl | hs
      · exact hnoise _ _ _ (by omega) s hs
      · refine ⟨n, rfl, by omega, hm.here, ?_, ?_, (uprotoDecodeFrame_take _ _).symm⟩
        · rw [htotal]; simp only [uprotoHeaderSize]; omega
        · rw [List.length_drop]; omega
      · obtain ⟨i, hi, hib, hd⟩ := ih _ (by rw [List.length_drop]; omega) _ _ rfl s hs
        rw [List.length_drop] at hib
        exact ⟨n + total + i, by rw [hi]; omega, by omega, by rw [← List.drop_drop]; exact hd⟩

end SpVision
