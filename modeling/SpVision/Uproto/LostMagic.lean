import SpVision.Uproto.AnyStream

set_option autoImplicit false

/-!
# The first magic that a run loses

Either a run reads its stream as `rxParse` does, or it does so up to the first call
that clears the buffer between the two bytes of a magic. That magic is preceded by
noise, and nothing that starts at or before it is read afterwards.
-/
namespace SpVision
open Incremental

/-- The call that receives byte `k` of the stream clears the buffer, and byte `k` is `AA`.
    `offset` is the position of the first byte of the buffer. -/
def Reader.LosesMagicAt (k offset : ℕ) (b : List UInt8) : List (List UInt8) → Prop
  | [] => False
  | c :: cs => offset + b.length + c.length = k + 1 ∧ LosesMagic0 (b ++ c) ∨
      LosesMagicAt k (rxRead.call uprotoRxBufferSize offset b c).offset
        (rxRead.call uprotoRxBufferSize offset b c).rest cs

theorem getLast_isNoise_tail {offset n : ℕ} {seg : RxSegment} {segs : List RxSegment}
    (hseg : seg.isNoise = false)
    (h : ((noises offset n ++ seg :: segs).map RxSegment.isNoise).getLast? = some true) :
    (segs.map RxSegment.isNoise).getLast? = some true := by
  rw [List.map_append, List.map_cons, List.getLast?_append, hseg] at h
  cases hsegs : segs.map RxSegment.isNoise with
  | nil => simp [hsegs] at h
  | cons x xs =>
    rw [hsegs, List.getLast?_cons_cons] at h
    simpa using h

/-- A buffer that the loop clears ends in at least eighteen bytes without a magic. -/
theorem rxRead_noise_tail {offset : ℕ} {b : List UInt8} (hrest : (rxRead offset b).2 = [])
    (hnoise : ((rxRead offset b).1.map RxSegment.isNoise).getLast? = some true) :
    ∃ segs j, j + 18 ≤ b.length ∧ (∀ i, ¬ StartsMagic ((b.drop j).drop i)) ∧
      rxRead offset b = (segs ++ noises (offset + j) (b.length - j), []) ∧
      ∀ x, rxParse offset (b ++ x) = segs ++ rxParse (offset + j) (b.drop j ++ x) := by
  induction hb : b.length using Nat.strong_induction_on generalizing offset b with
  | _ len ih =>
    subst hb
    cases rxRead_cases offset b with
    | short hlen hr =>
      rw [hr] at hnoise
      cases hnoise
    | clear hlen hno hr => exact ⟨[], 0, by omega, by simpa using hno, by simpa using hr, by simp⟩
    | wait n hlen hm hpart hr =>
      have hn := hm.here.two_le
      rw [hr] at hrest
      rw [show b.drop n = [] from hrest] at hn
      exact absurd hn (by decide)
    | skip n hm hpart hbad hr =>
      rw [hr] at hrest hnoise
      obtain ⟨segs, j, hj, hno, htail, hparse⟩ := ih _ (by rw [List.length_drop]; omega) hrest
        (getLast_isNoise_tail rfl hnoise) rfl
      rw [List.length_drop] at hj htail
      refine ⟨noises offset n ++ .badLength (offset + n) :: segs, n + 2 + j, by omega, ?_, ?_, ?_⟩
      · simpa only [List.drop_drop] using hno
      · rw [hr, htail, List.append_assoc, List.cons_append, Nat.sub_sub, ← Nat.add_assoc]
        rfl
      · intro x
        rw [rxParse_skip hm hpart hbad, hparse, List.drop_drop, List.append_assoc, List.cons_append]
        simp only [Nat.add_assoc]
    | frame n total hm hok htotal hpart hr =>
      rw [hr] at hrest hnoise
      obtain ⟨segs, j, hj, hno, htail, hparse⟩ := ih _ (by rw [List.length_drop]; omega) hrest
        (getLast_isNoise_tail rfl hnoise) rfl
      rw [List.length_drop] at hj htail
      refine ⟨noises offset n ++ .block (offset + n) total (uprotoDecodeFrame (b.drop n) total) :: segs,
        n + total + j, by omega, ?_, ?_, ?_⟩
      · simpa only [List.drop_drop] using hno
      · rw [hr, htail, List.append_assoc, List.cons_append, Nat.sub_sub, ← Nat.add_assoc,
          ← Nat.add_assoc]
      · intro x
        rw [rxParse_frame hm hok htotal hpart, hparse, List.drop_drop, List.append_assoc,
          List.cons_append]
        simp only [Nat.add_assoc]

theorem startsMagic_of_join {b x : List UInt8} (hb : b.getLast? = some uprotoMagic0)
    (hx : x.head? = some uprotoMagic1) : StartsMagic ((b ++ x).drop (b.length - 1)) := by
  obtain ⟨y, rfl⟩ : ∃ y, b = y ++ [uprotoMagic0] := List.getLast?_eq_some_iff.mp hb
  obtain ⟨z, rfl⟩ : ∃ z, x = uprotoMagic1 :: z := List.head?_eq_some_iff.mp hx
  have hlen : (y ++ [uprotoMagic0]).length - 1 = y.length := by simp
  rw [hlen, List.append_assoc, List.drop_left]
  exact ⟨rfl, rfl⟩

/-- Where the loop clears the buffer inside a magic, it and the reading of the whole stream agree up
    to the last byte of the buffer. -/
theorem rxRead_losesMagic {offset : ℕ} {b x : List UInt8} (hlost : LosesMagic0 b)
    (hx : x.head? = some uprotoMagic1) :
    ∃ j before after, j + 18 ≤ b.length ∧ StartsMagic ((b ++ x).drop (b.length - 1)) ∧
      rxRead offset b = (before ++ noises (offset + j) (b.length - j), []) ∧
      rxParse offset (b ++ x) = before ++ noises (offset + j) (b.length - 1 - j) ++ after := by
  obtain ⟨hrest, hnoise, hlast⟩ := (losesMagic0_iff offset _).mp hlost
  obtain ⟨before, j, hj, hno, hread, hparse⟩ := rxRead_noise_tail hrest hnoise
  have hmagic := startsMagic_of_join hlast hx
  -- the bytes before the lost magic are noise for the whole stream too
  have hbefore : rxParse (offset + j) (b.drop j ++ x) = noises (offset + j) (b.length - 1 - j) ++
      rxParse (offset + j + (b.length - 1 - j)) ((b.drop j ++ x).drop (b.length - 1 - j)) := by
    apply rxParse_noise (by simp only [List.length_append, List.length_drop]; omega)
    intro i hi
    rw [List.drop_append_of_le_length (by rw [List.length_drop]; omega),
      startsMagic_append (by rw [List.length_drop, List.length_drop]; omega)]
    exact hno i
  exact ⟨j, before, _, hj, hmagic, hread, by rw [hparse, hbefore, List.append_assoc]⟩

/-- A run reads its stream as a whole up to the first magic it loses. -/
theorem rxRead_feed_or_loses {offset : ℕ} {b : List UInt8} {chunks : List (List UInt8)}
    (hfits : rxRead.Fits uprotoRxBufferSize offset b chunks) :
    rxRead.Along uprotoRxBufferSize KeepsMagic offset b chunks ∨
      ∃ k j before after later, Reader.LosesMagicAt k offset b chunks ∧ offset ≤ k ∧ j < k ∧
        StartsMagic ((b ++ chunks.flatten).drop (k - offset)) ∧
        rxParse offset (b ++ chunks.flatten) = before ++ noises j (k - j) ++ after ∧
        (rxRead.feed uprotoRxBufferSize offset b chunks).out =
          before ++ noises j (k + 1 - j) ++ later ∧
        ∀ s ∈ later, k < s.start := by
  induction chunks generalizing offset b with
  | nil => exact .inl trivial
  | cons c cs ih =>
    obtain ⟨hlen, hfits⟩ := hfits
    have hcall := rxRead.call_of_fits offset hlen
    by_cases hkeep : KeepsMagic (b ++ c) cs.flatten
    · have hparse := rxRead_resumes offset (b ++ c) cs.flatten hkeep
      rcases ih hfits with halong | ⟨k, j, before, after, later, hat, hoff, hjk, hm, hp, ho, hl⟩
      · refine .inl ⟨?_, halong⟩
        rw [absorb_of_fits _ _ _ hlen]
        exact hkeep
      obtain ⟨read, hread⟩ := rxRead_keepsSuffix offset (b ++ c)
      have hrest := congrArg List.length hread
      rw [List.length_append] at hrest
      rw [hcall] at hm hoff hp ho
      dsimp only at hm hoff hp ho
      refine .inr ⟨k, j, (rxRead offset (b ++ c)).1 ++ before, after, later, .inr hat, by omega, hjk,
        ?_, ?_, ?_, hl⟩
      · have hdrop : (b ++ c ++ cs.flatten).drop read.length =
            (rxRead offset (b ++ c)).2 ++ cs.flatten := by
          conv_lhs => rw [← hread]
          rw [List.append_assoc, List.drop_left]
        have hk : k - offset = read.length +
            (k - (offset + (b ++ c).length - (rxRead offset (b ++ c)).2.length)) := by omega
        rw [List.flatten_cons, ← List.append_assoc, hk, ← List.drop_drop, hdrop]
        exact hm
      · rw [List.flatten_cons, ← List.append_assoc, hparse, hp]
        simp only [List.append_assoc]
      · simp only [Reader.feed, hcall, ho, List.append_assoc]
    · obtain ⟨hlost, hnext⟩ := Classical.not_imp.mp hkeep
      rw [not_not] at hnext
      obtain ⟨j, before, after, hj, hmagic, hread, hparse⟩ := @rxRead_losesMagic offset _ _ hlost hnext
      refine .inr ⟨offset + (b ++ c).length - 1, offset + j, before, after,
        (rxRead.feed uprotoRxBufferSize (offset + (b ++ c).length) [] cs).out, .inl ⟨?_, hlost⟩, by omega,
        by omega, ?_, ?_, ?_, ?_⟩
      · rw [List.length_append] at hj ⊢
        omega
      · have hk : offset + (b ++ c).length - 1 - offset = (b ++ c).length - 1 := by omega
        rw [List.flatten_cons, ← List.append_assoc, hk]
        exact hmagic
      · have hk : offset + (b ++ c).length - 1 - (offset + j) = (b ++ c).length - 1 - j := by omega
        rw [List.flatten_cons, ← List.append_assoc, hparse, hk]
      · have hk : offset + (b ++ c).length - 1 + 1 - (offset + j) = (b ++ c).length - j := by omega
        simp only [Reader.feed, hcall, hread, hk, List.length_nil, Nat.sub_zero]
      · intro s hs
        have hord := Reader.feed_ordered rxRead_ordered uprotoRxBufferSize
          (offset + (b ++ c).length) [] cs
        have hle := (hord.mem hs).1
        omega

theorem Reader.LosesMagicAt.noise {k offset : ℕ} {b : List UInt8} {chunks : List (List UInt8)}
    (h : LosesMagicAt k offset b chunks) (hfits : rxRead.Fits uprotoRxBufferSize offset b chunks) :
    .noise k ∈ (rxRead.feed uprotoRxBufferSize offset b chunks).out := by
  induction chunks generalizing offset b with
  | nil => exact h.elim
  | cons c cs ih =>
    simp only [Incremental.Reader.feed, List.mem_append]
    rcases h with ⟨hk, hlost⟩ | h
    · left
      rw [rxRead.call_of_fits offset hfits.1]
      obtain ⟨hrest, hnoise, hlast⟩ := (losesMagic0_iff offset _).mp hlost
      obtain ⟨segs, j, hj, -, hread, -⟩ := rxRead_noise_tail hrest hnoise
      dsimp only
      rw [List.length_append] at hj hread
      rw [hread, List.mem_append]
      refine .inr (List.mem_map.mpr ⟨k, List.mem_range'.mpr ⟨k - (offset + j), ?_, ?_⟩, rfl⟩)
      · omega
      · omega
    · exact .inr (ih h hfits.2)

end SpVision
