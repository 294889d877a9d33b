import Mathlib.Data.Int.Order.Basic
import Mathlib.Tactic.Linarith

set_option autoImplicit false

/-!
# Smoothing by integer averages

The weighted mean of the last value and a sample, with the quotient rounded toward zero,
stays among the samples as far as rounding allows, if it started there.
-/
namespace SpVision.Smoothing

/-- The last value weighs `w` times as much as the sample. -/
def smooth (w value sample : ℤ) : ℤ := (w * value + sample).tdiv (w + 1)

/-- Between the least and the greatest sample, each widened by 1. -/
def InHull (samples : List ℤ) (value : ℤ) : Prop :=
  (∃ a ∈ samples, a - 1 ≤ value) ∧ ∃ b ∈ samples, value ≤ b + 1

variable {w value sample : ℤ} {samples : List ℤ}

theorem le_smooth {a : ℤ} (hw : 0 ≤ w) (hvalue : a - 1 ≤ value) (hsample : a ≤ sample) :
    a - 1 ≤ smooth w value sample := by
  have hsum : (w + 1) * (a - 1) ≤ w * value + sample := by
    have hweight := mul_le_mul_of_nonneg_left hvalue hw
    linarith
  calc
    a - 1 = ((w + 1) * (a - 1)).tdiv (w + 1) := (Int.mul_tdiv_cancel_left _ (by omega)).symm
    _ ≤ smooth w value sample := Int.tdiv_le_tdiv (by omega) hsum

theorem smooth_le {b : ℤ} (hw : 0 ≤ w) (hvalue : value ≤ b + 1) (hsample : sample ≤ b) :
    smooth w value sample ≤ b + 1 := by
  have hsum : w * value + sample ≤ (w + 1) * (b + 1) := by
    have hweight := mul_le_mul_of_nonneg_left hvalue hw
    linarith
  calc
    smooth w value sample ≤ ((w + 1) * (b + 1)).tdiv (w + 1) := Int.tdiv_le_tdiv (by omega) hsum
    _ = b + 1 := Int.mul_tdiv_cancel_left _ (by omega)

theorem InHull.smooth (hw : 0 ≤ w) (h : InHull samples value) (sample : ℤ) :
    InHull (samples ++ [sample]) (smooth w value sample) := by
  obtain ⟨⟨a, ha, hlow⟩, b, hb, hhigh⟩ := h
  have hlast : sample ∈ samples ++ [sample] := List.mem_append_right _ (List.mem_singleton_self sample)
  constructor
  · rcases le_total a sample with hle | hle
    · exact ⟨a, List.mem_append_left _ ha, le_smooth hw hlow hle⟩
    · exact ⟨sample, hlast, le_smooth hw (by omega) le_rfl⟩
  · rcases le_total sample b with hle | hle
    · exact ⟨b, List.mem_append_left _ hb, smooth_le hw hhigh hle⟩
    · exact ⟨sample, hlast, smooth_le hw (by omega) le_rfl⟩

theorem pred_le_tdiv_iff {n : ℤ} (hw : 1 < w) (hn : 0 ≤ n) : n - 1 ≤ n.tdiv (w + 1) ↔ n ≤ 1 := by
  constructor
  · intro h
    have hcut : (w + 1) * n.tdiv (w + 1) ≤ n := Int.mul_tdiv_self_le hn
    have hscaled : (w + 1) * (n - 1) ≤ (w + 1) * n.tdiv (w + 1) := mul_le_mul_of_nonneg_left h (by omega)
    by_contra hlarge
    have hweight : 3 * (n - 1) ≤ (w + 1) * (n - 1) := mul_le_mul_of_nonneg_right (by omega) (by omega)
    omega
  · intro h
    have hnonneg : 0 ≤ n.tdiv (w + 1) := Int.tdiv_nonneg hn (by omega)
    omega

/-- From the value 0 the first sample is reached only if it is next to 0. -/
theorem inHull_first_iff (hw : 1 < w) (sample : ℤ) :
    InHull [sample] (smooth w 0 sample) ↔ -1 ≤ sample ∧ sample ≤ 1 := by
  have hzero : smooth w 0 sample = sample.tdiv (w + 1) := by
    rw [smooth, mul_zero, zero_add]
  rw [hzero]
  unfold InHull
  simp only [List.mem_singleton, exists_eq_left]
  rcases le_total 0 sample with hn | hn
  · have hself : sample.tdiv (w + 1) ≤ sample := Int.tdiv_le_self (w + 1) hn
    rw [pred_le_tdiv_iff hw hn]
    omega
  · have hn' : 0 ≤ -sample := by omega
    have hself : (-sample).tdiv (w + 1) ≤ -sample := Int.tdiv_le_self (w + 1) hn'
    have hnear := pred_le_tdiv_iff hw hn'
    rw [Int.neg_tdiv] at hself hnear
    omega

end SpVision.Smoothing
