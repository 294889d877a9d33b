import Mathlib.Algebra.Order.Group.Unbundled.Abs
import SpVision.Sync.Offset

set_option autoImplicit false

/-!
# One exchange

A request leaves at `t0`, arrives after `d1` at a clock that is ahead by `theta`, is answered
after `p`, and the answer arrives after `d2`.
-/
namespace SpVision

/-- The four readings of an exchange, and what they are readings of. -/
structure Exchange where
  theta : ℤ
  d1 : ℕ
  d2 : ℕ
  p : ℕ
  t0 : UInt64
  t1 : UInt64
  t2 : UInt64
  t3 : UInt64
  t1_eq : (t1.toNat : ℤ) = t0.toNat + d1 + theta
  t2_eq : t2.toNat = t1.toNat + p
  t3_eq : t3.toNat = t0.toNat + d1 + p + d2
  t0_lt : t0.toNat < 2 ^ 62
  t1_lt : t1.toNat < 2 ^ 62
  t2_lt : t2.toNat < 2 ^ 62
  t3_lt : t3.toNat < 2 ^ 62

theorem toInt_sub_toInt64 {a b : UInt64} (ha : a.toNat < 2 ^ 63) (hb : b.toNat < 2 ^ 63) :
    (a - b).toInt64.toInt = a.toNat - b.toNat := by
  rw [UInt64.toInt64_sub, Int64.toInt_sub]
  have hsigned : ∀ {c : UInt64}, c.toNat < 2 ^ 63 → c.toInt64.toInt = c.toNat := by
    intro c hc
    change c.toBitVec.toInt = c.toBitVec.toNat
    exact BitVec.toInt_eq_toNat_of_lt (by rw [UInt64.toNat_toBitVec]; omega)
  rw [hsigned ha, hsigned hb]
  exact Int.bmod_eq_of_le (by omega) (by omega)

namespace Exchange

variable (e : Exchange)

theorem rtt_eq : (tsRtt e.t0 e.t1 e.t2 e.t3).toNat = e.d1 + e.d2 := by
  have hprocessing := e.t2_eq
  have htotal := e.t3_eq
  have hsent : e.t0 ≤ e.t3 := UInt64.le_iff_toNat_le.mpr (by omega)
  have hanswered : e.t1 ≤ e.t2 := UInt64.le_iff_toNat_le.mpr (by omega)
  have hinside : e.t2 - e.t1 ≤ e.t3 - e.t0 := by
    rw [UInt64.le_iff_toNat_le, UInt64.toNat_sub_of_le _ _ hanswered, UInt64.toNat_sub_of_le _ _ hsent]
    omega
  rw [tsRtt, if_pos hanswered, UInt64.toNat_sub_of_le _ _ hinside, UInt64.toNat_sub_of_le _ _ hanswered,
    UInt64.toNat_sub_of_le _ _ hsent]
  omega

theorem toInt_offset : (tsOffset e.t0 e.t1 e.t2 e.t3).toInt = (2 * e.theta + e.d1 - e.d2).tdiv 2 := by
  have harrival := e.t1_eq
  have hprocessing := e.t2_eq
  have htotal := e.t3_eq
  have h0 := e.t0_lt
  have h1 := e.t1_lt
  have h2 := e.t2_lt
  have h3 := e.t3_lt
  have hthere := toInt_sub_toInt64 (a := e.t1) (b := e.t0) (by omega) (by omega)
  have hback := toInt_sub_toInt64 (a := e.t2) (b := e.t3) (by omega) (by omega)
  have hsum : ((e.t1 - e.t0).toInt64 + (e.t2 - e.t3).toInt64).toInt = 2 * e.theta + e.d1 - e.d2 := by
    rw [Int64.toInt_add, hthere, hback, Int.bmod_eq_of_le (by omega) (by omega)]
    omega
  rw [tsOffset, Int64.toInt_div_of_ne_right _ _ (by decide), hsum]
  rfl

theorem offset_near : 2 * |(tsOffset e.t0 e.t1 e.t2 e.t3).toInt - e.theta| ≤ e.d1 + e.d2 + 1 := by
  rw [e.toInt_offset]
  have hcut := Int.mul_tdiv_add_tmod (2 * e.theta + e.d1 - e.d2) 2
  have hrest := Int.tmod_two_eq (2 * e.theta + e.d1 - e.d2)
  rcases abs_cases ((2 * e.theta + e.d1 - e.d2).tdiv 2 - e.theta) with ⟨habs, -⟩ | ⟨habs, -⟩ <;> rw [habs] <;> omega

/-- An answer that reaches either side for the request that left at `t0`. -/
structure Answers (m : SyncMachine) (s : m.State) (pl : List UInt8) (seq : UInt16) : Prop where
  resp : tsResp? pl pl.length = some ⟨seq, e.t1, e.t2⟩
  item : (m.lookup (m.sync s) seq).map HistItem.t0 = some e.t0

theorem Answers.step {e : Exchange} {m : SyncMachine} (hm : m.Lawful) {s : m.State} {pl : List UInt8} {seq : UInt16}
    (h : e.Answers m s pl seq) (now' : UInt64) :
    m.sync (m.step s (.payload e.t3 now' pl)) = (m.sync s).onResp e.t0 e.t1 e.t2 e.t3 := by
  obtain ⟨item, hitem, ht0⟩ := Option.map_eq_some_iff.mp h.item
  rw [hm.sync_step, m.coreStep_payload, h.resp, Option.bind_some, hitem, Option.map_some, Option.getD_some, ht0]

end Exchange

/-- Both sides compute the round trip of an exchange exactly and its offset within half of the round trip, and
    an answer they accept goes into the filter with this offset. -/
theorem exchange_within_half_rtt (m : SyncMachine) (hm : m = hostSync ∨ m = deviceSync) (e : Exchange) :
    (tsRtt e.t0 e.t1 e.t2 e.t3).toNat = e.d1 + e.d2 ∧
    2 * |(tsOffset e.t0 e.t1 e.t2 e.t3).toInt - e.theta| ≤ e.d1 + e.d2 + 1 ∧
    ∀ (s : m.State) (pl : List UInt8) (seq : UInt16) (now' : UInt64), e.Answers m s pl seq →
      (m.sync (m.step s (.payload e.t3 now' pl))).rttUsLast = UInt32.ofNat (e.d1 + e.d2) ∧
      (m.sync (m.step s (.payload e.t3 now' pl))).offsetUs =
        if (m.sync s).maxRttUs ≠ 0 ∧ e.d1 + e.d2 > (m.sync s).maxRttUs.toNat then (m.sync s).offsetUs
        else tsFilter (m.sync s).offsetUs (tsOffset e.t0 e.t1 e.t2 e.t3) := by
  have hlawful : m.Lawful := by
    rcases hm with rfl | rfl
    · exact hostSync_lawful
    · exact deviceSync_lawful
  refine ⟨e.rtt_eq, e.offset_near, fun s pl seq now' hanswers => ?_⟩
  have hlate : tsRtt e.t0 e.t1 e.t2 e.t3 > (m.sync s).maxRttUs.toUInt64 ↔
      e.d1 + e.d2 > (m.sync s).maxRttUs.toNat := by
    rw [gt_iff_lt, UInt64.lt_iff_toNat_lt, e.rtt_eq, UInt32.toNat_toUInt64]
  rw [hanswers.step hlawful now', TimeSync.onResp]
  dsimp only
  constructor
  · split_ifs <;> rw [← e.rtt_eq] <;> rfl
  · simp only [hlate]
    split_ifs <;> rfl

/-- A device that is behind by 1000001, with a slow way there. -/
def slowRequest : Exchange :=
  { theta := -1000001, d1 := 300, d2 := 100, p := 50
    t0 := 2000000, t1 := 1000299, t2 := 1000349, t3 := 2000450
    t1_eq := by decide, t2_eq := by decide, t3_eq := by decide
    t0_lt := by decide, t1_lt := by decide, t2_lt := by decide, t3_lt := by decide }

/-- The host measures -999901, which is off by 100 and a round trip of 400. -/
theorem slow_request_measured : ∃ s : TimeSync, s = hostSync.run (hostSync.init 1000 true 0)
      [.tick 2000000 2000000 true, .payload 2000450 2000450 (tsResp 0 1000299 1000349)] ∧
    s.rttUsLast = 400 ∧ (tsOffset 2000000 1000299 1000349 2000450).toInt = -999901 ∧
    2 * |(tsOffset 2000000 1000299 1000349 2000450).toInt - -1000001| ≤ 300 + 100 + 1 := by
  have hexchange := exchange_within_half_rtt hostSync (.inl rfl) slowRequest
  refine ⟨_, rfl, ?_, by decide, hexchange.2.1⟩
  exact (hexchange.2.2 (hostSync.run (hostSync.init 1000 true 0) [.tick 2000000 2000000 true])
    (tsResp 0 1000299 1000349) 0 2000450 ⟨by decide +kernel, by decide +kernel⟩).1

end SpVision
