import SpVision.Library.Smoothing
import SpVision.Sync.Runs

set_option autoImplicit false

/-!
# The filtered offset and the samples behind it

The filter starts at 0 and not at the first sample.
-/
namespace SpVision
open Smoothing

theorem toInt_tsFilter {offsetUs raw : Int64} (hlow : -2 ^ 63 ≤ 9 * offsetUs.toInt + raw.toInt)
    (hhigh : 9 * offsetUs.toInt + raw.toInt < 2 ^ 63) :
    (tsFilter offsetUs raw).toInt = smooth 9 offsetUs.toInt raw.toInt := by
  have hsum : (offsetUs * 9 + raw).toInt = 9 * offsetUs.toInt + raw.toInt := by
    have hnine : (9 : Int64).toInt = 9 := by decide
    rw [Int64.toInt_add, Int64.toInt_mul, hnine, Int.bmod_add_bmod, mul_comm]
    exact Int.bmod_eq_of_le hlow hhigh
  rw [tsFilter, Int64.toInt_div_of_ne_right _ _ (by decide), hsum]
  rfl

namespace SyncMachine

variable (m : SyncMachine)

/-- The raw offset of a RESP that is accepted. -/
def sample (ts : TimeSync) : SyncInput → List Int64
  | .tick _ _ _ => []
  | .payload now _ pl =>
    ((tsResp? pl pl.length).bind fun resp => (m.lookup ts resp.seq).bind fun item =>
      if ts.maxRttUs ≠ 0 ∧ tsRtt item.t0 resp.t1 resp.t2 now > ts.maxRttUs.toUInt64 then none
      else some (tsOffset item.t0 resp.t1 resp.t2 now)).toList

/-- The raw offsets of the RESPs accepted in a run, in order. -/
def samples (s : m.State) (inputs : List SyncInput) : List Int64 := m.collect m.sample s inputs

theorem samples_head?_append (s : m.State) (pre rest : List SyncInput) {raw : Int64}
    (h : (m.samples s pre).head? = some raw) : (m.samples s (pre ++ rest)).head? = some raw := by
  rw [samples, m.collect_append, List.head?_append, ← samples, h]
  rfl

/-- The filter does not overflow on the sample of a call, if there is one. -/
def Exact (ts : TimeSync) (input : SyncInput) : Prop :=
  ∀ raw ∈ m.sample ts input, -2 ^ 63 ≤ 9 * ts.offsetUs.toInt + raw.toInt ∧ 9 * ts.offsetUs.toInt + raw.toInt < 2 ^ 63

theorem sample_of_unmatched {ts : TimeSync} {input : SyncInput} (h : m.matched? ts input = none) :
    m.sample ts input = [] := by
  cases input with
  | tick now t0 sent => rfl
  | payload now now' pl =>
    rw [matched?, Option.bind_eq_none_iff] at h
    unfold sample
    dsimp only
    cases hresp : tsResp? pl pl.length with
    | none => rfl
    | some resp =>
      rw [Option.bind_some, h resp hresp]
      rfl

theorem coreStep_sample (ts : TimeSync) (input : SyncInput) :
    (m.sample ts input = [] ∧ (m.coreStep ts input).offsetUs = ts.offsetUs ∧
      (m.coreStep ts input).mappingValid = ts.mappingValid) ∨
    ∃ raw, m.sample ts input = [raw] ∧ (m.coreStep ts input).offsetUs = tsFilter ts.offsetUs raw ∧
      (m.coreStep ts input).mappingValid = true := by
  cases input with
  | tick now t0 sent =>
    left
    unfold coreStep sample
    dsimp only
    split_ifs <;> exact ⟨rfl, rfl, rfl⟩
  | payload now now' pl =>
    rcases m.payload_cases ts now now' pl with ⟨hunmatched, hstep⟩ | ⟨resp, item, hresp, hlookup, hstep⟩ <;> rw [hstep]
    · exact .inl ⟨m.sample_of_unmatched hunmatched, rfl, rfl⟩
    · unfold sample TimeSync.onResp
      dsimp only
      rw [hresp, Option.bind_some, hlookup, Option.bind_some]
      split_ifs with hlate
      · exact .inl ⟨rfl, rfl, rfl⟩
      · exact .inr ⟨_, rfl, rfl, rfl⟩

/-- The state after a run against its samples. -/
structure Sampled (ts : TimeSync) (raws : List Int64) : Prop where
  valid : ts.mappingValid = true ↔ raws ≠ []
  start : raws = [] → ts.offsetUs = 0
  hull : (∀ raw, raws.head? = some raw → -1 ≤ raw.toInt ∧ raw.toInt ≤ 1) → raws ≠ [] →
    InHull (raws.map Int64.toInt) ts.offsetUs.toInt

variable {m}

theorem Sampled.coreStep {ts : TimeSync} {raws : List Int64} (h : Sampled ts raws) {input : SyncInput}
    (hexact : m.Exact ts input) : Sampled (m.coreStep ts input) (raws ++ m.sample ts input) := by
  rcases m.coreStep_sample ts input with ⟨hsample, hoffset, hvalid⟩ | ⟨raw, hsample, hoffset, hvalid⟩
  · rw [hsample, List.append_nil]
    refine ⟨hvalid ▸ h.valid, fun hraws => hoffset.trans (h.start hraws), ?_⟩
    rw [hoffset]
    exact h.hull
  · obtain ⟨hlow, hhigh⟩ := hexact raw (hsample ▸ List.mem_singleton_self raw)
    rw [hsample]
    refine ⟨by simp [hvalid], by simp, fun hfirst _ => ?_⟩
    rw [hoffset, toInt_tsFilter hlow hhigh, List.map_append]
    rcases raws with - | ⟨first, raws⟩
    · rw [h.start rfl]
      exact (inHull_first_iff (by decide) raw.toInt).mpr (hfirst raw rfl)
    · exact (h.hull (fun raw' hraw' => hfirst raw' hraw') (List.cons_ne_nil _ _)).smooth (by decide) raw.toInt

section Run

variable (hm : m.Lawful) (periodMs : UInt32) (initiator : Bool) (maxRttUs : UInt32)
include hm

theorem Lawful.run_sampled (inputs : List SyncInput)
    (hexact : ∀ pre post input, inputs = pre ++ input :: post →
      m.Exact (m.sync (m.run (m.init periodMs initiator maxRttUs) pre)) input) :
    Sampled (m.sync (m.run (m.init periodMs initiator maxRttUs) inputs))
      (m.samples (m.init periodMs initiator maxRttUs) inputs) := by
  induction inputs using List.reverseRecOn with
  | nil =>
    obtain ⟨-, -, hoffset, hvalid⟩ := hm.sync_init periodMs initiator maxRttUs
    exact ⟨by simp [run, samples, collect, hvalid], fun _ => hoffset, fun _ hne => absurd rfl hne⟩
  | append_singleton inputs input ih =>
    rw [samples, m.collect_append_singleton, m.run_append_singleton, hm.sync_step]
    refine Sampled.coreStep (ih fun pre post input' hsplit => ?_) (hexact inputs [] input rfl)
    exact hexact pre (post ++ [input]) input' (by rw [hsplit, List.append_assoc, List.cons_append])

/-- The first accepted sample of a run whose states all lie in the hull is next to 0. -/
theorem Lawful.first_sample_near (inputs : List SyncInput)
    (hhull : ∀ pre, pre <+: inputs → (m.sync (m.run (m.init periodMs initiator maxRttUs) pre)).mappingValid = true →
      InHull ((m.samples (m.init periodMs initiator maxRttUs) pre).map Int64.toInt)
        (m.sync (m.run (m.init periodMs initiator maxRttUs) pre)).offsetUs.toInt) :
    (m.samples (m.init periodMs initiator maxRttUs) inputs = [] →
      (m.sync (m.run (m.init periodMs initiator maxRttUs) inputs)).offsetUs = 0) ∧
    ∀ raw, (m.samples (m.init periodMs initiator maxRttUs) inputs).head? = some raw →
      -1 ≤ raw.toInt ∧ raw.toInt ≤ 1 := by
  induction inputs using List.reverseRecOn with
  | nil =>
    obtain ⟨-, -, hoffset, -⟩ := hm.sync_init periodMs initiator maxRttUs
    refine ⟨fun _ => hoffset, fun raw hraw => ?_⟩
    cases hraw
  | append_singleton inputs input ih =>
    obtain ⟨hstart, hfirst⟩ := ih fun pre hpre => hhull pre (hpre.trans (List.prefix_append inputs [input]))
    have hlast := hhull _ (List.prefix_refl _)
    rw [samples, m.collect_append_singleton, m.run_append_singleton, hm.sync_step] at hlast ⊢
    change (m.samples _ inputs ++ _ = [] → _) ∧ ∀ raw, (m.samples _ inputs ++ _).head? = some raw → _
    change _ → InHull ((m.samples _ inputs ++ _).map Int64.toInt) _ at hlast
    generalize m.samples (m.init periodMs initiator maxRttUs) inputs = raws at *
    rcases raws with - | ⟨first, raws⟩
    · rcases m.coreStep_sample (m.sync (m.run (m.init periodMs initiator maxRttUs) inputs)) input with
        ⟨hsample, hoffset, hvalid⟩ | ⟨raw, hsample, hoffset, hvalid⟩
      · rw [hsample]
        refine ⟨fun _ => hoffset.trans (hstart rfl), fun raw hraw => ?_⟩
        cases hraw
      · rw [hsample, hoffset, hstart rfl] at hlast
        rw [hsample]
        refine ⟨fun h => absurd h (by simp), fun raw' hraw => ?_⟩
        cases hraw
        have hlow := raw.le_toInt
        have hhigh := raw.toInt_lt
        rw [toInt_tsFilter (by simpa using hlow) (by simpa using hhigh)] at hlast
        exact (inHull_first_iff (by decide) raw.toInt).mp (hlast hvalid)
    · exact ⟨fun h => absurd h (by simp), fun raw hraw => hfirst raw hraw⟩

end Run

/-- In every state of every run with a valid mapping the offset lies in the hull of the samples. -/
def AlwaysBacked (m : SyncMachine) : Prop :=
  ∀ (periodMs : UInt32) (initiator : Bool) (maxRttUs : UInt32) (inputs : List SyncInput),
    (m.sync (m.run (m.init periodMs initiator maxRttUs) inputs)).mappingValid = true →
      InHull ((m.samples (m.init periodMs initiator maxRttUs) inputs).map Int64.toInt)
        (m.sync (m.run (m.init periodMs initiator maxRttUs) inputs)).offsetUs.toInt

end SyncMachine

/-- The offset of either side lies in the hull of its samples in all states of a run whose sums do not
    overflow exactly if the first sample accepted in it is next to 0, where the filter starts. -/
theorem offset_backed_iff (m : SyncMachine) (hm : m = hostSync ∨ m = deviceSync) (periodMs : UInt32)
    (initiator : Bool) (maxRttUs : UInt32) (inputs : List SyncInput)
    (hexact : ∀ pre post input, inputs = pre ++ input :: post →
      m.Exact (m.sync (m.run (m.init periodMs initiator maxRttUs) pre)) input) :
    (∀ pre, pre <+: inputs →
      (m.sync (m.run (m.init periodMs initiator maxRttUs) pre)).mappingValid = true →
        InHull ((m.samples (m.init periodMs initiator maxRttUs) pre).map Int64.toInt)
          (m.sync (m.run (m.init periodMs initiator maxRttUs) pre)).offsetUs.toInt) ↔
      ∀ raw, (m.samples (m.init periodMs initiator maxRttUs) inputs).head? = some raw →
        -1 ≤ raw.toInt ∧ raw.toInt ≤ 1 := by
  have hlawful : m.Lawful := by
    rcases hm with rfl | rfl
    · exact hostSync_lawful
    · exact deviceSync_lawful
  constructor
  · intro hhull
    exact (hlawful.first_sample_near periodMs initiator maxRttUs inputs hhull).2
  · rintro hfirst pre ⟨rest, rfl⟩ hvalid
    have hsampled := hlawful.run_sampled periodMs initiator maxRttUs pre fun pre' post input hsplit =>
      hexact pre' (post ++ rest) input (by rw [hsplit, List.append_assoc, List.cons_append])
    refine hsampled.hull (fun raw hraw => hfirst raw ?_) (hsampled.valid.mp hvalid)
    exact m.samples_head?_append _ pre rest hraw

/-- A request and its answer with clocks that differ by 1000. -/
def firstAnswer : List SyncInput :=
  [.tick 2000000 2000000 true, .payload 2000000 2000000 (tsResp 0 2001000 2001000)]

/-- The offset is 100 after a first sample of 1000. -/
theorem first_answer_not_backed : ¬ hostSync.AlwaysBacked ∧ ¬ deviceSync.AlwaysBacked := by
  constructor
  · intro h
    obtain ⟨⟨a, ha, hlow⟩, -⟩ := h 1000 true 0 firstAnswer (by decide +kernel)
    have hsamples : (hostSync.samples (hostSync.init 1000 true 0) firstAnswer).map Int64.toInt = [1000] := by
      decide +kernel
    have hoffset : (hostSync.sync (hostSync.run (hostSync.init 1000 true 0) firstAnswer)).offsetUs.toInt = 100 := by
      decide +kernel
    rw [hsamples, List.mem_singleton] at ha
    omega
  · intro h
    obtain ⟨⟨a, ha, hlow⟩, -⟩ := h 1000 true 0 firstAnswer (by decide +kernel)
    have hsamples : (deviceSync.samples (deviceSync.init 1000 true 0) firstAnswer).map Int64.toInt = [1000] := by
      decide +kernel
    have hoffset : (deviceSync.sync (deviceSync.run (deviceSync.init 1000 true 0) firstAnswer)).offsetUs.toInt =
        100 := by
      decide +kernel
    rw [hsamples, List.mem_singleton] at ha
    omega

/-- Between clocks that agree the offset stays in the hull. -/
theorem equal_clocks_backed : ∃ inputs, inputs = [.tick 2000000 2000000 true,
      .payload 2000400 2000400 (tsResp 0 2000200 2000200)] ∧
    InHull ((hostSync.samples (hostSync.init 1000 true 0) inputs).map Int64.toInt)
      (hostSync.sync (hostSync.run (hostSync.init 1000 true 0) inputs)).offsetUs.toInt := by
  refine ⟨_, rfl, (offset_backed_iff hostSync (.inl rfl) 1000 true 0 _ ?_).mpr ?_ _ (List.prefix_refl _)
    (by decide +kernel)⟩
  · intro pre post input hsplit
    rcases pre with - | ⟨first, - | ⟨second, pre⟩⟩
    · obtain ⟨rfl, -⟩ := List.cons.inj hsplit
      intro raw hraw
      cases hraw
    · obtain ⟨rfl, hrest⟩ := List.cons.inj hsplit
      obtain ⟨rfl, -⟩ := List.cons.inj hrest
      have hsample : hostSync.sample
          (hostSync.sync (hostSync.run (hostSync.init 1000 true 0) [.tick 2000000 2000000 true]))
          (.payload 2000400 2000400 (tsResp 0 2000200 2000200)) = [0] := by
        decide +kernel
      have hoffset : (hostSync.sync (hostSync.run (hostSync.init 1000 true 0)
          [.tick 2000000 2000000 true])).offsetUs = 0 := by
        decide +kernel
      intro raw hraw
      rw [hsample, List.mem_singleton] at hraw
      rw [hraw, hoffset]
      decide
    · have hlen := congrArg List.length hsplit
      simp only [List.length_cons, List.length_append, List.length_nil] at hlen
      omega
  · have hsamples : (hostSync.samples (hostSync.init 1000 true 0) [.tick 2000000 2000000 true,
        .payload 2000400 2000400 (tsResp 0 2000200 2000200)]) = [0] := by
      decide +kernel
    intro raw hraw
    rw [hsamples] at hraw
    cases hraw
    decide

end SpVision
