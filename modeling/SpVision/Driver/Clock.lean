import SpVision.Driver.Session

set_option autoImplicit false

/-!
# Conversions between the clocks

The link copies the status of the time sync and converts with its own function. Where the
driver computes in floating point, the conversions here are exact.
-/
namespace SpVision

/-! ### The driver -/

namespace TimeSync

/-- `host_ns_to_device_us` in exact arithmetic. -/
def hostNsToDeviceUs (ts : TimeSync) (hostNs : UInt64) : Option UInt64 :=
  if ¬ ts.mappingValid then none
  else
    let devNs : ℤ := hostNs.toNat + 1000 * ts.offsetUs.toInt
    if devNs < 0 then none else some (UInt64.ofNat (devNs / 1000).toNat)

/-- `device_us_to_host_ns` in exact arithmetic. -/
def deviceUsToHostNs (ts : TimeSync) (deviceUs : UInt64) : Option UInt64 :=
  if ¬ ts.mappingValid then none
  else
    let hostUs : ℤ := deviceUs.toNat - ts.offsetUs.toInt
    if hostUs < 0 then none else some (UInt64.ofNat (1000 * hostUs).toNat)

end TimeSync

/-! ### The link -/

/-- The driver of a link and the status that `on_timesync` has copied. -/
structure LinkState where
  driver : DriverState := {}
  timesync : TimeSyncStatus := {}

namespace LinkState

def callbacks : DriverCallbacks := { onTimesync := true }

def step (cfg : DriverSettings) (l : LinkState) (input : DriverInput) : LinkState :=
  { driver := l.driver.step cfg callbacks input
    timesync := match input with
      | .frame clock data => (l.driver.onFrame cfg callbacks clock data).2.getD l.timesync
      | _ => l.timesync }

def run (cfg : DriverSettings) (inputs : List DriverInput) : LinkState := inputs.foldl (step cfg) {}

def deviceUsToHostUs (l : LinkState) (deviceTsUs : UInt64) : Option UInt64 :=
  if ¬ l.timesync.valid then none else some (deviceTsUs.toInt64 + l.timesync.offsetUs).toUInt64

/-- The link returns the host time that a device time was made from, and agrees with the driver. -/
structure Consistent (l : LinkState) (h : UInt64) : Prop where
  now : l.deviceUsToHostUs (l.driver.ts.nowDeviceUs h) = some h
  mapped : (l.driver.ts.hostNsToDeviceUs (1000 * h)).bind l.deviceUsToHostUs = some h
  agree : l.driver.ts.deviceUsToHostNs (l.driver.ts.nowDeviceUs h) =
    (l.deviceUsToHostUs (l.driver.ts.nowDeviceUs h)).map (1000 * ·)

/-- What the link holds of the time sync, and that the filter keeps the offset small. -/
structure Synced (l : LinkState) : Prop where
  valid : l.timesync.valid = l.driver.ts.mappingValid
  offset : l.timesync.offsetUs = l.driver.ts.offsetUs
  version : l.driver.tsVersionSeen = l.driver.ts.mappingVersion
  small : l.driver.ts.offsetUs.toInt.natAbs ≤ 2 ^ 60

end LinkState

theorem natAbs_tsFilter (offsetUs raw : Int64) : (tsFilter offsetUs raw).toInt.natAbs ≤ 2 ^ 60 := by
  have hlow := (offsetUs * 9 + raw).le_toInt
  have hhigh := (offsetUs * 9 + raw).toInt_lt
  have hten : (10 : Int64).toInt = 10 := by decide
  rw [tsFilter, Int64.toInt_div_of_ne_right _ _ (by decide), hten, Int.natAbs_tdiv]
  have hnum : (offsetUs * 9 + raw).toInt.natAbs ≤ 2 ^ 63 := by omega
  exact (Nat.div_le_div_right hnum).trans (by decide)

theorem TimeSync.onMux_mapping (ts : TimeSync) (now now' : UInt64) (pl : List UInt8) (len : ℕ) :
    ((ts.onMux now now' pl len).1.mappingVersion = ts.mappingVersion ∧
      (ts.onMux now now' pl len).1.offsetUs = ts.offsetUs ∧
      (ts.onMux now now' pl len).1.mappingValid = ts.mappingValid) ∨
    (ts.onMux now now' pl len).1.mappingVersion = ts.mappingVersion + 1 ∧
      ∃ raw, (ts.onMux now now' pl len).1.offsetUs = tsFilter ts.offsetUs raw := by
  cases hresp : tsResp? pl len with
  | none =>
    rw [ts.onMux_of_none now now' hresp]
    exact .inl ⟨rfl, rfl, rfl⟩
  | some resp =>
    rw [ts.onMux_of_some now now' hresp]
    split_ifs with hzero
    · exact .inl ⟨rfl, rfl, rfl⟩
    · unfold onResp
      dsimp only
      split_ifs
      · exact .inl ⟨rfl, rfl, rfl⟩
      · exact .inr ⟨rfl, _, rfl⟩

namespace LinkState

variable {cfg : DriverSettings} {l : LinkState}

theorem Synced.onTimesyncMux (h : l.Synced) (clock : MuxClock) (pl : List UInt8) :
    Synced ⟨(l.driver.onTimesyncMux callbacks clock pl).1,
      (l.driver.onTimesyncMux callbacks clock pl).2.getD l.timesync⟩ := by
  unfold DriverState.onTimesyncMux
  dsimp only
  rcases l.driver.ts.onMux_mapping clock.nowUs clock.nowUs' pl pl.length with
    ⟨hversion, hoffset, hvalid⟩ | ⟨hversion, raw, hoffset⟩
  · have hseen : ¬ (callbacks.onTimesync = true ∧
        (l.driver.ts.onMux clock.nowUs clock.nowUs' pl pl.length).1.mappingVersion ≠ l.driver.tsVersionSeen) := by
      rw [hversion, h.version]
      exact fun hne => hne.2 rfl
    rw [if_neg hseen]
    exact ⟨h.valid.trans hvalid.symm, h.offset.trans hoffset.symm, h.version.trans hversion.symm,
      by rw [hoffset]; exact h.small⟩
  · have hseen : callbacks.onTimesync = true ∧
        (l.driver.ts.onMux clock.nowUs clock.nowUs' pl pl.length).1.mappingVersion ≠ l.driver.tsVersionSeen := by
      rw [hversion, h.version]
      exact ⟨rfl, by simp⟩
    rw [if_pos hseen]
    exact ⟨rfl, rfl, rfl, by rw [hoffset]; exact natAbs_tsFilter _ _⟩

theorem Synced.step (h : l.Synced) (input : DriverInput) : (l.step cfg input).Synced := by
  cases input with
  | connect ok =>
    cases ok
    · exact h
    · exact ⟨h.valid, h.offset, h.version, h.small⟩
  | close => exact ⟨h.valid, h.offset, h.version, h.small⟩
  | tick now t0 sent =>
    have hts : (l.step cfg (.tick now t0 sent)).driver.tsVersionSeen = l.driver.tsVersionSeen ∧
        (l.step cfg (.tick now t0 sent)).driver.ts.mappingVersion = l.driver.ts.mappingVersion ∧
        (l.step cfg (.tick now t0 sent)).driver.ts.offsetUs = l.driver.ts.offsetUs ∧
        (l.step cfg (.tick now t0 sent)).driver.ts.mappingValid = l.driver.ts.mappingValid := by
      change (l.driver.driverTick cfg now t0).tsVersionSeen = _ ∧ (l.driver.driverTick cfg now t0).ts.mappingVersion = _ ∧
        (l.driver.driverTick cfg now t0).ts.offsetUs = _ ∧ (l.driver.driverTick cfg now t0).ts.mappingValid = _
      unfold DriverState.driverTick
      rw [TimeSync.tick_eq]
      split_ifs <;> exact ⟨rfl, rfl, rfl, rfl⟩
    obtain ⟨hseen, hversion, hoffset, hvalid⟩ := hts
    exact ⟨h.valid.trans hvalid.symm, h.offset.trans hoffset.symm, hseen.trans (h.version.trans hversion.symm),
      by rw [hoffset]; exact h.small⟩
  | frame clock data =>
    change Synced ⟨(l.driver.onFrame cfg callbacks clock data).1,
      (l.driver.onFrame cfg callbacks clock data).2.getD l.timesync⟩
    rcases l.driver.onFrame_cases clock data with ⟨hts, hseen, hnone⟩ | ⟨pl, hframe⟩
    · rw [hnone]
      exact ⟨by rw [hts]; exact h.valid, by rw [hts]; exact h.offset, by rw [hts, hseen]; exact h.version,
        by rw [hts]; exact h.small⟩
    · rw [hframe]
      exact h.onTimesyncMux clock pl

theorem synced_run (inputs : List DriverInput) : (run cfg inputs).Synced := by
  induction inputs using List.reverseRecOn with
  | nil => exact ⟨rfl, rfl, rfl, Nat.zero_le _⟩
  | append_singleton inputs input ih =>
    rw [run, List.foldl_append]
    exact ih.step input

end LinkState

/-! ### The two directions -/

theorem add_self_eq_zero_iff_of_small {offset : Int64} (hsmall : offset.toInt.natAbs ≤ 2 ^ 60) :
    offset + offset = 0 ↔ offset = 0 := by
  constructor
  · intro h
    have htwice := congrArg Int64.toInt h
    rw [Int64.toInt_add, Int.bmod_eq_of_le (by omega) (by omega)] at htwice
    apply Int64.toInt_inj.mp
    have hzero : (0 : Int64).toInt = 0 := by decide
    omega
  · rintro rfl
    decide

/-- The link converts back exactly with an offset of 0: it adds the offset, as the stamping does. -/
theorem device_us_to_host_us_inverse_iff (cfg : DriverSettings) (inputs : List DriverInput)
    (hvalid : (LinkState.run cfg inputs).timesync.valid = true) (h : UInt64) (hrange : 1000 * h.toNat < 2 ^ 64) :
    (LinkState.run cfg inputs).Consistent h ↔ (LinkState.run cfg inputs).timesync.offsetUs = 0 := by
  have hsynced : (LinkState.run cfg inputs).Synced := LinkState.synced_run inputs
  generalize LinkState.run cfg inputs = l at hvalid hsynced ⊢
  have hmapping : l.driver.ts.mappingValid = true := hsynced.valid.symm.trans hvalid
  have hsmall := hsynced.small
  rw [← hsynced.offset] at hsmall
  have hnow : l.driver.ts.nowDeviceUs h = (h.toInt64 + l.timesync.offsetUs).toUInt64 := by
    rw [TimeSync.nowDeviceUs, if_neg (not_not.mpr hmapping), hsynced.offset]
  have hback (d : UInt64) : l.deviceUsToHostUs d = some (d.toInt64 + l.timesync.offsetUs).toUInt64 :=
    if_neg (not_not.mpr hvalid)
  constructor
  · intro hconsistent
    have hinverse := hconsistent.now
    rw [hnow, hback, Option.some.injEq, Int64.toInt64_toUInt64, Int64.add_assoc] at hinverse
    have hsum := congrArg UInt64.toInt64 hinverse
    rw [Int64.toInt64_toUInt64] at hsum
    exact (add_self_eq_zero_iff_of_small hsmall).mp
      ((Int64.add_right_inj h.toInt64).mp (hsum.trans (Int64.add_zero h.toInt64).symm))
  · intro hzero
    have hoffset : l.driver.ts.offsetUs.toInt = 0 := by
      rw [← hsynced.offset, hzero]
      rfl
    have hsame (d : UInt64) : (d.toInt64 + l.timesync.offsetUs).toUInt64 = d := by
      rw [hzero, Int64.add_zero, UInt64.toUInt64_toInt64]
    have hthousand : (1000 * h).toNat = 1000 * h.toNat := by
      rw [UInt64.toNat_mul]
      exact Nat.mod_eq_of_lt hrange
    have hdevice : l.driver.ts.hostNsToDeviceUs (1000 * h) = some h := by
      unfold TimeSync.hostNsToDeviceUs
      dsimp only
      rw [if_neg (not_not.mpr hmapping), hoffset, hthousand, if_neg (by omega), Option.some.injEq]
      have hdiv : ((1000 * h.toNat : ℕ) + 1000 * 0 : ℤ) / 1000 = h.toNat := by omega
      rw [hdiv, Int.toNat_natCast, UInt64.ofNat_toNat]
    have hhost : l.driver.ts.deviceUsToHostNs h = some (1000 * h) := by
      unfold TimeSync.deviceUsToHostNs
      dsimp only
      rw [if_neg (not_not.mpr hmapping), hoffset, sub_zero, if_neg (by omega), Option.some.injEq]
      apply UInt64.toNat_inj.mp
      rw [hthousand, UInt64.toNat_ofNat']
      omega
    constructor
    · rw [hnow, hback, hsame, hsame]
    · rw [hdevice, Option.bind_some, hback, hsame]
    · rw [hnow, hsame, hback, hsame, hhost, Option.map_some]

/-- The clocks differ by 1000 in the first sample, and the link is off by twice the filtered offset. -/
theorem device_us_to_host_us_off : ¬ ∀ inputs h, (LinkState.run {} inputs).timesync.valid = true →
    1000 * h.toNat < 2 ^ 64 → (LinkState.run {} inputs).Consistent h := by
  intro hall
  have hconsistent := hall [.connect true, .tick 2000000 2000000 true,
    .frame ⟨2000000000, 2000000, 2000000⟩ (respFrame 0 2001000 2001000)] 5000000 (by decide +kernel) (by decide)
  have hnow := hconsistent.now
  revert hnow
  decide +kernel

/-- With equal clocks the link is exact. -/
theorem device_us_to_host_us_equal_clocks : ∃ inputs, (LinkState.run {} inputs).timesync.valid = true ∧
    (LinkState.run {} inputs).Consistent 5000000 := by
  have hvalid : (LinkState.run {} [.connect true, .tick 2000000 2000000 true,
      .frame ⟨2000400000, 2000400, 2000400⟩ (respFrame 0 2000200 2000200)]).timesync.valid = true := by
    decide +kernel
  exact ⟨_, hvalid, (device_us_to_host_us_inverse_iff {} _ hvalid 5000000 (by decide)).mpr (by decide +kernel)⟩

end SpVision
