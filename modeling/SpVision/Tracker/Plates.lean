import Mathlib.Data.Option.NAry
import SpVision.Library.ComparisonSort
import SpVision.Tools.Spherical
import SpVision.Tracker.StateVector

set_option autoImplicit false

/-!
# The plates of a target

An update looks for the plate that an armor is. The accesses to the lists of plates are checked
here, and the number of the plate is none until it is assigned. The numbers that it compares may be
NaN, which is `none` and goes through every operation, and no comparison with it holds.
-/
namespace SpVision

/-- What `Target` uses of the filter, of `<cmath>` and of a solved armor. -/
structure TargetFilter (β ξ K : Type) where
  init : Armor β → ℚ → List ℚ → ξ
  predict : ArmorName → TargetEstimate ξ → ℤ → ξ
  /-- `ekf_.x` -/
  ekfX : ξ → Fin 11 → Option K
  math : Cmath K
  updateYpda : ξ → ℕ → Armor β → ℕ → ξ
  /-- `ypr_in_world[0]` -/
  armorYaw : Armor β → Option K
  /-- `ypd_in_world[0]` -/
  armorAzimuth : Armor β → Option K

/-- The operator `<` on doubles. -/
def nanLt {K : Type} [LT K] [DecidableLT K] : Option K → Option K → Bool
  | some a, some b => a < b
  | _, _ => false

namespace TargetFilter

variable {β ξ K : Type}

/-- The constructor of `Target`. -/
def construct (f : TargetFilter β ξ K) (armor : Armor β) (t : ℤ) (setup : TargetSetup) : TargetEstimate ξ :=
  { armorNum := setup.armorNum, ekf := f.init armor setup.radius setup.p0Dig, t := t }

section Match

variable [Field K] [LinearOrder K] [IsStrictOrderedRing K] [FloorRing K] (f : TargetFilter β ξ K)

/-- The angle of a plate; the loops of `limit_rad` end at once on NaN. -/
def plateAngle (est : TargetEstimate ξ) (id : ℕ) : Option K :=
  (f.ekfX est.ekf 6).map fun a => limitRad (cvPi K) (a + (id * 2 : ℕ) * (cvPi K).val / est.armorNum)

/-- The radius to a plate. -/
def plateRadius (est : TargetEstimate ξ) (id : ℕ) : Option K :=
  if est.armorNum = 4 ∧ (id = 1 ∨ id = 3) then Option.map₂ (· + ·) (f.ekfX est.ekf 8) (f.ekfX est.ekf 9)
  else f.ekfX est.ekf 8

/-- `Target::h_armor_xyz` -/
def hArmorXyz (est : TargetEstimate ξ) (id : ℕ) : Option K × Option K × Option K :=
  let x := f.ekfX est.ekf
  let angle := f.plateAngle est id
  let r := f.plateRadius est id
  (Option.map₂ (· - ·) (x 0) (Option.map₂ (· * ·) r (angle.map f.math.cos)),
    Option.map₂ (· - ·) (x 2) (Option.map₂ (· * ·) r (angle.map f.math.sin)),
    if est.armorNum = 4 ∧ (id = 1 ∨ id = 3) then Option.map₂ (· + ·) (x 4) (x 10) else x 4)

def armorXyzaList (est : TargetEstimate ξ) : List ((Option K × Option K × Option K) × Option K) :=
  (List.range est.armorNum).map fun i => (f.hArmorXyz est i, f.plateAngle est i)

/-- `xyza_i_list` before it is sorted. -/
def xyzaIList? (est : TargetEstimate ξ) : Option (List (((Option K × Option K × Option K) × Option K) × ℕ)) :=
  (List.range est.armorNum).mapM fun i => ((f.armorXyzaList est)[i]?).map fun xyza => (xyza, i)

/-- The first entry of `tools::xyz2ypd`. -/
def azimuth (xyz : Option K × Option K × Option K) : Option K := Option.map₂ f.math.atan2 xyz.2.1 xyz.1

/-- The last entry of `tools::xyz2ypd`. -/
def distance (xyz : Option K × Option K × Option K) : Option K :=
  let square (a : Option K) : Option K := Option.map₂ (· * ·) a a
  (Option.map₂ (· + ·) (Option.map₂ (· + ·) (square xyz.1) (square xyz.2.1)) (square xyz.2.2)).map f.math.sqrt

/-- What the sort compares by. -/
def nearer (a b : ((Option K × Option K × Option K) × Option K) × ℕ) : Bool :=
  nanLt (f.distance a.1.1) (f.distance b.1.1)

def angleError (armor : Armor β) (xyza : (Option K × Option K × Option K) × Option K) : Option K :=
  Option.map₂ (fun yaw azimuth => |limitRad (cvPi K) yaw| + |limitRad (cvPi K) azimuth|)
    (Option.map₂ (· - ·) (f.armorYaw armor) xyza.2)
    (Option.map₂ (· - ·) (f.armorAzimuth armor) (f.azimuth xyza.1))

/-- The body of the loop over the nearest plates, with `id` and `min_angle_error`. -/
def matchPlate (armor : Armor β) (best : Option ℕ × K)
    (entry : ((Option K × Option K × Option K) × Option K) × ℕ) : Option ℕ × K :=
  match f.angleError armor entry.1 with
  | none => best
  | some angleError => if |angleError| < |best.2| then (some entry.2, angleError) else best

/-- A turn of the loop. -/
def matchTurn? (armor : Armor β) (sorted : List (((Option K × Option K × Option K) × Option K) × ℕ))
    (best : Option ℕ × K) (i : ℕ) : Option (Option ℕ × K) := (sorted[i]?).map (f.matchPlate armor best)

/-- The matching part of `Target::update`. -/
def matchId? (sort : ComparisonSort) (est : TargetEstimate ξ) (armor : Armor β) : Option ℕ := do
  let xyzaIList ← f.xyzaIList? est
  let sorted ← sort.sort? f.nearer xyzaIList
  let best ← [0, 1, 2].foldlM (f.matchTurn? armor sorted) (none, (10 ^ 10 : ℕ))
  best.1

/-- `Target::update` -/
def update? (sort : ComparisonSort) (est : TargetEstimate ξ) (armor : Armor β) : Option (TargetEstimate ξ) :=
  (f.matchId? sort est armor).map fun id =>
    { est with
      jumped := est.jumped || id ≠ 0
      isSwitch := id ≠ est.lastId
      switchCount := if id ≠ est.lastId then est.switchCount + 1 else est.switchCount
      lastId := id
      updateCount := est.updateCount + 1
      ekf := f.updateYpda est.ekf est.armorNum armor id }

/-- Of the state and the armor the matching reads no NaN where every plate needs it, and the plates can be sorted:
    by their distances, where NaN is neither nearer nor farther than a number. -/
structure Readable (est : TargetEstimate ξ) (armor : Armor β) : Prop where
  yaw : (f.armorYaw armor).isSome
  azimuth : (f.armorAzimuth armor).isSome
  state : ∀ i : Fin 11, i = 0 ∨ i = 2 ∨ i = 6 ∨ i = 8 → (f.ekfX est.ekf i).isSome
  sortable : StrictWeakOn (List.range est.armorNum) fun i j =>
    nanLt (f.distance (f.hArmorXyz est i)) (f.distance (f.hArmorXyz est j))

/-! ### The lists -/

/-- The entry of a plate. -/
def entry (est : TargetEstimate ξ) (i : ℕ) : ((Option K × Option K × Option K) × Option K) × ℕ :=
  ((f.hArmorXyz est i, f.plateAngle est i), i)

theorem xyzaIList?_eq (est : TargetEstimate ξ) :
    f.xyzaIList? est = some ((List.range est.armorNum).map (f.entry est)) := by
  have hmap : ∀ places : List ℕ, (∀ i ∈ places, i < est.armorNum) →
      (places.mapM fun i => ((f.armorXyzaList est)[i]?).map fun xyza => (xyza, i)) =
        some (places.map (f.entry est)) := by
    intro places hplaces
    induction places with
    | nil => rfl
    | cons i places ih =>
      have hi : i < (List.range est.armorNum).length := by
        rw [List.length_range]
        exact hplaces i (List.mem_cons_self ..)
      rw [List.mapM_cons, ih fun j hj => hplaces j (List.mem_cons_of_mem i hj), armorXyzaList, List.getElem?_map,
        List.getElem?_eq_getElem hi, List.getElem_range]
      rfl
  exact hmap _ fun i hi => List.mem_range.mp hi

/-- The loop runs over the sorted entries of the plates, if they can be sorted. -/
theorem matchId?_eq_some {sort : ComparisonSort} {est : TargetEstimate ξ} {armor : Armor β} {id : ℕ}
    (h : f.matchId? sort est armor = some id) :
    ∃ sorted, sort.sort? f.nearer ((List.range est.armorNum).map (f.entry est)) = some sorted ∧
      ∃ best, [0, 1, 2].foldlM (f.matchTurn? armor sorted) (none, (10 ^ 10 : ℕ)) = some best ∧ best.1 = some id := by
  rw [matchId?, xyzaIList?_eq, Option.bind_eq_bind, Option.bind_some] at h
  obtain ⟨sorted, hsorted, h⟩ := Option.bind_eq_some_iff.mp h
  obtain ⟨best, hbest, h⟩ := Option.bind_eq_some_iff.mp h
  exact ⟨sorted, hsorted, best, hbest, h⟩

/-! ### NaN -/

theorem isSome_map₂ {α α' γ : Type} (op : α → α' → γ) (a : Option α) (b : Option α') :
    (Option.map₂ op a b).isSome ↔ a.isSome ∧ b.isSome := by
  cases a <;> cases b <;> simp

/-- The error of a plate is a number if those are that it is made of. -/
theorem angleError_isSome_iff (est : TargetEstimate ξ) (armor : Armor β) (i : ℕ) :
    (f.angleError armor (f.entry est i).1).isSome ↔
      (f.armorYaw armor).isSome ∧ (f.armorAzimuth armor).isSome ∧ (f.ekfX est.ekf 0).isSome ∧
        (f.ekfX est.ekf 2).isSome ∧ (f.ekfX est.ekf 6).isSome ∧ (f.plateRadius est i).isSome := by
  simp only [angleError, entry, azimuth, hArmorXyz, plateAngle, isSome_map₂, Option.isSome_map]
  tauto

theorem Readable.angleError {f : TargetFilter β ξ K} {est : TargetEstimate ξ} {armor : Armor β}
    (h : f.Readable est armor) {i : ℕ} (hi : ¬ (est.armorNum = 4 ∧ (i = 1 ∨ i = 3))) :
    (f.angleError armor (f.entry est i).1).isSome := by
  refine (f.angleError_isSome_iff est armor i).mpr ⟨h.yaw, h.azimuth, h.state 0 (by simp), h.state 2 (by simp),
    h.state 6 (by simp), ?_⟩
  rw [plateRadius, if_neg hi]
  exact h.state 8 (by simp)

/-- On numbers the plates are those that the filter measures. -/
theorem hArmorXyz_of_numbers {est : TargetEstimate ξ} {x : StateVector K} (hx : f.ekfX est.ekf = fun i => some (x i))
    (id : ℕ) :
    let xyz := x.hArmorXyz f.math.toTrig est.armorNum id
    f.hArmorXyz est id = (some xyz.1, some xyz.2.1, some xyz.2.2) := by
  unfold hArmorXyz plateAngle plateRadius StateVector.hArmorXyz
  rw [hx]
  by_cases hother : est.armorNum = 4 ∧ (id = 1 ∨ id = 3) <;> simp [hother]

omit [LinearOrder K] [IsStrictOrderedRing K] [FloorRing K] in
theorem distance_of_numbers (xyz : K × K × K) :
    f.distance (some xyz.1, some xyz.2.1, some xyz.2.2) = some (xyz2ypd f.math xyz).2.2 := rfl

/-- Without NaN nothing keeps an update from matching. -/
theorem readable_of_numbers {est : TargetEstimate ξ} {armor : Armor β} (hx : ∀ i, (f.ekfX est.ekf i).isSome)
    (hyaw : (f.armorYaw armor).isSome) (hazimuth : (f.armorAzimuth armor).isSome) : f.Readable est armor := by
  let x : StateVector K := fun i => (f.ekfX est.ekf i).get (hx i)
  have hdistance (id : ℕ) : f.distance (f.hArmorXyz est id) =
      some (xyz2ypd f.math (x.hArmorXyz f.math.toTrig est.armorNum id)).2.2 := by
    rw [f.hArmorXyz_of_numbers (funext fun i => (Option.some_get (hx i)).symm), distance_of_numbers]
  refine ⟨hyaw, hazimuth, fun i _ => hx i, fun i _ j _ hij => ?_, fun i _ j _ k _ hik => ?_⟩
  · rw [hdistance, hdistance, nanLt, decide_eq_true_eq] at hij
    rw [hdistance, hdistance, nanLt, decide_eq_false_iff_not]
    exact hij.not_gt
  · rw [hdistance, hdistance, nanLt, decide_eq_true_eq] at hik
    rw [hdistance, hdistance, hdistance, nanLt, nanLt, decide_eq_true_eq, decide_eq_true_eq]
    exact (lt_or_ge _ _).imp_right fun hle => hle.trans_lt hik

/-! ### The loop -/

theorem matchTurn?_of_length_le (armor : Armor β)
    {sorted : List (((Option K × Option K × Option K) × Option K) × ℕ)} (best : Option ℕ × K) {i : ℕ}
    (hi : sorted.length ≤ i) : f.matchTurn? armor sorted best i = none := by
  rw [matchTurn?, List.getElem?_eq_none hi]
  rfl

theorem abs_angleError_lt {armor : Armor β} {xyza : (Option K × Option K × Option K) × Option K} {error : K}
    (h : f.angleError armor xyza = some error) : |error| < (10 ^ 10 : ℕ) := by
  have hlimited : ∀ angle : K, |limitRad (cvPi K) angle| ≤ (cvPi K).val := by
    intro angle
    obtain ⟨hlow, hhigh⟩ := limitRad_mem (cvPi K) angle
    exact abs_le.mpr ⟨hlow.le, hhigh⟩
  have hpi : (cvPi K).val + (cvPi K).val < (10 ^ 10 : ℕ) := by
    rw [cvPi]
    norm_num
  obtain ⟨yaw, azimuth, -, -, rfl⟩ := Option.map₂_eq_some_iff.mp h
  rw [abs_of_nonneg (by positivity)]
  exact (add_le_add (hlimited _) (hlimited _)).trans_lt hpi

/-- A turn keeps the best or takes a plate whose error is a number, and it takes the first of these. -/
theorem matchPlate_cases (armor : Armor β) (best : Option ℕ × K)
    (entry : ((Option K × Option K × Option K) × Option K) × ℕ) :
    (f.matchPlate armor best entry = best ∨
      (f.matchPlate armor best entry).1 = some entry.2 ∧ (f.angleError armor entry.1).isSome) ∧
    (best = (none, ((10 ^ 10 : ℕ) : K)) → (f.angleError armor entry.1).isSome →
      (f.matchPlate armor best entry).1 = some entry.2) := by
  unfold matchPlate
  cases herror : f.angleError armor entry.1 with
  | none => exact ⟨.inl rfl, fun _ hsome => absurd hsome Bool.false_ne_true⟩
  | some error =>
    dsimp only
    constructor
    · split_ifs
      · exact .inr ⟨rfl, rfl⟩
      · exact .inl rfl
    · rintro rfl -
      have hless : |error| < |((10 ^ 10 : ℕ) : K)| := by
        rw [Nat.abs_cast]
        exact f.abs_angleError_lt herror
      rw [if_pos hless]

/-- The loop over places of the list takes a plate whose error is a number, if there is one, and no other. -/
theorem foldlM_matchTurn? (armor : Armor β) {sorted : List (((Option K × Option K × Option K) × Option K) × ℕ)}
    {turns : List ℕ} (hturns : ∀ i ∈ turns, i < sorted.length) (best : Option ℕ × K) :
    ∃ best', turns.foldlM (f.matchTurn? armor sorted) best = some best' ∧
      (best' = best ∨ ∃ entry ∈ sorted, best'.1 = some entry.2 ∧ (f.angleError armor entry.1).isSome) ∧
      (best = (none, ((10 ^ 10 : ℕ) : K)) → (∃ i ∈ turns, ∃ entry, sorted[i]? = some entry ∧
        (f.angleError armor entry.1).isSome) → best' ≠ best) := by
  induction turns generalizing best with
  | nil => exact ⟨best, rfl, .inl rfl, fun _ ⟨_, hi, _⟩ => absurd hi List.not_mem_nil⟩
  | cons i turns ih =>
    obtain ⟨hi, hrest⟩ := List.forall_mem_cons.mp hturns
    obtain ⟨htaken, hfirst⟩ := f.matchPlate_cases armor best sorted[i]
    have hnext : f.matchTurn? armor sorted best i = some (f.matchPlate armor best sorted[i]) := by
      rw [matchTurn?, List.getElem?_eq_getElem hi, Option.map_some]
    generalize f.matchPlate armor best sorted[i] = next at htaken hfirst hnext
    obtain ⟨last, hlast, hlater, hfound⟩ := ih hrest next
    refine ⟨last, by rw [List.foldlM_cons, hnext]; exact hlast, ?_, ?_⟩
    · rcases hlater with rfl | hlater
      · exact htaken.imp_right fun h => ⟨sorted[i], List.getElem_mem hi, h⟩
      · exact .inr hlater
    · rintro rfl ⟨j, hj, entry, hentry, herror⟩ rfl
      rcases hlater with rfl | ⟨taken, -, hid, -⟩
      · rcases List.mem_cons.mp hj with rfl | hj
        · rw [List.getElem?_eq_getElem hi, Option.some.injEq] at hentry
          subst hentry
          exact absurd (hfirst rfl herror) nofun
        · exact hfound rfl ⟨j, hj, entry, hentry, herror⟩ rfl
      · cases hid

/-- Of the three nearest of four plates one has the radius and the height of the first. -/
theorem exists_own_radius {f : TargetFilter β ξ K} {est : TargetEstimate ξ}
    {sorted : List (((Option K × Option K × Option K) × Option K) × ℕ)}
    (hperm : sorted.Perm ((List.range est.armorNum).map (f.entry est))) (hplates : 3 ≤ est.armorNum) :
    ∃ i ∈ [0, 1, 2], ∀ e, sorted[i]? = some e → ¬ (est.armorNum = 4 ∧ (e.2 = 1 ∨ e.2 = 3)) := by
  have hids : (sorted.map Prod.snd).Perm (List.range est.armorNum) := by
    have hsnd : ((List.range est.armorNum).map (f.entry est)).map Prod.snd = List.range est.armorNum := by
      rw [List.map_map]
      exact List.map_id _
    rw [← hsnd]
    exact hperm.map Prod.snd
  have hpairwise : sorted.Pairwise fun a b => a.2 ≠ b.2 :=
    List.pairwise_map.mp (hids.nodup_iff.mpr List.nodup_range)
  have hlen : sorted.length = est.armorNum := by simpa using hids.length_eq
  have hdistinct := List.pairwise_iff_getElem.mp hpairwise
  by_contra hall
  push Not at hall
  have hspecial : ∀ i (hi : i < sorted.length), i ∈ [0, 1, 2] → sorted[i].2 = 1 ∨ sorted[i].2 = 3 := by
    intro i hi hmem
    obtain ⟨e, he, -, hid⟩ := hall i hmem
    rw [List.getElem?_eq_getElem hi, Option.some.injEq] at he
    rw [he]
    exact hid
  have h0 := hspecial 0 (by omega) (by decide)
  have h1 := hspecial 1 (by omega) (by decide)
  have h2 := hspecial 2 (by omega) (by decide)
  have h01 := hdistinct 0 1 (by omega) (by omega) Nat.one_pos
  have h02 := hdistinct 0 2 (by omega) (by omega) Nat.two_pos
  have h12 := hdistinct 1 2 (by omega) (by omega) Nat.one_lt_two
  omega

theorem matchId?_of_readable (sort : ComparisonSort) {est : TargetEstimate ξ} {armor : Armor β}
    (hplates : 3 ≤ est.armorNum) (h : f.Readable est armor) :
    ∃ id < est.armorNum, f.matchId? sort est armor = some id := by
  have hsortable : StrictWeakOn ((List.range est.armorNum).map (f.entry est)) f.nearer :=
    (strictWeakOn_map (f.entry est)).mpr h.sortable
  obtain ⟨sorted, hsorted⟩ := sort.exists_sort? hsortable
  obtain ⟨-, hperm⟩ := sort.sort?_eq_some hsorted
  have hlen : sorted.length = est.armorNum := by simpa using hperm.length_eq
  have hturns : ∀ i ∈ [0, 1, 2], i < sorted.length := by
    intro i hi
    have hthree : i < 3 := by
      revert i
      decide
    omega
  have hentry : ∀ e ∈ sorted, ∃ i < est.armorNum, f.entry est i = e := by
    intro e he
    obtain ⟨i, hi, rfl⟩ := List.mem_map.mp (hperm.mem_iff.mp he)
    exact ⟨i, List.mem_range.mp hi, rfl⟩
  obtain ⟨best, hbest, htaken, hfound⟩ := f.foldlM_matchTurn? armor hturns (none, (10 ^ 10 : ℕ))
  have hnear : ∃ i ∈ [0, 1, 2], ∃ e, sorted[i]? = some e ∧ (f.angleError armor e.1).isSome := by
    obtain ⟨i, hi, hown⟩ := exists_own_radius hperm hplates
    have hlt := hturns i hi
    obtain ⟨j, -, hj⟩ := hentry sorted[i] (List.getElem_mem hlt)
    refine ⟨i, hi, sorted[i], List.getElem?_eq_getElem hlt, ?_⟩
    rw [← hj]
    apply h.angleError
    intro hspecial
    refine hown sorted[i] (List.getElem?_eq_getElem hlt) ?_
    rw [← hj]
    exact hspecial
  rcases htaken with rfl | ⟨e, he, hid, -⟩
  · exact absurd rfl (hfound rfl hnear)
  · obtain ⟨i, hi, rfl⟩ := hentry e he
    refine ⟨i, hi, ?_⟩
    rw [matchId?, xyzaIList?_eq, Option.bind_eq_bind, Option.bind_some, hsorted, Option.bind_eq_bind, Option.bind_some,
      hbest]
    exact hid

/-- Nothing is less than an error of zero. -/
theorem matchPlate_of_zero (armor : Armor β) (id : ℕ) (entry : ((Option K × Option K × Option K) × Option K) × ℕ) :
    f.matchPlate armor (some id, 0) entry = (some id, 0) := by
  unfold matchPlate
  cases f.angleError armor entry.1 with
  | none => rfl
  | some error =>
    dsimp only
    rw [abs_zero, if_neg (abs_nonneg error).not_gt]

theorem matchPlate_takes_zero {armor : Armor β} {entry : ((Option K × Option K × Option K) × Option K) × ℕ}
    (herror : f.angleError armor entry.1 = some 0) :
    f.matchPlate armor (none, ((10 ^ 10 : ℕ) : K)) entry = (some entry.2, 0) := by
  unfold matchPlate
  rw [herror]
  dsimp only
  rw [abs_zero, if_pos (abs_pos.mpr (by positivity))]

/-- An armor that stands precisely where the nearest plate is measured is that plate. -/
theorem matchId?_of_nearest (sort : ComparisonSort) {est : TargetEstimate ξ} {armor : Armor β} {id : ℕ}
    (hplates : 3 ≤ est.armorNum) (h : f.Readable est armor) (hid : id < est.armorNum)
    (hnearest : ∀ i < est.armorNum, i ≠ id → f.nearer (f.entry est id) (f.entry est i) = true)
    (herror : f.angleError armor (f.entry est id).1 = some 0) : f.matchId? sort est armor = some id := by
  have hsortable : StrictWeakOn ((List.range est.armorNum).map (f.entry est)) f.nearer :=
    (strictWeakOn_map (f.entry est)).mpr h.sortable
  obtain ⟨sorted, hsorted⟩ := sort.exists_sort? hsortable
  obtain ⟨-, hperm⟩ := sort.sort?_eq_some hsorted
  have hlen : sorted.length = est.armorNum := by simpa using hperm.length_eq
  obtain ⟨rest, rfl⟩ : ∃ rest, sorted = f.entry est id :: rest := by
    refine sort.sort?_head hsorted (List.mem_map_of_mem (List.mem_range.mpr hid)) fun a ha hother => ?_
    obtain ⟨i, hi, rfl⟩ := List.mem_map.mp ha
    exact hnearest i (List.mem_range.mp hi) fun heq => hother (by rw [heq])
  obtain ⟨second, third, rest, rfl⟩ : ∃ second third later, rest = second :: third :: later := by
    match rest, hlen with
    | second :: third :: later, _ => exact ⟨second, third, later, rfl⟩
    | [], hlen | [_], hlen =>
      simp only [List.length_nil, List.length_cons] at hlen
      omega
  have htake : f.matchPlate armor (none, ((10 ^ 10 : ℕ) : K)) (f.entry est id) = (some id, 0) :=
    f.matchPlate_takes_zero herror
  have hturn (best : Option ℕ × K) {i : ℕ} {entry : ((Option K × Option K × Option K) × Option K) × ℕ}
      (hi : (f.entry est id :: second :: third :: rest)[i]? = some entry) :
      f.matchTurn? armor (f.entry est id :: second :: third :: rest) best i = some (f.matchPlate armor best entry) := by
    rw [matchTurn?, hi, Option.map_some]
  have hloop : [0, 1, 2].foldlM (f.matchTurn? armor (f.entry est id :: second :: third :: rest))
      (none, ((10 ^ 10 : ℕ) : K)) = some (some id, 0) := by
    simp only [List.foldlM_cons, List.foldlM_nil, hturn _ (i := 0) rfl, hturn _ (i := 1) rfl, hturn _ (i := 2) rfl,
      htake, matchPlate_of_zero, Option.bind_eq_bind, Option.bind_some]
    rfl
  rw [matchId?, xyzaIList?_eq, Option.bind_eq_bind, Option.bind_some, hsorted, Option.bind_eq_bind, Option.bind_some,
    hloop]
  rfl

theorem matchId?_of_lt_three (sort : ComparisonSort) {est : TargetEstimate ξ} (armor : Armor β)
    (h : est.armorNum < 3) : f.matchId? sort est armor = none := by
  by_contra hsome
  obtain ⟨id, hid⟩ := Option.ne_none_iff_exists'.mp hsome
  obtain ⟨sorted, hsorted, best, hbest, -⟩ := f.matchId?_eq_some hid
  have hlen : sorted.length = est.armorNum := by simpa using (sort.sort?_eq_some hsorted).2.length_eq
  rw [List.foldlM_cons, Option.bind_eq_bind] at hbest
  obtain ⟨best1, -, hbest⟩ := Option.bind_eq_some_iff.mp hbest
  rw [List.foldlM_cons, Option.bind_eq_bind] at hbest
  obtain ⟨best2, -, hbest⟩ := Option.bind_eq_some_iff.mp hbest
  rw [List.foldlM_cons, f.matchTurn?_of_length_le armor best2 (by omega)] at hbest
  cases hbest

/-- A match is found only where the matching can read what it needs. -/
theorem readable_of_matchId? {sort : ComparisonSort} {est : TargetEstimate ξ} {armor : Armor β} {id : ℕ}
    (h : f.matchId? sort est armor = some id) : 3 ≤ est.armorNum ∧ f.Readable est armor := by
  have hplates : 3 ≤ est.armorNum := by
    by_contra hfew
    rw [f.matchId?_of_lt_three sort armor (by omega)] at h
    cases h
  refine ⟨hplates, ?_⟩
  obtain ⟨sorted, hsorted, best, hbest, hid⟩ := f.matchId?_eq_some h
  obtain ⟨hsortable, hperm⟩ := sort.sort?_eq_some hsorted
  have hlen : sorted.length = est.armorNum := by simpa using hperm.length_eq
  have hturns : ∀ i ∈ [0, 1, 2], i < sorted.length := by
    intro i hi
    have hthree : i < 3 := by
      revert i
      decide
    omega
  obtain ⟨best', hbest', htaken, -⟩ := f.foldlM_matchTurn? armor hturns (none, (10 ^ 10 : ℕ))
  rw [hbest, Option.some.injEq] at hbest'
  subst hbest'
  rcases htaken with rfl | ⟨e, he, -, herror⟩
  · cases hid
  · obtain ⟨i, -, rfl⟩ := List.mem_map.mp (hperm.mem_iff.mp he)
    obtain ⟨hyaw, hazimuth, hx, hy, ha, hr⟩ := (f.angleError_isSome_iff est armor i).mp herror
    refine ⟨hyaw, hazimuth, ?_, (strictWeakOn_map (f.entry est)).mp hsortable⟩
    rintro k (rfl | rfl | rfl | rfl)
    · exact hx
    · exact hy
    · exact ha
    · rw [plateRadius] at hr
      split_ifs at hr
      · exact ((isSome_map₂ _ _ _).mp hr).1
      · exact hr

end Match

end TargetFilter

/-! ### From the target that the tracker sets -/

/-- What is done to a target once it is set. -/
inductive TargetInput (β : Type)
  | predict (t : ℤ)
  | update (armor : Armor β)

namespace TargetFilter

variable {β ξ K : Type} [Field K] [LinearOrder K] [IsStrictOrderedRing K] [FloorRing K]
  (f : TargetFilter β ξ K) (sort : ComparisonSort)

def step? (name : ArmorName) (est : TargetEstimate ξ) : TargetInput β → Option (TargetEstimate ξ)
  | .predict t => some { est with ekf := f.predict name est t, t := t }
  | .update armor => f.update? sort est armor

def run? (name : ArmorName) (est : TargetEstimate ξ) (inputs : List (TargetInput β)) : Option (TargetEstimate ξ) :=
  inputs.foldlM (f.step? sort name) est

theorem step?_armorNum {name : ArmorName} {est est' : TargetEstimate ξ} {input : TargetInput β}
    (h : f.step? sort name est input = some est') : est'.armorNum = est.armorNum := by
  cases input with
  | predict t =>
    obtain rfl := Option.some.inj h
    rfl
  | update armor =>
    obtain ⟨id, -, rfl⟩ := Option.map_eq_some_iff.mp h
    rfl

theorem run?_armorNum {name : ArmorName} {est est' : TargetEstimate ξ} {inputs : List (TargetInput β)}
    (h : f.run? sort name est inputs = some est') : est'.armorNum = est.armorNum := by
  induction inputs generalizing est with
  | nil =>
    obtain rfl := Option.some.inj h
    rfl
  | cons input inputs ih =>
    rw [run?, List.foldlM_cons] at h
    obtain ⟨next, hstep, hrest⟩ := Option.bind_eq_some_iff.mp h
    exact (ih hrest).trans (f.step?_armorNum sort hstep)

end TargetFilter

/-- The plates of a balance infantry are two, and those of all other targets three or four. -/
theorem targetSetup_armorNum {β : Type} (armor : Armor β) :
    (targetSetup armor).armorNum < 3 ↔
      armor.type = .big ∧ (armor.name = .three ∨ armor.name = .four ∨ armor.name = .five) := by
  unfold targetSetup
  split_ifs with hbalance houtpost hbase
  · exact iff_of_true (by decide) hbalance
  · exact iff_of_false (by decide) hbalance
  · exact iff_of_false (by decide) hbalance
  · exact iff_of_false (by decide) hbalance

section Built

variable {β ξ K : Type} [Field K] [LinearOrder K] [IsStrictOrderedRing K] [FloorRing K]

/-- An update of a target that the tracker has set, whatever became of it since, stays in its lists and finds a
    plate exactly if the target is no balance infantry and the matching reads no NaN that matters. -/
theorem target_update_in_bounds_iff (f : TargetFilter β ξ K) (sort : ComparisonSort)
    (model : TargetModel β (TargetEstimate ξ)) (tr : Tracker (TargetEstimate ξ)) (solve : Armor β → β)
    (first : Armor β) (rest : List (Armor β)) (t : ℤ) (inputs : List (TargetInput β)) (est : TargetEstimate ξ)
    (hrun : f.run? sort first.name
      (tr.setTarget { model with init := f.construct } solve (first :: rest) t).1.target.estimate inputs = some est)
    (armor : Armor β) :
    (∃ id < est.armorNum, f.matchId? sort est armor = some id) ↔
      ¬ (first.type = .big ∧ (first.name = .three ∨ first.name = .four ∨ first.name = .five)) ∧
        f.Readable est armor := by
  have hnum : est.armorNum = (targetSetup { first with view := solve first }).armorNum := f.run?_armorNum sort hrun
  have hbalance := targetSetup_armorNum { first with view := solve first }
  rw [← hnum] at hbalance
  rw [← hbalance, not_lt]
  constructor
  · rintro ⟨id, hid, hmatch⟩
    exact f.readable_of_matchId? hmatch
  · rintro ⟨hplates, hreadable⟩
    exact f.matchId?_of_readable sort hplates hreadable

end Built

/-- A filter over the real numbers that keeps the state it is set to: an armor two meters ahead, with its yaw. -/
noncomputable def stillFilter : TargetFilter (Option ℝ) (Fin 11 → Option ℝ) ℝ :=
  { init := fun armor radius _ => ![armor.view.map fun yaw => (2 : ℕ) + radius * Real.cos yaw, some 0,
      armor.view.map fun yaw => radius * Real.sin yaw, some 0, some 0, some 0, armor.view, some 0, some (radius : ℝ),
      some 0, some 0]
    predict := fun _ est _ => est.ekf, ekfX := id, math := Trajectory.realMath
    updateYpda := fun state _ _ _ => state, armorYaw := Armor.view, armorAzimuth := fun _ => some 0 }

noncomputable def stillModel : TargetModel (Option ℝ) (TargetEstimate (Fin 11 → Option ℝ)) :=
  { centerDistance := fun _ => 0, init := stillFilter.construct, predict := fun target _ => target.estimate
    update := fun target _ => target.estimate, diverged := fun _ => false
    convergened := fun target => (false, target.estimate), badConverge := fun _ => false }

def stillTracker : Tracker (TargetEstimate (Fin 11 → Option ℝ)) :=
  .init ⟨.red, 5, 15, 75⟩ ⟨.one, .small, .fifth, { armorNum := 4, ekf := fun _ => some 0, t := 0 }⟩ 0

def armorOf (name : ArmorName) (yaw : Option ℝ) : Armor (Option ℝ) := ⟨.red, .big, name, .first, yaw⟩

/-- The first update of a balance infantry leaves the list of its two plates, and one with an armor whose yaw is NaN
    assigns no plate of a hero. -/
theorem balance_update_out_of_bounds :
    (∃ target, (stillTracker.setTarget stillModel Armor.view [armorOf .three (some 0)] 0).1.target = target ∧
      target.estimate.armorNum = 2 ∧
      stillFilter.matchId? .insertion target.estimate (armorOf .three (some 0)) = none) ∧
    ∃ target, (stillTracker.setTarget stillModel Armor.view [armorOf .one (some 0)] 0).1.target = target ∧
      target.estimate.armorNum = 4 ∧ stillFilter.matchId? .insertion target.estimate (armorOf .one none) = none := by
  refine ⟨⟨_, rfl, rfl, stillFilter.matchId?_of_lt_three .insertion _ (by decide)⟩, _, rfl, rfl, ?_⟩
  by_contra hsome
  obtain ⟨id, hid⟩ := Option.ne_none_iff_exists'.mp hsome
  exact absurd (stillFilter.readable_of_matchId? hid).2.yaw Bool.false_ne_true

theorem hero_update_in_bounds : ∃ target,
    (stillTracker.setTarget stillModel Armor.view [armorOf .one (some 0)] 0).1.target = target ∧
      ∃ id < target.estimate.armorNum, stillFilter.matchId? .insertion target.estimate (armorOf .one (some 0)) =
        some id := by
  refine ⟨_, rfl, (target_update_in_bounds_iff stillFilter .insertion stillModel stillTracker Armor.view
    (armorOf .one (some 0)) [] 0 [] _ rfl _).mpr ⟨by decide, ?_⟩⟩
  refine stillFilter.readable_of_numbers (fun i => ?_) rfl rfl
  fin_cases i <;> rfl

end SpVision
