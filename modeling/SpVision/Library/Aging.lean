import Mathlib.Algebra.Order.BigOperators.Ring.Finset
import Mathlib.Algebra.Group.Nat.Defs

set_option autoImplicit false

/-!
# Priority with aging

Items wait to be served, one in each round. The item of highest priority goes first,
items of equal priority take turns, and an item that has waited for `fair` rounds goes
before every item of higher priority that has not waited longer. An item waits no
longer than the others can overtake it.
-/
namespace SpVision.Aging

/-- The waiting items, the rounds they have waited, and the order of turns, lowest rank first. -/
@[ext] structure Queue (ι : Type) where
  waiting : ι → Bool
  age : ι → ℕ
  rank : ι → ℕ

variable {ι : Type}

namespace Queue

def older (q : Queue ι) : Queue ι :=
  { q with age := fun i => if q.waiting i then q.age i + 1 else q.age i }

theorem older_of_idle {q : Queue ι} (h : ∀ i, ¬ q.waiting i) : q.older = q :=
  Queue.ext rfl (funext fun i => if_neg (h i)) rfl

variable [DecidableEq ι]

def join (q : Queue ι) (i : ι) : Queue ι := { q with waiting := Function.update q.waiting i true }

def serve (q : Queue ι) (w : ι) (rank : ι → ℕ) : Queue ι :=
  { waiting := Function.update q.waiting w false, age := Function.update q.age w 0, rank := rank }

end Queue

/-- `w` goes to the back, and the items after it keep their order. -/
def Rotates (rank : ι → ℕ) (w : ι) (rank' : ι → ℕ) : Prop :=
  ∀ i, rank w < rank i → rank' i < rank' w ∧ ∀ j, rank i < rank j → rank' i < rank' j

/-! ### Turns in a cycle -/

/-- How far a cycle of length `count` goes from `start` to reach `i`. -/
def cycleOffset (count start i : ℕ) : ℕ := if start ≤ i then i - start else i + count - start

theorem cycleOffset_lt {count start i : ℕ} (hstart : start < count) (hi : i < count) :
    cycleOffset count start i < count := by
  unfold cycleOffset
  split_ifs <;> omega

theorem add_cycleOffset_mod {count start i : ℕ} (hstart : start < count) (hi : i < count) :
    (start + cycleOffset count start i) % count = i := by
  unfold cycleOffset
  split_ifs with h
  · rw [Nat.add_sub_cancel' h, Nat.mod_eq_of_lt hi]
  · rw [show start + (i + count - start) = i + count by omega, Nat.add_mod_right, Nat.mod_eq_of_lt hi]

theorem cycleOffset_add_mod {count start off : ℕ} (hstart : start < count) (hoff : off < count) :
    cycleOffset count start ((start + off) % count) = off := by
  unfold cycleOffset
  by_cases h : start + off < count
  · rw [Nat.mod_eq_of_lt h, if_pos (by omega)]
    omega
  · rw [Nat.mod_eq_sub_mod (by omega), Nat.mod_eq_of_lt (by omega), if_neg (by omega)]
    omega

theorem succ_mod_of_lt {count w : ℕ} (hw : w < count) :
    (w + 1) % count = if w + 1 = count then 0 else w + 1 := by
  split_ifs with h
  · rw [h, Nat.mod_self]
  · exact Nat.mod_eq_of_lt (by omega)

/-- From the place after `w` on, the places behind `w` come first. -/
theorem cycleOffset_succ {count start w i : ℕ} (hstart : start < count) (hw : w < count) (hi : i < count) :
    cycleOffset count ((w + 1) % count) i =
      if cycleOffset count start w < cycleOffset count start i then
        cycleOffset count start i - cycleOffset count start w - 1
      else cycleOffset count start i + count - cycleOffset count start w - 1 := by
  rw [succ_mod_of_lt hw]
  unfold cycleOffset
  split_ifs <;> omega

/-- From the place after `w` on, `w` comes last and the others keep their order. -/
theorem cycleOffset_next {count start w i j : ℕ} (hstart : start < count) (hw : w < count)
    (hi : i < count) (hj : j < count) (hwi : cycleOffset count start w < cycleOffset count start i) :
    cycleOffset count ((w + 1) % count) i < cycleOffset count ((w + 1) % count) w ∧
      (cycleOffset count start i < cycleOffset count start j →
        cycleOffset count ((w + 1) % count) i < cycleOffset count ((w + 1) % count) j) := by
  have hoffset := cycleOffset_lt hstart hi
  rw [cycleOffset_succ hstart hw hi, cycleOffset_succ hstart hw hw, cycleOffset_succ hstart hw hj, if_pos hwi,
    if_neg (Nat.lt_irrefl _)]
  constructor
  · omega
  · intro hij
    rw [if_pos (hwi.trans hij)]
    omega

/-- Two places keep their order unless `w` is the first of them or lies between them. -/
theorem cycleOffset_next_lt_iff {count start w i j : ℕ} (hstart : start < count) (hw : w < count)
    (hi : i < count) (hj : j < count) (hij : cycleOffset count start i < cycleOffset count start j) :
    cycleOffset count ((w + 1) % count) i < cycleOffset count ((w + 1) % count) j ↔
      ¬ (cycleOffset count start i ≤ cycleOffset count start w ∧
        cycleOffset count start w < cycleOffset count start j) := by
  have hoffset := cycleOffset_lt hstart hj
  have hlast := cycleOffset_lt hstart hw
  rw [cycleOffset_succ hstart hw hi, cycleOffset_succ hstart hw hj]
  split_ifs <;> omega

theorem cycleOffset_inj {count start i j : ℕ} (hstart : start < count) (hi : i < count) (hj : j < count)
    (h : cycleOffset count start i = cycleOffset count start j) : i = j := by
  rw [← add_cycleOffset_mod hstart hi, h, add_cycleOffset_mod hstart hj]

/-! ### The choice of the next item -/

variable (prio : ι → ℕ) (fair : ℕ)

inductive Chooses (q : Queue ι) (w : ι) : (ι → ℕ) → Prop
  | aged (top : ι) (htop : ∀ i, q.waiting i → prio i ≤ prio top) (hlow : prio w < prio top)
      (hage : fair ≤ q.age w)
      (holdest : ∀ i, q.waiting i → prio i < prio top → fair ≤ q.age i → q.age i ≤ q.age w) :
      Chooses q w q.rank
  | turn {rank : ι → ℕ} (htop : ∀ i, q.waiting i → prio i ≤ prio w)
      (hnone : ∀ i, q.waiting i → prio i < prio w → q.age i < fair)
      (hfirst : ∀ i, q.waiting i → prio i = prio w → i ≠ w → q.rank w < q.rank i)
      (hrotate : Rotates q.rank w rank) : Chooses q w rank

/-- How often `j` can have been served since `i` has waited for `fair` rounds. -/
def overtakes (q : Queue ι) (i j : ι) : ℕ :=
  if prio j < prio i then (q.age i - q.age j) / fair
  else (if q.age j < q.age i then 1 else 0) + (if prio j = prio i ∧ q.rank i < q.rank j then 1 else 0)

/-- Each other item overtakes at most twice. -/
def limit (ι : Type) [Fintype ι] (fair : ℕ) : ℕ := fair + 2 * (Fintype.card ι - 1)

structure Fair [Fintype ι] (q : Queue ι) : Prop where
  rest : ∀ i, ¬ q.waiting i → q.age i = 0
  age_le : ∀ i, q.waiting i → q.age i ≤ fair + ∑ j, overtakes prio fair q i j
  age_le_limit : ∀ i, q.waiting i → q.age i ≤ limit ι fair

variable {prio fair}

theorem overtakes_lower {q : Queue ι} {i j : ι} (h : prio j < prio i) :
    overtakes prio fair q i j = (q.age i - q.age j) / fair := if_pos h

theorem overtakes_upper {q : Queue ι} {i j : ι} (h : ¬ prio j < prio i) :
    overtakes prio fair q i j =
      (if q.age j < q.age i then 1 else 0) + (if prio j = prio i ∧ q.rank i < q.rank j then 1 else 0) :=
  if_neg h

theorem overtakes_self (q : Queue ι) (i : ι) : overtakes prio fair q i i = 0 := by
  simp [overtakes]

theorem overtakes_le {q : Queue ι} {i : ι} (h : q.age i < 3 * fair) (j : ι) :
    overtakes prio fair q i j ≤ 2 := by
  unfold overtakes
  split_ifs
  · have hlt : (q.age i - q.age j) / fair < 3 := Nat.div_lt_of_lt_mul (by omega)
    omega
  all_goals omega

theorem sum_overtakes_le [Fintype ι] [DecidableEq ι] {q : Queue ι} {i : ι} (h : q.age i < 3 * fair) :
    fair + ∑ j, overtakes prio fair q i j ≤ limit ι fair := by
  have hsum : ∑ j ∈ Finset.univ.erase i, overtakes prio fair q i j ≤ (Finset.univ.erase i).card • 2 :=
    Finset.sum_le_card_nsmul _ _ 2 fun j _ => overtakes_le h j
  rw [Finset.card_erase_of_mem (Finset.mem_univ i), Finset.card_univ, Nat.nsmul_eq_mul] at hsum
  rw [← Finset.add_sum_erase Finset.univ _ (Finset.mem_univ i), overtakes_self, limit]
  omega

/-! ### One round -/

section Round

variable {q : Queue ι} {w i : ι} {rank : ι → ℕ}

/-- In a turn an item that has waited for `fair` rounds is passed over only by its equals. -/
theorem prio_eq_of_turn (htop : ∀ i, q.older.waiting i → prio i ≤ prio w)
    (hnone : ∀ i, q.older.waiting i → prio i < prio w → q.older.age i < fair) (hi : q.waiting i)
    (hage : fair ≤ q.age i) : prio i = prio w := by
  refine Nat.le_antisymm (htop i hi) (Nat.le_of_not_lt fun hlt => ?_)
  have hyoung := hnone i hi hlt
  have hold : q.older.age i = q.age i + 1 := if_pos hi
  omega

/-- An item that has waited for `fair` rounds keeps its place in the order of turns. -/
theorem Chooses.rank_lt (h : Chooses prio fair q.older w rank) (hi : q.waiting i) (hiw : i ≠ w)
    (hage : fair ≤ q.age i) {j : ι} (hj : q.rank i < q.rank j) : rank i < rank j := by
  cases h with
  | aged => exact hj
  | turn htop hnone hfirst hrotate =>
    have hprio := prio_eq_of_turn htop hnone hi hage
    exact (hrotate i (hfirst i hi hprio hiw)).2 j hj

theorem ite_le_ite {p r : Prop} [Decidable p] [Decidable r] (h : p → r) :
    (if p then 1 else 0) ≤ if r then 1 else 0 := by
  split_ifs with hp hr
  · exact le_refl _
  · exact absurd (h hp) hr
  · exact Nat.zero_le _
  · exact le_refl _

variable [DecidableEq ι]

theorem age_older_serve (hi : q.waiting i) (hiw : i ≠ w) :
    (q.older.serve w rank).age i = q.age i + 1 := by
  simp [Queue.older, Queue.serve, hi, hiw]

theorem age_older_serve_le (j : ι) : (q.older.serve w rank).age j ≤ q.age j + 1 := by
  by_cases hj : j = w
  · simp [Queue.serve, hj]
  · simp only [Queue.older, Queue.serve, Function.update_of_ne hj]
    split_ifs <;> omega

theorem age_serve_self (q : Queue ι) (w : ι) (rank : ι → ℕ) : (q.serve w rank).age w = 0 :=
  Function.update_self _ _ _

theorem overtakes_mono (h : Chooses prio fair q.older w rank) (hi : q.waiting i) (hiw : i ≠ w)
    (hage : fair ≤ q.age i) (j : ι) :
    overtakes prio fair q i j ≤ overtakes prio fair (q.older.serve w rank) i j := by
  have hj : (q.older.serve w rank).age j ≤ q.age j + 1 := age_older_serve_le j
  have hi' : (q.older.serve w rank).age i = q.age i + 1 := age_older_serve hi hiw
  by_cases hprio : prio j < prio i
  · rw [overtakes_lower hprio, overtakes_lower hprio]
    exact Nat.div_le_div_right (by omega)
  · rw [overtakes_upper hprio, overtakes_upper hprio]
    refine Nat.add_le_add (ite_le_ite fun hlt => by omega) (ite_le_ite fun hrank => ?_)
    exact ⟨hrank.1, h.rank_lt hi hiw hage hrank.2⟩

/-- The item served has overtaken `i` once more. -/
theorem overtakes_served (h : Chooses prio fair q.older w rank) (hi : q.waiting i) (hiw : i ≠ w)
    (hage : fair ≤ q.age i) (hfair : 0 < fair) :
    overtakes prio fair q i w < overtakes prio fair (q.older.serve w rank) i w := by
  have hi' : (q.older.serve w rank).age i = q.age i + 1 := age_older_serve hi hiw
  have hw' : (q.older.serve w rank).age w = 0 := age_serve_self _ _ _
  have hold : q.older.age i = q.age i + 1 := if_pos hi
  have hw : q.older.age w ≤ q.age w + 1 := by
    unfold Queue.older
    dsimp only
    split_ifs <;> omega
  have hrank : prio w = prio i ∧ q.rank i < q.rank w → prio w = prio i ∧ rank i < rank w :=
    fun hlt => ⟨hlt.1, h.rank_lt hi hiw hage hlt.2⟩
  cases h with
  | aged top htop hlow hagew holdest =>
    by_cases hprio : prio w < prio i
    · -- the age that `w` had reached is now part of the difference
      rw [overtakes_lower hprio, overtakes_lower hprio, hi', hw', Nat.lt_iff_add_one_le,
        ← Nat.add_div_right _ hfair]
      exact Nat.div_le_div_right (by omega)
    · have holder := holdest i hi (by omega) (by omega)
      rw [overtakes_upper hprio, overtakes_upper hprio, hi', hw', if_neg (by omega : ¬ q.age w < q.age i),
        if_pos (Nat.succ_pos _)]
      exact Nat.add_lt_add_of_lt_of_le Nat.zero_lt_one (ite_le_ite hrank)
  | turn htop hnone hfirst hrotate =>
    have hprio := prio_eq_of_turn htop hnone hi hage
    have hfront := hfirst i hi hprio hiw
    have hback : rank i < rank w := (hrotate i hfront).1
    have hbehind : ¬ (prio w = prio i ∧ q.rank i < q.rank w) := fun hlt => Nat.lt_asymm hlt.2 hfront
    have hahead : prio w = prio i ∧ (q.older.serve w rank).rank i < (q.older.serve w rank).rank w :=
      ⟨hprio.symm, hback⟩
    rw [overtakes_upper (by omega), overtakes_upper (by omega), hi', hw', if_neg hbehind, if_pos hahead]
    exact Nat.add_lt_add_of_le_of_lt (ite_le_ite fun _ => Nat.succ_pos _) Nat.zero_lt_one

end Round

/-! ### Turns -/

section Turns

variable {q : Queue ι} {a b w : ι} {rank : ι → ℕ}

/-- `b` waits, and waits longer than `a` if `a` waits, and its turn comes before that of `a`. -/
structure Owes (q : Queue ι) (a b : ι) : Prop where
  waiting : q.waiting b
  age : q.age a < q.age b
  rank : q.rank b < q.rank a

theorem Owes.ne (h : Owes q a b) : a ≠ b := fun hab => Nat.lt_irrefl _ (hab ▸ h.rank)

/-- Neither the turns nor the ages let `a` go before `b`. -/
theorem Owes.ne_chosen (h : Owes q a b) (hprio : prio a = prio b) (hw : q.waiting w)
    (hc : Chooses prio fair q.older w rank) : w ≠ a := by
  rintro rfl
  have hageW : q.older.age w = q.age w + 1 := if_pos hw
  have hageB : q.older.age b = q.age b + 1 := if_pos h.waiting
  have hage := h.age
  cases hc with
  | aged top htop hlow hfair holdest =>
    have hold := holdest b h.waiting (hprio ▸ hlow) (by omega)
    omega
  | turn htop hnone hfirst hrotate =>
    exact Nat.lt_asymm h.rank (hfirst b h.waiting hprio.symm h.ne.symm)

variable [DecidableEq ι]

theorem Owes.join (h : Owes q a b) (i : ι) : Owes (q.join i) a b := by
  refine ⟨?_, h.age, h.rank⟩
  by_cases hbi : b = i <;> simp [Queue.join, hbi, h.waiting]

theorem Owes.serve (h : Owes q a b) (hwb : w ≠ b) (hrank : rank b < rank a) :
    Owes (q.older.serve w rank) a b := by
  have hage := h.age
  refine ⟨?_, ?_, hrank⟩
  · simp [Queue.serve, Queue.older, hwb.symm, h.waiting]
  · rw [age_older_serve h.waiting hwb.symm]
    exact (age_older_serve_le a).trans_lt (Nat.succ_lt_succ hage)

theorem Owes.start (hb : q.waiting b) (hab : a ≠ b) (hrank : rank b < rank a) :
    Owes (q.older.serve a rank) a b := by
  refine ⟨?_, ?_, hrank⟩
  · simp [Queue.serve, Queue.older, hab.symm, hb]
  · rw [age_serve_self, age_older_serve hb hab.symm]
    exact Nat.succ_pos _

end Turns

/-! ### Runs -/

section Runs

variable [Fintype ι] {q : Queue ι}

theorem Fair.empty (h : ∀ i, ¬ q.waiting i) (hage : ∀ i, q.age i = 0) : Fair prio fair q where
  rest i _ := hage i
  age_le i hi := absurd hi (h i)
  age_le_limit i hi := absurd hi (h i)

variable [DecidableEq ι]

theorem Fair.join (h : Fair prio fair q) (i : ι) : Fair prio fair (q.join i) := by
  have hage {j : ι} (hj : (q.join i).waiting j) : q.waiting j ∨ q.age j = 0 := by
    by_cases hw : q.waiting j
    · exact .inl hw
    · exact .inr (h.rest j hw)
  refine ⟨fun j hj => h.rest j fun hw => hj ?_, fun j hj => ?_, fun j hj => ?_⟩
  · by_cases hji : j = i <;> simp [Queue.join, hji, hw]
  · rcases hage hj with hw | hzero
    · exact h.age_le j hw
    · rw [show (q.join i).age j = 0 from hzero]
      exact Nat.zero_le _
  · rcases hage hj with hw | hzero
    · exact h.age_le_limit j hw
    · rw [show (q.join i).age j = 0 from hzero]
      exact Nat.zero_le _

theorem Fair.serve (h : Fair prio fair q) {w : ι} {rank : ι → ℕ} (hc : Chooses prio fair q.older w rank)
    (hlimit : limit ι fair + 1 < 3 * fair) : Fair prio fair (q.older.serve w rank) := by
  have hfair : 0 < fair := by omega
  have hold {i : ι} (hi : (q.older.serve w rank).waiting i) : i ≠ w ∧ q.waiting i := by
    have hiw : i ≠ w := by
      rintro rfl
      simp [Queue.serve] at hi
    refine ⟨hiw, ?_⟩
    simpa [Queue.serve, Queue.older, hiw] using hi
  have hage_le {i : ι} (hi : (q.older.serve w rank).waiting i) : (q.older.serve w rank).age i ≤
      fair + ∑ j, overtakes prio fair (q.older.serve w rank) i j := by
    obtain ⟨hiw, hwaiting⟩ := hold hi
    rw [age_older_serve hwaiting hiw]
    by_cases hage : fair ≤ q.age i
    · have hsum : ∑ j, overtakes prio fair q i j < ∑ j, overtakes prio fair (q.older.serve w rank) i j :=
        Finset.sum_lt_sum (fun j _ => overtakes_mono hc hwaiting hiw hage j)
          ⟨w, Finset.mem_univ w, overtakes_served hc hwaiting hiw hage hfair⟩
      have hbefore := h.age_le i hwaiting
      omega
    · omega
  refine ⟨fun i hi => ?_, fun i hi => hage_le hi, fun i hi => ?_⟩
  · by_cases hiw : i = w
    · rw [hiw, age_serve_self]
    · have hwaiting : ¬ q.waiting i := by simpa [Queue.serve, Queue.older, hiw] using hi
      simpa [Queue.serve, Queue.older, hiw, hwaiting] using h.rest i hwaiting
  · obtain ⟨hiw, hwaiting⟩ := hold hi
    refine (hage_le hi).trans (sum_overtakes_le ?_)
    rw [age_older_serve hwaiting hiw]
    have hbefore := h.age_le_limit i hwaiting
    omega

end Runs

end SpVision.Aging
