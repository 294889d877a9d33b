import Mathlib.Data.List.FinRange
import Mathlib.Data.List.Sort
import Mathlib.Order.Defs.LinearOrder

set_option autoImplicit false

/-!
# Sorting by comparisons

A sort that only compares is a tree of comparisons for each length. Elements that compare equal
may come out in any order. The comparison may be partial: the sort then goes wrong when it asks
for a comparison that is not there.
-/
namespace SpVision

/-- A tree of comparisons between places of the input, with an order of the places at each leaf. -/
inductive CompareTree (ι : Type)
  | done (order : List ι)
  | ask (i j : ι) (less notLess : CompareTree ι)

namespace CompareTree

variable {ι : Type}

def run (lt : ι → ι → Bool) : CompareTree ι → List ι
  | .done order => order
  | .ask i j less notLess => if lt i j then less.run lt else notLess.run lt

def asked (lt : ι → ι → Bool) : CompareTree ι → List ι
  | .done _ => []
  | .ask i j less notLess => i :: j :: if lt i j then less.asked lt else notLess.asked lt

def run? (lt? : ι → ι → Option Bool) : CompareTree ι → Option (List ι)
  | .done order => some order
  | .ask i j less notLess => (lt? i j).bind fun b => if b then less.run? lt? else notLess.run? lt?

theorem run_congr {lt lt' : ι → ι → Bool} {tree : CompareTree ι}
    (h : ∀ i ∈ tree.asked lt, ∀ j ∈ tree.asked lt, lt' i j = lt i j) : tree.run lt' = tree.run lt := by
  induction tree with
  | done order => rfl
  | ask i j less notLess ihless ihnot =>
    have hij : lt' i j = lt i j := h i (by simp [asked]) j (by simp [asked])
    rw [run, run, hij]
    cases hlt : lt i j
    · rw [if_neg Bool.false_ne_true, if_neg Bool.false_ne_true]
      exact ihnot fun a ha b hb => h a (by simp [asked, hlt, ha]) b (by simp [asked, hlt, hb])
    · rw [if_pos rfl, if_pos rfl]
      exact ihless fun a ha b hb => h a (by simp [asked, hlt, ha]) b (by simp [asked, hlt, hb])

/-- The places whose key is there can be compared. -/
def byKey? {κ : Type} [LinearOrder κ] (key : ι → Option κ) (i j : ι) : Option Bool :=
  (key i).bind fun x => (key j).map fun y => decide (x < y)

/-- A comparison of keys that puts a key in place of those that are missing. -/
def byKey {κ : Type} [LinearOrder κ] (missing : κ) (key : ι → Option κ) (i j : ι) : Bool :=
  (key i).getD missing < (key j).getD missing

theorem run?_byKey {κ : Type} [LinearOrder κ] (missing : κ) (key : ι → Option κ) (tree : CompareTree ι) :
    tree.run? (byKey? key) =
      if ∀ i ∈ tree.asked (byKey missing key), (key i).isSome then some (tree.run (byKey missing key)) else none := by
  induction tree with
  | done order => simp [run?, run, asked]
  | ask i j less notLess ihless ihnot =>
    rw [run?, run, asked, byKey?]
    cases hi : key i with
    | none => simp [hi]
    | some x =>
      cases hj : key j with
      | none => simp [hi, hj]
      | some y =>
        have hlt : byKey missing key i j = decide (x < y) := by rw [byKey, hi, hj]; rfl
        rw [hlt, Option.bind_some, Option.map_some, Option.bind_some]
        by_cases hxy : x < y
        · simp [hxy, hi, hj, ihless]
        · simp [hxy, hi, hj, ihnot]

end CompareTree

/-- What a comparison has to satisfy. -/
structure StrictWeak {ι : Type} (lt : ι → ι → Bool) : Prop where
  asymm : ∀ a b, lt a b = true → lt b a = false
  split : ∀ a b c, lt a c = true → lt a b = true ∨ lt b c = true

/-- The same of the elements of a list. -/
structure StrictWeakOn {α : Type} (l : List α) (lt : α → α → Bool) : Prop where
  asymm : ∀ a ∈ l, ∀ b ∈ l, lt a b = true → lt b a = false
  split : ∀ a ∈ l, ∀ b ∈ l, ∀ c ∈ l, lt a c = true → lt a b = true ∨ lt b c = true

instance {α : Type} (l : List α) (lt : α → α → Bool) : Decidable (StrictWeakOn l lt) :=
  decidable_of_iff ((∀ a ∈ l, ∀ b ∈ l, lt a b = true → lt b a = false) ∧
      ∀ a ∈ l, ∀ b ∈ l, ∀ c ∈ l, lt a c = true → lt a b = true ∨ lt b c = true)
    ⟨fun h => ⟨h.1, h.2⟩, fun h => ⟨h.asymm, h.split⟩⟩

theorem StrictWeakOn.get {α : Type} {l : List α} {lt : α → α → Bool} (h : StrictWeakOn l lt) :
    StrictWeak fun i j : Fin l.length => lt (l.get i) (l.get j) where
  asymm i j := h.asymm _ (l.get_mem i) _ (l.get_mem j)
  split i j k := h.split _ (l.get_mem i) _ (l.get_mem j) _ (l.get_mem k)

theorem strictWeakOn_map {α β : Type} (g : α → β) {l : List α} {lt : β → β → Bool} :
    StrictWeakOn (l.map g) lt ↔ StrictWeakOn l fun a b => lt (g a) (g b) := by
  constructor
  · rintro ⟨hasymm, hsplit⟩
    simp only [List.forall_mem_map] at hasymm hsplit
    exact ⟨hasymm, hsplit⟩
  · rintro ⟨hasymm, hsplit⟩
    constructor
    · simpa only [List.forall_mem_map] using hasymm
    · simpa only [List.forall_mem_map] using hsplit

theorem strictWeak_byKey {ι κ : Type} [LinearOrder κ] (missing : κ) (key : ι → Option κ) :
    StrictWeak (CompareTree.byKey missing key) where
  asymm a b h := by
    simp only [CompareTree.byKey, decide_eq_true_eq, decide_eq_false_iff_not, not_lt] at h ⊢
    exact h.le
  split a b c h := by
    simp only [CompareTree.byKey, decide_eq_true_eq] at h ⊢
    exact (lt_or_ge _ _).imp_right fun hle => hle.trans_lt h

/-- A sort that compares; a range of at most one element needs no comparison. -/
structure ComparisonSort where
  tree : (n : ℕ) → CompareTree (Fin n)
  short : ∀ n ≤ 1, ∃ order, tree n = .done order
  perm : ∀ n lt, StrictWeak lt → ((tree n).run lt).Perm (List.finRange n)
  sorted : ∀ n lt, StrictWeak lt → ((tree n).run lt).Pairwise fun i j => lt j i = false

namespace ComparisonSort

variable (s : ComparisonSort)

/-- The place `i` is moved before or behind all others. -/
def least {n : ℕ} (i : Fin n) (lt : Fin n → Fin n → Bool) (a b : Fin n) : Bool := b ≠ i ∧ (a = i ∨ lt a b)

def greatest {n : ℕ} (i : Fin n) (lt : Fin n → Fin n → Bool) (a b : Fin n) : Bool := a ≠ i ∧ (b = i ∨ lt a b)

theorem strictWeak_least {n : ℕ} (i : Fin n) {lt : Fin n → Fin n → Bool} (h : StrictWeak lt) :
    StrictWeak (least i lt) where
  asymm a b hab := by
    simp only [least, decide_eq_true_eq, decide_eq_false_iff_not] at hab ⊢
    rintro ⟨hai, hba⟩
    rcases hab.2 with rfl | hlt
    · exact hai rfl
    · rcases hba with rfl | hba
      · exact hab.1 rfl
      · exact absurd ((h.asymm a b hlt).symm.trans hba) nofun
  split a b c hac := by
    simp only [least, decide_eq_true_eq] at hac ⊢
    by_cases hb : b = i
    · exact .inr ⟨hac.1, .inl hb⟩
    · rcases hac.2 with ha | hlt
      · exact .inl ⟨hb, .inl ha⟩
      · exact (h.split a b c hlt).imp (fun hab => ⟨hb, .inr hab⟩) fun hbc => ⟨hac.1, .inr hbc⟩

theorem strictWeak_greatest {n : ℕ} (i : Fin n) {lt : Fin n → Fin n → Bool} (h : StrictWeak lt) :
    StrictWeak (greatest i lt) where
  asymm a b hab := by
    simp only [greatest, decide_eq_true_eq, decide_eq_false_iff_not] at hab ⊢
    rintro ⟨hbi, hba⟩
    rcases hab.2 with rfl | hlt
    · exact hbi rfl
    · rcases hba with rfl | hba
      · exact hab.1 rfl
      · exact absurd ((h.asymm a b hlt).symm.trans hba) nofun
  split a b c hac := by
    simp only [greatest, decide_eq_true_eq] at hac ⊢
    by_cases hb : b = i
    · exact .inl ⟨hac.1, .inl hb⟩
    · rcases hac.2 with hc | hlt
      · exact .inr ⟨hb, .inl hc⟩
      · exact (h.split a b c hlt).imp (fun hab => ⟨hac.1, .inr hab⟩) fun hbc => ⟨hb, .inr hbc⟩

/-- A sort of two or more elements compares every one of them. -/
theorem mem_asked {n : ℕ} (hn : 2 ≤ n) {lt : Fin n → Fin n → Bool} (h : StrictWeak lt) (i : Fin n) :
    i ∈ (s.tree n).asked lt := by
  by_contra hi
  have hother : ∀ a ∈ (s.tree n).asked lt, a ≠ i := by
    rintro a ha rfl
    exact hi ha
  -- the run cannot tell whether `i` is the least or the greatest
  have hleast : (s.tree n).run (least i lt) = (s.tree n).run lt :=
    CompareTree.run_congr fun a ha b hb => by simp [least, hother a ha, hother b hb]
  have hgreatest : (s.tree n).run (greatest i lt) = (s.tree n).run lt :=
    CompareTree.run_congr fun a ha b hb => by simp [greatest, hother a ha, hother b hb]
  obtain ⟨j, hj⟩ : ∃ j : Fin n, j ≠ i := by
    by_cases hzero : i.val = 0
    · exact ⟨⟨1, by omega⟩, fun heq => by simp [← heq] at hzero⟩
    · exact ⟨⟨0, by omega⟩, fun heq => hzero (by simp [← heq])⟩
  have hperm := s.perm n lt h
  have hfirst := s.sorted n _ (strictWeak_least i h)
  have hlast := s.sorted n _ (strictWeak_greatest i h)
  rw [hleast] at hfirst
  rw [hgreatest] at hlast
  have hmemi : i ∈ (s.tree n).run lt := hperm.mem_iff.mpr (List.mem_finRange i)
  have hmemj : j ∈ (s.tree n).run lt := hperm.mem_iff.mpr (List.mem_finRange j)
  obtain ⟨pre, post, hsplit⟩ := List.append_of_mem hmemi
  rw [hsplit] at hfirst hlast hmemj
  rw [List.pairwise_append, List.pairwise_cons] at hfirst hlast
  rcases List.mem_append.mp hmemj with hbefore | hafter
  · have hless := hfirst.2.2 j hbefore i (List.mem_cons_self ..)
    simp [least, hj] at hless
  · have hless := hlast.2.1.1 j ((List.mem_cons.mp hafter).resolve_left hj)
    simp [greatest, hj] at hless

/-- A sort by any comparison. It goes wrong if that is no strict weak order of the elements. -/
def sort? {α : Type} (lt : α → α → Bool) (l : List α) : Option (List α) :=
  if StrictWeakOn l lt then some (((s.tree l.length).run fun i j => lt (l.get i) (l.get j)).map l.get) else none

theorem sort?_eq_some {α : Type} {lt : α → α → Bool} {l sorted : List α} (h : s.sort? lt l = some sorted) :
    StrictWeakOn l lt ∧ sorted.Perm l := by
  unfold sort? at h
  split_ifs at h with hweak
  obtain rfl := Option.some.inj h
  have hperm := (s.perm l.length _ hweak.get).map l.get
  rw [List.map_get_finRange] at hperm
  exact ⟨hweak, hperm⟩

theorem sort?_pairwise {α : Type} {lt : α → α → Bool} {l sorted : List α} (h : s.sort? lt l = some sorted) :
    sorted.Pairwise fun a b => lt b a = false := by
  unfold sort? at h
  split_ifs at h with hweak
  obtain rfl := Option.some.inj h
  exact List.pairwise_map.mpr (s.sorted l.length _ hweak.get)

/-- What is less than all others comes first. -/
theorem sort?_head {α : Type} {lt : α → α → Bool} {l sorted : List α} {x : α} (h : s.sort? lt l = some sorted)
    (hx : x ∈ l) (hleast : ∀ a ∈ l, a ≠ x → lt x a = true) : ∃ rest, sorted = x :: rest := by
  obtain ⟨-, hperm⟩ := s.sort?_eq_some h
  have hmem : x ∈ sorted := hperm.mem_iff.mpr hx
  have hordered := s.sort?_pairwise h
  cases sorted with
  | nil => exact absurd hmem List.not_mem_nil
  | cons first rest =>
    have hfirst : first = x := by
      by_contra hother
      have hlater := (List.mem_cons.mp hmem).resolve_left (Ne.symm hother)
      have hnot := (List.pairwise_cons.mp hordered).1 x hlater
      have hless := hleast first (hperm.mem_iff.mp List.mem_cons_self) hother
      exact Bool.false_ne_true (hnot.symm.trans hless)
    exact ⟨rest, by rw [hfirst]⟩

theorem exists_sort? {α : Type} {lt : α → α → Bool} {l : List α} (h : StrictWeakOn l lt) :
    ∃ sorted, s.sort? lt l = some sorted := ⟨_, if_pos h⟩

section Lists

variable {α κ : Type} [LinearOrder κ]

def sortByKey? (key : α → Option κ) (l : List α) : Option (List α) :=
  ((s.tree l.length).run? (CompareTree.byKey? fun i => key (l.get i))).map (·.map l.get)

theorem sortByKey?_nil (key : α → Option κ) : s.sortByKey? key [] = some [] := by
  obtain ⟨order, htree⟩ := s.short 0 (Nat.zero_le 1)
  have horder : order = [] := List.eq_nil_iff_forall_not_mem.mpr fun i => i.elim0
  change ((s.tree 0).run? _).map _ = some []
  rw [htree, horder]
  rfl

/-- The sort goes through if there is nothing to compare or no key is missing. -/
theorem sortByKey?_isSome_iff (missing : κ) (key : α → Option κ) (l : List α) :
    (s.sortByKey? key l).isSome ↔ l.length ≤ 1 ∨ ∀ a ∈ l, (key a).isSome := by
  rw [sortByKey?, Option.isSome_map, CompareTree.run?_byKey missing]
  by_cases hlen : l.length ≤ 1
  · obtain ⟨order, htree⟩ := s.short l.length hlen
    rw [htree]
    simp [CompareTree.asked, hlen]
  · have hasked : (∀ i ∈ (s.tree l.length).asked (CompareTree.byKey missing fun i => key (l.get i)),
        (key (l.get i)).isSome) ↔ ∀ a ∈ l, (key a).isSome := by
      constructor
      · intro hall a ha
        obtain ⟨i, rfl⟩ := List.get_of_mem ha
        exact hall i (s.mem_asked (by omega) (strictWeak_byKey missing _) i)
      · exact fun hall i _ => hall _ (List.get_mem ..)
    rw [or_iff_right hlen, ← hasked]
    split_ifs with hall
    · exact iff_of_true rfl hall
    · exact iff_of_false Bool.false_ne_true hall

theorem sortByKey?_eq_some (missing : κ) {key : α → Option κ} {l sorted : List α}
    (h : s.sortByKey? key l = some sorted) :
    sorted.Perm l ∧ sorted.Pairwise fun a b => (key a).getD missing ≤ (key b).getD missing := by
  obtain ⟨order, hrun, rfl⟩ := Option.map_eq_some_iff.mp h
  rw [CompareTree.run?_byKey missing] at hrun
  split_ifs at hrun with hall
  obtain rfl := Option.some.inj hrun
  have hweak := strictWeak_byKey missing fun i => key (l.get i)
  constructor
  · have hperm := (s.perm l.length _ hweak).map l.get
    rwa [List.map_get_finRange] at hperm
  · rw [List.pairwise_map]
    refine (s.sorted l.length _ hweak).imp ?_
    intro i j hij
    exact not_lt.mp (of_decide_eq_false hij)

end Lists

/-! ### Insertion sort -/

/-- The place `i` is inserted into an order, which is then passed on. -/
def insertTree {ι : Type} (i : ι) : List ι → (List ι → CompareTree ι) → CompareTree ι
  | [], next => next [i]
  | j :: order, next => .ask j i (insertTree i order fun order => next (j :: order)) (next (i :: j :: order))

def insertionTree {ι : Type} : List ι → (List ι → CompareTree ι) → CompareTree ι
  | [], next => next []
  | i :: rest, next => insertionTree rest fun order => insertTree i order next

theorem run_insertTree {ι : Type} (lt : ι → ι → Bool) (i : ι) (order : List ι) (next : List ι → CompareTree ι) :
    (insertTree i order next).run lt = (next (order.orderedInsert (fun a b => lt b a = false) i)).run lt := by
  induction order generalizing next with
  | nil => rfl
  | cons j order ih =>
    rw [insertTree, CompareTree.run, List.orderedInsert_cons]
    cases lt j i
    · rw [if_neg Bool.false_ne_true, if_pos rfl]
    · rw [if_pos rfl, if_neg Bool.true_eq_false.mp, ih]

theorem run_insertionTree {ι : Type} (lt : ι → ι → Bool) (places : List ι) (next : List ι → CompareTree ι) :
    (insertionTree places next).run lt = (next (places.insertionSort fun a b => lt b a = false)).run lt := by
  induction places generalizing next with
  | nil => rfl
  | cons i rest ih => rw [insertionTree, ih, run_insertTree, List.insertionSort_cons]

def insertion : ComparisonSort where
  tree n := insertionTree (List.finRange n) .done
  short n hn := by
    match n, hn with
    | 0, _ => exact ⟨[], rfl⟩
    | 1, _ => exact ⟨[0], rfl⟩
  perm n lt _ := by
    rw [run_insertionTree]
    exact List.perm_insertionSort _ _
  sorted n lt h := by
    rw [run_insertionTree]
    have htotal : Std.Total fun a b : Fin n => lt b a = false := ⟨fun a b => by
      cases hba : lt b a with
      | false => exact .inl rfl
      | true => exact .inr (h.asymm b a hba)⟩
    have htrans : IsTrans (Fin n) fun a b => lt b a = false := ⟨fun a b c hba hcb => by
      cases hca : lt c a with
      | false => rfl
      | true =>
        rcases h.split c b a hca with hcb' | hba'
        · exact hcb'.symm.trans hcb
        · exact hba'.symm.trans hba⟩
    exact List.pairwise_insertionSort _ _

end ComparisonSort

end SpVision
