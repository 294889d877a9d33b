import Mathlib.Data.List.Basic

set_option autoImplicit false

/-!
# What holds in all of a run

A state machine takes inputs that are legal where they come. An invariant says in which steps a property of
its states is kept.
-/
namespace SpVision.AllRuns

variable {σ ι : Type} (step : σ → ι → σ)

def LegalRun (legal : σ → ι → Prop) : σ → List ι → Prop
  | _, [] => True
  | s, input :: inputs => legal s input ∧ LegalRun legal (step s input) inputs

def decideLegalRun {legal : σ → ι → Prop} [∀ s, DecidablePred (legal s)] :
    (s : σ) → (inputs : List ι) → Decidable (LegalRun step legal s inputs)
  | _, [] => isTrue trivial
  | s, input :: inputs =>
    have : Decidable (LegalRun step legal (step s input) inputs) := decideLegalRun (step s input) inputs
    inferInstanceAs (Decidable (legal s input ∧ LegalRun step legal (step s input) inputs))

instance {legal : σ → ι → Prop} [∀ s, DecidablePred (legal s)] (s : σ) : DecidablePred (LegalRun step legal s) :=
  decideLegalRun step s

theorem legalRun_true (s : σ) (inputs : List ι) : LegalRun step (fun _ _ => True) s inputs := by
  induction inputs generalizing s with
  | nil => trivial
  | cons input inputs ih => exact ⟨trivial, ih _⟩

theorem legalRun_append {legal : σ → ι → Prop} {s : σ} {pre rest : List ι} :
    LegalRun step legal s (pre ++ rest) ↔
      LegalRun step legal s pre ∧ LegalRun step legal (pre.foldl step s) rest := by
  induction pre generalizing s with
  | nil => simp [LegalRun]
  | cons input pre ih => exact (and_congr_right fun _ => ih).trans and_assoc.symm

/-- In every state of a run. -/
def Always (good : σ → Prop) (s : σ) (inputs : List ι) : Prop := ∀ pre, pre <+: inputs → good (pre.foldl step s)

/-- In every step of a run. -/
def EachStep (keeps : σ → ι → Prop) (s : σ) (inputs : List ι) : Prop :=
  ∀ pre input, pre ++ [input] <+: inputs → keeps (pre.foldl step s) input

theorem eachStep_nil (keeps : σ → ι → Prop) (s : σ) : EachStep step keeps s [] := by
  intro pre input hpre
  exact absurd (List.prefix_nil.mp hpre) (by simp)

theorem always_cons {good : σ → Prop} {s : σ} {input : ι} {inputs : List ι} :
    Always step good s (input :: inputs) ↔ good s ∧ Always step good (step s input) inputs := by
  constructor
  · intro hall
    exact ⟨hall [] (List.nil_prefix ..), fun pre hpre => hall (input :: pre) (List.cons_prefix_cons.mpr ⟨rfl, hpre⟩)⟩
  · rintro ⟨hfirst, hrest⟩ pre hpre
    cases pre with
    | nil => exact hfirst
    | cons first pre =>
      obtain ⟨rfl, htail⟩ := List.cons_prefix_cons.mp hpre
      exact hrest pre htail

theorem eachStep_cons {keeps : σ → ι → Prop} {s : σ} {input : ι} {inputs : List ι} :
    EachStep step keeps s (input :: inputs) ↔ keeps s input ∧ EachStep step keeps (step s input) inputs := by
  constructor
  · intro hall
    exact ⟨hall [] input (by simp), fun pre input' hpre =>
      hall (input :: pre) input' (List.cons_prefix_cons.mpr ⟨rfl, hpre⟩)⟩
  · rintro ⟨hfirst, hrest⟩ pre input' hpre
    cases pre with
    | nil =>
      obtain rfl := (List.cons_prefix_cons.mp hpre).1
      exact hfirst
    | cons first pre =>
      obtain ⟨rfl, htail⟩ := List.cons_prefix_cons.mp hpre
      exact hrest pre input' htail

/-- Where an invariant says exactly which steps keep a property, the property holds in all of a run if and only if
    every step keeps it. -/
theorem always_iff {good inv : σ → Prop} {keeps legal : σ → ι → Prop} (hgood : ∀ s, inv s → good s)
    (hkeeps : ∀ s input, inv s → legal s input → (good (step s input) ↔ keeps s input))
    (hinv : ∀ s input, inv s → good (step s input) → inv (step s input)) {s : σ} (hs : inv s) {inputs : List ι}
    (hlegal : LegalRun step legal s inputs) : Always step good s inputs ↔ EachStep step keeps s inputs := by
  induction inputs generalizing s with
  | nil =>
    refine iff_of_true (fun pre hpre => ?_) (eachStep_nil step keeps s)
    rw [List.prefix_nil.mp hpre]
    exact hgood s hs
  | cons input inputs ih =>
    obtain ⟨hfirst, hrest⟩ := hlegal
    rw [always_cons, eachStep_cons, and_iff_right (hgood s hs), ← hkeeps s input hs hfirst]
    constructor
    · intro hall
      have hnext : good (step s input) := hall [] (List.nil_prefix ..)
      exact ⟨hnext, (ih (hinv s input hs hnext) hrest).mp hall⟩
    · rintro ⟨hnext, hall⟩
      exact (ih (hinv s input hs hnext) hrest).mpr hall

/-- Under an invariant two conditions on the steps may be exchanged. -/
theorem eachStep_congr {inv : σ → Prop} {keeps keeps' : σ → ι → Prop}
    (hinv : ∀ s input, inv s → inv (step s input)) (h : ∀ s input, inv s → (keeps s input ↔ keeps' s input))
    {s : σ} (hs : inv s) (inputs : List ι) : EachStep step keeps s inputs ↔ EachStep step keeps' s inputs := by
  induction inputs generalizing s with
  | nil => exact iff_of_true (eachStep_nil step keeps s) (eachStep_nil step keeps' s)
  | cons input inputs ih => rw [eachStep_cons, eachStep_cons, h s input hs, ih (hinv s input hs)]

/-- An invariant that every legal step keeps holds at the end of a legal run. -/
theorem inv_foldl (inv : σ → Prop) {legal : σ → ι → Prop}
    (hinv : ∀ s input, inv s → legal s input → inv (step s input)) {s : σ} (hs : inv s) {inputs : List ι}
    (hlegal : LegalRun step legal s inputs) : inv (inputs.foldl step s) := by
  induction inputs generalizing s with
  | nil => exact hs
  | cons input inputs ih => exact ih (hinv s input hs hlegal.1) hlegal.2

end SpVision.AllRuns
