import Mathlib.Data.List.Basic

set_option autoImplicit false

/-!
# Logs

What threads do to each other is a list of events in the order in which they came. An event is right or wrong by those
before it; a thread knows what held when it last did something.
-/
namespace SpVision.Logs

variable {ε : Type}

/-- Every event is right after those before it. -/
def Right (right : List ε → ε → Prop) (log : List ε) : Prop :=
  ∀ before e after, log = before ++ e :: after → right before e

/-- What held at a time after which only such events came. -/
def Since (quiet : ε → Prop) (held : List ε → Prop) (log : List ε) : Prop :=
  ∃ past rest, log = past ++ rest ∧ (∀ e ∈ rest, quiet e) ∧ held past

variable {right : List ε → ε → Prop} {quiet : ε → Prop} {held held' : List ε → Prop} {log : List ε} {e : ε}

theorem right_nil : Right right [] := by
  intro before e after h
  exact absurd (congrArg List.length h) (by simp)

theorem Right.concat (h : Right right log) (he : right log e) : Right right (log ++ [e]) := by
  intro before e' after hlog
  rcases List.eq_nil_or_concat after with rfl | ⟨rest, last, rfl⟩
  · obtain ⟨rfl, hlast⟩ := List.append_inj' hlog rfl
    obtain rfl := (List.cons.inj hlast).1
    exact he
  · rw [List.concat_eq_append, ← List.cons_append, ← List.append_assoc] at hlog
    exact h before e' rest (List.append_inj' hlog rfl).1

theorem Since.now (h : held log) : Since quiet held log := ⟨log, [], (List.append_nil log).symm, nofun, h⟩

theorem Since.concat (h : Since quiet held log) (he : quiet e) : Since quiet held (log ++ [e]) := by
  obtain ⟨past, rest, rfl, hrest, hheld⟩ := h
  refine ⟨past, rest ++ [e], List.append_assoc _ _ _, fun e' he' => ?_, hheld⟩
  rcases List.mem_append.mp he' with hmem | hmem
  · exact hrest e' hmem
  · rwa [List.mem_singleton.mp hmem]

theorem Since.imp (h : Since quiet held log) (himp : ∀ past, held past → held' past) : Since quiet held' log := by
  obtain ⟨past, rest, hlog, hrest, hheld⟩ := h
  exact ⟨past, rest, hlog, hrest, himp past hheld⟩

end SpVision.Logs
