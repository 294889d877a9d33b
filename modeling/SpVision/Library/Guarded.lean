import Mathlib.Data.Nat.Notation
import Mathlib.Tactic.SplitIfs

set_option autoImplicit false

/-!
# Reads below a limit

A program that reads a buffer at computed offsets, and the same program with each read
guarded. If every guard holds, the guarded program computes what the plain one does.
-/
namespace SpVision.Guarded

variable {α β : Type}

/-- The `size` cells at `off`, and nothing else, are read; `none` if one of them is not below the limit. -/
def read (limit size : ℕ) (f : List β → α) (xs : List β) (off : ℕ) : Option α :=
  if off + size ≤ limit then some (f ((xs.drop off).take size)) else none

/-- A reader of `size` cells. -/
def Reads (size : ℕ) (f : List β → α) : Prop := ∀ xs, f (xs.take size) = f xs

/-- A computation that runs under a condition only. -/
def when (c : Prop) [Decidable c] (x : Option α) (other : α) : Option α := if c then x else some other

theorem read_eq {limit size off : ℕ} {f : List β → α} (hf : Reads size f) (xs : List β)
    (h : off + size ≤ limit) : read limit size f xs off = some (f (xs.drop off)) := by
  rw [read, if_pos h, hf]

theorem when_eq {c : Prop} [Decidable c] {x : Option α} {a : α} (other : α) (h : c → x = some a) :
    when c x other = some (if c then a else other) := by
  unfold when
  split_ifs with hc
  · exact h hc
  · rfl

theorem read_span {limit size off : ℕ} (f : List β → α) (xs : List β) (h : off + size ≤ limit) :
    read limit size f xs off = some (f ((xs.drop off).take size)) := if_pos h

/-- A difference of unsigned numbers; `none` if it wraps. -/
def sub (a b : ℕ) : Option ℕ := if b ≤ a then some (a - b) else none

theorem sub_eq {a b : ℕ} (h : b ≤ a) : sub a b = some (a - b) := if_pos h

end SpVision.Guarded
