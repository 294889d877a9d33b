import Mathlib.Data.List.Infix
import Mathlib.Order.Lattice

set_option autoImplicit false

/-!
# Lists with increasing keys
-/
namespace SpVision

variable {σ κ : Type} [LinearOrder κ]

def Increasing (key : σ → κ) (l : List σ) : Prop := l.Pairwise fun x y => key x < key y

namespace Increasing

variable {key : σ → κ} {l l' : List σ}

theorem sublist (h : Increasing key l) (hsub : l'.Sublist l) : Increasing key l' := List.Pairwise.sublist hsub h

theorem lt (h : Increasing key (l ++ l')) {x y : σ} (hx : x ∈ l) (hy : y ∈ l') : key x < key y :=
  (List.pairwise_append.1 h).2.2 x hx y hy

theorem notMem (h : Increasing key (l ++ l')) {x : σ} (hx : x ∈ l') : x ∉ l :=
  fun hl => lt_irrefl _ (h.lt hl hx)

theorem eq_of_key_eq (h : Increasing key l) {x y : σ} (hx : x ∈ l) (hy : y ∈ l) (hkey : key x = key y) : x = y := by
  induction l with
  | nil => cases hx
  | cons z rest ih =>
    obtain ⟨hlt, hrest⟩ := List.pairwise_cons.1 h
    rcases List.mem_cons.1 hx with rfl | hxrest <;> rcases List.mem_cons.1 hy with rfl | hyrest
    · rfl
    · exact absurd hkey (hlt y hyrest).ne
    · exact absurd hkey (hlt x hxrest).ne'
    · exact ih hrest hxrest hyrest

theorem le_head (h : Increasing key l) {x y : σ} (hhead : l.head? = some x) (hy : y ∈ l) : key x ≤ key y := by
  cases l with
  | nil => cases hhead
  | cons z rest =>
    cases hhead
    rcases List.mem_cons.1 hy with rfl | hy
    · exact le_rfl
    · exact ((List.pairwise_cons.1 h).1 y hy).le

theorem consecutive (h : Increasing key l) {p n y : σ} (hpair : [p, n] <:+: l) (hy : y ∈ l) :
    key y ≤ key p ∨ key n ≤ key y := by
  obtain ⟨pre, post, rfl⟩ := hpair
  rw [List.append_assoc] at h hy
  rcases List.mem_append.1 hy with hy | hy
  · exact .inl (h.lt hy (by simp)).le
  · have htail : Increasing key (p :: n :: post) := (List.pairwise_append.1 h).2.1
    rcases List.mem_cons.1 hy with rfl | hy
    · exact .inl le_rfl
    · exact .inr (le_head (List.pairwise_cons.1 htail).2 rfl hy)

end Increasing

end SpVision
