import Mathlib.Tactic

set_option autoImplicit false

/-!
# Incremental readers of a symbol stream

A reader looks at the content of a receive buffer, emits outputs, and leaves a
remainder for the next call. Symbols arrive in chunks and are stored one at a
time in a buffer of fixed capacity that is emptied when a symbol finds it full.
A remainder is always the part of the stream that directly precedes the next
symbol to arrive, so stream offsets are recovered from lengths.
-/
namespace SpVision.Incremental

variable {α β : Type*}

def absorb (cap : ℕ) : List α → List α → List α
  | b, [] => b
  | b, x :: xs => if b.length < cap then absorb cap (b ++ [x]) xs else absorb cap [] xs

def Overflows (cap : ℕ) : List α → List α → Prop
  | _, [] => False
  | b, x :: xs => if b.length < cap then Overflows cap (b ++ [x]) xs else True

theorem overflows_iff (cap : ℕ) (b c : List α) (hb : b.length ≤ cap) :
    Overflows cap b c ↔ cap < b.length + c.length := by
  induction c generalizing b with
  | nil => simp [Overflows, hb]
  | cons x xs ih =>
    unfold Overflows
    split_ifs with h
    · rw [ih _ (by simpa using h)]
      simp only [List.length_append, List.length_cons, List.length_nil]
      omega
    · simp only [List.length_cons, true_iff]
      omega

theorem absorb_of_fits (cap : ℕ) (b c : List α) (h : b.length + c.length ≤ cap) :
    absorb cap b c = b ++ c := by
  induction c generalizing b with
  | nil => simp [absorb]
  | cons x xs ih =>
    simp only [List.length_cons] at h
    rw [absorb, if_pos (by omega), ih _ (by simp only [List.length_append, List.length_singleton]; omega)]
    simp

/-- The buffer holds the most recent symbols, also after overflows. -/
theorem absorb_suffix (cap : ℕ) (b c : List α) : absorb cap b c <:+ b ++ c := by
  induction c generalizing b with
  | nil => simp [absorb]
  | cons x xs ih =>
    unfold absorb
    split_ifs
    · simpa using ih (b ++ [x])
    · have h := ih []
      rw [List.nil_append] at h
      exact h.trans ((List.suffix_cons x xs).trans (List.suffix_append b _))

/-- From the stream offset of the buffer's first symbol and the buffer, the outputs and
    the remainder. -/
abbrev Reader (α β : Type*) := ℕ → List α → List β × List α

structure Progress (α β : Type*) where
  out : List β
  offset : ℕ
  rest : List α

namespace Reader

variable (r : Reader α β) (cap : ℕ)

def call (offset : ℕ) (b c : List α) : Progress α β :=
  let b' := absorb cap b c
  let offset' := offset + (b ++ c).length - b'.length
  let d := r offset' b'
  ⟨d.1, offset' + b'.length - d.2.length, d.2⟩

def feed : ℕ → List α → List (List α) → Progress α β
  | offset, b, [] => ⟨[], offset, b⟩
  | offset, b, c :: cs =>
    let s := r.call cap offset b c
    let t := feed s.offset s.rest cs
    ⟨s.out ++ t.out, t.offset, t.rest⟩

def Fits : ℕ → List α → List (List α) → Prop
  | _, _, [] => True
  | offset, b, c :: cs => b.length + c.length ≤ cap ∧
      Fits (r.call cap offset b c).offset (r.call cap offset b c).rest cs

/-- At every call, `P` relates the buffer that is read to the symbols still to arrive. -/
def Along (P : List α → List α → Prop) : ℕ → List α → List (List α) → Prop
  | _, _, [] => True
  | offset, b, c :: cs => P (absorb cap b c) cs.flatten ∧
      Along P (r.call cap offset b c).offset (r.call cap offset b c).rest cs

end Reader

def Reader.KeepsSuffix (r : Reader α β) : Prop := ∀ offset b, (r offset b).2 <:+ b

/-- `r` reads a prefix of `parse`, a description of the whole stream, unless `P` fails
    for the buffer and the symbols that follow it. -/
def Reader.Resumes (r : Reader α β) (parse : ℕ → List α → List β)
    (P : List α → List α → Prop) : Prop :=
  ∀ offset b x, P b x →
    parse offset (b ++ x) =
      (r offset b).1 ++ parse (offset + b.length - (r offset b).2.length) ((r offset b).2 ++ x)

theorem Reader.call_of_fits (r : Reader α β) {cap : ℕ} (offset : ℕ) {b c : List α}
    (h : b.length + c.length ≤ cap) :
    r.call cap offset b c = ⟨(r offset (b ++ c)).1,
      offset + (b ++ c).length - (r offset (b ++ c)).2.length, (r offset (b ++ c)).2⟩ := by
  simp [call, absorb_of_fits cap b c h]

/-- However the stream is cut into chunks, a resuming reader emits the parse of the
    whole stream, up to the parse of its remainder. -/
theorem Reader.feed_parse {r : Reader α β} {parse : ℕ → List α → List β}
    {P : List α → List α → Prop} (hr : r.Resumes parse P) (cap offset : ℕ) (b : List α)
    (cs : List (List α)) (hfit : r.Fits cap offset b cs) (hP : r.Along cap P offset b cs) :
    parse offset (b ++ cs.flatten) =
      (r.feed cap offset b cs).out ++
        parse (r.feed cap offset b cs).offset (r.feed cap offset b cs).rest := by
  induction cs generalizing offset b with
  | nil => simp [feed]
  | cons c cs ih =>
    obtain ⟨hlen, hfit⟩ := hfit
    obtain ⟨hc, hP⟩ := hP
    rw [absorb_of_fits cap b c hlen] at hc
    have hcall := r.call_of_fits offset hlen
    rw [hcall] at hfit hP
    rw [List.flatten_cons, ← List.append_assoc, hr offset (b ++ c) cs.flatten hc, ih _ _ hfit hP]
    simp only [feed, hcall, List.append_assoc]

theorem Reader.call_received {r : Reader α β} (hr : r.KeepsSuffix) (cap offset : ℕ) (b c : List α) :
    (r.call cap offset b c).offset + (r.call cap offset b c).rest.length =
      offset + b.length + c.length := by
  have h1 := (absorb_suffix cap b c).length_le
  have h2 := (hr (offset + (b ++ c).length - (absorb cap b c).length) (absorb cap b c)).length_le
  simp only [call, List.length_append] at h1 h2 ⊢
  omega

/-- What holds of every remainder a call leaves holds of the remainder of a run. -/
theorem Reader.feed_rest (r : Reader α β) {P : List α → Prop} (hr : ∀ offset b, P (r offset b).2)
    (cap offset : ℕ) (b : List α) (cs : List (List α)) (hb : P b) :
    P (r.feed cap offset b cs).rest := by
  induction cs generalizing offset b with
  | nil => exact hb
  | cons c cs ih => exact ih _ _ (hr _ _)

/-! ### Outputs that stand for stretches of the stream -/

variable (start size : β → ℕ)

/-- The stretches lie between the offsets `lo` and `hi`, disjoint and in stream order. -/
def Ordered : ℕ → List β → ℕ → Prop
  | lo, [], hi => lo ≤ hi
  | lo, s :: ss, hi => lo ≤ start s ∧ Ordered (start s + size s) ss hi

variable {start size}

theorem Ordered.le {lo hi : ℕ} {ss : List β} (h : Ordered start size lo ss hi) : lo ≤ hi := by
  induction ss generalizing lo with
  | nil => exact h
  | cons s ss ih => exact h.1.trans ((Nat.le_add_right _ _).trans (ih h.2))

theorem Ordered.mono {lo lo' hi hi' : ℕ} {ss : List β} (h : Ordered start size lo ss hi)
    (hlo : lo' ≤ lo) (hhi : hi ≤ hi') : Ordered start size lo' ss hi' := by
  induction ss generalizing lo lo' with
  | nil => exact hlo.trans (Nat.le_trans h hhi)
  | cons s ss ih => exact ⟨hlo.trans h.1, ih h.2 (le_refl _)⟩

theorem Ordered.append {lo mid hi : ℕ} {ss ts : List β} (hs : Ordered start size lo ss mid)
    (ht : Ordered start size mid ts hi) : Ordered start size lo (ss ++ ts) hi := by
  induction ss generalizing lo with
  | nil => exact ht.mono hs (le_refl _)
  | cons s ss ih => exact ⟨hs.1, ih hs.2⟩

theorem Ordered.mem {lo hi : ℕ} {ss : List β} (h : Ordered start size lo ss hi) {s : β}
    (hs : s ∈ ss) : lo ≤ start s ∧ start s + size s ≤ hi := by
  induction ss generalizing lo with
  | nil => cases hs
  | cons t ss ih =>
    rcases List.mem_cons.mp hs with rfl | hs
    · exact ⟨h.1, h.2.le⟩
    · obtain ⟨h1, h2⟩ := ih h.2 hs
      exact ⟨h.1.trans ((Nat.le_add_right _ _).trans h1), h2⟩

theorem Ordered.pairwise {lo hi : ℕ} {ss : List β} (h : Ordered start size lo ss hi) :
    ss.Pairwise fun s t => start s + size s ≤ start t := by
  induction ss generalizing lo with
  | nil => exact .nil
  | cons s ss ih => exact .cons (fun t ht => (h.2.mem ht).1) (ih h.2)

/-- Outputs stand, in order, for stretches of the symbols that the call consumes. -/
def Reader.Ordered (r : Reader α β) (start size : β → ℕ) : Prop :=
  ∀ offset b, Incremental.Ordered start size offset (r offset b).1
    (offset + b.length - (r offset b).2.length)

theorem Reader.call_ordered {r : Reader α β} (hr : r.Ordered start size) (cap offset : ℕ)
    (b c : List α) :
    Incremental.Ordered start size offset (r.call cap offset b c).out (r.call cap offset b c).offset := by
  have h := (absorb_suffix cap b c).length_le
  exact (hr (offset + (b ++ c).length - (absorb cap b c).length) (absorb cap b c)).mono
    (by omega) (le_refl _)

/-- Over a whole run, overflows included, outputs stand for disjoint stretches in
    stream order. -/
theorem Reader.feed_ordered {r : Reader α β} (hr : r.Ordered start size) (cap offset : ℕ)
    (b : List α) (cs : List (List α)) :
    Incremental.Ordered start size offset (r.feed cap offset b cs).out (r.feed cap offset b cs).offset := by
  induction cs generalizing offset b with
  | nil => exact le_refl offset
  | cons c cs ih => exact (call_ordered hr cap offset b c).append (ih _ _)

/-- What is true of an output and the symbols from its start on, as far as they are
    buffered, is true of the output and the stream. -/
theorem Reader.feed_local {r : Reader α β} (hsuffix : r.KeepsSuffix)
    {Q : β → List α → Prop} (hstable : ∀ s x y, Q s x → Q s (x ++ y))
    (hr : ∀ offset b, ∀ s ∈ (r offset b).1, ∃ i, start s = offset + i ∧ i ≤ b.length ∧ Q s (b.drop i))
    (cap : ℕ) (stream : List α) (offset : ℕ) (b : List α) (cs : List (List α))
    (hstream : stream.drop offset = b ++ cs.flatten) :
    ∀ s ∈ (r.feed cap offset b cs).out, Q s (stream.drop (start s)) := by
  induction cs generalizing offset b with
  | nil => simp [feed]
  | cons c cs ih =>
    obtain ⟨gone, hgone⟩ := absorb_suffix cap b c
    have hlen : (b ++ c).length = gone.length + (absorb cap b c).length := by
      rw [← hgone, List.length_append]
    have hoff : offset + (b ++ c).length - (absorb cap b c).length = offset + gone.length := by omega
    have hbuf : stream.drop (offset + gone.length) = absorb cap b c ++ cs.flatten := by
      rw [← List.drop_drop, hstream, List.flatten_cons, ← List.append_assoc, ← hgone,
        List.append_assoc, List.drop_left]
    intro s hs
    simp only [feed, List.mem_append] at hs
    rcases hs with hs | hs
    · simp only [call, hoff] at hs
      obtain ⟨i, hi, hib, hq⟩ := hr _ _ s hs
      rw [hi, ← List.drop_drop, hbuf, List.drop_append_of_le_length hib]
      exact hstable _ _ _ hq
    · refine ih _ _ ?_ s hs
      obtain ⟨read, hread⟩ := hsuffix (offset + gone.length) (absorb cap b c)
      have hlen' := congrArg List.length hread
      rw [List.length_append] at hlen'
      simp only [call, hoff]
      have hoff' : offset + gone.length + (absorb cap b c).length -
          (r (offset + gone.length) (absorb cap b c)).2.length = offset + gone.length + read.length := by
        omega
      rw [hoff', ← List.drop_drop, hbuf]
      conv_lhs => rw [← hread]
      rw [List.append_assoc, List.drop_left]

end SpVision.Incremental
