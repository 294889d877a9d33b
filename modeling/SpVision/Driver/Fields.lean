import SpVision.Driver.Mux
import Mathlib.Data.Nat.Digits.Lemmas

set_option autoImplicit false

/-!
# Fields of a payload

The 32-bit and 64-bit writers of `comm_utils.h` and what the readers make of them.
-/
namespace SpVision

/-- `comm_write_i32_le`. -/
def writeI32Le (val : Int32) : List UInt8 := writeU32Le val.toUInt32

/-- `comm_write_u64_le`. -/
def writeU64Le (val : UInt64) : List UInt8 :=
  (List.range 8).map fun i => ((val >>> (8 * i).toUInt64) &&& 0xff).toUInt8

@[simp] theorem writeI32Le_length (val : Int32) : (writeI32Le val).length = 4 := rfl

@[simp] theorem writeU64Le_length (val : UInt64) : (writeU64Le val).length = 8 := rfl

@[simp] theorem readI32Le_writeI32Le (val : Int32) (rest : List UInt8) :
    readI32Le (writeI32Le val ++ rest) = val := by
  rw [readI32Le, writeI32Le, readU32Le_writeU32Le]
  exact Int32.toInt32_toUInt32 val

/-! ### Eight bytes -/

/-- One turn of the loop in `comm_read_u64_le`. -/
def shiftOr (b : UInt8) (value : UInt64) : UInt64 := (value <<< 8) ||| b.toUInt64

theorem toNat_shiftOr {value : UInt64} (hvalue : value.toNat < 256 ^ 7) (b : UInt8) :
    (shiftOr b value).toNat = b.toNat + 256 * value.toNat := by
  have hb := b.toNat_lt
  have hshift : value.toNat <<< 8 % 2 ^ 64 = value.toNat <<< 8 := by
    rw [Nat.shiftLeft_eq]
    exact Nat.mod_eq_of_lt (by omega)
  simp only [shiftOr, UInt64.toNat_or, UInt64.toNat_shiftLeft, UInt8.toNat_toUInt64, UInt64.reduceToNat, Nat.reduceMod]
  rw [hshift, ← Nat.shiftLeft_add_eq_or_of_lt hb, Nat.shiftLeft_eq]
  omega

/-- Up to eight bytes, shifted in from the last to the first, are the digits of the value. -/
theorem toNat_foldr_shiftOr (bytes : List UInt8) (hlen : bytes.length ≤ 8) :
    (bytes.foldr shiftOr 0).toNat = Nat.ofDigits 256 (bytes.map UInt8.toNat) := by
  induction bytes with
  | nil => rfl
  | cons b bytes ih =>
    have hshort : bytes.length ≤ 7 := Nat.le_of_succ_le_succ hlen
    have hdigits : ∀ d ∈ bytes.map UInt8.toNat, d < 256 := by
      intro d hd
      obtain ⟨x, -, rfl⟩ := List.mem_map.mp hd
      exact x.toNat_lt
    have hbound := Nat.ofDigits_lt_base_pow_length (by decide : 1 < 256) hdigits
    have hpow : 256 ^ (bytes.map UInt8.toNat).length ≤ 256 ^ 7 :=
      Nat.pow_le_pow_right (by decide) (by simpa using hshort)
    have htail := ih (by omega)
    rw [List.foldr_cons, toNat_shiftOr (by omega), htail, List.map_cons, Nat.ofDigits_cons]

theorem ofDigits_range_map (n v : ℕ) :
    Nat.ofDigits 256 ((List.range n).map fun i => v / 256 ^ i % 256) = v % 256 ^ n := by
  induction n generalizing v with
  | zero => simp [Nat.mod_one]
  | succ n ih =>
    have hshift : ((fun i => v / 256 ^ i % 256) ∘ Nat.succ) = fun i => v / 256 / 256 ^ i % 256 := by
      funext i
      rw [Function.comp_apply, Nat.succ_eq_add_one, Nat.pow_succ', Nat.div_div_eq_div_mul]
    rw [List.range_succ_eq_map, List.map_cons, List.map_map, hshift, Nat.ofDigits_cons, ih, pow_zero,
      Nat.div_one, Nat.pow_succ', Nat.mod_mul]

theorem toNat_writeU64Le (val : UInt64) :
    (writeU64Le val).map UInt8.toNat = (List.range 8).map fun i => val.toNat / 256 ^ i % 256 := by
  have hmask (n : ℕ) : n &&& 255 = n % 256 := Nat.and_two_pow_sub_one_eq_mod n 8
  rw [writeU64Le, List.map_map]
  apply List.map_congr_left
  intro i hi
  have hi8 : i < 8 := List.mem_range.mp hi
  have hpow : 2 ^ (8 * i) = 256 ^ i := by rw [Nat.pow_mul]
  have hexp : (8 * i).toUInt64.toNat % 64 = 8 * i := by
    rw [Nat.toUInt64_eq, UInt64.toNat_ofNat']
    omega
  simp only [Function.comp_apply, UInt64.toNat_toUInt8, UInt64.toNat_and, UInt64.toNat_shiftRight, hexp,
    UInt64.reduceToNat, Nat.shiftRight_eq_div_pow, hmask, hpow]
  omega

@[simp] theorem readU64Le_writeU64Le (val : UInt64) (rest : List UInt8) :
    readU64Le (writeU64Le val ++ rest) = val := by
  have hfold : readU64Le (writeU64Le val ++ rest) =
      (writeU64Le val).foldr shiftOr 0 := rfl
  apply UInt64.toNat_inj.mp
  rw [hfold, toNat_foldr_shiftOr _ (by simp), toNat_writeU64Le, ofDigits_range_map]
  exact Nat.mod_eq_of_lt val.toNat_lt

/-! ### A field behind others -/

@[simp] theorem drop_writeU16Le (n : ℕ) (val : UInt16) (rest : List UInt8) :
    (writeU16Le val ++ rest).drop (n + 2) = rest.drop n := rfl

@[simp] theorem drop_writeI32Le (n : ℕ) (val : Int32) (rest : List UInt8) :
    (writeI32Le val ++ rest).drop (n + 4) = rest.drop n := rfl

@[simp] theorem drop_writeU64Le (n : ℕ) (val : UInt64) (rest : List UInt8) :
    (writeU64Le val ++ rest).drop (n + 8) = rest.drop n := rfl

@[simp] theorem readU64Le_writeU64Le_nil (val : UInt64) : readU64Le (writeU64Le val) = val := by
  have h := readU64Le_writeU64Le val []
  rwa [List.append_nil] at h

end SpVision
