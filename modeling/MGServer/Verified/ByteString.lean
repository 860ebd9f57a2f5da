import Mathlib.Data.List.TakeWhile
import Mathlib.Algebra.Ring.Int.Defs
import Mathlib.Algebra.Ring.Nat

/-!
# Byte strings and C strings

A `std::string` is a list of bytes, NUL included; what a C interface sees of
it through `c_str()` ends at the first NUL.  This module fixes that view once
for every port that hands a `std::string` to a C library.
-/

namespace MGServer.Verified.ByteString

abbrev Bytes := List UInt8

/-- The bytes of an ASCII literal of the source. -/
def bytesOf (s : String) : Bytes :=
  s.toList.map fun c => UInt8.ofNat c.toNat

/-- What a C function reads behind `s.c_str()`: the bytes before the first
NUL. -/
def cstr (s : Bytes) : Bytes := s.takeWhile (· != 0)

@[simp] theorem cstr_nil : cstr [] = [] := rfl

theorem zero_not_mem_cstr (s : Bytes) : 0 ∉ cstr s := by
  intro hMem
  have hNe := List.mem_takeWhile_imp hMem
  simp at hNe

/-- A NUL-free front part is kept whole. -/
theorem cstr_append_of_not_mem {a : Bytes} (hA : 0 ∉ a) (b : Bytes) :
    cstr (a ++ b) = a ++ cstr b := by
  apply List.takeWhile_append_of_pos
  intro x hx
  simp only [bne_iff_ne, ne_eq]
  intro hZero
  exact hA (hZero ▸ hx)

theorem cstr_eq_self_iff (s : Bytes) : cstr s = s ↔ 0 ∉ s := by
  constructor
  · intro hEq
    rw [← hEq]
    exact zero_not_mem_cstr s
  · intro hNul
    simpa using cstr_append_of_not_mem hNul []

theorem cstr_prefix (s : Bytes) : cstr s <+: s := List.takeWhile_prefix _

@[simp] theorem cstr_cstr (s : Bytes) : cstr (cstr s) = cstr s :=
  (cstr_eq_self_iff _).2 (zero_not_mem_cstr s)

/-! ## `atoi` -/

/-- `isspace` in the C locale. -/
def isSpace (b : UInt8) : Bool := b == 32 || (9 ≤ b && b ≤ 13)

def isDigit (b : UInt8) : Bool := 48 ≤ b && b ≤ 57

/-- The number a row of digits denotes, continuing from `acc`. -/
def digitsValue (acc : Nat) : Bytes → Nat
  | [] => acc
  | b :: bs => digitsValue (10 * acc + (b.toNat - 48)) bs

/-- The number at the front of a text: white space, a sign, digits, and
anything after them. -/
def leadingNumber (s : Bytes) : Int :=
  match s.dropWhile isSpace with
  | 45 :: rest => -(digitsValue 0 (rest.takeWhile isDigit) : Int)
  | 43 :: rest => (digitsValue 0 (rest.takeWhile isDigit) : Int)
  | rest => (digitsValue 0 (rest.takeWhile isDigit) : Int)

/-- `strtol` in base ten, with a `long` of 64 bits: a number out of range gives
the end of the range it is past. -/
def strtol (s : Bytes) : Int := max (-2 ^ 63) (min (2 ^ 63 - 1) (leadingNumber s))

/-- `atoi`, which is `strtol` cut to an `int` of 32 bits. -/
def atoi (s : Bytes) : Int := (strtol s).bmod (2 ^ 32)

example : atoi (bytesOf " -12x") = -12 := by decide

-- past the end of `long`, and past the end of `int`
example : atoi (bytesOf "9223372036854775808") = -1 ∧
    atoi (bytesOf "4294967301") = 5 := by
  decide

/-- A text of decimal digits only. -/
def Decimal (s : Bytes) : Prop := s ≠ [] ∧ ∀ b ∈ s, isDigit b = true

instance (s : Bytes) : Decidable (Decimal s) :=
  inferInstanceAs (Decidable (s ≠ [] ∧ ∀ b ∈ s, isDigit b = true))

theorem not_isSpace_of_isDigit {b : UInt8} (hDigit : isDigit b = true) :
    isSpace b = false := by
  simp only [isDigit, Bool.and_eq_true, decide_eq_true_eq,
    UInt8.le_iff_toNat_le] at hDigit
  simp only [isSpace, Bool.or_eq_false_iff, beq_eq_false_iff_ne,
    ne_eq, ← UInt8.toNat_inj, Bool.and_eq_false_iff,
      decide_eq_false_iff_not, UInt8.le_iff_toNat_le]
  have hLow : 48 ≤ b.toNat := hDigit.1
  show ¬ b.toNat = 32 ∧ (¬ 9 ≤ b.toNat ∨ ¬ b.toNat ≤ 13)
  omega

/-- A row of digits is the number they denote. -/
theorem leadingNumber_decimal {s : Bytes} (hDecimal : Decimal s) :
    leadingNumber s = digitsValue 0 s := by
  obtain ⟨hNe, hDigits⟩ := hDecimal
  cases s with
  | nil => exact absurd rfl hNe
  | cons b rest =>
      have hDigit : isDigit b = true := hDigits b (List.mem_cons_self ..)
      have hSpace : (b :: rest).dropWhile isSpace = b :: rest :=
        List.dropWhile_cons_of_neg (by simp [not_isSpace_of_isDigit hDigit])
      unfold leadingNumber
      rw [hSpace]
      -- the first byte is no sign
      split
      · rename_i hEq
        cases hEq
        cases hDigit
      · rename_i hEq
        cases hEq
        cases hDigit
      · rw [List.takeWhile_eq_self_iff.2 hDigits]

/-- On a row of digits that fits an `int`, `atoi` reads the number they
denote. -/
theorem atoi_decimal {s : Bytes} (hDecimal : Decimal s)
    (hFits : digitsValue 0 s < 2 ^ 31) :
    atoi s = digitsValue 0 s := by
  have hLong : strtol s = digitsValue 0 s := by
    rw [strtol, leadingNumber_decimal hDecimal]
    omega
  rw [atoi, hLong]
  apply Int.bmod_eq_of_le <;> omega

end MGServer.Verified.ByteString
