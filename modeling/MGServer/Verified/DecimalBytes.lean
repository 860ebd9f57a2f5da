import MGServer.Verified.ByteString
import Mathlib.Algebra.Ring.Nat
import Mathlib.Data.List.Basic
import Mathlib.Data.List.Induction

/-!
# Decimal numbers as bytes

What `%d` and `%zu` print, and the two facts a strict number reader rests on:
printing is a right inverse of reading, and a row of digits without a leading
zero is the only such text of its value.
-/

namespace MGServer.Verified.DecimalBytes

open MGServer.Verified.ByteString

/-- The byte of a decimal digit. -/
def digit (d : Nat) : UInt8 := UInt8.ofNat (48 + d)

/-- `%zu` of a number. -/
def decimal (n : Nat) : Bytes := (Nat.toDigits 10 n).map fun c => UInt8.ofNat c.toNat

/-- `%lld` of a number. -/
def signed (v : Int) : Bytes :=
  if v < 0 then 45 :: decimal v.natAbs else decimal v.toNat

theorem digit_toNat {d : Nat} (hd : d < 10) : (digit d).toNat = 48 + d := by
  show (48 + d) % 2 ^ 8 = 48 + d
  exact Nat.mod_eq_of_lt (by omega)

theorem isDigit_iff (b : UInt8) : isDigit b = true ↔ 48 ≤ b.toNat ∧ b.toNat ≤ 57 := by
  simp only [isDigit, Bool.and_eq_true, decide_eq_true_eq, UInt8.le_iff_toNat_le]
  exact Iff.rfl

theorem digit_isDigit {d : Nat} (hd : d < 10) : isDigit (digit d) = true := by
  rw [isDigit_iff, digit_toNat hd]
  omega

/-- A digit byte is the digit of its value. -/
theorem digit_of_isDigit {b : UInt8} (hb : isDigit b = true) :
    digit (b.toNat - 48) = b := by
  have hRange := (isDigit_iff b).1 hb
  apply UInt8.toNat_inj.1
  rw [digit_toNat (by omega)]
  omega

theorem digitChar_byte {d : Nat} (hd : d < 10) :
    UInt8.ofNat d.digitChar.toNat = digit d := by
  have hAll : ∀ k : Fin 10, UInt8.ofNat (k : Nat).digitChar.toNat = digit k := by decide
  exact hAll ⟨d, hd⟩

theorem decimal_of_lt {n : Nat} (hn : n < 10) : decimal n = [digit n] := by
  rw [decimal, Nat.toDigits_of_lt_base hn, List.map_singleton, digitChar_byte hn]

theorem decimal_of_le {n : Nat} (hn : 10 ≤ n) :
    decimal n = decimal (n / 10) ++ [digit (n % 10)] := by
  rw [decimal, Nat.toDigits_of_base_le (by decide) hn,
    List.map_append, List.map_singleton, digitChar_byte (Nat.mod_lt n (by decide))]
  rfl

theorem decimal_ne_nil (n : Nat) : decimal n ≠ [] := by
  intro hNil
  exact Nat.toDigits_ne_nil (List.map_eq_nil_iff.1 hNil)

theorem isDigit_of_mem_decimal {n : Nat} {b : UInt8} (hb : b ∈ decimal n) :
    isDigit b = true := by
  induction n using Nat.strongRecOn with
  | ind n ih =>
      rcases Nat.lt_or_ge n 10 with hSmall | hLarge
      · rw [decimal_of_lt hSmall, List.mem_singleton] at hb
        exact hb ▸ digit_isDigit hSmall
      · rw [decimal_of_le hLarge, List.mem_append, List.mem_singleton] at hb
        rcases hb with hb | hb
        · exact ih (n / 10) (by omega) hb
        · exact hb ▸ digit_isDigit (Nat.mod_lt n (by decide))

/-! ## Values -/

theorem digitsValue_append (acc : Nat) (s t : Bytes) :
    digitsValue acc (s ++ t) = digitsValue (digitsValue acc s) t := by
  induction s generalizing acc with
  | nil => rfl
  | cons b s ih => exact ih _

/-- What is read first counts in the higher places. -/
theorem digitsValue_ge (acc : Nat) (s : Bytes) : acc ≤ digitsValue acc s := by
  induction s generalizing acc with
  | nil => exact Nat.le_refl _
  | cons b s ih =>
      have hStep : acc ≤ 10 * acc + (b.toNat - 48) := by omega
      exact Nat.le_trans hStep (ih _)

theorem digitsValue_decimal (n : Nat) : digitsValue 0 (decimal n) = n := by
  induction n using Nat.strongRecOn with
  | ind n ih =>
      rcases Nat.lt_or_ge n 10 with hSmall | hLarge
      · rw [decimal_of_lt hSmall]
        show 10 * 0 + ((digit n).toNat - 48) = n
        rw [digit_toNat hSmall]
        omega
      · rw [decimal_of_le hLarge, digitsValue_append, ih (n / 10) (by omega)]
        show 10 * (n / 10) + ((digit (n % 10)).toNat - 48) = n
        rw [digit_toNat (Nat.mod_lt n (by decide))]
        omega

/-- A number other than zero does not start with a zero. -/
theorem decimal_head_ne {n : Nat} (hn : 0 < n) : (decimal n).head? ≠ some 48 := by
  induction n using Nat.strongRecOn with
  | ind n ih =>
      rcases Nat.lt_or_ge n 10 with hSmall | hLarge
      · rw [decimal_of_lt hSmall]
        intro hHead
        have hByte : (digit n).toNat = 48 := by
          rw [Option.some.inj hHead]
          rfl
        rw [digit_toNat hSmall] at hByte
        omega
      · rw [decimal_of_le hLarge, List.head?_append_of_ne_nil _ (decimal_ne_nil _)]
        exact ih (n / 10) (by omega) (by omega)

/-- A row of digits that does not start with a zero has a value above zero. -/
theorem digitsValue_pos {s : Bytes} (hDecimal : Decimal s) (hHead : s.head? ≠ some 48) :
    0 < digitsValue 0 s := by
  cases s with
  | nil => exact absurd rfl hDecimal.1
  | cons b s =>
      have hRange := (isDigit_iff b).1 (hDecimal.2 b (List.mem_cons_self ..))
      have hNe : b.toNat ≠ 48 := by
        intro hEq
        apply hHead
        have hByte : b = 48 := UInt8.toNat_inj.1 hEq
        rw [List.head?_cons, hByte]
      have hFirst : 0 < 10 * 0 + (b.toNat - 48) := by omega
      exact Nat.lt_of_lt_of_le hFirst (digitsValue_ge _ s)

/-- **One text for each value.** A row of digits without a leading zero is the
decimal text of what it denotes. -/
theorem decimal_digitsValue {s : Bytes} (hDecimal : Decimal s)
    (hHead : s.head? ≠ some 48) :
    decimal (digitsValue 0 s) = s := by
  induction s using List.reverseRecOn with
  | nil => exact absurd rfl hDecimal.1
  | append_singleton s b ih =>
      have hb : isDigit b = true := hDecimal.2 b (by simp)
      have hRange := (isDigit_iff b).1 hb
      have hValue : digitsValue 0 (s ++ [b]) = 10 * digitsValue 0 s + (b.toNat - 48) :=
        digitsValue_append 0 s [b]
      by_cases hNil : s = []
      · subst hNil
        rw [hValue]
        show decimal (10 * 0 + (b.toNat - 48)) = [b]
        rw [decimal_of_lt (by omega), Nat.mul_zero, Nat.zero_add, digit_of_isDigit hb]
      · have hDecimal' : Decimal s :=
          ⟨hNil, fun c hc => hDecimal.2 c (List.mem_append_left _ hc)⟩
        have hHead' : s.head? ≠ some 48 := by
          rwa [List.head?_append_of_ne_nil _ hNil] at hHead
        have hPos := digitsValue_pos hDecimal' hHead'
        rw [hValue, decimal_of_le (by omega),
          show (10 * digitsValue 0 s + (b.toNat - 48)) / 10 = digitsValue 0 s by omega,
          show (10 * digitsValue 0 s + (b.toNat - 48)) % 10 = b.toNat - 48 by omega,
          ih hDecimal' hHead', digit_of_isDigit hb]

theorem decimal_injective {m n : Nat} (hEq : decimal m = decimal n) : m = n := by
  rw [← digitsValue_decimal m, hEq, digitsValue_decimal]

/-- A decimal text holds neither a sign nor a line end. -/
theorem not_mem_decimal {n : Nat} {b : UInt8} (hb : isDigit b = false) :
    b ∉ decimal n := by
  intro hMem
  rw [isDigit_of_mem_decimal hMem] at hb
  cases hb

end MGServer.Verified.DecimalBytes
