import Mathlib.Data.List.DropRight
import MGServer.Verified.TextStream

/-!
# Decimal text with a limited number of digits

What the default notation of a stream keeps of an integer.  A number printed
with precision `p` is first replaced by a nearest number of at most `p`
significant digits (`Nearest`; the rule for ties stays open), and that number
is then written out, in full when it is below `10 ^ p` and in scientific
notation without trailing zeros above (`generalText`).

The text loses nothing more: it is one token of the float automaton
(`generalText_run`) and denotes exactly the number it was made from
(`integerOf_generalText`).  So an integer comes back from its own text if and
only if it has at most `p` significant digits.
-/

namespace MGServer.Verified.DecimalText

open MGServer.Verified.TextStream

/-! ## Significant digits -/

/-- At most `p` significant decimal digits. -/
def HasDigits (p n : Nat) : Prop := ∃ m e, m < 10 ^ p ∧ n = m * 10 ^ e

theorem hasDigits_of_lt {p n : Nat} (hn : n < 10 ^ p) : HasDigits p n :=
  ⟨n, 0, hn, by simp⟩

/-- A number with `p` digits that is at least `10 ^ k` is a multiple of every
unit its leading digit leaves room for. -/
theorem HasDigits.dvd {p k n : Nat} (h : HasDigits p n) (hn : 10 ^ k ≤ n) :
    10 ^ (k + 1 - p) ∣ n := by
  obtain ⟨m, e, hm, rfl⟩ := h
  have hExp : k + 1 - p ≤ e := by
    by_contra hLess
    have hLt : m * 10 ^ e < 10 ^ p * 10 ^ e :=
      Nat.mul_lt_mul_of_pos_right hm (Nat.pow_pos (by decide))
    have hLe : 10 ^ p * 10 ^ e ≤ 10 ^ k := by
      rw [← Nat.pow_add]
      exact Nat.pow_le_pow_right (by decide) (by omega)
    omega
  exact Nat.dvd_trans (Nat.pow_dvd_pow 10 hExp) (Nat.dvd_mul_left _ _)

/-- `y` has at most `p` digits and no number with at most `p` digits is closer
to `x`.  Both neighbours of a tie qualify. -/
structure Nearest (p : Nat) (x y : Int) : Prop where
  digits : HasDigits p y.natAbs
  closest : ∀ z : Int, HasDigits p z.natAbs → (x - y).natAbs ≤ (x - z).natAbs

/-- Rounding keeps exactly the numbers that have few enough digits. -/
theorem Nearest.eq_iff {p : Nat} {x y : Int} (h : Nearest p x y) :
    y = x ↔ HasDigits p x.natAbs := by
  constructor
  · intro hEq
    rw [← hEq]
    exact h.digits
  · intro hDigits
    have hDist := h.closest x hDigits
    omega

/-! ## A rounding function -/

/-- The unit of the last of `p` digits. -/
def unit (p n : Nat) : Nat := 10 ^ ((natText n).length - p)

/-- Round to `p` digits, halves up. -/
def roundDigits (p n : Nat) : Nat := (n + unit p n / 2) / unit p n * unit p n

def roundInt (p : Nat) (x : Int) : Int :=
  if x < 0 then -(roundDigits p x.natAbs : Int) else roundDigits p x.natAbs

theorem unit_pos (p n : Nat) : 0 < unit p n := Nat.pow_pos (by decide)

/-- No multiple of `u` is closer than the one rounding finds. -/
theorem nearest_multiple (n k : Nat) {u : Nat} (hu : 0 < u) :
    ((n : Int) - ((n + u / 2) / u * u : Nat)).natAbs ≤
    ((n : Int) - (k * u : Nat)).natAbs := by
  generalize hq : (n + u / 2) / u = q
  have hLow : q * u ≤ n + u / 2 := by
    rw [← hq]
    exact Nat.div_mul_le_self _ _
  have hHigh : n + u / 2 < q * u + u := by
    have hLt := Nat.lt_div_mul_add hu (a := n + u / 2)
    rwa [hq] at hLt
  rcases Nat.lt_trichotomy k q with hk | rfl | hk
  · have hStep : (k + 1) * u ≤ q * u := Nat.mul_le_mul_right u hk
    rw [Nat.add_mul, Nat.one_mul] at hStep
    omega
  · exact Nat.le_refl _
  · have hStep : (q + 1) * u ≤ k * u := Nat.mul_le_mul_right u hk
    rw [Nat.add_mul, Nat.one_mul] at hStep
    omega

theorem lt_pow_length (n : Nat) : n < 10 ^ (natText n).length :=
  (Nat.length_toDigits_le_iff (by decide) Nat.length_toDigits_pos).1 (Nat.le_refl _)

/-- A number of more than `p` digits is at least the power of its leading
digit. -/
theorem pow_le_of_length {n k : Nat} (hk : 0 < k) (h : k < (natText n).length) :
    10 ^ k ≤ n := by
  by_contra hLt
  have hLe :=
    (Nat.length_toDigits_le_iff (b := 10) (by decide) hk).2 (Nat.lt_of_not_le hLt)
  exact absurd h (Nat.not_lt.2 hLe)

theorem roundDigits_hasDigits {p : Nat} (hp : 0 < p) (n : Nat) :
    HasDigits p (roundDigits p n) := by
  unfold roundDigits
  generalize hq : (n + unit p n / 2) / unit p n = q
  by_cases hLen : (natText n).length ≤ p
  · have hUnit : unit p n = 1 := by
      rw [unit, Nat.sub_eq_zero_of_le hLen, Nat.pow_zero]
    have hEq : q = n := by
      rw [hUnit] at hq
      omega
    rw [hEq, hUnit, Nat.mul_one]
    exact hasDigits_of_lt (Nat.lt_of_lt_of_le (lt_pow_length n)
      (Nat.pow_le_pow_right (by decide) hLen))
  · have hSplit : 10 ^ (natText n).length = 10 ^ p * unit p n := by
      rw [unit, ← Nat.pow_add, Nat.add_sub_cancel' (by omega)]
    have hq' : q ≤ 10 ^ p := by
      rw [← hq, ← Nat.lt_succ_iff, Nat.div_lt_iff_lt_mul (unit_pos p n), Nat.succ_mul]
      have hn := lt_pow_length n
      have hu := unit_pos p n
      omega
    rcases Nat.lt_or_eq_of_le hq' with hLt | hEq
    · exact ⟨q, _, hLt, rfl⟩
    · refine ⟨1, (natText n).length, Nat.one_lt_pow (by omega) (by decide), ?_⟩
      rw [hEq, hSplit, Nat.one_mul]

theorem roundDigits_nearest {p : Nat} (hp : 0 < p) (n z : Nat) (hz : HasDigits p z) :
    ((n : Int) - roundDigits p n).natAbs ≤ ((n : Int) - z).natAbs := by
  have hMultiple : ∀ k, ((n : Int) - roundDigits p n).natAbs ≤
      ((n : Int) - (k * unit p n : Nat)).natAbs :=
    fun k => nearest_multiple n k (unit_pos p n)
  by_cases hLen : (natText n).length ≤ p
  · have hUnit : unit p n = 1 := by
      rw [unit, Nat.sub_eq_zero_of_le hLen, Nat.pow_zero]
    have hSelf := hMultiple n
    rw [hUnit] at hSelf
    omega
  · obtain ⟨k, hk⟩ : ∃ k, (natText n).length = k + 1 :=
      ⟨(natText n).length - 1, by omega⟩
    have hLead : 10 ^ k ≤ n := pow_le_of_length (by omega) (by omega)
    -- the power of the leading digit is itself a multiple of the unit
    by_cases hLess : z < 10 ^ k
    · have hPow : 10 ^ (p - 1) * unit p n = 10 ^ k := by
        rw [unit, hk, ← Nat.pow_add]
        congr 1
        omega
      have hNear := hMultiple (10 ^ (p - 1))
      rw [hPow] at hNear
      omega
    · obtain ⟨j, hj⟩ := hz.dvd (Nat.le_of_not_lt hLess)
      have hNear := hMultiple j
      rw [unit, hk, Nat.mul_comm, ← hj] at hNear
      exact hNear

/-- **Rounding finds a nearest number.** -/
theorem roundInt_nearest {p : Nat} (hp : 0 < p) (x : Int) :
    Nearest p x (roundInt p x) where
  digits := by
    have hDigits := roundDigits_hasDigits hp x.natAbs
    unfold roundInt
    split
    · rwa [Int.natAbs_neg, Int.natAbs_natCast]
    · rwa [Int.natAbs_natCast]
  closest := by
    intro z hz
    have hNear := roundDigits_nearest hp x.natAbs z.natAbs hz
    unfold roundInt
    split
    · omega
    · omega

/-! ## General notation -/

/-- The fraction of a mantissa, with its point; nothing when it is zero. -/
def fractionText (ds : Text) : Text := if ds = [] then [] else '.' :: ds

/-- An exponent has at least two digits. -/
def exponentText (e : Nat) : Text := if e < 10 then '0' :: natText e else natText e

/-- One digit, the others behind a point without trailing zeros, and the
power of ten. -/
def scientificText (n : Nat) : Text :=
  match natText n with
  | [] => []
  | d :: ds =>
      d :: (fractionText (ds.rdropWhile (· == '0')) ++
        'e' :: '+' :: exponentText ds.length)

/-- A natural number in general notation: in full below `10 ^ p`. -/
def generalNat (p n : Nat) : Text := if n < 10 ^ p then natText n else scientificText n

/-- An integer that has at most `p` digits in general notation of precision
`p`. -/
def generalText (p : Nat) (x : Int) : Text :=
  if x < 0 then '-' :: generalNat p x.natAbs else generalNat p x.natAbs

/-! ## What a token denotes -/

/-- Whole digits, fraction digits and the rest of a token without sign. -/
def splitMantissa (t : Text) : Text × Text × Text :=
  match t.dropWhile Char.isDigit with
  | '.' :: u =>
      (t.takeWhile Char.isDigit, u.takeWhile Char.isDigit, u.dropWhile Char.isDigit)
  | u => (t.takeWhile Char.isDigit, [], u)

/-- The exponent behind the mantissa, zero when there is none. -/
def exponentOf : Text → Option Int
  | [] => some 0
  | c :: t =>
      if (c == 'e' || c == 'E') && (splitSign t).2.all Char.isDigit then numeralValue t
      else none

/-- `m` times a power of ten, when that is an integer. -/
def scaled (m : Nat) : Int → Option Nat
  | .ofNat e => some (m * 10 ^ e)
  | .negSucc e => if m % 10 ^ (e + 1) = 0 then some (m / 10 ^ (e + 1)) else none

/-- The integer a decimal token denotes, if it denotes one. -/
def integerOf (tok : Text) : Option Int :=
  let m := splitMantissa (splitSign tok).2
  if m.1 ++ m.2.1 = [] then none
  else
    (exponentOf m.2.2).bind fun e =>
      (scaled (Nat.ofDigitChars 10 (m.1 ++ m.2.1) 0) (e - m.2.1.length)).map
        fun n : Nat => if (splitSign tok).1 then -(n : Int) else (n : Int)

example : integerOf "1.23457e+06".toList = some 1234570 := by decide
example : integerOf "-16777200".toList = some (-16777200) := by decide
example : integerOf "25e-2".toList = none := by decide

/-! ### General notation denotes the number it was made from -/

theorem takeWhile_digits {ds : Text} (hds : ∀ c ∈ ds, c.isDigit = true) {c : Char}
    (hc : c.isDigit = false) (t : Text) :
    (ds ++ c :: t).takeWhile Char.isDigit = ds := by
  rw [List.takeWhile_append_of_pos hds, List.takeWhile_cons_of_neg (by simp [hc]),
    List.append_nil]

theorem dropWhile_digits {ds : Text} (hds : ∀ c ∈ ds, c.isDigit = true) {c : Char}
    (hc : c.isDigit = false) (t : Text) :
    (ds ++ c :: t).dropWhile Char.isDigit = c :: t := by
  rw [List.dropWhile_append_of_pos hds, List.dropWhile_cons_of_neg (by simp [hc])]

theorem splitMantissa_digits {ds : Text} (hds : ∀ c ∈ ds, c.isDigit = true) :
    splitMantissa ds = (ds, [], []) := by
  have hDrop : ds.dropWhile Char.isDigit = [] := List.dropWhile_eq_nil_iff.2 hds
  have hTake : ds.takeWhile Char.isDigit = ds := List.takeWhile_eq_self_iff.2 hds
  rw [splitMantissa, hDrop, hTake]

/-- A mantissa is taken apart again in front of an exponent. -/
theorem splitMantissa_fractionText {d : Char} (hd : d.isDigit = true) {fs : Text}
    (hfs : ∀ c ∈ fs, c.isDigit = true) (t : Text) :
    splitMantissa (d :: (fractionText fs ++ 'e' :: t)) = ([d], fs, 'e' :: t) := by
  have hFront : ∀ c ∈ [d], c.isDigit = true := by simp [hd]
  unfold splitMantissa fractionText
  split_ifs with hNil
  · have hTake := takeWhile_digits hFront (c := 'e') (by decide) t
    have hDrop := dropWhile_digits hFront (c := 'e') (by decide) t
    rw [List.singleton_append] at hTake hDrop
    rw [List.nil_append, hTake, hDrop, hNil]
    rfl
  · have hTake := takeWhile_digits hFront (c := '.') (by decide) (fs ++ 'e' :: t)
    have hDrop := dropWhile_digits hFront (c := '.') (by decide) (fs ++ 'e' :: t)
    rw [List.singleton_append] at hTake hDrop
    rw [List.cons_append, hTake, hDrop]
    simp only [takeWhile_digits hfs (c := 'e') (by decide),
      dropWhile_digits hfs (c := 'e') (by decide)]

theorem exponentText_isDigit {e : Nat} {c : Char} (hc : c ∈ exponentText e) :
    c.isDigit = true := by
  unfold exponentText at hc
  split_ifs at hc
  · rcases List.mem_cons.1 hc with rfl | hMem
    · rfl
    · exact natText_isDigit hMem
  · exact natText_isDigit hc

theorem exponentText_ne_nil (e : Nat) : exponentText e ≠ [] := by
  unfold exponentText
  split_ifs
  · simp
  · exact natText_ne_nil e

theorem exponentText_value (e : Nat) : Nat.ofDigitChars 10 (exponentText e) 0 = e := by
  unfold exponentText
  split_ifs
  · rw [Nat.ofDigitChars_cons]
    exact Nat.ofDigitChars_ten_toDigits
  · exact Nat.ofDigitChars_ten_toDigits

theorem exponentOf_exponentText (e : Nat) :
    exponentOf ('e' :: '+' :: exponentText e) = some (e : Int) := by
  have hSplit : splitSign ('+' :: exponentText e) = (false, exponentText e) := rfl
  have hAll : (exponentText e).all Char.isDigit = true :=
    List.all_eq_true.2 fun c hc => exponentText_isDigit hc
  simp only [exponentOf, numeralValue, hSplit, hAll, exponentText_ne_nil,
    exponentText_value]
  rfl

/-- Stripping zeros from the end of some digits divides by a power of ten. -/
theorem ofDigitChars_rdropWhile (d : Char) (ds : Text) :
    Nat.ofDigitChars 10 (d :: ds.rdropWhile (· == '0')) 0 *
        10 ^ (ds.length - (ds.rdropWhile (· == '0')).length) =
      Nat.ofDigitChars 10 (d :: ds) 0 := by
  have hSplit : ds.rdropWhile (· == '0') ++ ds.rtakeWhile (· == '0') = ds :=
    List.rdropWhile_append_rtakeWhile
  have hZeros : ds.rtakeWhile (· == '0') =
      List.replicate (ds.rtakeWhile (· == '0')).length '0' := by
    apply List.eq_replicate_of_mem
    intro c hc
    have hZero : (c == '0') = true :=
      List.mem_rtakeWhile_imp (p := fun x => x == '0') hc
    exact eq_of_beq hZero
  have hLen := congrArg List.length hSplit
  rw [List.length_append] at hLen
  have hCount : ds.length - (ds.rdropWhile (· == '0')).length =
      (ds.rtakeWhile (· == '0')).length := by omega
  calc
    _ = Nat.ofDigitChars 10
          (d :: ds.rdropWhile (· == '0') ++ ds.rtakeWhile (· == '0')) 0 := by
      rw [hCount, Nat.ofDigitChars_append, hZeros, Nat.ofDigitChars_replicate_zero,
        List.length_replicate, Nat.mul_comm]
    _ = Nat.ofDigitChars 10 (d :: ds) 0 := by rw [List.cons_append, hSplit]

/-- A token whose parts are known and whose power of ten is not negative. -/
theorem integerOf_eq {tok t w f r : Text} {neg : Bool} {e z n : Nat}
    (hSign : splitSign tok = (neg, t)) (hMantissa : splitMantissa t = (w, f, r))
    (hw : w ≠ []) (hExp : exponentOf r = some (e : Int)) (hz : e = f.length + z)
    (hn : Nat.ofDigitChars 10 (w ++ f) 0 * 10 ^ z = n) :
    integerOf tok = some (if neg then -(n : Int) else (n : Int)) := by
  have hShift : (e : Int) - f.length = Int.ofNat z := by
    rw [hz]
    simp
  have hNil : w ++ f ≠ [] := by simp [hw]
  simp only [integerOf, hSign, hMantissa, hNil, if_false, hExp,
    Option.bind_some, hShift, scaled, Option.map_some, hn]

/-- Either way of writing a number starts with a digit and denotes it. -/
theorem integerOf_generalNat (p n : Nat) {tok : Text} {neg : Bool}
    (hSign : splitSign tok = (neg, generalNat p n)) :
    integerOf tok = some (if neg then -(n : Int) else (n : Int)) := by
  obtain ⟨d, ds, hCons⟩ := List.exists_cons_of_ne_nil (natText_ne_nil n)
  have hDigits : ∀ c ∈ d :: ds, c.isDigit = true := by
    intro c hc
    rw [← hCons] at hc
    exact natText_isDigit hc
  have hValue : Nat.ofDigitChars 10 (d :: ds) 0 = n := by
    rw [← hCons]
    exact Nat.ofDigitChars_ten_toDigits
  unfold generalNat at hSign
  split_ifs at hSign
  · rw [hCons] at hSign
    apply integerOf_eq (e := 0) (z := 0) hSign (splitMantissa_digits hDigits) (by simp)
      rfl rfl
    rw [List.append_nil, hValue, Nat.pow_zero, Nat.mul_one]
  · have hPrefix := List.rdropWhile_prefix (· == '0') ds
    have hFraction : ∀ c ∈ ds.rdropWhile (· == '0'), c.isDigit = true := by
      intro c hc
      exact hDigits c (List.mem_cons_of_mem d (hPrefix.subset hc))
    simp only [scientificText, hCons] at hSign
    apply integerOf_eq hSign
      (splitMantissa_fractionText (hDigits d (by simp)) hFraction _) (by simp)
      (exponentOf_exponentText ds.length)
      (Nat.add_sub_cancel' hPrefix.length_le).symm
    rw [List.singleton_append, ofDigitChars_rdropWhile, hValue]

theorem generalNat_cons (p n : Nat) :
    ∃ d t, generalNat p n = d :: t ∧ d.isDigit = true := by
  obtain ⟨d, ds, hCons⟩ := List.exists_cons_of_ne_nil (natText_ne_nil n)
  have hd : d.isDigit = true := natText_isDigit (n := n) (by simp [hCons])
  unfold generalNat
  split_ifs
  · exact ⟨d, ds, hCons, hd⟩
  · simp only [scientificText, hCons]
    exact ⟨d, _, rfl, hd⟩

/-- **General notation loses nothing.** -/
theorem integerOf_generalText (p : Nat) (x : Int) :
    integerOf (generalText p x) = some x := by
  unfold generalText
  split
  · have hSign : splitSign ('-' :: generalNat p x.natAbs) =
        (true, generalNat p x.natAbs) := rfl
    rw [integerOf_generalNat p x.natAbs hSign, if_pos rfl, Option.some.injEq]
    omega
  · obtain ⟨d, t, hCons, hd⟩ := generalNat_cons p x.natAbs
    have hMinus : d ≠ '-' := by rintro rfl; exact absurd hd (by decide)
    have hPlus : d ≠ '+' := by rintro rfl; exact absurd hd (by decide)
    have hSign :
        splitSign (generalNat p x.natAbs) = (false, generalNat p x.natAbs) := by
      rw [hCons, splitSign, if_neg hMinus, if_neg hPlus]
    rw [integerOf_generalNat p x.natAbs hSign, if_neg (by decide), Option.some.injEq]
    omega

/-! ### General notation is one token -/

section Tokens

variable {F : Type} (fmt : FloatFormat F)

theorem run_whole {ds : Text} (hds : ∀ c ∈ ds, c.isDigit = true) :
    (floatReader fmt).run (FloatState.whole true) ds =
      some (FloatState.whole true) := by
  apply (floatReader fmt).run_loop
  intro c hc
  simp [floatReader, acceptFloat, acceptWhole, hds c hc]

theorem run_fraction {ds : Text} (hds : ∀ c ∈ ds, c.isDigit = true) :
    (floatReader fmt).run (FloatState.fraction true) ds =
      some (FloatState.fraction true) := by
  apply (floatReader fmt).run_loop
  intro c hc
  simp [floatReader, acceptFloat, hds c hc]

/-- The power of ten behind a mantissa that has a digit. -/
theorem run_exponent {s : FloatState} (hs : acceptFloat s 'e' = some .exponent)
    (e : Nat) :
    (floatReader fmt).run s ('e' :: '+' :: exponentText e) =
      some FloatState.exponentDigits := by
  have hPlus : (floatReader fmt).accept FloatState.exponent '+' =
      some FloatState.exponentDigits := rfl
  apply (floatReader fmt).run_cons hs
  apply (floatReader fmt).run_cons hPlus
  apply (floatReader fmt).run_loop
  intro c hc
  simp [floatReader, acceptFloat, exponentText_isDigit hc]

/-- Whatever the notation, the first digit brings the automaton to the whole
digits and the rest is accepted from there. -/
theorem run_generalNat (p n : Nat) {s : FloatState}
    (hs : ∀ c, c.isDigit = true → acceptFloat s c = some (.whole true)) :
    ∃ s', (floatReader fmt).run s (generalNat p n) = some s' := by
  obtain ⟨d, ds, hCons⟩ := List.exists_cons_of_ne_nil (natText_ne_nil n)
  have hDigits : ∀ c ∈ d :: ds, c.isDigit = true := by
    intro c hc
    rw [← hCons] at hc
    exact natText_isDigit hc
  have hHead := hs d (hDigits d (by simp))
  have hTail : ∀ c ∈ ds, c.isDigit = true := fun c hc => hDigits c (by simp [hc])
  unfold generalNat
  split_ifs
  · rw [hCons]
    exact ⟨_, (floatReader fmt).run_cons hHead (run_whole fmt hTail)⟩
  · simp only [scientificText, hCons, fractionText]
    split_ifs
    · exact ⟨_, (floatReader fmt).run_cons hHead (run_exponent fmt rfl _)⟩
    · have hPoint : acceptFloat (.whole true) '.' = some (.fraction true) := rfl
      have hFraction : ∀ c ∈ ds.rdropWhile (· == '0'), c.isDigit = true := by
        intro c hc
        exact hTail c ((List.rdropWhile_prefix (· == '0') ds).subset hc)
      have hBack := (floatReader fmt).run_append (run_fraction fmt hFraction)
        (run_exponent fmt rfl ds.length)
      exact ⟨_, (floatReader fmt).run_cons hHead
        ((floatReader fmt).run_cons hPoint hBack)⟩

theorem generalText_run (p : Nat) (x : Int) :
    ∃ s', (floatReader fmt).run FloatState.start (generalText p x) = some s' := by
  unfold generalText
  split
  · have hMinus : acceptFloat .start '-' = some (.whole false) := rfl
    obtain ⟨s', hRun⟩ :=
      run_generalNat fmt p x.natAbs (s := .whole false) fun c hc => by
      simp [acceptFloat, acceptWhole, hc]
    exact ⟨s', (floatReader fmt).run_cons hMinus hRun⟩
  · apply run_generalNat fmt p x.natAbs
    intro c hc
    have hSign : isSign c = false := by
      by_contra hSign
      simp only [isSign, Bool.not_eq_false, Bool.or_eq_true, beq_iff_eq] at hSign
      rcases hSign with rfl | rfl <;> exact absurd hc (by decide)
    simp [acceptFloat, acceptWhole, hSign, hc]

end Tokens

theorem skipSpace_generalText (p : Nat) (x : Int) :
    skipSpace (generalText p x) = generalText p x := by
  unfold generalText
  split
  · exact skipSpace_of_head (by decide)
  · obtain ⟨d, t, hCons, hd⟩ := generalNat_cons p x.natAbs
    rw [hCons]
    exact skipSpace_of_head (not_isSpace_of_isDigit hd)

theorem generalText_ne_nil (p : Nat) (x : Int) : generalText p x ≠ [] := by
  unfold generalText
  split
  · simp
  · obtain ⟨d, t, hCons, -⟩ := generalNat_cons p x.natAbs
    simp [hCons]

/-! ## Formats in general notation -/

/-- What the default formatting of a stream does with the integers up to `B`
of a floating-point type, `ofInt` being the value of an integer in that type:
they are told apart, an integer is printed as a nearest number of `p` digits,
and what is printed for one of them is converted to it. -/
structure GeneralNotation {F : Type} (fmt : FloatFormat F)
    (ofInt : Int → F) (p B : Nat) : Prop where
  exact : ∀ x y : Int, x.natAbs ≤ B → y.natAbs ≤ B → ofInt x = ofInt y → x = y
  print : ∀ x : Int, x.natAbs ≤ B →
    ∃ y, Nearest p x y ∧ fmt.print (ofInt x) = generalText p y
  convert : ∀ y : Int, y.natAbs ≤ B → fmt.convert (generalText p y) = (ofInt y, true)

section Formats

variable {F : Type} {fmt : FloatFormat F} {ofInt : Int → F} {p B : Nat}
  (hFmt : GeneralNotation fmt ofInt p B)
include hFmt

theorem take_generalText {y : Int} (hy : y.natAbs ≤ B) :
    (floatReader fmt).take (generalText p y) = some (ofInt y, []) := by
  obtain ⟨s', hRun⟩ := generalText_run fmt p y
  exact (floatReader fmt).take_token (skipSpace_generalText p y)
    (generalText_ne_nil p y)
    ((floatReader fmt).scan_of_run _ hRun)
    (hFmt.convert y hy)

/-- An integer whose rounding stays within the bound is read back as that
rounding. -/
theorem take_print (hBound : ∀ x y : Int, x.natAbs ≤ B → Nearest p x y → y.natAbs ≤ B)
    {x : Int} (hx : x.natAbs ≤ B) :
    ∃ y, Nearest p x y ∧ y.natAbs ≤ B ∧
      (floatReader fmt).take (fmt.print (ofInt x)) = some (ofInt y, []) := by
  obtain ⟨y, hNear, hPrint⟩ := hFmt.print x hx
  have hy := hBound x y hx hNear
  refine ⟨y, hNear, hy, ?_⟩
  rw [hPrint]
  exact take_generalText hFmt hy

/-- **An integer comes back exactly when it has few enough digits.** -/
theorem readBack_eq_iff
    (hBound : ∀ x y : Int, x.natAbs ≤ B → Nearest p x y → y.natAbs ≤ B)
    {x : Int} (hx : x.natAbs ≤ B) :
    fmt.readBack (ofInt x) = ofInt x ↔ HasDigits p x.natAbs := by
  obtain ⟨y, hNear, hy, hTake⟩ := take_print hFmt hBound hx
  rw [FloatFormat.readBack_of_take hTake, ← hNear.eq_iff]
  constructor
  · intro hEq
    exact hFmt.exact y x hy hx hEq
  · intro hEq
    rw [hEq]

end Formats

/-- Whole numbers printed with `p` digits, halves rounded away from zero. -/
def decimalFormat (p : Nat) : FloatFormat Int where
  print x := generalText p (roundInt p x)
  convert tok :=
    match integerOf tok with
    | some y => (y, true)
    | none => (0, false)

theorem decimalFormat_general {p : Nat} (hp : 0 < p) (B : Nat) :
    GeneralNotation (decimalFormat p) id p B where
  exact := fun _ _ _ _ h => h
  print := fun x _ => ⟨roundInt p x, roundInt_nearest hp x, rfl⟩
  convert := by
    intro y _
    simp [decimalFormat, integerOf_generalText]

/-! ## The integers of a `float` -/

/-- With six digits no rounding leaves the integers a `float` holds exactly:
`2 ^ 24 = 16777216` is rounded towards `16777200`. -/
theorem nearest_six_le (x y : Int) (hx : x.natAbs ≤ 2 ^ 24) (h : Nearest 6 x y) :
    y.natAbs ≤ 2 ^ 24 := by
  by_contra hLarge
  have hDvd : 10 ^ (7 + 1 - 6) ∣ y.natAbs := h.digits.dvd (by omega)
  have hEdge : HasDigits 6 16777200 := ⟨167772, 2, by decide, by decide⟩
  have hUp := h.closest 16777200 hEdge
  have hDown := h.closest (-16777200) (by rw [Int.natAbs_neg]; exact hEdge)
  omega

end MGServer.Verified.DecimalText
