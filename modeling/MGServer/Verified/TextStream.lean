import Mathlib.Algebra.Ring.Int.Defs
import Mathlib.Algebra.Ring.Nat
import Mathlib.Data.List.TakeWhile
import Mathlib.Data.List.Forall2

/-!
# Formatted text streams

The part of the C++ stream library that numeric `<<` and `>>` rest on.  An
input stream is its unread text and a sticky failbit; a formatted extraction
skips whitespace, reads the longest token its conversion accepts, and converts
that token.

* On a stream that has failed, or has only whitespace left, an extraction sets
  failbit and leaves its target unchanged.
* A token that does not convert still writes a value to the target (zero for
  a non-number, the nearest bound for an out-of-range integer) and sets
  failbit.

The end-of-file bit is not kept apart: it is only ever set with the unread
text empty, and then the next extraction fails either way.

`Reader.take` is the same extraction seen as a grammar: the value of the next
token and what is left, or nothing.  `Slot` and `readSlots` lift both views to
records read field by field.
-/

namespace MGServer.Verified.TextStream

abbrev Text := List Char

/-- `isspace` in the C locale. -/
def isSpace (c : Char) : Bool := c == ' ' || (9 ≤ c.toNat && c.toNat ≤ 13)

def skipSpace (t : Text) : Text := t.dropWhile isSpace

structure IStream where
  text : Text
  failed : Bool
  deriving Repr, DecidableEq

/-- A numeric conversion: an automaton that decides how long the token is,
and the conversion of the whole token to the value written and whether it
counts as a success.  No automaton reads past whitespace. -/
structure Reader (α : Type) where
  State : Type
  start : State
  accept : State → Char → Option State
  convert : Text → α × Bool
  accept_space : ∀ s c, isSpace c = true → accept s c = none

namespace Reader

variable {α : Type} (r : Reader α)

/-- The longest token from state `s`, and the text behind it. -/
def scan : r.State → Text → Text × Text
  | _, [] => ([], [])
  | s, c :: cs =>
      match r.accept s c with
      | none => ([], c :: cs)
      | some s' => (c :: (scan s' cs).1, (scan s' cs).2)

/-- One extraction as a grammar: the next token's value and the text behind
it. -/
def take (t : Text) : Option (α × Text) :=
  match skipSpace t with
  | [] => none
  | c :: cs =>
      let tok := r.scan r.start (c :: cs)
      let value := r.convert tok.1
      if value.2 then some (value.1, tok.2) else none

/-- The value the next token leaves in its target, whether or not it
converts; nothing when there is no token. -/
def written (t : Text) : Option α :=
  match skipSpace t with
  | [] => none
  | c :: cs => some (r.convert (r.scan r.start (c :: cs)).1).1

/-- `stream >> target`. -/
def extract (s : IStream) (target : α) : IStream × α :=
  if s.failed then (s, target)
  else
    match skipSpace s.text with
    | [] => (⟨[], true⟩, target)
    | c :: cs =>
        let tok := r.scan r.start (c :: cs)
        let value := r.convert tok.1
        (⟨tok.2, !value.2⟩, value.1)

/-! ## Extraction and the grammar agree -/

theorem extract_failed {s : IStream} (hs : s.failed = true) (target : α) :
    r.extract s target = (s, target) := by
  simp [extract, hs]

theorem extract_of_take {t t' : Text} {v : α} (h : r.take t = some (v, t'))
    (target : α) : r.extract ⟨t, false⟩ target = (⟨t', false⟩, v) := by
  unfold take at h
  unfold extract
  cases hSkip : skipSpace t with
  | nil => simp [hSkip] at h
  | cons c cs =>
      simp only [hSkip, Option.ite_none_right_eq_some, Option.some.injEq,
        Prod.mk.injEq] at h
      obtain ⟨hOk, rfl, rfl⟩ := h
      simp [hOk]

theorem extract_of_take_none {t : Text} (h : r.take t = none) (target : α) :
    (r.extract ⟨t, false⟩ target).1.failed = true := by
  unfold take at h
  unfold extract
  cases hSkip : skipSpace t with
  | nil => simp
  | cons c cs =>
      simp only [hSkip, ite_eq_right_iff, reduceCtorEq, imp_false,
        Bool.not_eq_true] at h
      simp [h]

theorem extract_value (t : Text) (target : α) :
    (r.extract ⟨t, false⟩ target).2 = (r.written t).getD target := by
  unfold extract written
  cases skipSpace t <;> rfl

/-! ## Framing -/

/-- A token that uses up a text uses up exactly that text when whitespace
follows it. -/
theorem scan_framed {c : Char} (hc : isSpace c = true) (rest : Text) :
    ∀ (t : Text) (s : r.State), r.scan s t = (t, []) →
      r.scan s (t ++ c :: rest) = (t, c :: rest) := by
  intro t
  induction t with
  | nil =>
      intro s _
      simp [scan, r.accept_space s c hc]
  | cons d t ih =>
      intro s h
      simp only [scan] at h
      cases hAcc : r.accept s d with
      | none => simp [hAcc] at h
      | some s' =>
          simp only [hAcc, Prod.mk.injEq, List.cons.injEq, true_and] at h
          have hTail := ih s' (Prod.ext h.1 h.2)
          simp [scan, hAcc, hTail]

theorem scan_append (t : Text) : ∀ s : r.State,
    (r.scan s t).1 ++ (r.scan s t).2 = t := by
  induction t with
  | nil => intro s; rfl
  | cons c t ih =>
      intro s
      simp only [scan]
      cases r.accept s c with
      | none => rfl
      | some s' => simp [ih s']

theorem skipSpace_framed {t : Text} (ws : Text) (back : Text)
    (hws : ∀ c ∈ ws, isSpace c = true) (ht : skipSpace t ≠ []) :
    skipSpace (ws ++ (t ++ back)) = skipSpace t ++ back := by
  unfold skipSpace at ht ⊢
  rw [List.dropWhile_append_of_pos hws, List.dropWhile_append]
  simp [List.isEmpty_iff, ht]

/-- **Framing.** A text that reads back as `v` on its own reads back as `v`
behind any whitespace and in front of whitespace and anything else, and the
extraction stops at that whitespace. -/
theorem take_framed {p : Text} {v : α} (h : r.take p = some (v, []))
    {ws : Text} (hws : ∀ c ∈ ws, isSpace c = true) {c : Char}
    (hc : isSpace c = true) (rest : Text) :
    r.take (ws ++ (p ++ c :: rest)) = some (v, c :: rest) := by
  unfold take at h ⊢
  cases hSkip : skipSpace p with
  | nil => simp [hSkip] at h
  | cons d ds =>
      simp only [hSkip, Option.ite_none_right_eq_some, Option.some.injEq,
        Prod.mk.injEq] at h
      obtain ⟨hOk, hVal, hRest⟩ := h
      have hScan : r.scan r.start (d :: ds) = (d :: ds, []) := by
        have hAll := r.scan_append (d :: ds) r.start
        rw [hRest, List.append_nil] at hAll
        exact Prod.ext hAll hRest
      have hFramed := r.scan_framed hc rest _ _ hScan
      rw [hScan] at hOk hVal
      rw [skipSpace_framed ws _ hws (by simp [hSkip]), hSkip, List.cons_append]
      rw [List.cons_append] at hFramed
      simp [hFramed, hOk, hVal]

/-- The state after a text all of whose characters are accepted. -/
def run (s : r.State) (t : Text) : Option r.State := t.foldlM r.accept s

theorem run_cons {s s₁ s₂ : r.State} {c : Char} {t : Text}
    (hHead : r.accept s c = some s₁) (hTail : r.run s₁ t = some s₂) :
    r.run s (c :: t) = some s₂ := by
  rw [run, List.foldlM_cons, hHead]
  exact hTail

theorem run_append {s s₁ s₂ : r.State} {t u : Text}
    (hFront : r.run s t = some s₁) (hBack : r.run s₁ u = some s₂) :
    r.run s (t ++ u) = some s₂ := by
  rw [run] at hFront
  rw [run, List.foldlM_append, hFront]
  exact hBack

/-- A state that takes every character of a text and stays where it is. -/
theorem run_loop {s : r.State} (t : Text) (h : ∀ c ∈ t, r.accept s c = some s) :
    r.run s t = some s := by
  induction t with
  | nil => rfl
  | cons c t ih =>
      apply r.run_cons (h c (by simp))
      exact ih fun d hd => h d (by simp [hd])

/-- A text that is accepted to its end is one token. -/
theorem scan_of_run (t : Text) : ∀ {s s' : r.State}, r.run s t = some s' →
    r.scan s t = (t, []) := by
  induction t with
  | nil => intro s s' _; rfl
  | cons c t ih =>
      intro s s' h
      rw [run, List.foldlM_cons] at h
      obtain ⟨s₁, hAccept, hRun⟩ := Option.bind_eq_some_iff.1 h
      simp only [scan, hAccept, ih hRun]

/-- A text that is one token and converts is read whole. -/
theorem take_token {t : Text} (hSkip : skipSpace t = t) (hNil : t ≠ [])
    (hScan : r.scan r.start t = (t, [])) {v : α} (hConv : r.convert t = (v, true)) :
    r.take t = some (v, []) := by
  obtain ⟨c, cs, rfl⟩ := List.exists_cons_of_ne_nil hNil
  simp [take, hSkip, hScan, hConv]

/-- A text that is one token and does not convert is not read, whatever
follows it. -/
theorem take_token_none {t : Text} (hSkip : skipSpace t = t) (hNil : t ≠ [])
    (hScan : r.scan r.start t = (t, [])) (hConv : (r.convert t).2 = false)
    {c : Char} (hc : isSpace c = true) (rest : Text) :
    r.take (t ++ c :: rest) = none := by
  have hFramed := r.scan_framed hc rest t _ hScan
  have hFront := skipSpace_framed [] (c :: rest) (by simp) (hSkip.symm ▸ hNil)
  rw [List.nil_append, hSkip] at hFront
  unfold take
  obtain ⟨d, ds, rfl⟩ := List.exists_cons_of_ne_nil hNil
  rw [hFront]
  rw [List.cons_append] at hFramed ⊢
  simp only [hFramed, hConv, Bool.false_eq_true, if_false]

end Reader

/-! ## Integers and booleans -/

/-- Where the integer conversion stands: before the sign, or among the
digits. -/
inductive IntState where
  | start
  | digits
  deriving Repr, DecidableEq

def isSign (c : Char) : Bool := c == '+' || c == '-'

def acceptInt : IntState → Char → Option IntState
  | .start, c => if isSign c || c.isDigit then some .digits else none
  | .digits, c => if c.isDigit then some .digits else none

theorem not_isDigit_of_isSpace {c : Char} (hc : isSpace c = true) :
    c.isDigit = false := by
  have hVal : c.val.toNat = c.toNat := rfl
  simp only [isSpace, Bool.or_eq_true, beq_iff_eq, Bool.and_eq_true,
    decide_eq_true_eq] at hc
  simp only [Char.isDigit, Bool.and_eq_false_iff, decide_eq_false_iff_not,
    UInt32.not_le, ge_iff_le]
  left
  rcases hc with rfl | ⟨_, hc⟩
  · decide
  · rw [UInt32.lt_iff_toNat_lt, hVal]
    exact Nat.lt_of_le_of_lt hc (by decide)

theorem not_isSign_of_isSpace {c : Char} (hc : isSpace c = true) :
    isSign c = false := by
  by_contra hSign
  simp only [isSign, Bool.not_eq_false, Bool.or_eq_true, beq_iff_eq] at hSign
  rcases hSign with rfl | rfl <;> exact absurd hc (by decide)

theorem acceptInt_space (s : IntState) (c : Char) (hc : isSpace c = true) :
    acceptInt s c = none := by
  cases s <;> simp [acceptInt, not_isDigit_of_isSpace hc, not_isSign_of_isSpace hc]

/-- Sign and digits of an integer token. -/
def splitSign : Text → Bool × Text
  | [] => (false, [])
  | c :: cs =>
      if c = '-' then (true, cs) else if c = '+' then (false, cs)
      else (false, c :: cs)

/-- Conversion of an integer token to a type with bounds `lo` and `hi`: zero
for a token without digits, the nearest bound out of range. -/
def convertInt (lo hi : Int) (tok : Text) : Int × Bool :=
  if (splitSign tok).2 = [] then (0, false)
  else
    let n : Int := Nat.ofDigitChars 10 (splitSign tok).2 0
    let v := if (splitSign tok).1 then -n else n
    if v < lo then (lo, false) else if hi < v then (hi, false) else (v, true)

/-- `>>` into an `int`. -/
def intReader : Reader Int32 where
  State := IntState
  start := .start
  accept := acceptInt
  convert tok :=
    (Int32.ofInt (convertInt (-2 ^ 31) (2 ^ 31 - 1) tok).1,
     (convertInt (-2 ^ 31) (2 ^ 31 - 1) tok).2)
  accept_space := acceptInt_space

/-- `>>` into a `bool` without `boolalpha`: an integer that must be 0 or 1;
any other number writes `true` and fails. -/
def boolReader : Reader Bool where
  State := IntState
  start := .start
  accept := acceptInt
  convert tok :=
    let v := convertInt (-2 ^ 63) (2 ^ 63 - 1) tok
    if v.1 = 0 then (false, v.2) else if v.1 = 1 then (true, v.2)
    else (true, false)
  accept_space := acceptInt_space

/-- `<<` of a `size_t`. -/
def natText (n : Nat) : Text := Nat.toDigits 10 n

/-- `<<` of an `int`. -/
def intText (n : Int) : Text :=
  if n < 0 then '-' :: natText n.natAbs else natText n.natAbs

/-- `<<` of a `bool` without `boolalpha`. -/
def boolText (b : Bool) : Text := if b then ['1'] else ['0']

theorem natText_isDigit {n : Nat} {c : Char} (hc : c ∈ natText n) :
    c.isDigit = true :=
  Nat.isDigit_of_mem_toDigits (by decide) (by decide) hc

theorem natText_ne_nil (n : Nat) : natText n ≠ [] := by
  have hPos : 0 < (Nat.toDigits 10 n).length := Nat.length_toDigits_pos
  exact List.ne_nil_of_length_pos hPos

theorem skipSpace_of_head {c : Char} {t : Text} (hc : isSpace c = false) :
    skipSpace (c :: t) = c :: t := by
  simp [skipSpace, hc]

theorem not_isSpace_of_isDigit {c : Char} (hc : c.isDigit = true) :
    isSpace c = false := by
  by_contra hSpace
  rw [Bool.not_eq_false] at hSpace
  rw [not_isDigit_of_isSpace hSpace] at hc
  cases hc

/-- The digit state of the integer automaton takes every digit. -/
theorem run_digits {t : Text} (ht : ∀ c ∈ t, c.isDigit = true) :
    intReader.run IntState.digits t = some IntState.digits := by
  apply intReader.run_loop
  intro c hc
  simp [intReader, acceptInt, ht c hc]

theorem run_intText (n : Int) :
    intReader.run IntState.start (intText n) = some IntState.digits := by
  unfold intText
  split
  · have hAccept : intReader.accept IntState.start '-' = some IntState.digits := rfl
    apply intReader.run_cons hAccept
    exact run_digits fun c hc => natText_isDigit hc
  · obtain ⟨c, t, hCons⟩ := List.exists_cons_of_ne_nil (natText_ne_nil n.natAbs)
    have hDigits : ∀ d ∈ c :: t, d.isDigit = true := by
      intro d hd
      rw [← hCons] at hd
      exact natText_isDigit hd
    have hAccept : intReader.accept IntState.start c = some IntState.digits := by
      simp [intReader, acceptInt, hDigits c (by simp)]
    rw [hCons]
    apply intReader.run_cons hAccept
    exact run_digits fun d hd => hDigits d (by simp [hd])

/-- An optional minus sign and at least one digit form one integer token. -/
theorem scan_intText (n : Int) :
    intReader.scan IntState.start (intText n) = (intText n, []) :=
  intReader.scan_of_run (intText n) (run_intText n)

theorem skipSpace_intText (n : Int) : skipSpace (intText n) = intText n := by
  unfold intText
  split
  · exact skipSpace_of_head (by decide)
  · obtain ⟨c, t, hCons⟩ := List.exists_cons_of_ne_nil (natText_ne_nil n.natAbs)
    have hc : c.isDigit = true := natText_isDigit (n := n.natAbs) (by simp [hCons])
    rw [hCons]
    exact skipSpace_of_head (not_isSpace_of_isDigit hc)

theorem intText_ne_nil (n : Int) : intText n ≠ [] := by
  unfold intText
  split
  · simp
  · exact natText_ne_nil _

theorem splitSign_intText (n : Int) :
    splitSign (intText n) = (decide (n < 0), natText n.natAbs) := by
  unfold intText
  split
  · rename_i hNeg
    simp [splitSign, hNeg]
  · rename_i hNeg
    obtain ⟨c, t, hCons⟩ := List.exists_cons_of_ne_nil (natText_ne_nil n.natAbs)
    have hc : c.isDigit = true := natText_isDigit (n := n.natAbs) (by simp [hCons])
    have hMinus : c ≠ '-' := by rintro rfl; exact absurd hc (by decide)
    have hPlus : c ≠ '+' := by rintro rfl; exact absurd hc (by decide)
    simp [hCons, splitSign, hMinus, hPlus, hNeg]

theorem convertInt_intText {lo hi n : Int} (hLo : lo ≤ n) (hHi : n ≤ hi) :
    convertInt lo hi (intText n) = (n, true) := by
  have hValue : (if decide (n < 0) = true then -((n.natAbs : Nat) : Int)
      else ((n.natAbs : Nat) : Int)) = n := by
    split
    · rename_i hNeg
      rw [decide_eq_true_eq] at hNeg
      omega
    · rename_i hNeg
      rw [decide_eq_true_eq] at hNeg
      omega
  unfold convertInt
  rw [splitSign_intText, if_neg (natText_ne_nil _)]
  simp only [natText, Nat.ofDigitChars_ten_toDigits, hValue]
  rw [if_neg (by omega), if_neg (by omega)]

/-- **`int` prints and parses back.** -/
theorem take_intText (n : Int32) :
    intReader.take (intText n.toInt) = some (n, []) := by
  have hHi : n.toInt ≤ 2 ^ 31 - 1 := by
    have hLt := Int32.toInt_lt n
    omega
  have hConv := convertInt_intText (Int32.le_toInt n) hHi
  apply intReader.take_token (skipSpace_intText _) (intText_ne_nil _) (scan_intText _)
  simp only [intReader, hConv, Int32.ofInt_toInt]

theorem intText_natCast (n : Nat) : intText n = natText n := by
  simp [intText]

/-- A count below `2^31` is read back by `>>` into an `int`. -/
theorem take_natText {n : Nat} (hn : n < 2 ^ 31) :
    intReader.take (natText n) = some (Int32.ofInt n, []) := by
  have hBack : (Int32.ofInt n).toInt = n :=
    Int32.toInt_ofInt_of_le (by omega) (by exact_mod_cast hn)
  have h := take_intText (Int32.ofInt n)
  rwa [hBack, intText_natCast] at h

/-- A count from `2^31` on is not. -/
theorem take_natText_none {n : Nat} (hn : 2 ^ 31 ≤ n) {c : Char} (hc : isSpace c = true)
    (rest : Text) : intReader.take (natText n ++ c :: rest) = none := by
  rw [← intText_natCast]
  apply intReader.take_token_none (skipSpace_intText _) (intText_ne_nil _)
    (scan_intText _) _ hc
  have hNeg : ¬ ((n : Int) < 0) := by omega
  have hLow : ¬ ((n : Int) < -2 ^ 31) := by omega
  have hHigh : (2 ^ 31 - 1 : Int) < n := by omega
  simp only [intReader, convertInt, splitSign_intText, natText_ne_nil, if_false]
  simp only [natText, Nat.ofDigitChars_ten_toDigits, hNeg, decide_false,
    Bool.false_eq_true, if_false, Int.natAbs_natCast, hLow, hHigh, if_true]

/-- **`bool` prints and parses back.** -/
theorem take_boolText (b : Bool) : boolReader.take (boolText b) = some (b, []) := by
  cases b <;> decide

/-! ## Numerals

The grammar of integers without the bounds of a type. -/

/-- The value of an integer token; nothing without a digit. -/
def numeralValue (tok : Text) : Option Int :=
  if (splitSign tok).2 = [] then none
  else
    some (if (splitSign tok).1 then -(Nat.ofDigitChars 10 (splitSign tok).2 0 : Int)
      else Nat.ofDigitChars 10 (splitSign tok).2 0)

/-- The next token as an integer, and the text behind it. -/
def takeNumeral (t : Text) : Option (Int × Text) :=
  match skipSpace t with
  | [] => none
  | c :: cs =>
      let tok := intReader.scan IntState.start (c :: cs)
      (numeralValue tok.1).map fun v => (v, tok.2)

theorem convertInt_of_value {lo hi n : Int} {tok : Text}
    (hTok : numeralValue tok = some n) (hLo : lo ≤ n) (hHi : n ≤ hi) :
    convertInt lo hi tok = (n, true) := by
  unfold numeralValue at hTok
  split at hTok
  · cases hTok
  · rename_i hDigits
    simp only [Option.some.injEq] at hTok
    simp only [convertInt, hDigits, if_false, hTok]
    rw [if_neg (by omega), if_neg (by omega)]

/-- An integer that converts is the token's value, within the bounds. -/
theorem value_of_convertInt {lo hi : Int} {tok : Text}
    (hConv : (convertInt lo hi tok).2 = true) :
    numeralValue tok = some (convertInt lo hi tok).1 ∧
      lo ≤ (convertInt lo hi tok).1 ∧ (convertInt lo hi tok).1 ≤ hi := by
  cases hTok : numeralValue tok with
  | none =>
      unfold numeralValue at hTok
      split at hTok
      · rename_i hDigits
        simp [convertInt, hDigits] at hConv
      · cases hTok
  | some n =>
      have hRange : lo ≤ n ∧ n ≤ hi := by
        unfold numeralValue at hTok
        split at hTok
        · cases hTok
        · rename_i hDigits
          simp only [Option.some.injEq] at hTok
          simp only [convertInt, hDigits, if_false, hTok] at hConv
          split at hConv
          · cases hConv
          · split at hConv
            · cases hConv
            · omega
      rw [convertInt_of_value hTok hRange.1 hRange.2]
      exact ⟨rfl, hRange⟩

theorem Reader.take_eq_some {α : Type} (r : Reader α) {t t' : Text} {v : α} :
    r.take t = some (v, t') ↔ ∃ c cs, skipSpace t = c :: cs ∧
      r.convert (r.scan r.start (c :: cs)).1 = (v, true) ∧
      (r.scan r.start (c :: cs)).2 = t' := by
  unfold Reader.take
  cases skipSpace t with
  | nil => simp
  | cons c cs =>
      simp only [Option.ite_none_right_eq_some, Option.some.injEq, List.cons.injEq,
        Prod.ext_iff]
      constructor
      · rintro ⟨hOk, hValue, hRest⟩
        exact ⟨c, cs, ⟨rfl, rfl⟩, ⟨hValue, hOk⟩, hRest⟩
      · rintro ⟨c', cs', ⟨rfl, rfl⟩, ⟨hValue, hOk⟩, hRest⟩
        exact ⟨hOk, hValue, hRest⟩

theorem takeNumeral_eq_some {t t' : Text} {v : Int} :
    takeNumeral t = some (v, t') ↔ ∃ c cs, skipSpace t = c :: cs ∧
      numeralValue (intReader.scan IntState.start (c :: cs)).1 = some v ∧
      (intReader.scan IntState.start (c :: cs)).2 = t' := by
  unfold takeNumeral
  cases skipSpace t with
  | nil => simp
  | cons c cs =>
      simp only [Option.map_eq_some_iff, Prod.mk.injEq, List.cons.injEq]
      constructor
      · rintro ⟨n, hValue, rfl, hRest⟩
        exact ⟨c, cs, ⟨rfl, rfl⟩, hValue, hRest⟩
      · rintro ⟨c', cs', ⟨rfl, rfl⟩, hValue, hRest⟩
        exact ⟨v, hValue, rfl, hRest⟩

theorem intReader_convert {tok : Text} {v : Int32} :
    intReader.convert tok = (v, true) ↔ numeralValue tok = some v.toInt := by
  show (Int32.ofInt (convertInt (-2 ^ 31) (2 ^ 31 - 1) tok).1,
    (convertInt (-2 ^ 31) (2 ^ 31 - 1) tok).2) = (v, true) ↔ _
  rw [Prod.mk.injEq]
  constructor
  · rintro ⟨rfl, hOk⟩
    obtain ⟨hValue, hLo, hHi⟩ := value_of_convertInt hOk
    rw [hValue, Int32.toInt_ofInt_of_le hLo (by omega)]
  · intro hValue
    have hHi : v.toInt ≤ 2 ^ 31 - 1 := by
      have hLt := Int32.toInt_lt v
      omega
    rw [convertInt_of_value hValue (Int32.le_toInt v) hHi]
    exact ⟨Int32.ofInt_toInt v, rfl⟩

theorem boolReader_convert {tok : Text} {b : Bool} :
    boolReader.convert tok = (b, true) ↔
    numeralValue tok = some (if b then 1 else 0) := by
  show (if (convertInt (-2 ^ 63) (2 ^ 63 - 1) tok).1 = 0 then
      (false, (convertInt (-2 ^ 63) (2 ^ 63 - 1) tok).2)
    else if (convertInt (-2 ^ 63) (2 ^ 63 - 1) tok).1 = 1 then
      (true, (convertInt (-2 ^ 63) (2 ^ 63 - 1) tok).2)
    else (true, false)) = (b, true) ↔ _
  constructor
  · intro hConv
    split at hConv
    · rename_i hZero
      simp only [Prod.mk.injEq] at hConv
      obtain ⟨rfl, hOk⟩ := hConv
      rw [(value_of_convertInt hOk).1, hZero]
      rfl
    · split at hConv
      · rename_i hOne
        simp only [Prod.mk.injEq] at hConv
        obtain ⟨rfl, hOk⟩ := hConv
        rw [(value_of_convertInt hOk).1, hOne]
        rfl
      · simp at hConv
  · intro hValue
    rw [convertInt_of_value hValue (by split <;> omega) (by split <;> omega)]
    cases b <;> simp

/-- `>>` into an `int` takes the integers an `int` can hold. -/
theorem take_int_iff {t t' : Text} {v : Int32} :
    intReader.take t = some (v, t') ↔ takeNumeral t = some (v.toInt, t') := by
  rw [intReader.take_eq_some, takeNumeral_eq_some]
  simp only [intReader_convert]
  exact Iff.rfl

/-- The integer automaton is the same in both. -/
theorem boolReader_scan (s : IntState) (t : Text) :
    boolReader.scan s t = intReader.scan s t := by
  induction t generalizing s with
  | nil => rfl
  | cons c t ih =>
      cases hAccept : acceptInt s c with
      | none =>
          have hBool : boolReader.accept s c = none := hAccept
          have hInt : intReader.accept s c = none := hAccept
          simp only [Reader.scan, hBool, hInt]
      | some s' =>
          have hBool : boolReader.accept s c = some s' := hAccept
          have hInt : intReader.accept s c = some s' := hAccept
          simp only [Reader.scan, hBool, hInt, ih]

/-- `>>` into a `bool` takes the integers 0 and 1. -/
theorem take_bool_iff {t t' : Text} {b : Bool} :
    boolReader.take t = some (b, t') ↔
    takeNumeral t = some (if b then 1 else 0, t') := by
  have hStart : boolReader.start = IntState.start := rfl
  rw [boolReader.take_eq_some, takeNumeral_eq_some]
  simp only [boolReader_convert, hStart, boolReader_scan]

/-! ## Floating-point numbers

The width and rounding of the floating-point type stay open: a `FloatFormat`
is how the stream prints a value and what it makes of a token.  Which
characters form the token is fixed. -/

structure FloatFormat (F : Type) where
  print : F → Text
  /-- The value stored for an accumulated token, and whether it converts. -/
  convert : Text → F × Bool

/-- Where the float conversion stands; the flag says whether the mantissa has
a digit yet, without which no exponent is read. -/
inductive FloatState where
  | start
  | whole (found : Bool)
  | fraction (found : Bool)
  | exponent
  | exponentDigits
  deriving Repr, DecidableEq

/-- Digits, a decimal point or an exponent letter after the sign. -/
def acceptWhole (found : Bool) (c : Char) : Option FloatState :=
  if c.isDigit then some (.whole true)
  else if c = '.' then some (.fraction found)
  else if found && (c == 'e' || c == 'E') then some .exponent
  else none

def acceptFloat : FloatState → Char → Option FloatState
  | .start, c => if isSign c then some (.whole false) else acceptWhole false c
  | .whole found, c => acceptWhole found c
  | .fraction found, c =>
      if c.isDigit then some (.fraction true)
      else if found && (c == 'e' || c == 'E') then some .exponent
      else none
  | .exponent, c =>
      if isSign c || c.isDigit then some .exponentDigits else none
  | .exponentDigits, c => if c.isDigit then some .exponentDigits else none

theorem acceptWhole_space (found : Bool) {c : Char} (hc : isSpace c = true) :
    acceptWhole found c = none := by
  have hDot : c ≠ '.' := by rintro rfl; exact absurd hc (by decide)
  have he : c ≠ 'e' := by rintro rfl; exact absurd hc (by decide)
  have hE : c ≠ 'E' := by rintro rfl; exact absurd hc (by decide)
  simp [acceptWhole, not_isDigit_of_isSpace hc, hDot, he, hE]

theorem acceptFloat_space (s : FloatState) (c : Char) (hc : isSpace c = true) :
    acceptFloat s c = none := by
  have hDigit := not_isDigit_of_isSpace hc
  have hSign := not_isSign_of_isSpace hc
  cases s with
  | start => simp [acceptFloat, hSign, acceptWhole_space false hc]
  | whole found => exact acceptWhole_space found hc
  | fraction found =>
      have he : c ≠ 'e' := by rintro rfl; exact absurd hc (by decide)
      have hE : c ≠ 'E' := by rintro rfl; exact absurd hc (by decide)
      simp [acceptFloat, hDigit, he, hE]
  | exponent => simp [acceptFloat, hDigit, hSign]
  | exponentDigits => simp [acceptFloat, hDigit]

/-- `>>` into a `float`. -/
def floatReader {F : Type} (fmt : FloatFormat F) : Reader F where
  State := FloatState
  start := .start
  accept := acceptFloat
  convert := fmt.convert
  accept_space := acceptFloat_space

/-- A value survives the stream's own print-then-parse: reading its printed
text yields it and uses up the text. -/
def FloatFormat.Survives {F : Type} (fmt : FloatFormat F) (f : F) : Prop :=
  (floatReader fmt).take (fmt.print f) = some (f, [])

/-- The printed text of a value is read whole, as some value. -/
def FloatFormat.Legible {F : Type} (fmt : FloatFormat F) (f : F) : Prop :=
  ∃ g, (floatReader fmt).take (fmt.print f) = some (g, [])

/-- What comes back from the printed text of a value. -/
def FloatFormat.readBack {F : Type} (fmt : FloatFormat F) (f : F) : F :=
  (((floatReader fmt).take (fmt.print f)).map Prod.fst).getD f

theorem FloatFormat.readBack_of_take {F : Type} {fmt : FloatFormat F} {f g : F}
    (h : (floatReader fmt).take (fmt.print f) = some (g, [])) : fmt.readBack f = g := by
  simp [readBack, h]

theorem FloatFormat.Legible.take {F : Type} {fmt : FloatFormat F} {f : F}
    (h : fmt.Legible f) :
    (floatReader fmt).take (fmt.print f) = some (fmt.readBack f, []) := by
  obtain ⟨g, hg⟩ := h
  rw [readBack_of_take hg, hg]

/-! ## Records read field by field -/

/-- One statement `stream >> info.field`. -/
structure Slot (ρ : Type) where
  α : Type
  reader : Reader α
  get : ρ → α
  set : ρ → α → ρ
  set_get : ∀ x, set x (get x) = x

variable {ρ : Type}

def Slot.read (f : Slot ρ) (p : IStream × ρ) : IStream × ρ :=
  let q := f.reader.extract p.1 (f.get p.2)
  (q.1, f.set p.2 q.2)

/-- A sequence of such statements. -/
def readSlots (fs : List (Slot ρ)) (p : IStream × ρ) : IStream × ρ :=
  fs.foldl (fun p f => f.read p) p

/-- The same sequence as a grammar, over a record whose fields it replaces. -/
def takeSlots : List (Slot ρ) → ρ → Text → Option (ρ × Text)
  | [], x, t => some (x, t)
  | f :: fs, x, t =>
      (f.reader.take t).bind fun q => takeSlots fs (f.set x q.1) q.2

theorem takeSlots_cons {f : Slot ρ} {fs : List (Slot ρ)} {x y : ρ} {t t' : Text} :
    takeSlots (f :: fs) x t = some (y, t') ↔
      ∃ v t₁, f.reader.take t = some (v, t₁) ∧
        takeSlots fs (f.set x v) t₁ = some (y, t') := by
  rw [takeSlots, Option.bind_eq_some_iff]
  constructor
  · rintro ⟨⟨v, t₁⟩, hTake, hRest⟩
    exact ⟨v, t₁, hTake, hRest⟩
  · rintro ⟨v, t₁, hTake, hRest⟩
    exact ⟨(v, t₁), hTake, hRest⟩

@[simp] theorem readSlots_nil (p : IStream × ρ) : readSlots [] p = p := rfl

@[simp] theorem readSlots_cons (f : Slot ρ) (fs : List (Slot ρ))
    (p : IStream × ρ) : readSlots (f :: fs) p = readSlots fs (f.read p) := rfl

/-- Failbit is sticky through every later field, and nothing changes. -/
theorem readSlots_failed (fs : List (Slot ρ)) {s : IStream}
    (hs : s.failed = true) (x : ρ) : readSlots fs (s, x) = (s, x) := by
  induction fs with
  | nil => rfl
  | cons f fs ih =>
      have hRead : f.read (s, x) = (s, x) := by
        simp [Slot.read, f.reader.extract_failed hs, f.set_get]
      rw [readSlots_cons, hRead, ih]

theorem readSlots_of_take (fs : List (Slot ρ)) :
    ∀ {x y : ρ} {t t' : Text}, takeSlots fs x t = some (y, t') →
      readSlots fs (⟨t, false⟩, x) = (⟨t', false⟩, y) := by
  induction fs with
  | nil =>
      intro x y t t' h
      simp only [takeSlots, Option.some.injEq, Prod.mk.injEq] at h
      simp [h.1, h.2]
  | cons f fs ih =>
      intro x y t t' h
      obtain ⟨v, t₁, hTake, hRest⟩ := takeSlots_cons.1 h
      have hExtract := f.reader.extract_of_take hTake (f.get x)
      rw [readSlots_cons, Slot.read]
      simp only [hExtract]
      exact ih hRest

theorem readSlots_of_take_none (fs : List (Slot ρ)) :
    ∀ {x : ρ} {t : Text}, takeSlots fs x t = none →
      (readSlots fs (⟨t, false⟩, x)).1.failed = true := by
  induction fs with
  | nil => intro x t h; cases h
  | cons f fs ih =>
      intro x t h
      rw [readSlots_cons, Slot.read]
      cases hTake : f.reader.take t with
      | none =>
          have hFail := f.reader.extract_of_take_none hTake (f.get x)
          simp only [readSlots_failed fs hFail, hFail]
      | some q =>
          have hExtract := f.reader.extract_of_take hTake (f.get x)
          simp only [takeSlots, hTake, Option.bind_some] at h
          simp only [hExtract]
          exact ih h

/-- The record after its fields have been supplied by the tokens of a text, up
to the first one that is missing or does not convert. -/
def overlaySlots : List (Slot ρ) → ρ → Text → ρ
  | [], x, _ => x
  | f :: fs, x, t =>
      match f.reader.take t with
      | some (v, t') => overlaySlots fs (f.set x v) t'
      | none => f.set x ((f.reader.written t).getD (f.get x))

/-- Whatever the text, reading leaves the record as the overlay says. -/
theorem readSlots_value (fs : List (Slot ρ)) : ∀ (x : ρ) (t : Text),
    (readSlots fs (⟨t, false⟩, x)).2 = overlaySlots fs x t := by
  induction fs with
  | nil => intro x t; rfl
  | cons f fs ih =>
      intro x t
      rw [readSlots_cons, Slot.read, overlaySlots]
      cases hTake : f.reader.take t with
      | none =>
          have hFail := f.reader.extract_of_take_none hTake (f.get x)
          simp only [readSlots_failed fs hFail, f.reader.extract_value]
      | some q =>
          simp only [f.reader.extract_of_take hTake, ih]

/-! ## Records written one field a line -/

/-- `<< value << endl`. -/
def line (value : Text) : Text := value ++ ['\n']

/-- Whitespace only. -/
def Blank (ws : Text) : Prop := ∀ c ∈ ws, isSpace c = true

theorem blank_nil : Blank [] := by simp [Blank]

theorem blank_newline : Blank ['\n'] := by
  intro c hc
  rw [List.mem_singleton] at hc
  subst hc
  decide

theorem blank_newlines : Blank ['\n', '\n'] := by
  intro c hc
  simp only [List.mem_cons, List.not_mem_nil, or_false, or_self] at hc
  subst hc
  decide

/-- A value that reads back on its own reads back from its line. -/
theorem Reader.take_line {α : Type} (r : Reader α) {p : Text} {v : α}
    (h : r.take p = some (v, [])) {ws : Text} (hws : Blank ws) (rest : Text) :
    r.take (ws ++ (line p ++ rest)) = some (v, '\n' :: rest) := by
  rw [line, List.append_assoc, List.singleton_append]
  exact r.take_framed h hws (by decide) rest

/-- Copy the listed fields of `x` over `base`. -/
def copySlots (fs : List (Slot ρ)) (x base : ρ) : ρ :=
  fs.foldl (fun y f => f.set y (f.get x)) base

/-- **Field lists that agree.** If the `i`-th line written of `x` is a text
that the `i`-th statement reads as the field of `y`, then reading the lines
copies every field of `y`, and only the last newline is left. -/
theorem takeSlots_lines (x y : ρ) (rest : Text) {outs : List (ρ → Text)}
    {fs : List (Slot ρ)}
    (h : List.Forall₂
      (fun out f => f.reader.take (out x) = some (f.get y, [])) outs fs) :
    ∀ (base : ρ) {ws : Text}, Blank ws →
      takeSlots fs base (ws ++ ((outs.flatMap fun out => line (out x)) ++ rest)) =
        some (copySlots fs y base,
          if fs = [] then ws ++ rest else '\n' :: rest) := by
  induction h with
  | nil =>
      intro base ws _
      simp [takeSlots, copySlots]
  | cons hHead hTail ih =>
      rename_i out f outs fs
      intro base ws hws
      have hTake := f.reader.take_line hHead hws
        ((outs.flatMap fun out => line (out x)) ++ rest)
      have hRest := ih (f.set base (f.get y)) blank_newline
      rw [List.flatMap_cons, List.append_assoc]
      simp only [takeSlots, hTake, Option.bind_some]
      rw [List.singleton_append] at hRest
      rw [hRest]
      simp [copySlots]

end MGServer.Verified.TextStream
