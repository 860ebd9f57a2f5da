import MGServer.Verified.ByteString
import Mathlib.Algebra.Ring.Nat

/-!
# Lexing SQL text with single-quoted literals

A one-byte-at-a-time lexer for the text of an SQL statement.  The only rules
of the server it fixes are those of single-quoted string literals in MySQL's
default mode: a quote opens a literal, a doubled quote inside it stands for
one quote, and a backslash escapes the next byte.  Everything outside the
literals is cut into words and single bytes, and blanks are dropped.

The lexer is a fold of `step`, so lexing a concatenation is lexing its parts
in order and a literal's effect on what follows it is visible in the mode it
leaves behind.

## Main results

* `width_lex_le` — tokens cost bytes: a literal of decoded length `n` needs
  at least `n + 2` bytes of text.
* `decode_eq_self_iff` — the bodies that decode to themselves are exactly the
  `Plain` ones.
* `Template.lex_fill_iff` — **the two-literal theorem**: a statement template
  with two holes, filled with two byte strings and cut at its first NUL,
  lexes to the skeleton with exactly these two literals if and only if both
  strings are plain.
-/

namespace MGServer.Verified.SqlText

open MGServer.Verified.ByteString

def quote : UInt8 := 39
def backslash : UInt8 := 92

@[simp] theorem backslash_ne_quote : ¬ backslash = quote := by decide

/-- Blank, tab, line feed, vertical tab, form feed, carriage return. -/
def isSpace (b : UInt8) : Bool := b == 32 || (9 ≤ b && b ≤ 13)

/-- Bytes of unquoted identifiers and keywords. -/
def isWordByte (b : UInt8) : Bool :=
  (48 ≤ b && b ≤ 57) || (65 ≤ b && b ≤ 90) || (97 ≤ b && b ≤ 122) ||
    b == 95 || b == 36 || 128 ≤ b

inductive Token where
  | word (w : Bytes)
  | punct (b : UInt8)
  /-- A string literal, by its decoded value. -/
  | text (v : Bytes)
  deriving Repr, DecidableEq

/-- What an escape sequence stands for.  `\%` and `\_` keep their backslash
outside pattern contexts; an unknown escape is the byte itself. -/
def unescape (b : UInt8) : Bytes :=
  if b = 48 then [0]                       -- \0
  else if b = 98 then [8]                  -- \b
  else if b = 110 then [10]                -- \n
  else if b = 114 then [13]                -- \r
  else if b = 116 then [9]                 -- \t
  else if b = 90 then [26]                 -- \Z
  else if b = 37 ∨ b = 95 then [backslash, b]
  else [b]

/-- Where the lexer stands between two bytes. -/
inductive Mode where
  | outside
  | inWord (w : Bytes)
  | inText (v : Bytes)
  | inEscape (v : Bytes)
  /-- Just after a quote inside a literal: it closes the literal unless the
  next byte is a quote too. -/
  | afterQuote (v : Bytes)
  deriving Repr, DecidableEq

structure LexState where
  mode : Mode
  out : List Token
  deriving Repr, DecidableEq

/-- One byte outside every word and literal. -/
def outsideStep (out : List Token) (b : UInt8) : LexState :=
  if b = quote then ⟨.inText [], out⟩
  else if isSpace b then ⟨.outside, out⟩
  else if isWordByte b then ⟨.inWord [b], out⟩
  else ⟨.outside, out ++ [.punct b]⟩

def step (s : LexState) (b : UInt8) : LexState :=
  match s.mode with
  | .outside => outsideStep s.out b
  | .inWord w =>
      if isWordByte b then ⟨.inWord (w ++ [b]), s.out⟩
      else outsideStep (s.out ++ [.word w]) b
  | .inText v =>
      if b = quote then ⟨.afterQuote v, s.out⟩
      else if b = backslash then ⟨.inEscape v, s.out⟩
      else ⟨.inText (v ++ [b]), s.out⟩
  | .inEscape v => ⟨.inText (v ++ unescape b), s.out⟩
  | .afterQuote v =>
      if b = quote then ⟨.inText (v ++ [quote]), s.out⟩
      else outsideStep (s.out ++ [.text v]) b

def run (s : LexState) (text : Bytes) : LexState := text.foldl step s

/-- The tokens at the end of the text; `none` for an unterminated literal. -/
def finish (s : LexState) : Option (List Token) :=
  match s.mode with
  | .outside => some s.out
  | .inWord w => some (s.out ++ [.word w])
  | .inText _ => none
  | .inEscape _ => none
  | .afterQuote v => some (s.out ++ [.text v])

def lex (text : Bytes) : Option (List Token) := finish (run ⟨.outside, []⟩ text)

@[simp] theorem run_nil (s : LexState) : run s [] = s := rfl

@[simp] theorem run_cons (s : LexState) (b : UInt8) (text : Bytes) :
    run s (b :: text) = run (step s b) text := rfl

theorem run_append (s : LexState) (a b : Bytes) :
    run s (a ++ b) = run (run s a) b := List.foldl_append

/-! ## Tokens already emitted never change -/

/-- Put tokens in front of everything emitted so far. -/
def LexState.push (front : List Token) (s : LexState) : LexState :=
  ⟨s.mode, front ++ s.out⟩

theorem outsideStep_push (front out : List Token) (b : UInt8) :
    outsideStep (front ++ out) b = (outsideStep out b).push front := by
  unfold outsideStep LexState.push
  split_ifs <;> simp

theorem step_push (front : List Token) (s : LexState) (b : UInt8) :
    step (s.push front) b = (step s b).push front := by
  obtain ⟨mode, out⟩ := s
  cases mode with
  | outside => simp [step, LexState.push, outsideStep_push]
  | inWord w =>
      simp only [step, LexState.push]
      split
      · rfl
      · rw [List.append_assoc, outsideStep_push]
        rfl
  | inText v =>
      simp only [step, LexState.push]
      split_ifs <;> rfl
  | inEscape v => rfl
  | afterQuote v =>
      simp only [step, LexState.push]
      split
      · rfl
      · rw [List.append_assoc, outsideStep_push]
        rfl

theorem run_push (front : List Token) (text : Bytes) :
    ∀ s : LexState, run (s.push front) text = (run s text).push front := by
  induction text with
  | nil => intro s; rfl
  | cons b text ih =>
      intro s
      rw [run_cons, step_push, ih, run_cons]

theorem finish_push (front : List Token) (s : LexState) :
    finish (s.push front) = (finish s).map (front ++ ·) := by
  obtain ⟨mode, out⟩ := s
  cases mode <;> simp [finish, LexState.push]

/-- Lexing with tokens already out is lexing from scratch, then prepending. -/
theorem finish_run_outside (out : List Token) (text : Bytes) :
    finish (run ⟨.outside, out⟩ text) = (lex text).map (out ++ ·) := by
  have hPush : (⟨.outside, out⟩ : LexState) = LexState.push out ⟨.outside, []⟩ := by
    simp [LexState.push]
  rw [hPush, run_push, finish_push, lex]

/-! ## Tokens cost bytes -/

/-- The least number of bytes a token can come from. -/
def Token.width : Token → Nat
  | .word w => w.length
  | .punct _ => 1
  | .text v => v.length + 2

def widthSum (toks : List Token) : Nat := (toks.map Token.width).sum

@[simp] theorem widthSum_append (a b : List Token) :
    widthSum (a ++ b) = widthSum a + widthSum b := by
  simp [widthSum]

@[simp] theorem widthSum_cons (t : Token) (toks : List Token) :
    widthSum (t :: toks) = t.width + widthSum toks := by
  simp [widthSum]

@[simp] theorem widthSum_nil : widthSum [] = 0 := rfl

/-- Bytes already spent on the token under construction. -/
def Mode.width : Mode → Nat
  | .outside => 0
  | .inWord w => w.length
  | .inText v => v.length + 1
  | .inEscape v => v.length + 2
  | .afterQuote v => v.length + 2

def LexState.width (s : LexState) : Nat := s.mode.width + widthSum s.out

theorem unescape_length_le (b : UInt8) : (unescape b).length ≤ 2 := by
  unfold unescape
  split_ifs <;> simp

theorem outsideStep_width (out : List Token) (b : UInt8) :
    (outsideStep out b).width ≤ widthSum out + 1 := by
  unfold outsideStep
  split_ifs <;> simp [LexState.width, Mode.width, Token.width] <;> omega

theorem step_width (s : LexState) (b : UInt8) :
    (step s b).width ≤ s.width + 1 := by
  obtain ⟨mode, out⟩ := s
  cases mode with
  | outside =>
      have hOut := outsideStep_width out b
      simp only [step, LexState.width, Mode.width] at hOut ⊢
      omega
  | inWord w =>
      simp only [step]
      split
      · simp [LexState.width, Mode.width]
        omega
      · have hOut := outsideStep_width (out ++ [.word w]) b
        simp [LexState.width, Mode.width, Token.width] at hOut ⊢
        omega
  | inText v =>
      simp only [step]
      split_ifs <;> simp [LexState.width, Mode.width] <;> omega
  | inEscape v =>
      have hEsc := unescape_length_le b
      simp [step, LexState.width, Mode.width]
      omega
  | afterQuote v =>
      simp only [step]
      split
      · simp [LexState.width, Mode.width]
      · have hOut := outsideStep_width (out ++ [.text v]) b
        simp [LexState.width, Mode.width, Token.width] at hOut ⊢
        omega

theorem run_width (text : Bytes) :
    ∀ s : LexState, (run s text).width ≤ s.width + text.length := by
  induction text with
  | nil => intro s; simp
  | cons b text ih =>
      intro s
      have hStep := step_width s b
      have hRest := ih (step s b)
      simp only [run_cons, List.length_cons]
      omega

theorem finish_width {s : LexState} {toks : List Token}
    (h : finish s = some toks) : widthSum toks ≤ s.width := by
  obtain ⟨mode, out⟩ := s
  cases mode <;> simp [finish] at h <;> subst h <;>
    simp [LexState.width, Mode.width, Token.width] <;> omega

/-- **Tokens cost bytes.** -/
theorem width_lex_le {text : Bytes} {toks : List Token}
    (h : lex text = some toks) : widthSum toks ≤ text.length := by
  have hFinish := finish_width h
  have hRun := run_width text ⟨.outside, []⟩
  simp only [LexState.width, Mode.width, widthSum_nil] at hFinish hRun ⊢
  omega

/-! ## Text without quotes -/

/-- The tokens of a piece of text that holds no literal. -/
def outerTokens (text : Bytes) : List Token := (lex text).getD []

/-- A mode the lexer can be in while no literal has been opened. -/
def Mode.Outer : Mode → Prop
  | .outside => True
  | .inWord _ => True
  | _ => False

theorem outsideStep_outer (out : List Token) {b : UInt8} (hb : b ≠ quote) :
    (outsideStep out b).mode.Outer := by
  unfold outsideStep
  rw [if_neg hb]
  split_ifs <;> trivial

theorem step_outer {s : LexState} {b : UInt8} (hb : b ≠ quote)
    (hs : s.mode.Outer) : (step s b).mode.Outer := by
  obtain ⟨mode, out⟩ := s
  cases mode with
  | outside => exact outsideStep_outer out hb
  | inWord w =>
      simp only [step]
      split
      · trivial
      · exact outsideStep_outer _ hb
  | inText v => exact hs.elim
  | inEscape v => exact hs.elim
  | afterQuote v => exact hs.elim

theorem run_outer {text : Bytes} (hText : quote ∉ text) :
    ∀ s : LexState, s.mode.Outer → (run s text).mode.Outer := by
  induction text with
  | nil => intro s hs; exact hs
  | cons b text ih =>
      intro s hs
      rw [List.mem_cons, not_or] at hText
      exact ih hText.2 _ (step_outer (Ne.symm hText.1) hs)

/-- The quote after a literal-free text opens a literal, with the text's own
tokens out. -/
theorem step_quote_of_outer {s : LexState} (hs : s.mode.Outer) :
    step s quote = ⟨.inText [], (finish s).getD []⟩ := by
  obtain ⟨mode, out⟩ := s
  cases mode with
  | outside => simp [step, outsideStep, finish]
  | inWord w =>
      have hQuote : isWordByte quote = false := by decide
      simp [step, outsideStep, finish, hQuote]
  | inText v => exact hs.elim
  | inEscape v => exact hs.elim
  | afterQuote v => exact hs.elim

theorem lex_of_no_quote {text : Bytes} (hText : quote ∉ text) :
    lex text = some (outerTokens text) := by
  have hOuter := run_outer hText ⟨.outside, []⟩ trivial
  unfold outerTokens lex
  generalize run ⟨.outside, []⟩ text = s at hOuter ⊢
  obtain ⟨mode, out⟩ := s
  cases mode <;> first | exact hOuter.elim | rfl

theorem run_outside_quote {text : Bytes} (hText : quote ∉ text)
    (out : List Token) :
    run ⟨.outside, out⟩ (text ++ [quote]) =
      ⟨.inText [], out ++ outerTokens text⟩ := by
  have hOuter := run_outer hText ⟨.outside, out⟩ trivial
  rw [run_append, run_cons, run_nil, step_quote_of_outer hOuter,
    finish_run_outside, lex_of_no_quote hText]
  rfl

/-! ## Literal bodies -/

/-- The value of a literal body, the bytes between the opening and the closing
quote; `none` when these bytes do not stay inside one literal. -/
def decode : Bytes → Option Bytes
  | [] => some []
  | [b] => if b = quote ∨ b = backslash then none else some [b]
  | b :: c :: rest =>
      if b = quote then
        if c = quote then (decode rest).map (quote :: ·) else none
      else if b = backslash then (decode rest).map (unescape c ++ ·)
      else (decode (c :: rest)).map (b :: ·)

/-- Reading a whole body leaves the lexer inside the literal, its value
appended. -/
theorem run_of_decode (out : List Token) : ∀ (raw v w : Bytes),
    decode raw = some w → run ⟨.inText v, out⟩ raw = ⟨.inText (v ++ w), out⟩
  | [], v, w, h => by
      simp only [decode, Option.some.injEq] at h
      simp [← h]
  | [b], v, w, h => by
      simp only [decode] at h
      split at h
      · cases h
      · rename_i hb
        rw [not_or] at hb
        cases h
        simp [step, hb.1, hb.2]
  | b :: c :: rest, v, w, h => by
      simp only [decode] at h
      split_ifs at h with hb hc hb'
      · obtain ⟨w', hw', rfl⟩ := Option.map_eq_some_iff.1 h
        have ih := run_of_decode out rest (v ++ [quote]) w' hw'
        simpa [step, hb, hc] using ih
      · obtain ⟨w', hw', rfl⟩ := Option.map_eq_some_iff.1 h
        have ih := run_of_decode out rest (v ++ unescape c) w' hw'
        simpa [step, hb, hb'] using ih
      · obtain ⟨w', hw', rfl⟩ := Option.map_eq_some_iff.1 h
        have ih := run_of_decode out (c :: rest) (v ++ [b]) w' hw'
        rw [run_cons]
        simpa [step, hb, hb'] using ih

/-- **Literal splitting.** A text that lexes from inside a literal is a body,
the closing quote, and a remainder that lexes on its own. -/
theorem split_text (out : List Token) : ∀ (s v : Bytes) (toks : List Token),
    finish (run ⟨.inText v, out⟩ s) = some toks →
    ∃ raw rest w toks', s = raw ++ quote :: rest ∧ decode raw = some w ∧
      toks = out ++ .text (v ++ w) :: toks' ∧ lex rest = some toks'
  | [], v, toks, h => by simp [finish] at h
  | [b], v, toks, h => by
      by_cases hb : b = quote
      · refine ⟨[], [], [], [], by simp [hb], rfl, ?_, rfl⟩
        simpa [step, finish, hb, eq_comm] using h
      · by_cases hb' : b = backslash <;> simp [step, finish, hb, hb'] at h
  | b :: c :: rest, v, toks, h => by
      simp only [run_cons] at h
      by_cases hb : b = quote
      · by_cases hc : c = quote
        · have hRun : step (step ⟨.inText v, out⟩ b) c =
              ⟨.inText (v ++ [quote]), out⟩ := by simp [step, hb, hc]
          rw [hRun] at h
          obtain ⟨raw, rest', w, toks', hs, hw, ht, hl⟩ :=
            split_text out rest (v ++ [quote]) toks h
          refine ⟨quote :: quote :: raw, rest', quote :: w, toks', ?_, ?_, ?_, hl⟩
          · simp [hb, hc, hs]
          · simp [decode, hw]
          · simpa using ht
        · -- the quote closes the literal and `c` is the first byte after it
          have hRun : run (step (step ⟨.inText v, out⟩ b) c) rest =
              run ⟨.outside, out ++ [.text v]⟩ (c :: rest) := by
            simp [step, hb, hc]
          rw [hRun, finish_run_outside] at h
          obtain ⟨toks', hl, rfl⟩ := Option.map_eq_some_iff.1 h
          exact ⟨[], c :: rest, [], toks', by simp [hb], rfl, by simp, hl⟩
      · by_cases hb' : b = backslash
        · have hRun : step (step ⟨.inText v, out⟩ b) c =
              ⟨.inText (v ++ unescape c), out⟩ := by simp [step, hb']
          rw [hRun] at h
          obtain ⟨raw, rest', w, toks', hs, hw, ht, hl⟩ :=
            split_text out rest (v ++ unescape c) toks h
          refine ⟨b :: c :: raw, rest', unescape c ++ w, toks', ?_, ?_, ?_, hl⟩
          · simp [hs]
          · simp [decode, hb', hw]
          · simpa using ht
        · have hRun : step ⟨.inText v, out⟩ b = ⟨.inText (v ++ [b]), out⟩ := by
            simp [step, hb, hb']
          rw [hRun, ← run_cons] at h
          obtain ⟨raw, rest', w, toks', hs, hw, ht, hl⟩ :=
            split_text out (c :: rest) (v ++ [b]) toks h
          refine ⟨b :: raw, rest', b :: w, toks', ?_, ?_, ?_, hl⟩
          · simp [hs]
          · cases raw with
            | nil =>
                simp only [decode, Option.some.injEq] at hw
                simp [decode, hb, hb', ← hw]
            | cons d raw => simp [decode, hb, hb', hw]
          · simpa using ht

/-- A literal body whose value is the body itself: no quote, no NUL, and a
backslash only in front of `%` or `_`. -/
def Plain : Bytes → Bool
  | [] => true
  | [b] => b != quote && b != backslash && b != 0
  | b :: c :: rest =>
      if b = backslash then (c == 37 || c == 95) && Plain rest
      else b != quote && b != 0 && Plain (c :: rest)

theorem unescape_length_two {b : UInt8} (h : 2 ≤ (unescape b).length) :
    b = 37 ∨ b = 95 := by
  unfold unescape at h
  split_ifs at h with _ _ _ _ _ _ hKeep <;> first | exact hKeep | simp at h

theorem unescape_of_keep {b : UInt8} (h : b = 37 ∨ b = 95) :
    unescape b = [backslash, b] := by
  rcases h with rfl | rfl <;> decide

theorem decode_of_plain : ∀ raw : Bytes, Plain raw = true → decode raw = some raw
  | [], _ => rfl
  | [b], h => by
      simp only [Plain, Bool.and_eq_true, bne_iff_ne, ne_eq] at h
      simp [decode, h.1.1, h.1.2]
  | b :: c :: rest, h => by
      simp only [Plain] at h
      split at h
      · rename_i hb
        simp only [Bool.and_eq_true, Bool.or_eq_true, beq_iff_eq] at h
        have ih := decode_of_plain rest h.2
        simp [decode, hb, ih, unescape_of_keep h.1]
      · rename_i hb
        simp only [Bool.and_eq_true, bne_iff_ne, ne_eq] at h
        have ih := decode_of_plain (c :: rest) h.2
        simp [decode, hb, h.1.1, ih]

theorem zero_not_mem_of_plain : ∀ raw : Bytes, Plain raw = true → 0 ∉ raw
  | [], _ => by simp
  | [b], h => by
      simp only [Plain, Bool.and_eq_true, bne_iff_ne, ne_eq] at h
      simpa using Ne.symm h.2
  | b :: c :: rest, h => by
      simp only [Plain] at h
      split at h
      · rename_i hb
        simp only [Bool.and_eq_true, Bool.or_eq_true, beq_iff_eq] at h
        have ih := zero_not_mem_of_plain rest h.2
        rcases h.1 with rfl | rfl <;> simp [hb, backslash, ih]
      · simp only [Bool.and_eq_true, bne_iff_ne, ne_eq] at h
        have ih := zero_not_mem_of_plain (c :: rest) h.2
        rw [List.mem_cons, not_or]
        exact ⟨Ne.symm h.1.2, ih⟩

theorem decode_length_le : ∀ raw w : Bytes, decode raw = some w →
    w.length ≤ raw.length
  | [], w, h => by
      simp only [decode, Option.some.injEq] at h
      simp [← h]
  | [b], w, h => by
      simp only [decode] at h
      split at h
      · cases h
      · cases h; simp
  | b :: c :: rest, w, h => by
      simp only [decode] at h
      split_ifs at h
      · obtain ⟨w', hw', rfl⟩ := Option.map_eq_some_iff.1 h
        have ih := decode_length_le rest w' hw'
        simp; omega
      · obtain ⟨w', hw', rfl⟩ := Option.map_eq_some_iff.1 h
        have ih := decode_length_le rest w' hw'
        have hEsc := unescape_length_le c
        simp; omega
      · obtain ⟨w', hw', rfl⟩ := Option.map_eq_some_iff.1 h
        have ih := decode_length_le (c :: rest) w' hw'
        simp at ih ⊢; omega

/-- Decoding shortens every body that is not plain, so a NUL-free body that
keeps its length is plain. -/
theorem plain_of_decode_length : ∀ raw w : Bytes, decode raw = some w →
    w.length = raw.length → 0 ∉ raw → Plain raw = true
  | [], _, _, _, _ => rfl
  | [b], w, h, _, hNul => by
      simp only [decode] at h
      split at h
      · cases h
      · rename_i hb
        rw [not_or] at hb
        simp at hNul
        simp [Plain, hb.1, hb.2, Ne.symm hNul]
  | b :: c :: rest, w, h, hLen, hNul => by
      simp only [decode] at h
      simp only [List.mem_cons, not_or] at hNul
      split_ifs at h with hb hc hb'
      · obtain ⟨w', hw', rfl⟩ := Option.map_eq_some_iff.1 h
        have hLe := decode_length_le rest w' hw'
        simp at hLen; omega
      · obtain ⟨w', hw', rfl⟩ := Option.map_eq_some_iff.1 h
        have hLe := decode_length_le rest w' hw'
        have hEsc := unescape_length_le c
        simp at hLen
        have hKeep := unescape_length_two (b := c) (by omega)
        have ih := plain_of_decode_length rest w' hw' (by omega) hNul.2.2
        simpa [Plain, hb', ih] using hKeep
      · obtain ⟨w', hw', rfl⟩ := Option.map_eq_some_iff.1 h
        have ih := plain_of_decode_length (c :: rest) w' hw' (by simpa using hLen)
          (by simpa using hNul.2)
        simp [Plain, hb, hb', ih, Ne.symm hNul.1]

/-- The NUL-free bodies that decode to themselves are the plain ones. -/
theorem decode_eq_self_iff {raw : Bytes} (hNul : 0 ∉ raw) :
    decode raw = some raw ↔ Plain raw = true := by
  constructor
  · intro h
    exact plain_of_decode_length raw raw h rfl hNul
  · exact decode_of_plain raw

/-! ## Templates with two literals -/

/-- If the closing quote of a body falls no later than the end of the
quote-free text behind `id`, the body is `id`. -/
private theorem body_eq_of_close {raw rest id sep back : Bytes}
    (hPre : raw ++ quote :: rest <+: id ++ quote :: (sep ++ back))
    (hSep : quote ∉ sep) (hLo : id.length ≤ raw.length)
    (hHi : raw.length ≤ id.length + sep.length) : raw = id := by
  obtain ⟨t, ht⟩ := hPre
  rw [List.append_assoc] at ht
  rcases List.append_eq_append_iff.1 ht with ⟨as, hId, -⟩ | ⟨bs, hRaw, hBack⟩
  · have hLen := congrArg List.length hId
    rw [List.length_append] at hLen
    have hNil : as = [] := List.length_eq_zero_iff.1 (by omega)
    simp [hId, hNil]
  · cases bs with
    | nil => simpa using hRaw
    | cons b bs =>
        -- the closing quote would have to stand inside `sep`
        simp only [List.cons_append, List.cons.injEq] at hBack
        have hLen := congrArg List.length hRaw
        simp only [List.length_append, List.length_cons] at hLen
        have hMem : quote ∈ sep := by
          have hTake : sep = (bs ++ quote :: (rest ++ t)).take sep.length := by
            rw [← hBack.2, List.take_left]
          rw [hTake, List.take_append, List.mem_append]
          right
          rw [show sep.length - bs.length = (sep.length - bs.length - 1) + 1 by
            omega]
          simp
        exact absurd hMem hSep

/-- A filled literal that lexes to its own filling, with enough tokens behind
it to use up the text behind `sep`, is plain and ends where it should. -/
theorem literal_of_lex {out toks : List Token} {id sep back : Bytes}
    (hSep : quote ∉ sep) (hRoom : back.length ≤ widthSum toks)
    (h : finish (run ⟨.inText [], out⟩
        (cstr (id ++ quote :: (sep ++ back)))) =
      some (out ++ .text id :: toks)) :
    Plain id = true ∧ lex (cstr (sep ++ back)) = some toks := by
  obtain ⟨raw, rest, w, toks', hText, hDecode, hToks, hLex⟩ :=
    split_text out _ _ _ h
  simp only [List.nil_append, List.append_cancel_left_eq, List.cons.injEq,
    Token.text.injEq] at hToks
  obtain ⟨rfl, rfl⟩ := hToks
  have hPre : raw ++ quote :: rest <+: id ++ quote :: (sep ++ back) := by
    rw [← hText]
    exact cstr_prefix _
  have hWidth := width_lex_le hLex
  have hLo := decode_length_le raw id hDecode
  have hLen := hPre.length_le
  simp only [List.length_append, List.length_cons] at hLen
  have hRaw : raw = id := body_eq_of_close hPre hSep hLo (by omega)
  subst hRaw
  have hNul : 0 ∉ raw := by
    intro hMem
    have hAll := zero_not_mem_cstr (raw ++ quote :: (sep ++ back))
    rw [hText] at hAll
    exact hAll (by simp [hMem])
  refine ⟨(decode_eq_self_iff hNul).1 hDecode, ?_⟩
  have hQuote : 0 ∉ [quote] := by decide
  rw [cstr_append_of_not_mem hNul, List.append_cancel_left_eq,
    ← List.singleton_append, cstr_append_of_not_mem hQuote,
    List.singleton_append, List.cons.injEq] at hText
  rw [hText.2]
  exact hLex

/-- A plain filling closes at its own closing quote. -/
theorem lex_literal_of_plain {id s : Bytes} (hId : Plain id = true)
    (hs : s.head? ≠ some quote) (out : List Token) :
    finish (run ⟨.inText [], out⟩ (id ++ quote :: s)) =
      (lex s).map (fun toks => out ++ .text id :: toks) := by
  rw [run_append, run_of_decode out id [] id (decode_of_plain id hId)]
  cases s with
  | nil => simp [step, finish, lex]
  | cons b s =>
      have hb : b ≠ quote := by simpa using hs
      have hRun : run (step ⟨.inText ([] ++ id), out⟩ quote) (b :: s) =
          run ⟨.outside, out ++ [.text id]⟩ (b :: s) := by
        simp [step, hb]
      rw [run_cons, hRun, finish_run_outside]
      simp

/-- A statement text with two literal holes: `head '…' sep '…' tail`.  The
fixed parts hold no quote and no NUL, something separates the literals, and
the tail spends no more on blanks than `sep` spends on tokens. -/
structure Template where
  head : Bytes
  sep : Bytes
  tail : Bytes
  headOuter : quote ∉ head ∧ 0 ∉ head
  sepOuter : quote ∉ sep ∧ 0 ∉ sep
  tailOuter : quote ∉ tail ∧ 0 ∉ tail
  sepNonempty : sep ≠ []
  tailTight : tail.length ≤
    widthSum (outerTokens sep) + widthSum (outerTokens tail)

namespace Template

variable (t : Template)

/-- The statement text with both holes filled by plain concatenation. -/
def fill (id pw : Bytes) : Bytes :=
  t.head ++ quote :: (id ++ quote :: (t.sep ++ quote :: (pw ++ quote :: t.tail)))

/-- The tokens the statement is meant to have. -/
def skeleton (id pw : Bytes) : List Token :=
  outerTokens t.head ++
    .text id :: (outerTokens t.sep ++ .text pw :: outerTokens t.tail)

/-- Fixed text before a quote: nothing of it is cut, and it leaves the lexer
inside the literal. -/
private theorem run_fixed {fixed : Bytes} (hQuote : quote ∉ fixed)
    (hNul : 0 ∉ fixed) (s : Bytes) :
    run ⟨.outside, []⟩ (cstr (fixed ++ quote :: s)) =
      run ⟨.inText [], outerTokens fixed⟩ (cstr s) := by
  have hFixed : 0 ∉ fixed ++ [quote] := by simp [hNul, quote]
  rw [show fixed ++ quote :: s = (fixed ++ [quote]) ++ s by simp,
    cstr_append_of_not_mem hFixed, run_append,
    run_outside_quote hQuote]
  rfl

private theorem cstr_fill {id pw : Bytes} (hId : 0 ∉ id) (hPw : 0 ∉ pw) :
    cstr (t.fill id pw) = t.fill id pw := by
  rw [cstr_eq_self_iff]
  simp [fill, t.headOuter.2, t.sepOuter.2, t.tailOuter.2, hId, hPw, quote]

/-- **The two-literal theorem.** The text handed over, cut at its first NUL,
lexes to the intended tokens exactly when both fillings are plain. -/
theorem lex_fill_iff (id pw : Bytes) :
    lex (cstr (t.fill id pw)) = some (t.skeleton id pw) ↔
      Plain id = true ∧ Plain pw = true := by
  constructor
  · intro h
    rw [lex, fill, run_fixed t.headOuter.1 t.headOuter.2, skeleton] at h
    obtain ⟨hId, hRest⟩ := literal_of_lex t.sepOuter.1
      (by have hTail := t.tailTight
          simp [Token.width]
          omega) h
    rw [lex, run_fixed t.sepOuter.1 t.sepOuter.2,
      show pw ++ quote :: t.tail = pw ++ quote :: (t.tail ++ []) by simp] at hRest
    exact ⟨hId, (literal_of_lex t.tailOuter.1 (by simp) hRest).1⟩
  · rintro ⟨hId, hPw⟩
    have hTail : t.tail.head? ≠ some quote := by
      intro hHead
      exact t.tailOuter.1 (List.mem_of_mem_head? hHead)
    have hSep : (t.sep ++ quote :: (pw ++ quote :: t.tail)).head? ≠
        some quote := by
      obtain ⟨b, sep', hCons⟩ := List.exists_cons_of_ne_nil t.sepNonempty
      have hOuter := t.sepOuter.1
      rw [hCons, List.mem_cons, not_or] at hOuter
      simpa [hCons] using Ne.symm hOuter.1
    have hIdNul := zero_not_mem_of_plain id hId
    have hPwNul := zero_not_mem_of_plain pw hPw
    have hSecond : lex (t.sep ++ quote :: (pw ++ quote :: t.tail)) =
        some (outerTokens t.sep ++ .text pw :: outerTokens t.tail) := by
      rw [lex, show t.sep ++ quote :: (pw ++ quote :: t.tail) =
        (t.sep ++ [quote]) ++ (pw ++ quote :: t.tail) by simp, run_append,
        run_outside_quote t.sepOuter.1, lex_literal_of_plain hPw hTail,
        lex_of_no_quote t.tailOuter.1]
      simp
    rw [t.cstr_fill hIdNul hPwNul, fill, lex,
      show t.head ++ quote :: (id ++ quote :: (t.sep ++ quote ::
          (pw ++ quote :: t.tail))) = (t.head ++ [quote]) ++
        (id ++ quote :: (t.sep ++ quote :: (pw ++ quote :: t.tail))) by simp,
      run_append, run_outside_quote t.headOuter.1,
      lex_literal_of_plain hId hSep, hSecond]
    rfl

end Template

end MGServer.Verified.SqlText
