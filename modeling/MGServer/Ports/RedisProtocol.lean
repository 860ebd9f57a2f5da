import MGServer.Ports.RedisReader
import MGServer.Verified.DecimalBytes

/-!
# The reply protocol

What the reader is for, said without its buffer and its stack: a parser that
descends into arrays, at most `depth` of them inside one another, and the
language it accepts.  The parser gives up, asks for more or finds a reply at
the same bytes as the code; the language says which byte strings are replies.

The language is that of the code and a little more than RESP: the two bytes
behind a bulk string are not looked at, and a line may hold a lone carriage
return or line feed.  RESP itself is the same grammar with plain lines and a CRLF
behind every bulk string.
-/

namespace MGServer.Ports.RedisProtocol

open MGServer.Verified.ByteString
open MGServer.Verified.DecimalBytes
open MGServer.Verified.Incremental
open MGServer.Ports.RedisReader

def crlf : Bytes := [13, 10]

/-! ## Lines -/

/-- The line in front of the first CRLF, and what follows. -/
def splitLine : Bytes → Option (Bytes × Bytes)
  | [] => none
  | b :: rest =>
      if b = 13 ∧ rest.head? = some 10 then some ([], rest.tail)
      else (splitLine rest).map fun split => (b :: split.1, split.2)

theorem splitLine_cons (b : UInt8) (rest : Bytes) :
    splitLine (b :: rest) =
      if b = 13 ∧ rest.head? = some 10 then some ([], rest.tail)
      else (splitLine rest).map fun split => (b :: split.1, split.2) := rfl

/-- No CRLF in it. -/
def OneLine (s : Bytes) : Prop := splitLine s = none

instance (s : Bytes) : Decidable (OneLine s) :=
  inferInstanceAs (Decidable (splitLine s = none))

theorem splitLine_eq_some {input line rest : Bytes} :
    splitLine input = some (line, rest) ↔
    OneLine line ∧ input = line ++ crlf ++ rest := by
  induction input generalizing line with
  | nil => simp [splitLine, crlf]
  | cons b tail ih =>
      unfold splitLine
      split
      · rename_i hEnd
        obtain ⟨rfl, hHead⟩ := hEnd
        obtain ⟨tail, rfl⟩ : ∃ t, tail = 10 :: t := by
          cases tail with
          | nil => cases hHead
          | cons c t => exact ⟨t, by rw [Option.some.inj hHead]⟩
        constructor
        · intro hSome
          cases hSome
          exact ⟨rfl, rfl⟩
        · rintro ⟨hLine, hInput⟩
          cases line with
          | nil =>
              cases hInput
              rfl
          | cons c line =>
              -- a line that starts with the CRLF is no line
              exfalso
              simp only [crlf, List.cons_append, List.cons.injEq] at hInput
              obtain ⟨rfl, hTail⟩ := hInput
              cases line with
              | nil => simp at hTail
              | cons d line =>
                  simp only [List.cons_append, List.cons.injEq] at hTail
                  obtain ⟨rfl, -⟩ := hTail
                  simp [OneLine, splitLine] at hLine
      · rename_i hEnd
        simp only [Option.map_eq_some_iff]
        constructor
        · rintro ⟨⟨tailLine, tailRest⟩, hTail, hEq⟩
          cases hEq
          obtain ⟨hLine, rfl⟩ := ih.1 hTail
          refine ⟨?_, rfl⟩
          unfold OneLine splitLine
          rw [if_neg, hLine, Option.map_none]
          rintro ⟨hb, hHead⟩
          apply hEnd
          refine ⟨hb, ?_⟩
          cases tailLine with
          | nil => cases hHead
          | cons c t => exact hHead
        · rintro ⟨hLine, hInput⟩
          cases line with
          | nil =>
              exfalso
              cases hInput
              exact hEnd ⟨rfl, rfl⟩
          | cons c line =>
              simp only [List.cons_append, List.cons.injEq] at hInput
              obtain ⟨rfl, rfl⟩ := hInput
              refine ⟨(line, rest), ih.2 ⟨?_, rfl⟩, rfl⟩
              unfold OneLine splitLine at hLine
              split at hLine
              · cases hLine
              · exact Option.map_eq_none_iff.1 hLine

/-- A line end that has been found stays where it is. -/
theorem splitLine_append {input line rest : Bytes}
    (hSplit : splitLine input = some (line, rest)) (future : Bytes) :
    splitLine (input ++ future) = some (line, rest ++ future) := by
  obtain ⟨hLine, rfl⟩ := splitLine_eq_some.1 hSplit
  refine splitLine_eq_some.2 ⟨hLine, ?_⟩
  rw [List.append_assoc]

theorem oneLine_of_not_mem {s : Bytes} (hs : 13 ∉ s) : OneLine s := by
  induction s with
  | nil => rfl
  | cons b s ih =>
      simp only [List.mem_cons, not_or] at hs
      have hTail : splitLine s = none := ih hs.2
      unfold OneLine splitLine
      rw [if_neg (fun hEnd => hs.1 hEnd.1.symm), hTail, Option.map_none]

theorem oneLine_decimal (n : Nat) : OneLine (decimal n) :=
  oneLine_of_not_mem (not_mem_decimal (by decide))

theorem oneLine_signed (v : Int) : OneLine (signed v) := by
  apply oneLine_of_not_mem
  unfold signed
  split
  · simp only [List.mem_cons, not_or]
    exact ⟨by decide, not_mem_decimal (by decide)⟩
  · exact not_mem_decimal (by decide)

/-! ## Numbers -/

/-- The value of a run of digits, unless a step would leave 64 bits. -/
theorem digitLoop_eq_some {v w : Nat} {s : Bytes} (hv : v ≤ ULLONG_MAX) :
    digitLoop v s = some (w, []) ↔
      (∀ b ∈ s, isDigit b = true) ∧ w = digitsValue v s ∧
      digitsValue v s ≤ ULLONG_MAX := by
  induction s generalizing v with
  | nil =>
      show some (v, []) = some (w, []) ↔ _
      constructor
      · intro hSome
        have hEq : v = w := congrArg Prod.fst (Option.some.inj hSome)
        exact ⟨by simp, hEq.symm, hv⟩
      · intro hRead
        have hEq : w = v := hRead.2.1
        rw [hEq]
  | cons b s ih =>
      rw [digitLoop]
      by_cases hb : isDigit b = true
      · have hRange := (isDigit_iff b).1 hb
        have hComm : v * 10 + (b.toNat - 48) = 10 * v + (b.toNat - 48) := by omega
        rw [if_pos hb]
        by_cases hFits : 10 * v + (b.toNat - 48) ≤ ULLONG_MAX
        · rw [if_neg (by unfold ULLONG_MAX at *; omega),
            if_neg (by unfold ULLONG_MAX at *; omega), hComm, ih hFits]
          simp only [List.mem_cons, forall_eq_or_imp, hb, true_and]
          exact Iff.rfl
        · have hNone : ¬ digitsValue v (b :: s) ≤ ULLONG_MAX := by
            intro hLe
            exact hFits (Nat.le_trans (digitsValue_ge _ s) hLe)
          constructor
          · intro hSome
            exfalso
            split at hSome
            · cases hSome
            · split at hSome
              · cases hSome
              · unfold ULLONG_MAX at *
                omega
          · rintro ⟨-, -, hLe⟩
            exact absurd hLe hNone
      · rw [if_neg hb]
        constructor
        · intro hSome
          cases hSome
        · rintro ⟨hAll, -⟩
          exact absurd (hAll b (List.mem_cons_self ..)) hb

theorem magnitude_eq_some {v : Nat} {s : Bytes} :
    magnitude s = some v ↔ s = decimal v ∧ 0 < v ∧ v ≤ ULLONG_MAX := by
  cases s with
  | nil =>
      constructor
      · intro hSome
        cases hSome
      · rintro ⟨hNil, -⟩
        exact absurd hNil.symm (decimal_ne_nil v)
  | cons b s =>
      have hFirst : (49 ≤ b && b ≤ 57) = true ↔ isDigit b = true ∧ b ≠ 48 := by
        rw [isDigit_iff, ne_eq, ← UInt8.toNat_inj]
        simp only [Bool.and_eq_true, decide_eq_true_eq, UInt8.le_iff_toNat_le]
        show 49 ≤ b.toNat ∧ b.toNat ≤ 57 ↔
          (48 ≤ b.toNat ∧ b.toNat ≤ 57) ∧ ¬ b.toNat = 48
        omega
      have hValue : digitsValue 0 (b :: s) = digitsValue (b.toNat - 48) s := by
        show digitsValue (10 * 0 + (b.toNat - 48)) s = _
        rw [Nat.mul_zero, Nat.zero_add]
      rw [magnitude]
      by_cases hb : (49 ≤ b && b ≤ 57) = true
      · obtain ⟨hDigit, hNe⟩ := hFirst.1 hb
        have hRange := (isDigit_iff b).1 hDigit
        rw [if_pos hb]
        have hLoop := digitLoop_eq_some (v := b.toNat - 48) (w := v) (s := s)
          (by unfold ULLONG_MAX; omega)
        constructor
        · intro hSome
          split at hSome
          · rename_i w hDigits
            cases hSome
            obtain ⟨hAll, rfl, hLe⟩ := hLoop.1 hDigits
            have hDecimal : Decimal (b :: s) :=
              ⟨by simp, by simpa [hDigit] using hAll⟩
            have hHead : (b :: s).head? ≠ some 48 := by simpa using hNe
            rw [← hValue] at hLe ⊢
            exact ⟨(decimal_digitsValue hDecimal hHead).symm,
              digitsValue_pos hDecimal hHead, hLe⟩
          · cases hSome
        · rintro ⟨hText, hPos, hLe⟩
          have hAll : ∀ c ∈ s, isDigit c = true := fun c hc =>
            isDigit_of_mem_decimal (n := v) (hText ▸ List.mem_cons_of_mem _ hc)
          have hEq : v = digitsValue (b.toNat - 48) s := by
            rw [← hValue, hText, digitsValue_decimal]
          rw [hLoop.2 ⟨hAll, hEq, hEq ▸ hLe⟩]
      · rw [if_neg hb]
        constructor
        · intro hSome
          cases hSome
        · rintro ⟨hText, hPos, -⟩
          exfalso
          apply hb
          apply hFirst.2
          have hHead := decimal_head_ne hPos
          rw [← hText] at hHead
          exact ⟨isDigit_of_mem_decimal (n := v)
            (hText ▸ List.mem_cons_self ..), by simpa using hHead⟩

/-- Within `long long`. -/
def Fits64 (v : Int) : Prop := -2 ^ 63 ≤ v ∧ v < 2 ^ 63

theorem signed_natCast (n : Nat) : signed n = decimal n := by
  unfold signed
  rw [if_neg (by omega)]
  rfl

theorem signed_neg {n : Nat} (hn : 0 < n) : signed (-(n : Int)) = 45 :: decimal n := by
  unfold signed
  rw [if_pos (by omega)]
  simp

/-- **One text for each number.** `string2ll` accepts a number in the one
spelling that `%lld` gives it, and nothing else. -/
theorem string2ll_eq_some {s : Bytes} {v : Int} :
    string2ll s = some v ↔ s = signed v ∧ Fits64 v := by
  unfold string2ll
  by_cases hZero : s = [48]
  · subst hZero
    rw [if_pos rfl]
    constructor
    · intro hSome
      cases hSome
      exact ⟨by decide, by unfold Fits64; decide⟩
    · rintro ⟨hText, -⟩
      have hv : 0 ≤ v := by
        by_contra hNeg
        unfold signed at hText
        rw [if_pos (by omega)] at hText
        cases hText
      obtain ⟨n, rfl⟩ := Int.eq_ofNat_of_zero_le hv
      rw [signed_natCast] at hText
      have hSame : decimal 0 = decimal n := by
        rw [← hText]
        rfl
      rw [← decimal_injective hSame]
      rfl
  · rw [if_neg hZero]
    by_cases hSign : s.head? = some 45
    · obtain ⟨tail, rfl⟩ : ∃ t, s = 45 :: t := by
        cases s with
        | nil => cases hSign
        | cons c t => exact ⟨t, by rw [Option.some.inj hSign]⟩
      rw [if_pos (List.head?_cons ..), List.tail_cons]
      constructor
      · intro hSome
        split at hSome
        · rename_i n hMag
          obtain ⟨rfl, hPos, -⟩ := magnitude_eq_some.1 hMag
          split at hSome
          · cases hSome
          · rename_i hLe
            cases hSome
            refine ⟨(signed_neg hPos).symm, ?_⟩
            unfold LLONG_MAX at hLe
            unfold Fits64
            omega
        · cases hSome
      · rintro ⟨hText, hLow, hHigh⟩
        have hNeg : v < 0 := by
          by_contra hPos
          unfold signed at hText
          rw [if_neg hPos] at hText
          exact not_mem_decimal (n := v.toNat) (b := 45) (by decide)
            (hText ▸ List.mem_cons_self ..)
        obtain ⟨n, rfl⟩ : ∃ n : Nat, v = -(n : Int) := ⟨v.natAbs, by omega⟩
        have hPos : 0 < n := by omega
        rw [signed_neg hPos] at hText
        have hMag : magnitude tail = some n :=
          magnitude_eq_some.2 ⟨List.tail_eq_of_cons_eq hText,
            hPos, by unfold ULLONG_MAX; omega⟩
        rw [hMag]
        simp only
        rw [if_neg (by unfold LLONG_MAX; omega)]
    · rw [if_neg hSign]
      constructor
      · intro hSome
        split at hSome
        · rename_i n hMag
          obtain ⟨rfl, hPos, -⟩ := magnitude_eq_some.1 hMag
          split at hSome
          · cases hSome
          · rename_i hLe
            cases hSome
            refine ⟨(signed_natCast n).symm, ?_⟩
            unfold LLONG_MAX at hLe
            unfold Fits64
            omega
        · cases hSome
      · rintro ⟨hText, hLow, hHigh⟩
        have hPos : 0 ≤ v := by
          by_contra hNeg
          apply hSign
          unfold signed at hText
          rw [if_pos (by omega)] at hText
          rw [hText]
          rfl
        obtain ⟨n, rfl⟩ := Int.eq_ofNat_of_zero_le hPos
        rw [signed_natCast] at hText
        have hn : 0 < n := by
          rcases Nat.eq_zero_or_pos n with rfl | hn
          · exact absurd (hText.trans rfl) hZero
          · exact hn
        have hMag : magnitude s = some n :=
          magnitude_eq_some.2 ⟨hText, hn, by unfold ULLONG_MAX; omega⟩
        rw [hMag]
        simp only
        rw [if_neg (by unfold LLONG_MAX; omega)]

/-! ## The parser -/

abbrev Parse := Bytes → Verdict Fault RedisReply UInt8

/-- Wait for a whole line, then go on behind it. -/
def withLine (next : Bytes → Parse) : Parse := fun input =>
  match splitLine input with
  | none => .more
  | some (line, rest) => next line rest

theorem withLine_of_none {input : Bytes} (hSplit : splitLine input = none)
    (next : Bytes → Parse) : withLine next input = .more := by
  rw [withLine, hSplit]

/-- A whole line is enough, whatever comes behind it later. -/
theorem withLine_of_some {input line rest : Bytes}
    (hSplit : splitLine input = some (line, rest))
    (next : Bytes → Parse) (future : Bytes) :
    withLine next (input ++ future) = next line (rest ++ future) := by
  rw [withLine, splitLine_append hSplit]

/-- Behind `+`, `-` or `:`. -/
def parseLine (kind : Kind) : Parse :=
  withLine fun line rest =>
    match lineObject kind line with
    | none => .bad .integerValue
    | some obj => .ok obj rest

/-- Behind `$`. -/
def parseBulk : Parse :=
  withLine fun line rest =>
    match string2ll line with
    | none => .bad .bulkLength
    | some len =>
        if len < -1 then .bad .bulkRange
        else if len = -1 then .ok .nil rest
        else if len.toNat + 2 ≤ rest.length then
          .ok (.string (rest.take len.toNat)) (rest.drop (len.toNat + 2))
        else .more

/-- Behind `*`, where arrays are still allowed. -/
def parseElements (parse : Parse) : Parse :=
  withLine fun line rest =>
    match string2ll line with
    | none => .bad .multiBulkLength
    | some elements =>
        if elements < -1 ∨ elements > INT_MAX then .bad .multiBulkRange
        else if elements = -1 then .ok .nil rest
        else
          (collect parse elements.toNat rest).bind fun element rest =>
            .ok (.array element) rest

/-- Behind `*`; there is no `inner` below the deepest arrays. -/
def parseMultiBulk (inner : Option Parse) : Parse :=
  match inner with
  | none => fun _ => .bad .nested
  | some parse => parseElements parse

def parseTyped (inner : Option Parse) (kind : Kind) : Parse :=
  match kind with
  | .string => parseBulk
  | .array => parseMultiBulk inner
  | _ => parseLine kind

def parseItem (inner : Option Parse) : Parse
  | [] => .more
  | byte :: rest =>
      match Kind.ofByte byte with
      | none => .bad (.typeByte byte)
      | some kind => parseTyped inner kind rest

/-- A reply with at most `depth` arrays inside one another. -/
def parseReply : Nat → Parse
  | 0 => parseItem none
  | depth + 1 => parseItem (some (parseReply depth))

/-- What may stand inside an array. -/
def innerParse : Nat → Option Parse
  | 0 => none
  | depth + 1 => some (parseReply depth)

theorem parseReply_eq (depth : Nat) :
    parseReply depth = parseItem (innerParse depth) := by
  cases depth <;> rfl

/-! ## The language -/

/-- The texts of a reply, from those of the replies inside an array: `Line` says
what a line may hold, and `Tail` what stands behind a bulk string. -/
inductive Writes (Line Tail : Bytes → Prop)
    (Inner : Option (RedisReply → Bytes → Prop)) :
    RedisReply → Bytes → Prop where
  | status {s : Bytes} (hLine : Line s) : Writes Line Tail Inner
      (.status s) (43 :: (s ++ crlf))
  | error {s : Bytes} (hLine : Line s) : Writes Line Tail Inner
      (.error s) (45 :: (s ++ crlf))
  | integer {v : Int} (hFits : Fits64 v) :
      Writes Line Tail Inner (.integer v) (58 :: (signed v ++ crlf))
  | string {s tail : Bytes} (hTail : Tail tail) (hFits : Fits64 s.length) :
      Writes Line Tail Inner (.string s)
        (36 :: (decimal s.length ++ crlf ++ (s ++ tail)))
  | nilString : Writes Line Tail Inner .nil (36 :: (signed (-1) ++ crlf))
  | nilArray {Each : RedisReply → Bytes → Prop} (hInner : Inner = some Each) :
      Writes Line Tail Inner .nil (42 :: (signed (-1) ++ crlf))
  | array {Each : RedisReply → Bytes → Prop} (hInner : Inner = some Each)
      {element : List RedisReply} {texts : List Bytes}
      (hEach : List.Forall₂ Each element texts)
      (hCount : (element.length : Int) ≤ INT_MAX) :
      Writes Line Tail Inner (.array element)
        (42 :: (decimal element.length ++ crlf ++ texts.flatten))

def TwoBytes (s : Bytes) : Prop := s.length = 2

/-- The texts that the code takes for a reply with at most `depth` arrays inside
one another. -/
def Wire : Nat → RedisReply → Bytes → Prop
  | 0 => Writes OneLine TwoBytes none
  | depth + 1 => Writes OneLine TwoBytes (some (Wire depth))

/-- A line of RESP. -/
def PlainLine (s : Bytes) : Prop := 13 ∉ s ∧ 10 ∉ s

/-- The texts that RESP has for it. -/
def Resp : Nat → RedisReply → Bytes → Prop
  | 0 => Writes PlainLine (· = crlf) none
  | depth + 1 => Writes PlainLine (· = crlf) (some (Resp depth))

theorem Writes.mono {Line Line' Tail Tail' : Bytes → Prop}
    {Inner Inner' : Option (RedisReply → Bytes → Prop)} (hLine : ∀ s, Line s → Line' s)
    (hTail : ∀ s, Tail s → Tail' s)
    (hInner : Option.Rel (fun Each Each' => ∀ v text, Each v text →
    Each' v text) Inner Inner')
    {v : RedisReply} {text : Bytes} (hWrites : Writes Line Tail Inner v text) :
    Writes Line' Tail' Inner' v text := by
  cases hWrites with
  | status hPlain => exact .status (hLine _ hPlain)
  | error hPlain => exact .error (hLine _ hPlain)
  | integer hFits => exact .integer hFits
  | string hEnd hFits => exact .string (hTail _ hEnd) hFits
  | nilString => exact .nilString
  | nilArray hSome =>
      cases hInner with
      | none => cases hSome
      | some hWider => exact .nilArray rfl
  | array hSome hEach hCount =>
      cases hInner with
      | none => cases hSome
      | some hWider =>
          cases hSome
          exact .array rfl (hEach.imp fun v text hText => hWider v text hText) hCount

/-- **RESP is read.** The code takes every text of RESP for its reply. -/
theorem Resp.wire {depth : Nat} {v : RedisReply} {text : Bytes}
    (hResp : Resp depth v text) :
    Wire depth v text := by
  have hLine : ∀ s, PlainLine s → OneLine s :=
    fun s hPlain => oneLine_of_not_mem hPlain.1
  have hTail : ∀ s, s = crlf → TwoBytes s := by
    rintro s rfl
    rfl
  induction depth generalizing v text with
  | zero => exact Writes.mono hLine hTail .none hResp
  | succ depth ih =>
      exact Writes.mono hLine hTail (.some fun v text hText => ih hText) hResp

theorem withLine_eq_ok {next : Bytes → Parse} {input rest : Bytes} {v : RedisReply} :
    withLine next input = .ok v rest ↔
      ∃ line tail, OneLine line ∧ input = line ++ crlf ++ tail ∧
        next line tail = .ok v rest := by
  unfold withLine
  cases hSplit : splitLine input with
  | none =>
      constructor
      · intro hOk
        cases hOk
      · rintro ⟨line, tail, hLine, hInput, -⟩
        rw [splitLine_eq_some.2 ⟨hLine, hInput⟩] at hSplit
        cases hSplit
  | some split =>
      obtain ⟨line, tail⟩ := split
      obtain ⟨hLine, hInput⟩ := splitLine_eq_some.1 hSplit
      constructor
      · intro hOk
        exact ⟨line, tail, hLine, hInput, hOk⟩
      · rintro ⟨other, otherTail, hOther, hSame, hOk⟩
        have hUnique := splitLine_eq_some.2 ⟨hOther, hSame⟩
        rw [hSplit, Option.some.injEq, Prod.mk.injEq] at hUnique
        obtain ⟨rfl, rfl⟩ := hUnique
        exact hOk

theorem parseLine_eq_ok {kind : Kind} {input rest : Bytes} {v : RedisReply} :
    parseLine kind input = .ok v rest ↔
      ∃ line, lineObject kind line = some v ∧ OneLine line ∧
        input = line ++ crlf ++ rest := by
  rw [parseLine, withLine_eq_ok]
  constructor
  · rintro ⟨line, tail, hLine, hInput, hOk⟩
    cases hObj : lineObject kind line with
    | none => simp [hObj] at hOk
    | some obj =>
        simp only [hObj, Verdict.ok.injEq] at hOk
        obtain ⟨rfl, rfl⟩ := hOk
        exact ⟨line, hObj, hLine, hInput⟩
  · rintro ⟨line, hObj, hLine, hInput⟩
    exact ⟨line, rest, hLine, hInput, by simp only [hObj]⟩

theorem parseBulk_eq_ok {input rest : Bytes} {v : RedisReply} :
    parseBulk input = .ok v rest ↔
      (v = .nil ∧ input = signed (-1) ++ crlf ++ rest) ∨
      ∃ (s : Bytes) (x y : UInt8), v = .string s ∧ Fits64 s.length ∧
        input = decimal s.length ++ crlf ++ (s ++ [x, y]) ++ rest := by
  rw [parseBulk, withLine_eq_ok]
  constructor
  · rintro ⟨line, tail, hLine, rfl, hOk⟩
    cases hNum : string2ll line with
    | none => simp [hNum] at hOk
    | some len =>
        obtain ⟨rfl, hFits⟩ := string2ll_eq_some.1 hNum
        simp only [hNum] at hOk
        split at hOk
        · cases hOk
        · rename_i hLow
          split at hOk
          · rename_i hNil
            subst hNil
            cases hOk
            exact Or.inl ⟨rfl, rfl⟩
          · rename_i hNil
            split at hOk
            · rename_i hLen
              cases hOk
              right
              obtain ⟨n, rfl⟩ : ∃ n : Nat, len = n := ⟨len.toNat, by omega⟩
              rw [Int.toNat_natCast] at hLen ⊢
              have hTake : (tail.take n).length = n := by
                rw [List.length_take]
                omega
              obtain ⟨x, y, hEnd⟩ : ∃ x y, tail.drop n =
                x :: y :: tail.drop (n + 2) := by
                have hx : n < tail.length := by omega
                have hy : n + 1 < tail.length := by omega
                exact ⟨tail[n], tail[n + 1], by
                  rw [List.drop_eq_getElem_cons hx, List.drop_eq_getElem_cons hy]⟩
              refine ⟨tail.take n, x, y, rfl, ?_, ?_⟩
              · rwa [hTake]
              · rw [hTake, signed_natCast]
                simp only [List.append_assoc, List.cons_append, List.nil_append]
                rw [← hEnd, List.take_append_drop]
            · cases hOk
  · rintro (⟨rfl, rfl⟩ | ⟨s, x, y, rfl, hFits, rfl⟩)
    · refine ⟨signed (-1), rest, oneLine_signed _, rfl, ?_⟩
      rw [string2ll_eq_some.2 ⟨rfl, by unfold Fits64; omega⟩]
      rfl
    · refine ⟨decimal s.length, s ++ [x, y] ++ rest, oneLine_decimal _, by simp, ?_⟩
      have hNum : string2ll (decimal s.length) = some (s.length : Int) :=
        string2ll_eq_some.2 ⟨(signed_natCast _).symm, hFits⟩
      have hEnough : s.length + 2 ≤ (s ++ [x, y] ++ rest).length := by
        simp only [List.length_append, List.length_cons, List.length_nil]
        omega
      rw [hNum]
      simp only
      rw [if_neg (by omega), if_neg (by omega), Int.toNat_natCast, if_pos hEnough,
        List.append_assoc, List.take_left', List.drop_append]
      · simp
      · rfl

theorem parseElements_eq_ok {parse : Parse} {Inner : RedisReply → Bytes → Prop}
    (hInner : Exact parse Inner) {input rest : Bytes} {v : RedisReply} :
    parseElements parse input = .ok v rest ↔
      (v = .nil ∧ input = signed (-1) ++ crlf ++ rest) ∨
      ∃ (element : List RedisReply) (texts : List Bytes), v = .array element ∧
        List.Forall₂ Inner element texts ∧ (element.length : Int) ≤ INT_MAX ∧
        input = decimal element.length ++ crlf ++ texts.flatten ++ rest := by
  rw [parseElements, withLine_eq_ok]
  constructor
  · rintro ⟨line, tail, hLine, rfl, hOk⟩
    cases hNum : string2ll line with
    | none => simp [hNum] at hOk
    | some count =>
        obtain ⟨rfl, -⟩ := string2ll_eq_some.1 hNum
        simp only [hNum] at hOk
        split at hOk
        · cases hOk
        · rename_i hRange
          split at hOk
          · rename_i hNil
            subst hNil
            cases hOk
            exact Or.inl ⟨rfl, rfl⟩
          · rename_i hNil
            right
            obtain ⟨element, mid, hAll, hEnd⟩ := Verdict.bind_eq_ok.1 hOk
            cases hEnd
            obtain ⟨texts, hEach, hCount, rfl⟩ := (collect_exact hInner _ _ _ _).1 hAll
            obtain ⟨n, rfl⟩ : ∃ n : Nat, count = n := ⟨count.toNat, by omega⟩
            rw [Int.toNat_natCast] at hCount
            refine ⟨element, texts, rfl, hEach, ?_, ?_⟩
            · rw [hCount]
              omega
            · rw [hCount, signed_natCast]
              simp only [List.append_assoc]
  · rintro (⟨rfl, rfl⟩ | ⟨element, texts, rfl, hEach, hCount, rfl⟩)
    · refine ⟨signed (-1), rest, oneLine_signed _, rfl, ?_⟩
      rw [string2ll_eq_some.2 ⟨rfl, by unfold Fits64; omega⟩]
      rfl
    · refine ⟨decimal element.length, texts.flatten ++ rest, oneLine_decimal _,
        by simp only [List.append_assoc], ?_⟩
      have hNum : string2ll (decimal element.length) = some (element.length : Int) := by
        refine string2ll_eq_some.2 ⟨(signed_natCast _).symm, ?_⟩
        unfold Fits64
        unfold INT_MAX at hCount
        omega
      have hAll :=
        (collect_exact hInner element.length (texts.flatten ++ rest) element rest).2
        ⟨texts, hEach, rfl, rfl⟩
      rw [hNum]
      simp only
      rw [if_neg (by omega), if_neg (by omega), Int.toNat_natCast, hAll]
      rfl

/-- The type byte of a kind. -/
def typeByte : Kind → UInt8
  | .error => 45
  | .status => 43
  | .integer => 58
  | .string => 36
  | .array => 42

theorem ofByte_eq_some {byte : UInt8} {kind : Kind} :
    Kind.ofByte byte = some kind ↔ byte = typeByte kind := by
  constructor
  · intro hKind
    unfold Kind.ofByte at hKind
    repeat' split at hKind
    all_goals
      cases hKind
      try assumption
  · rintro rfl
    cases kind <;> rfl

/-- Behind its type byte a reply is one of its texts, kind by kind. -/
theorem parseTyped_eq_ok {inner : Option Parse}
    {Inner : Option (RedisReply → Bytes → Prop)}
    (hInner : Option.Rel Exact inner Inner) {kind : Kind}
    {input rest : Bytes} {v : RedisReply} :
    parseTyped inner kind input = .ok v rest ↔
      ∃ text, Writes OneLine TwoBytes Inner v text ∧
        typeByte kind :: input = text ++ rest := by
  cases kind with
  | status =>
      show parseLine .status input = .ok v rest ↔ _
      rw [parseLine_eq_ok]
      constructor
      · rintro ⟨line, hObj, hLine, rfl⟩
        cases hObj
        exact ⟨_, .status hLine, rfl⟩
      · rintro ⟨text, hWrites, hInput⟩
        cases hWrites <;> cases hInput
        rename_i line hLine
        exact ⟨line, rfl, hLine, rfl⟩
  | error =>
      show parseLine .error input = .ok v rest ↔ _
      rw [parseLine_eq_ok]
      constructor
      · rintro ⟨line, hObj, hLine, rfl⟩
        cases hObj
        exact ⟨_, .error hLine, rfl⟩
      · rintro ⟨text, hWrites, hInput⟩
        cases hWrites <;> cases hInput
        rename_i line hLine
        exact ⟨line, rfl, hLine, rfl⟩
  | integer =>
      show parseLine .integer input = .ok v rest ↔ _
      rw [parseLine_eq_ok]
      constructor
      · rintro ⟨line, hObj, hLine, rfl⟩
        obtain ⟨n, hNum, rfl⟩ := Option.map_eq_some_iff.1 hObj
        obtain ⟨rfl, hFits⟩ := string2ll_eq_some.1 hNum
        exact ⟨_, .integer hFits, rfl⟩
      · rintro ⟨text, hWrites, hInput⟩
        cases hWrites <;> cases hInput
        rename_i n hFits
        refine ⟨signed n, ?_, oneLine_signed n, rfl⟩
        exact Option.map_eq_some_iff.2 ⟨n, string2ll_eq_some.2 ⟨rfl, hFits⟩, rfl⟩
  | string =>
      show parseBulk input = .ok v rest ↔ _
      rw [parseBulk_eq_ok]
      constructor
      · rintro (⟨rfl, rfl⟩ | ⟨s, x, y, rfl, hFits, rfl⟩)
        · exact ⟨_, .nilString, rfl⟩
        · exact ⟨_, .string (show TwoBytes [x, y] from rfl) hFits, rfl⟩
      · rintro ⟨text, hWrites, hInput⟩
        cases hWrites with
        | string hTail hFits =>
            obtain ⟨x, y, rfl⟩ := List.length_eq_two.1 hTail
            cases hInput
            exact Or.inr ⟨_, x, y, rfl, hFits, rfl⟩
        | nilString =>
            cases hInput
            exact Or.inl ⟨rfl, rfl⟩
        | _ => cases hInput
  | array =>
      cases hInner with
      | none =>
          constructor
          · intro hOk
            cases hOk
          · rintro ⟨text, hWrites, hInput⟩
            cases hWrites with
            | nilArray hWire => cases hWire
            | array hWire => cases hWire
            | _ => cases hInput
      | some hExact =>
          rename_i parse Inner
          show parseElements parse input = .ok v rest ↔ _
          rw [parseElements_eq_ok hExact]
          constructor
          · rintro (⟨rfl, rfl⟩ | ⟨element, texts, rfl, hEach, hCount, rfl⟩)
            · exact ⟨_, .nilArray rfl, rfl⟩
            · exact ⟨_, .array rfl hEach hCount, rfl⟩
          · rintro ⟨text, hWrites, hInput⟩
            cases hWrites with
            | nilArray hWire =>
                cases hInput
                exact Or.inl ⟨rfl, rfl⟩
            | array hWire hEach hCount =>
                cases hWire
                cases hInput
                exact Or.inr ⟨_, _, rfl, hEach, hCount, rfl⟩
            | _ => cases hInput

theorem writes_ne_nil {Line Tail : Bytes → Prop}
    {Inner : Option (RedisReply → Bytes → Prop)} {v : RedisReply} {text : Bytes}
    (hWrites : Writes Line Tail Inner v text) :
    ∃ kind tail, text = typeByte kind :: tail := by
  cases hWrites with
  | status => exact ⟨.status, _, rfl⟩
  | error => exact ⟨.error, _, rfl⟩
  | integer => exact ⟨.integer, _, rfl⟩
  | string => exact ⟨.string, _, rfl⟩
  | nilString => exact ⟨.string, _, rfl⟩
  | nilArray => exact ⟨.array, _, rfl⟩
  | array => exact ⟨.array, _, rfl⟩

theorem parseItem_exact {inner : Option Parse}
    {Inner : Option (RedisReply → Bytes → Prop)}
    (hInner : Option.Rel Exact inner Inner) : Exact (parseItem inner)
    (Writes OneLine TwoBytes Inner) := by
  intro input v rest
  constructor
  · intro hOk
    cases input with
    | nil => cases hOk
    | cons byte tail =>
        rw [parseItem] at hOk
        cases hKind : Kind.ofByte byte with
        | none => simp [hKind] at hOk
        | some kind =>
            simp only [hKind] at hOk
            rw [ofByte_eq_some.1 hKind]
            exact (parseTyped_eq_ok hInner).1 hOk
  · rintro ⟨text, hWrites, rfl⟩
    obtain ⟨kind, tail, rfl⟩ := writes_ne_nil hWrites
    rw [List.cons_append, parseItem, ofByte_eq_some.2 rfl]
    exact (parseTyped_eq_ok hInner).2 ⟨_, hWrites, rfl⟩

/-- **The parser accepts the language.** -/
theorem parseReply_exact (depth : Nat) : Exact (parseReply depth) (Wire depth) := by
  induction depth with
  | zero => exact parseItem_exact .none
  | succ depth ih => exact parseItem_exact (.some ih)

/-! ## Verdicts that stand -/

/-- A line-wise parser is settled if what it does behind the line is. -/
theorem withLine_settled {next : Bytes → Parse} (hNext : ∀ line, Settled (next line)) :
    Settled (withLine next) := by
  constructor
  · intro input v rest hOk future
    cases hSplit : splitLine input with
    | none =>
        rw [withLine_of_none hSplit] at hOk
        cases hOk
    | some split =>
        have hLine := withLine_of_some hSplit next
        rw [← List.append_nil input, hLine, List.append_nil] at hOk
        rw [hLine, (hNext split.1).ok hOk]
  · intro input e hBad future
    cases hSplit : splitLine input with
    | none =>
        rw [withLine_of_none hSplit] at hBad
        cases hBad
    | some split =>
        have hLine := withLine_of_some hSplit next
        rw [← List.append_nil input, hLine, List.append_nil] at hBad
        rw [hLine, (hNext split.1).bad hBad]

theorem settled_bad (f : Fault) : Settled (fun _ => .bad f : Parse) :=
  ⟨fun hOk => (by cases hOk), fun hBad _ => hBad⟩

theorem settled_ok (v : RedisReply) : Settled (fun rest => .ok v rest : Parse) := by
  constructor
  · intro input w rest hOk future
    cases hOk
    rfl
  · intro input e hBad
    cases hBad

theorem settled_string (n : Nat) :
    Settled (fun rest => if n + 2 ≤
      rest.length then .ok (.string (rest.take n)) (rest.drop (n + 2))
      else .more : Parse) := by
  constructor
  · intro input v rest hOk future
    split at hOk
    · rename_i hLen
      cases hOk
      rw [if_pos (by rw [List.length_append]; omega),
        List.take_append_of_le_length (by omega), List.drop_append_of_le_length hLen]
    · cases hOk
  · intro input e hBad
    split at hBad <;> cases hBad

theorem settled_array {parse : Parse} (hInner : Settled parse) (count : Nat) :
    Settled (fun rest => (collect parse count rest).bind fun element rest =>
      .ok (.array element) rest : Parse) := by
  constructor
  · intro input v rest hOk future
    obtain ⟨element, mid, hAll, hDone⟩ := Verdict.bind_eq_ok.1 hOk
    cases hDone
    rw [(hInner.collect count).ok hAll future]
    rfl
  · intro input e hBad future
    cases hAll : collect parse count input with
    | more =>
        rw [hAll] at hBad
        cases hBad
    | bad e' =>
        rw [hAll] at hBad
        cases hBad
        rw [(hInner.collect count).bad hAll future]
        rfl
    | ok element mid =>
        rw [hAll] at hBad
        cases hBad

theorem parseTyped_settled {inner : Option Parse}
    (hInner : ∀ parse, inner = some parse → Settled parse) (kind : Kind) :
    Settled (parseTyped inner kind) := by
  have hLine : ∀ kind, Settled (parseLine kind) := by
    intro kind
    apply withLine_settled
    intro line
    cases lineObject kind line with
    | none => exact settled_bad _
    | some obj => exact settled_ok obj
  cases kind with
  | status => exact hLine .status
  | error => exact hLine .error
  | integer => exact hLine .integer
  | string =>
      apply withLine_settled
      intro line
      cases string2ll line with
      | none => exact settled_bad _
      | some len =>
          simp only
          split
          · exact settled_bad _
          · split
            · exact settled_ok _
            · exact settled_string _
  | array =>
      cases hSome : inner with
      | none => exact settled_bad _
      | some parse =>
          apply withLine_settled
          intro line
          cases string2ll line with
          | none => exact settled_bad _
          | some elements =>
              simp only
              split
              · exact settled_bad _
              · split
                · exact settled_ok _
                · exact settled_array (hInner parse hSome) _

theorem parseItem_settled {inner : Option Parse}
    (hInner : ∀ parse, inner = some parse → Settled parse) :
    Settled (parseItem inner) := by
  constructor
  · intro input v rest hOk future
    cases input with
    | nil => cases hOk
    | cons byte tail =>
        rw [parseItem] at hOk
        rw [List.cons_append, parseItem]
        cases hKind : Kind.ofByte byte with
        | none =>
            rw [hKind] at hOk
            cases hOk
        | some kind =>
            rw [hKind] at hOk
            exact (parseTyped_settled hInner kind).ok hOk future
  · intro input e hBad future
    cases input with
    | nil => cases hBad
    | cons byte tail =>
        rw [parseItem] at hBad
        rw [List.cons_append, parseItem]
        cases hKind : Kind.ofByte byte with
        | none =>
            rw [hKind] at hBad
            exact hBad
        | some kind =>
            rw [hKind] at hBad
            exact (parseTyped_settled hInner kind).bad hBad future

theorem parseReply_settled (depth : Nat) : Settled (parseReply depth) := by
  induction depth with
  | zero =>
      apply parseItem_settled
      intro parse hSome
      cases hSome
  | succ depth ih =>
      apply parseItem_settled
      intro parse hSome
      cases hSome
      exact ih

/-! ## How a server writes replies -/

mutual

/-- The plain text of a reply. -/
def encode : RedisReply → Bytes
  | .null => []
  | .string s => 36 :: (decimal s.length ++ crlf ++ (s ++ crlf))
  | .array element => 42 :: (decimal element.length ++ crlf ++ encodeAll element)
  | .integer v => 58 :: (signed v ++ crlf)
  | .nil => 36 :: (signed (-1) ++ crlf)
  | .status s => 43 :: (s ++ crlf)
  | .error s => 45 :: (s ++ crlf)

def encodeAll : List RedisReply → Bytes
  | [] => []
  | v :: vs => encode v ++ encodeAll vs

end

theorem encodeAll_eq (vs : List RedisReply) : encodeAll vs = vs.flatMap encode := by
  induction vs with
  | nil => rfl
  | cons v vs ih => rw [encodeAll, ih, List.flatMap_cons]

/-- A reply that has a text: no null in it, lines without a line end, numbers
and lengths in range, at most `depth` arrays inside one another. -/
def Sendable : Nat → RedisReply → Prop
  | _, .null => False
  | _, .string s => Fits64 s.length
  | 0, .array _ => False
  | depth + 1, .array element =>
      (element.length : Int) ≤ INT_MAX ∧ ∀ v ∈ element, Sendable depth v
  | _, .integer v => Fits64 v
  | _, .nil => True
  | _, .status s => OneLine s
  | _, .error s => OneLine s

theorem wire_encode {depth : Nat} {v : RedisReply} (hSendable : Sendable depth v) :
    Wire depth v (encode v) := by
  have hEnd : TwoBytes crlf := rfl
  induction depth generalizing v with
  | zero =>
      rw [Wire]
      cases v with
      | null => exact hSendable.elim
      | string s => exact .string hEnd hSendable
      | array element => exact hSendable.elim
      | integer n => exact .integer hSendable
      | nil => exact .nilString
      | status s => exact .status hSendable
      | error s => exact .error hSendable
  | succ depth ih =>
      rw [Wire]
      cases v with
      | null => exact hSendable.elim
      | string s => exact .string hEnd hSendable
      | array element =>
          have hEach : List.Forall₂ (Wire depth) element (element.map encode) := by
            rw [List.forall₂_map_right_iff, List.forall₂_same]
            intro v hv
            exact ih (hSendable.2 v hv)
          rw [encode, encodeAll_eq, List.flatMap_def]
          exact .array rfl hEach hSendable.1
      | integer n => exact .integer hSendable
      | nil => exact .nilString
      | status s => exact .status hSendable
      | error s => exact .error hSendable

/-- **A reply that is written is read back**, and what follows it is left. -/
theorem parseReply_encode {depth : Nat} {v : RedisReply} (hSendable : Sendable depth v)
    (rest : Bytes) : parseReply depth (encode v ++ rest) = .ok v rest :=
  (parseReply_exact depth _ _ _).2 ⟨encode v, wire_encode hSendable, rfl⟩

end MGServer.Ports.RedisProtocol
