import Mathlib.Data.Nat.Digits.Defs
import MGServer.Ports.TinyXmlAccepted

/-!
# The texts tinyxml is for

A grammar of XML texts, as relations between what stands in the text, what it
means and what follows it: letters and references, quoted values and texts,
attributes, declarations, and the contents of elements and documents.  It leaves
the author of a text its white space, the choice of quotes and how a letter is
spelled.

The second half is the reading of letters, values and texts by the parser; the
nodes are read in `TinyXmlWritten`.
-/

namespace MGServer.Ports.TinyXmlParser

open MGServer.Verified.ByteString
open MGServer.Verified.Outcomes
open MGServer.Ports.TinyXml

/-! ## Letters -/

def Blank (w : Bytes) : Prop := ∀ b ∈ w, isSpace b = true

instance (w : Bytes) : Decidable (Blank w) :=
  decidable_of_iff (w.all isSpace = true) List.all_eq_true

/-- What does not begin with a mark that is skipped like white space. -/
def Unmarked (enc : Encoding) (p : Bytes) : Prop := enc = .utf8 → isMark p = false

/-- The bytes a numeric reference stands for. -/
def lettersOf (enc : Encoding) (n : Nat) : Bytes :=
  if enc = .utf8 then convertUTF32ToUTF8 n else [UInt8.ofNat n]

/-- A letter in one of its spellings, the bytes it means and what follows. -/
inductive Letter (enc : Encoding) : Bytes → Bytes → Bytes → Prop where
  | plain {b : UInt8} {rest : Bytes} (hSingle : enc = .utf8 → utf8Bytes b = 1)
      (hAmp : b ≠ 38) : Letter enc (b :: rest) [b] rest
  | wide {b : UInt8} {tail rest : Bytes} (hUtf8 : enc = .utf8)
      (hLength : utf8Bytes b = tail.length + 1) (hTail : tail ≠ []) :
      Letter enc (b :: (tail ++ rest)) (b :: tail) rest
  | named {str : Bytes} {chr : UInt8} {rest : Bytes} (hEntity : (str, chr) ∈ entity) :
      Letter enc (str ++ rest) [chr] rest
  | hex {digits rest : Bytes} {values : List Nat}
      (hDigits : digits.map hexDigit = values.map some)
      (hValue : Nat.ofDigits 16 values.reverse < 2 ^ 32) :
      Letter enc (38 :: 35 :: 120 :: (digits ++ 59 :: rest))
        (lettersOf enc (Nat.ofDigits 16 values.reverse)) rest
  | decimal {digits rest : Bytes} {values : List Nat}
      (hDigits : digits.map decimalDigit = values.map some)
      (hValue : Nat.ofDigits 10 values.reverse < 2 ^ 32) :
      Letter enc (38 :: 35 :: (digits ++ 59 :: rest))
        (lettersOf enc (Nat.ofDigits 10 values.reverse)) rest

/-- Letters up to a quote. -/
inductive Quoted (enc : Encoding) (quote : UInt8) : Bytes → Bytes → Bytes → Prop where
  | done {rest : Bytes} : Quoted enc quote (quote :: rest) [] rest
  | letter {p q value text rest : Bytes} (hOpen : p.head? ≠ some quote)
      (hLetter : Letter enc p value q) (hText : Quoted enc quote q text rest) :
      Quoted enc quote p (value ++ text) rest

/-- Letters up to the next tag, where white space is one blank between letters
and nothing behind the last; `white` says that some is in front. -/
inductive Words (enc : Encoding) : Bool → Bytes → Bytes → Bytes → Prop where
  | done {white : Bool} {rest : Bytes} : Words enc white (60 :: rest) [] (60 :: rest)
  | space {white : Bool} {b : UInt8} {p text rest : Bytes} (hSpace : isSpace b = true)
      (hText : Words enc true p text rest) : Words enc white (b :: p) text rest
  | letter {white : Bool} {p q value text rest : Bytes} (hOpen : p.head? ≠ some 60)
      (hSolid : p.head?.any isSpace = false) (hLetter : Letter enc p value q)
      (hText : Words enc false q text rest) :
      Words enc white p ((if white then [32] else []) ++ value ++ text) rest

/-! ## Nodes -/

/-- `name = "value"`, with either quotes. -/
inductive Assigned (enc : Encoding) (name : Bytes) : Bytes → Bytes → Bytes → Prop where
  | mk {w w' p value rest : Bytes} {quote : UInt8}
      (hBlank : Blank w) (hBlank' : Blank w') (hQuote : quote = 39 ∨ quote = 34)
      (hValue : Quoted enc quote p value rest) :
      Assigned enc name (name ++ (w ++ 61 :: (w' ++ quote :: p))) value rest

/-- The attributes of an element, and the white space behind them. -/
inductive Attributes (enc : Encoding) :
    Bytes → List (Bytes × Bytes) → Bytes → Prop where
  | done {w rest : Bytes} (hBlank : Blank w) : Attributes enc (w ++ rest) [] rest
  | pair {w p q name value rest : Bytes} {attributes : List (Bytes × Bytes)}
      (hBlank : Blank w) (hApart : w ≠ []) (hName : IsName name)
      (hMark : Unmarked enc p) (hAssigned : Assigned enc name p value q)
      (hRest : Attributes enc q attributes rest) :
      Attributes enc (w ++ p) ((name, value) :: attributes) rest

/-- The rest of a declaration; the encoding is the last one given. -/
inductive Declaring (enc : Encoding) : Bytes → Bytes → Bytes → Bytes → Prop where
  | done {w encoding rest : Bytes} (hBlank : Blank w) :
      Declaring enc (w ++ 63 :: 62 :: rest) encoding encoding rest
  | other {w key p q value encoding found rest : Bytes} (hBlank : Blank w)
      (hKey : key = bytesOf "version" ∨ key = bytesOf "standalone")
      (hAssigned : Assigned enc key p value q)
      (hRest : Declaring enc q encoding found rest) :
      Declaring enc (w ++ p) encoding found rest
  | encoding {w p q value encoding found rest : Bytes} (hBlank : Blank w)
      (hAssigned : Assigned enc (bytesOf "encoding") p value q)
      (hRest : Declaring enc q value found rest) :
      Declaring enc (w ++ p) encoding found rest

/-- A tag that is none of the others. -/
structure Foreign (value : Bytes) : Prop where
  closed : 62 ∉ value
  first : ∀ b ∈ value.head?, (isAlpha b || b == 95) = false ∧ b ≠ 47
  declaration : stringEqualNoCase value (bytesOf "?xml") = false
  comment : stringEqual value (bytesOf "!--") = false
  cdata : stringEqual value (bytesOf "![CDATA[") = false

/-- The encoding behind a declaration: the first of a document decides, if
nothing did before it. -/
def behindDeclaration (inside : Bool) (enc : Encoding) (found : Bytes) : Encoding :=
  if inside then enc else if enc = .unknown then declared found else enc

/-- What stands in an element, or outside of all of them, where there is no
text. -/
inductive Content : Bool → Encoding → Bytes → List Node → Bytes → Prop where
  | done {inside : Bool} {enc : Encoding} {w rest : Bytes} (hBlank : Blank w) :
      Content inside enc (w ++ rest) [] rest
  | text {enc : Encoding} {w p q value rest : Bytes}
      {nodes : List Node} (hBlank : Blank w) (hMark : Unmarked enc p)
      (hSolid : p.head?.any isSpace = false) (hWords : Words enc false p value q)
      (hSome : value.all isSpace = false) (hRest : Content true enc q nodes rest) :
      Content true enc (w ++ p) (.text value :: nodes) rest
  | declaration {inside : Bool} {enc : Encoding}
      {w p q found rest : Bytes} {nodes : List Node} (hBlank : Blank w)
      (hDeclaring : Declaring enc p [] found q)
      (hRest : Content inside (behindDeclaration inside enc found) q nodes rest) :
      Content inside enc (w ++ (bytesOf "<?xml" ++ p)) (.declaration :: nodes) rest
  | comment {inside : Bool} {enc : Encoding}
      {w value q rest : Bytes} {nodes : List Node} (hBlank : Blank w)
      (hEnd : ¬ bytesOf "-->" <:+: value ++ bytesOf "--")
      (hRest : Content inside enc q nodes rest) :
      Content inside enc (w ++ (bytesOf "<!--" ++ (value ++ (bytesOf "-->" ++ q))))
        (.comment value :: nodes) rest
  | cdata {inside : Bool} {enc : Encoding} {w value q rest : Bytes} {nodes : List Node}
      (hBlank : Blank w) (hEnd : ¬ bytesOf "]]>" <:+: value ++ bytesOf "]]")
      (hSome : q ≠ []) (hRest : Content inside enc q nodes rest) :
      Content inside enc (w ++ (bytesOf "<![CDATA[" ++ (value ++ (bytesOf "]]>" ++ q))))
        (.text value :: nodes) rest
  | unknown {inside : Bool} {enc : Encoding}
      {w value q rest : Bytes} {nodes : List Node} (hBlank : Blank w)
      (hForeign : Foreign value) (hRest : Content inside enc q nodes rest) :
      Content inside enc (w ++ 60 :: (value ++ 62 :: q)) (.unknown value :: nodes) rest
  | empty {inside : Bool} {enc : Encoding} {w name p q rest : Bytes}
      {attributes : List (Bytes × Bytes)} {nodes : List Node} (hBlank : Blank w)
      (hName : IsName name) (hMark : Unmarked enc (name ++ p))
      (hAttributes : Attributes enc p attributes (47 :: 62 :: q))
      (hDistinct : (attributes.map Prod.fst).Nodup)
      (hRest : Content inside enc q nodes rest) :
      Content inside enc (w ++ 60 :: (name ++ p))
        (.element name attributes [] :: nodes) rest
  | element {inside : Bool} {enc : Encoding} {w name p q w' q' rest : Bytes}
      {attributes : List (Bytes × Bytes)}
      {children nodes : List Node} (hBlank : Blank w) (hName : IsName name)
      (hMark : Unmarked enc (name ++ p))
      (hAttributes : Attributes enc p attributes (62 :: q))
      (hDistinct : (attributes.map Prod.fst).Nodup)
      (hContent : Content true enc q children (60 :: 47 :: (name ++ (w' ++ 62 :: q'))))
      (hBlank' : Blank w') (hRest : Content inside enc q' nodes rest) :
      Content inside enc (w ++ 60 :: (name ++ p))
        (.element name attributes children :: nodes) rest

/-- A whole text; one that begins with the mark of UTF-8 is in UTF-8. -/
inductive Written : Bytes → List Node → Prop where
  | plain {t : Bytes} {nodes : List Node}
      (hSolid : stringEqual t [0xef, 0xbb, 0xbf] = false)
      (hContent : Content false .unknown t nodes []) : Written t nodes
  | marked {t : Bytes} {nodes : List Node} (hContent : Content false .utf8 t nodes []) :
      Written (0xef :: 0xbb :: 0xbf :: t) nodes

/-! ## White space -/

theorem takeWhile_exact {f : UInt8 → Bool} {body rest : Bytes}
    (hBody : ∀ b ∈ body, f b = true) (hRest : rest.head?.any f = false) :
    (body ++ rest).takeWhile f = body := by
  rw [List.takeWhile_append_of_pos hBody]
  cases rest with
  | nil => exact List.append_nil body
  | cons b rest =>
      rw [List.takeWhile_cons_of_neg (Bool.not_eq_true _ ▸ hRest), List.append_nil]

theorem dropWhile_exact {f : UInt8 → Bool} {body rest : Bytes}
    (hBody : ∀ b ∈ body, f b = true) (hRest : rest.head?.any f = false) :
    (body ++ rest).dropWhile f = rest := by
  rw [List.dropWhile_append_of_pos hBody]
  cases rest with
  | nil => rfl
  | cons b rest => exact List.dropWhile_cons_of_neg (Bool.not_eq_true _ ▸ hRest)

theorem isMark_of_ne {b : UInt8} (hb : b ≠ 0xef) (p : Bytes) :
    isMark (b :: p) = false := by
  unfold isMark
  split
  · exact absurd (List.cons.inj ‹_›).1 hb
  · exact absurd (List.cons.inj ‹_›).1 hb
  · exact absurd (List.cons.inj ‹_›).1 hb
  · rfl

theorem unmarked_of_ne {enc : Encoding} {b : UInt8} (hb : b ≠ 0xef) (p : Bytes) :
    Unmarked enc (b :: p) :=
  fun _ => isMark_of_ne hb p

theorem skipMarks_blank {w p : Bytes} (hBlank : Blank w) (hMark : isMark p = false)
    (hSolid : p.head?.any isSpace = false) : skipMarks 0 (w ++ p) = p := by
  induction w with
  | nil =>
      cases p with
      | nil => rfl
      | cons b rest =>
          have hByte : isSpace b = false := hSolid
          rw [List.nil_append, skipMarks, hMark, hByte]
          rfl
  | cons b w ih =>
      have hSpace : isSpace b = true := hBlank b List.mem_cons_self
      have hNot : isMark (b :: (w ++ p)) = false := by
        refine isMark_of_ne (fun hEq => ?_) _
        rw [hEq] at hSpace
        cases hSpace
      rw [List.cons_append, skipMarks, hNot, hSpace]
      exact ih fun c hc => hBlank c (List.mem_cons_of_mem _ hc)

theorem skipWhite_blank {enc : Encoding} {w p : Bytes} (hBlank : Blank w)
    (hMark : Unmarked enc p) (hSolid : p.head?.any isSpace = false) :
    skipWhite enc (w ++ p) = p := by
  unfold skipWhite
  split
  · rename_i hUtf8
    exact skipMarks_blank hBlank (hMark hUtf8) hSolid
  · exact dropWhile_exact hBlank hSolid

/-- White space in front of something else. -/
theorem skipWhiteSpace_blank {enc : Encoding} {w p : Bytes}
    {b : UInt8} (hBlank : Blank w) (hMark : Unmarked enc (b :: p))
    (hSolid : isSpace b = false) :
    skipWhiteSpace enc (some (w ++ b :: p)) = some (b :: p) := by
  have hSkip := skipWhite_blank hBlank hMark (p := b :: p) hSolid
  cases w with
  | nil => exact congrArg some hSkip
  | cons c w => exact congrArg some hSkip

theorem blank_nil : Blank [] := fun _ hb => by cases hb

/-! ## Letters -/

/-- The digits of a reference, from the last on, denote its number as long as
that has 32 bits. -/
theorem digitsFrom_ofDigits {base : Nat} {digit : UInt8 → Option Nat} {digits : Bytes}
    {values : List Nat} (hDigits : digits.map digit = values.map some)
    {k mult ucs : Nat} (hMult : mult = base ^ k % 2 ^ 32)
    (hValue : ucs + base ^ k * Nat.ofDigits base values < 2 ^ 32) :
    digitsFrom base digit digits mult ucs =
      some (ucs + base ^ k * Nat.ofDigits base values) := by
  induction digits generalizing values k mult ucs with
  | nil =>
      cases values with
      | nil => exact congrArg some (Nat.add_zero ucs).symm
      | cons v values => cases hDigits
  | cons b digits ih =>
      cases values with
      | nil => cases hDigits
      | cons v values =>
          obtain ⟨hDigit, hRest⟩ := List.cons.inj hDigits
          have hSplit : ucs + base ^ k * Nat.ofDigits base (v :: values) =
              ucs + base ^ k * v + base ^ (k + 1) * Nat.ofDigits base values := by
            rw [Nat.ofDigits_cons, pow_succ]
            ring
          rw [hSplit] at hValue ⊢
          have hTerm : mult * v % 2 ^ 32 = base ^ k * v := by
            rw [hMult, Nat.mod_mul_mod]
            exact Nat.mod_eq_of_lt (by omega)
          have hSum : (ucs + mult * v % 2 ^ 32) % 2 ^ 64 = ucs + base ^ k * v := by
            rw [hTerm]
            exact Nat.mod_eq_of_lt (by omega)
          have hNext : mult * base % 2 ^ 32 = base ^ (k + 1) % 2 ^ 32 := by
            rw [hMult, Nat.mod_mul_mod, pow_succ base k]
          have hStep : digitsFrom base digit (b :: digits) mult ucs =
              digitsFrom base digit digits (mult * base % 2 ^ 32)
                (ucs + base ^ k * v) := by
            rw [← hSum]
            exact digitsFrom_cons hDigit digits mult ucs
          exact hStep.trans (ih hRest hNext hValue)

theorem getReference_digits (enc : Encoding) {base : Nat} {stop : UInt8}
    {digit : UInt8 → Option Nat} {digits : Bytes} {values : List Nat}
    (hEnd : digit 59 = none) (hStop : digit stop = none)
    (hDigits : digits.map digit = values.map some)
    (hValue : Nat.ofDigits base values.reverse < 2 ^ 32) (rest : Bytes) :
    getReference enc base stop digit (digits ++ 59 :: rest) =
      (lettersOf enc (Nat.ofDigits base values.reverse), some rest) := by
  have hSome : ∀ b ∈ digits, digit b ≠ none := by
    intro b hb hNone
    have hMem : digit b ∈ values.map some := hDigits ▸ List.mem_map_of_mem hb
    rw [hNone] at hMem
    obtain ⟨v, -, hv⟩ := List.mem_map.1 hMem
    cases hv
  have hAhead : ∀ b ∈ digits, (b != 59) = true := fun b hb =>
    bne_iff_ne.2 fun hEq => hSome b hb (hEq ▸ hEnd)
  have hInside : ∀ b ∈ digits.reverse, (b != stop) = true := fun b hb =>
    bne_iff_ne.2 fun hEq => hSome b (List.mem_reverse.1 hb) (hEq ▸ hStop)
  have hReverse : digits.reverse.map digit = values.reverse.map some := by
    rw [List.map_reverse, hDigits, List.map_reverse]
  have hNumber : digitsFrom base digit digits.reverse 1 0 =
      some (0 + base ^ 0 * Nat.ofDigits base values.reverse) :=
    digitsFrom_ofDigits hReverse rfl (by rwa [zero_add, pow_zero, one_mul])
  unfold getReference
  rw [dropWhile_exact hAhead rfl, takeWhile_exact hAhead rfl]
  simp only [List.takeWhile_eq_self_iff.2 hInside, hNumber, zero_add, pow_zero, one_mul]
  rfl

/-- A decimal reference is not taken for a hexadecimal one. -/
theorem getEntity_decimal (enc : Encoding) {digits : Bytes} {values : List Nat}
    (hDigits : digits.map decimalDigit = values.map some) (rest : Bytes) :
    getEntity enc (38 :: 35 :: (digits ++ 59 :: rest)) =
      getReference enc 10 35 decimalDigit (digits ++ 59 :: rest) := by
  cases digits with
  | nil => rfl
  | cons c digits =>
      have hc : c ≠ 120 := by
        rintro rfl
        cases values with
        | nil => cases hDigits
        | cons v values => cases (List.cons.inj hDigits).1
      unfold getEntity
      split
      · rename_i hEq
        exact absurd (List.cons.inj (List.cons.inj (List.cons.inj hEq).2).2).1 hc
      · rename_i hEq
        cases hEq
        rfl
      · rename_i hNot
        exact absurd rfl (hNot 38 c (digits ++ 59 :: rest))

theorem Letter.getChar {enc : Encoding} {p value rest : Bytes}
    (hLetter : Letter enc p value rest) :
    getChar enc p = .ok (value, some rest) := by
  cases hLetter with
  | @plain b rest hSingle hAmp =>
      have hOne : (if enc = .utf8 then utf8Bytes b else 1) = 1 := by
        split
        · exact hSingle ‹_›
        · rfl
      simp only [TinyXmlParser.getChar, hOne, if_neg hAmp]
      rfl
  | @wide b tail rest hUtf8 hLength hTail =>
      have hLong : tail.length ≠ 0 :=
        fun hZero => hTail (List.length_eq_zero_iff.1 hZero)
      have hTake : (b :: (tail ++ rest)).take (tail.length + 1) = b :: tail := by
        rw [List.take_succ_cons, List.take_left]
      have hDrop : (b :: (tail ++ rest)).drop (tail.length + 1) = rest := by
        rw [List.drop_succ_cons, List.drop_left]
      simp only [TinyXmlParser.getChar, if_pos hUtf8, hLength, hTake, hDrop]
      rw [if_neg (by omega), if_neg]
      rw [List.length_cons, List.length_append]
      omega
  | named hEntity =>
      simp only [entity, List.mem_cons, Prod.mk.injEq,
        List.not_mem_nil, or_false] at hEntity
      rcases hEntity with ⟨rfl, rfl⟩ | ⟨rfl, rfl⟩ | ⟨rfl, rfl⟩ | ⟨rfl, rfl⟩ | ⟨rfl, rfl⟩
      all_goals cases enc <;> rfl
  | @hex digits rest values hDigits hValue =>
      have hRead : getReference enc 16 120 hexDigit (digits ++ 59 :: rest) = _ :=
        getReference_digits enc rfl rfl hDigits hValue rest
      cases enc <;> exact congrArg Except.ok hRead
  | @decimal digits rest values hDigits hValue =>
      have hRead : getReference enc 10 35 decimalDigit (digits ++ 59 :: rest) = _ :=
        getReference_digits enc rfl rfl hDigits hValue rest
      have hEntity : getEntity enc (38 :: 35 :: (digits ++ 59 :: rest)) = _ :=
        (getEntity_decimal enc hDigits rest).trans hRead
      cases enc <;> exact congrArg Except.ok hEntity

/-- A letter is not nothing. -/
theorem Letter.length_lt {enc : Encoding} {p value rest : Bytes}
    (hLetter : Letter enc p value rest) : rest.length < p.length := by
  cases hLetter with
  | plain hSingle hAmp => exact Nat.lt_succ_self _
  | wide hUtf8 hLength hTail =>
      rw [List.length_cons, List.length_append]
      omega
  | named hEntity =>
      have hPos : 0 < _ := entity_ne_nil hEntity
      rw [List.length_append]
      exact Nat.lt_add_of_pos_left hPos
  | hex hDigits hValue =>
      simp only [List.length_cons, List.length_append]
      omega
  | decimal hDigits hValue =>
      simp only [List.length_cons, List.length_append]
      omega

/-! ## Values and texts -/

theorem Quoted.length_lt {enc : Encoding} {quote : UInt8} {p text rest : Bytes}
    (hQuoted : Quoted enc quote p text rest) : rest.length < p.length := by
  induction hQuoted with
  | done => exact Nat.lt_succ_self _
  | letter hOpen hLetter hText ih => exact ih.trans hLetter.length_lt

theorem Words.length_le {enc : Encoding} {white : Bool} {p text rest : Bytes}
    (hWords : Words enc white p text rest) : rest.length ≤ p.length := by
  induction hWords with
  | done => exact Nat.le_refl _
  | space hSpace hText ih => exact Nat.le_succ_of_le ih
  | letter hOpen hSolid hLetter hText ih => exact ih.trans hLetter.length_lt.le

theorem stringEqual_one {p : Bytes} {b : UInt8} :
    stringEqual p [b] = true ↔ p.head? = some b := by
  cases p with
  | nil => simp [stringEqual]
  | cons c rest => simp [stringEqual, List.isPrefixOf, eq_comm (a := b)]

/-- Where a loop of `ReadText` goes on. -/
theorem letter_open {enc : Encoding} {p value q : Bytes} {stop : UInt8}
    (hLetter : Letter enc p value q) (hOpen : p.head? ≠ some stop) :
    ¬ (p = [] ∨ stringEqual p [stop] = true) := by
  rintro (rfl | hTag)
  · exact absurd hLetter.length_lt (Nat.not_lt_zero _)
  · exact hOpen (stringEqual_one.1 hTag)

theorem Quoted.keptText {enc : Encoding} {quote : UInt8} {p text rest : Bytes}
    (hQuoted : Quoted enc quote p text rest) {fuel : Nat} (hFuel : p.length < fuel) :
    keptText enc [quote] fuel p = .ok (text, some (quote :: rest)) := by
  induction hQuoted generalizing fuel with
  | done =>
      cases fuel with
      | zero => cases hFuel
      | succ fuel =>
          rw [TinyXmlParser.keptText, if_pos (Or.inr (stringEqual_one.2 rfl))]
  | letter hOpen hLetter hText ih =>
      cases fuel with
      | zero => cases hFuel
      | succ fuel =>
          have hNext := ih (by have := hLetter.length_lt; omega : _ < fuel)
          rw [TinyXmlParser.keptText,
            if_neg (letter_open hLetter hOpen), hLetter.getChar]
          simp only [ok_bind, hNext]

theorem Words.condensedText {enc : Encoding} {white : Bool} {p text rest : Bytes}
    (hWords : Words enc white p text rest) {fuel : Nat} (hFuel : p.length < fuel) :
    condensedText enc [60] fuel white p = .ok (text, some rest) := by
  induction hWords generalizing fuel with
  | done =>
      cases fuel with
      | zero => cases hFuel
      | succ fuel =>
          rw [TinyXmlParser.condensedText, if_pos (Or.inr (stringEqual_one.2 rfl))]
  | @space white b p text rest hSpace hText ih =>
      cases fuel with
      | zero => cases hFuel
      | succ fuel =>
          have hNot : ¬ (b :: p = [] ∨ stringEqual (b :: p) [60] = true) := by
            rintro (hNil | hTag)
            · cases hNil
            · cases stringEqual_one.1 hTag
              cases hSpace
          have hWhite : (b :: p).head?.any isSpace = true := hSpace
          rw [TinyXmlParser.condensedText, if_neg hNot, if_pos hWhite]
          exact ih (Nat.lt_of_succ_lt_succ hFuel)
  | letter hOpen hSolid hLetter hText ih =>
      cases fuel with
      | zero => cases hFuel
      | succ fuel =>
          have hNext := ih (by have := hLetter.length_lt; omega : _ < fuel)
          rw [TinyXmlParser.condensedText, if_neg (letter_open hLetter hOpen),
            if_neg (Bool.not_eq_true _ ▸ hSolid), hLetter.getChar]
          simp only [ok_bind, hNext]

theorem Words.stops {enc : Encoding} {white : Bool} {p text rest : Bytes}
    (hWords : Words enc white p text rest) : ∃ q, rest = 60 :: q := by
  induction hWords with
  | done => exact ⟨_, rfl⟩
  | space hSpace hText ih => exact ih
  | letter hOpen hSolid hLetter hText ih => exact ih

/-- A quoted value that something follows. -/
theorem Quoted.readText {enc : Encoding} {quote : UInt8} {p text rest : Bytes}
    (hQuoted : Quoted enc quote p text rest) (hRest : rest ≠ []) :
    readText enc false [quote] p = .ok (text, some rest) := by
  have hLong : ¬ (quote :: rest).length ≤ [quote].length := by
    have := List.length_pos_iff.2 hRest
    simp only [List.length_cons, List.length_nil]
    omega
  unfold TinyXmlParser.readText
  rw [if_neg Bool.false_ne_true, hQuoted.keptText (Nat.lt_succ_self _)]
  simp only [ok_bind, behindTag, if_neg hLong]
  rfl

/-- A text up to a tag. -/
theorem Words.readText {enc : Encoding} {p text rest : Bytes}
    (hWords : Words enc false p text (60 :: rest)) (hMark : Unmarked enc p)
    (hSolid : p.head?.any isSpace = false) (hRest : rest ≠ []) :
    readText enc true [60] p = .ok (text, some rest) := by
  have hLong : ¬ (60 :: rest).length ≤ [(60 : UInt8)].length := by
    have := List.length_pos_iff.2 hRest
    simp only [List.length_cons, List.length_nil]
    omega
  have hSkip : skipWhiteSpace enc (some p) = some p := by
    cases p with
    | nil => exact absurd hWords.length_le (by simp)
    | cons b p => exact skipWhiteSpace_blank blank_nil hMark hSolid
  unfold TinyXmlParser.readText
  rw [if_pos rfl, hSkip]
  simp only [hWords.condensedText (Nat.lt_succ_self _), ok_bind,
    behindTag, if_neg hLong]
  rfl

end MGServer.Ports.TinyXmlParser
