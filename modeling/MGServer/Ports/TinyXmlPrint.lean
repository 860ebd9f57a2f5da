import MGServer.Ports.TinyXmlWritten

/-!
# Printing and the round trip of tinyxml

Port of `EncodeString`, of the `Print` functions and of `SaveFile` in
`tinyxml/tinyxml.cpp`.  What is printed keeps what the configuration never asks
for, so a tree has more to it here than a parsed node: the three strings of a
declaration, and whether a text is a CDATA section.

Printing does not escape everything.  `EncodeString` takes `&#x` for the beginning
of a reference and passes it through, comments and declarations are printed as
they are, and a text loses the white space that is condensed.  The trees that come
back are the ones in which none of this happens.
-/

namespace MGServer.Ports.TinyXmlParser

open MGServer.Verified.ByteString
open MGServer.Ports.TinyXml

/-! ## The printer -/

/-- `TiXmlNode` with all it prints. -/
inductive Tree where
  | element (value : Bytes) (attributes : List (Bytes × Bytes)) (children : List Tree)
  | comment (value : Bytes)
  | text (cdata : Bool) (value : Bytes)
  | declaration (version encoding standalone : Bytes)
  | unknown (value : Bytes)

def upperHex (n : Nat) : UInt8 :=
  if n < 10 then UInt8.ofNat (48 + n) else UInt8.ofNat (55 + n)

/-- The escape of one character in `EncodeString`. -/
def encodeByte (b : UInt8) : Bytes :=
  if b = 38 then bytesOf "&amp;"
  else if b = 60 then bytesOf "&lt;"
  else if b = 62 then bytesOf "&gt;"
  else if b = 34 then bytesOf "&quot;"
  else if b = 39 then bytesOf "&apos;"
  else if b < 32 then
    bytesOf "&#x" ++ [upperHex (b.toNat / 16), upperHex (b.toNat % 16), 59]
  else [b]

/-- The loop of `EncodeString`; `passing` is its inner loop, in which a reference
is copied up to its semicolon or to the last character. -/
def encodeLoop : Bool → Bytes → Bytes
  | _, [] => []
  | passing, b :: rest =>
      if passing && b != 59 && !rest.isEmpty then b :: encodeLoop true rest
      else if stringEqual (b :: rest) (bytesOf "&#x") then b :: encodeLoop true rest
      else encodeByte b ++ encodeLoop false rest

/-- `EncodeString`; its index and the length it is compared with are `int`s, so
of a string of `2 ^ 31` bytes or more it sees another part, or nothing. -/
def encodeString (s : Bytes) : Bytes :=
  encodeLoop false (s.take (Int.bmod s.length (2 ^ 32)).toNat)

/-- `TiXmlAttribute::Print`; `find` stops at a NUL. -/
def attributePrint (a : Bytes × Bytes) : Bytes :=
  let quote : UInt8 := if (cstr a.2).contains 34 then 39 else 34
  cstr (encodeString a.1) ++ 61 :: quote :: (cstr (encodeString a.2) ++ [quote])

/-- One of the strings of a declaration, if it has it. -/
def declarationField (key : String) (value : Bytes) : Bytes :=
  if value.isEmpty then [] else bytesOf key ++ 61 :: 34 :: (cstr value ++ [34, 32])

/-- `TiXmlDeclaration::Print`. -/
def declarationPrint (version encoding standalone : Bytes) : Bytes :=
  bytesOf "<?xml " ++ declarationField "version" version ++
    declarationField "encoding" encoding ++
    declarationField "standalone" standalone ++ bytesOf "?>"

def indent (depth : Nat) : Bytes := List.replicate (4 * depth) 32

/-- `TiXmlText::Print`. -/
def textPrint (depth : Nat) (cdata : Bool) (value : Bytes) : Bytes :=
  if cdata then
    10 :: indent depth ++ bytesOf "<![CDATA[" ++ cstr value ++ bytesOf "]]>" ++ [10]
  else cstr (encodeString value)

def Tree.isText : Tree → Bool
  | .text _ _ => true
  | _ => false

mutual

/-- `Print` of a node. -/
def Tree.print (depth : Nat) : Tree → Bytes
  | .comment value => indent depth ++ bytesOf "<!--" ++ cstr value ++ bytesOf "-->"
  | .text cdata value => textPrint depth cdata value
  | .declaration version encoding standalone =>
      declarationPrint version encoding standalone
  | .unknown value => indent depth ++ 60 :: (cstr value ++ [62])
  | .element value attributes children =>
      indent depth ++ 60 :: cstr value ++
        attributes.flatMap (fun a => 32 :: attributePrint a) ++
        (match children with
        | [] => bytesOf " />"
        | child :: siblings =>
            62 :: (printChildren (depth + 1) (child :: siblings) ++
              -- a text that is the only child has the end tag right behind it
              (if child.isText && siblings.isEmpty then [] else 10 :: indent depth) ++
              60 :: 47 :: (cstr value ++ [62])))

/-- The loop over the children, which begins a line for all but texts. -/
def printChildren (depth : Nat) : List Tree → Bytes
  | [] => []
  | child :: siblings =>
      (if child.isText then [] else [10]) ++ child.print depth ++
        printChildren depth siblings

end

/-- `SaveFile`, with `useMicrosoftBOM`. -/
def saveFile (useMicrosoftBOM : Bool) (doc : List Tree) : Bytes :=
  (if useMicrosoftBOM then [0xef, 0xbb, 0xbf] else []) ++
    doc.flatMap fun t => t.print 0 ++ [10]

mutual

/-- What the parser keeps of a tree. -/
def Tree.node : Tree → Node
  | .comment value => .comment value
  | .text _ value => .text value
  | .declaration _ _ _ => .declaration
  | .unknown value => .unknown value
  | .element value attributes children => .element value attributes (nodesOf children)

def nodesOf : List Tree → List Node
  | [] => []
  | t :: rest => t.node :: nodesOf rest

end

/-! ## What comes back -/

/-- A string of whole characters. -/
inductive Characters (enc : Encoding) : Bytes → Prop where
  | nil : Characters enc []
  | plain {b : UInt8} {s : Bytes} (hSingle : enc = .utf8 → utf8Bytes b = 1)
      (hRest : Characters enc s) : Characters enc (b :: s)
  | wide {b : UInt8} {tail s : Bytes} (hUtf8 : enc = .utf8)
      (hLength : utf8Bytes b = tail.length + 1) (hTail : tail ≠ [])
      (hHigh : ∀ c ∈ tail, 0x80 ≤ c) (hRest : Characters enc s) :
      Characters enc (b :: (tail ++ s))

/-- A name in the encoding, short enough for `EncodeString`. -/
structure NameIn (enc : Encoding) (s : Bytes) : Prop where
  name : IsName s
  characters : Characters enc s
  unmarked : Unmarked enc s
  size : s.length < 2 ^ 31

/-- A string that `EncodeString` escapes whole. -/
structure Encodable (enc : Encoding) (s : Bytes) : Prop where
  characters : Characters enc s
  reference : ¬ bytesOf "&#x" <:+: s
  size : s.length < 2 ^ 31

/-- A string that is printed as it is and not changed as part of a file. -/
structure Kept (s : Bytes) : Prop where
  nul : 0 ∉ s
  cr : 13 ∉ s

/-- A string of a declaration. -/
structure Declarable (enc : Encoding) (s : Bytes) : Prop where
  kept : Kept s
  characters : Characters enc s
  quote : 34 ∉ s
  amp : 38 ∉ s

/-- A text from which no white space is condensed away. -/
structure Spaced (enc : Encoding) (s : Bytes) : Prop where
  unmarked : Unmarked enc s
  first : s.head? ≠ some 32
  double : ¬ [32, 32] <:+: s
  last : s.getLast? ≠ some 32
  solid : s.all isSpace = false

/-- Not a text outside of a CDATA section. -/
def Tree.plainText : Tree → Bool
  | .text false _ => true
  | _ => false

/-- Trees that are not changed by printing and reading, in an element or as a
document. -/
inductive Printable : Bool → Encoding → List Tree → Prop where
  | nil {inside : Bool} {enc : Encoding} : Printable inside enc []
  | element {inside : Bool} {enc : Encoding} {name : Bytes}
      {attributes : List (Bytes × Bytes)} {children rest : List Tree}
      (hName : NameIn enc name)
      (hAttributes : ∀ a ∈ attributes, NameIn enc a.1 ∧ Encodable enc a.2)
      (hDistinct : (attributes.map Prod.fst).Nodup)
      (hChildren : Printable true enc children) (hRest : Printable inside enc rest) :
      Printable inside enc (.element name attributes children :: rest)
  | comment {inside : Bool} {enc : Encoding} {value : Bytes} {rest : List Tree}
      (hKept : Kept value) (hEnd : ¬ bytesOf "-->" <:+: value ++ bytesOf "--")
      (hRest : Printable inside enc rest) :
      Printable inside enc (.comment value :: rest)
  | text {enc : Encoding} {value : Bytes} {rest : List Tree}
      (hEncodable : Encodable enc value) (hSpaced : Spaced enc value)
      (hNext : rest.head?.any Tree.plainText = false)
      (hRest : Printable true enc rest) : Printable true enc (.text false value :: rest)
  | cdata {inside : Bool} {enc : Encoding} {value : Bytes} {rest : List Tree}
      (hKept : Kept value) (hEnd : ¬ bytesOf "]]>" <:+: value ++ bytesOf "]]")
      (hRest : Printable inside enc rest) :
      Printable inside enc (.text true value :: rest)
  | declaration {inside : Bool} {enc : Encoding} {version encoding standalone : Bytes}
      {rest : List Tree} (hVersion : Declarable enc version)
      (hEncoding : Declarable enc encoding) (hStandalone : Declarable enc standalone)
      (hRest : Printable inside (behindDeclaration inside enc encoding) rest) :
      Printable inside enc (.declaration version encoding standalone :: rest)
  | unknown {inside : Bool} {enc : Encoding} {value : Bytes} {rest : List Tree}
      (hKept : Kept value) (hForeign : Foreign value)
      (hRest : Printable inside enc rest) :
      Printable inside enc (.unknown value :: rest)

/-! ## Strings -/

theorem kept_iff (s : Bytes) : Kept s ↔ ∀ b ∈ s, b ≠ 0 ∧ b ≠ 13 := by
  constructor
  · intro hKept b hb
    exact ⟨fun hEq => hKept.nul (hEq ▸ hb), fun hEq => hKept.cr (hEq ▸ hb)⟩
  · intro hAll
    exact ⟨fun hMem => (hAll 0 hMem).1 rfl, fun hMem => (hAll 13 hMem).2 rfl⟩

instance (s : Bytes) : Decidable (Kept s) :=
  decidable_of_iff (0 ∉ s ∧ 13 ∉ s) ⟨fun hBoth => ⟨hBoth.1, hBoth.2⟩,
    fun hKept => ⟨hKept.nul, hKept.cr⟩⟩

theorem kept_nil : Kept [] := by decide

@[simp] theorem kept_append {s s' : Bytes} : Kept (s ++ s') ↔ Kept s ∧ Kept s' := by
  simp only [kept_iff, List.mem_append]
  exact ⟨fun hAll => ⟨fun b hb => hAll b (Or.inl hb), fun b hb => hAll b (Or.inr hb)⟩,
    fun hBoth b hb => hb.elim (hBoth.1 b) (hBoth.2 b)⟩

@[simp] theorem kept_cons {b : UInt8} {s : Bytes} : Kept (b :: s) ↔
    (b ≠ 0 ∧ b ≠ 13) ∧ Kept s := by
  simp only [kept_iff, List.forall_mem_cons]

theorem kept_flatMap {α : Type} {f : α → Bytes} {l : List α}
    (hAll : ∀ a ∈ l, Kept (f a)) :
    Kept (l.flatMap f) := by
  induction l with
  | nil => exact kept_nil
  | cons a l ih =>
      rw [List.flatMap_cons, kept_append]
      exact ⟨hAll a List.mem_cons_self,
        ih fun a' ha' => hAll a' (List.mem_cons_of_mem a ha')⟩

theorem encodeLoop_cons {b : UInt8} {s : Bytes}
    (hReference : ¬ bytesOf "&#x" <:+: b :: s) :
    encodeLoop false (b :: s) = encodeByte b ++ encodeLoop false s := by
  have hNot : ¬ stringEqual (b :: s) (bytesOf "&#x") = true := fun hHere =>
    hReference (List.isPrefixOf_iff_prefix.1 hHere).isInfix
  rw [encodeLoop, Bool.false_and, Bool.false_and,
    if_neg Bool.false_ne_true, if_neg hNot]

/-- A string whose length fits an `int` is escaped from end to end. -/
theorem encodeString_eq {s : Bytes} (hSize : s.length < 2 ^ 31) :
    encodeString s = encodeLoop false s := by
  have hLength : Int.bmod (s.length : Int) (2 ^ 32) = s.length := by
    rw [Int.bmod_eq_of_le (by omega) (by omega)]
  rw [encodeString, hLength, Int.toNat_natCast, List.take_length]

theorem size_of_append {p q : Bytes} (hSize : (p ++ q).length < 2 ^ 31) :
    q.length < 2 ^ 31 := by
  rw [List.length_append] at hSize
  omega

theorem encodeString_cons {b : UInt8} {s : Bytes}
    (hReference : ¬ bytesOf "&#x" <:+: b :: s) (hSize : (b :: s).length < 2 ^ 31) :
    encodeString (b :: s) = encodeByte b ++ encodeString s := by
  rw [encodeString_eq hSize, encodeString_eq (size_of_append (p := [b]) hSize),
    encodeLoop_cons hReference]

theorem not_infix_of_append {s p q : Bytes} (hNot : ¬ s <:+: p ++ q) : ¬ s <:+: q :=
  fun hInfix => hNot (hInfix.trans (List.suffix_append p q).isInfix)

theorem encodeByte_high {b : UInt8} (hHigh : 0x80 ≤ b) : encodeByte b = [b] := by
  have hAbove : 128 ≤ b.toNat := UInt8.le_iff_toNat_le.1 hHigh
  have hNe : ∀ c : UInt8, c.toNat < 128 → b ≠ c := by
    intro c hc hEq
    rw [hEq] at hAbove
    omega
  have hNot : ¬ b < 32 := fun hLess => by
    have hBelow : b.toNat < 32 := UInt8.lt_iff_toNat_lt.1 hLess
    omega
  rw [encodeByte, if_neg (hNe 38 (by decide)), if_neg (hNe 60 (by decide)),
    if_neg (hNe 62 (by decide)), if_neg (hNe 34 (by decide)),
    if_neg (hNe 39 (by decide)),
    if_neg hNot]

theorem encodeLoop_high {tail s : Bytes} (hHigh : ∀ c ∈ tail, 0x80 ≤ c)
    (hReference : ¬ bytesOf "&#x" <:+: tail ++ s) :
    encodeLoop false (tail ++ s) = tail ++ encodeLoop false s := by
  induction tail with
  | nil => rfl
  | cons b tail ih =>
      rw [List.cons_append] at hReference ⊢
      have hRest : ¬ bytesOf "&#x" <:+: tail ++ s :=
        not_infix_of_append (p := [b]) hReference
      rw [encodeLoop_cons hReference, encodeByte_high (hHigh b List.mem_cons_self),
        ih (fun c hc => hHigh c (List.mem_cons_of_mem b hc)) hRest]
      rfl

theorem upperHex_spec : ∀ n : Nat, n < 16 → hexDigit (upperHex n) = some n
  | 0, _ | 1, _ | 2, _ | 3, _ | 4, _ | 5, _ | 6, _ | 7, _ | 8, _ | 9,
      _ | 10, _ | 11, _ | 12, _
  | 13, _ | 14, _ | 15, _ => by decide
  | _ + 16, hn => absurd hn (by omega)

theorem lettersOf_low {enc : Encoding} {n : Nat} (hn : n < 0x80) :
    lettersOf enc n = [UInt8.ofNat n] := by
  by_cases hUtf8 : enc = .utf8
  · rw [lettersOf, if_pos hUtf8]
    exact if_pos hn
  · rw [lettersOf, if_neg hUtf8]

/-- What an escape is read as. -/
theorem encodeByte_letter {enc : Encoding} {b : UInt8}
    (hSingle : enc = .utf8 → utf8Bytes b = 1) (rest : Bytes) :
    Letter enc (encodeByte b ++ rest) [b] rest := by
  unfold encodeByte
  split
  · rename_i hEq
    rw [hEq]
    exact .named (by decide)
  split
  · rename_i hEq
    rw [hEq]
    exact .named (by decide)
  split
  · rename_i hEq
    rw [hEq]
    exact .named (by decide)
  split
  · rename_i hEq
    rw [hEq]
    exact .named (by decide)
  split
  · rename_i hEq
    rw [hEq]
    exact .named (by decide)
  split
  · rename_i hLow
    have hBelow : b.toNat < 32 := UInt8.lt_iff_toNat_lt.1 hLow
    have hValue : Nat.ofDigits 16 [b.toNat % 16, b.toNat / 16] = b.toNat := by
      rw [Nat.ofDigits_cons, Nat.ofDigits_singleton]
      exact Nat.mod_add_div _ _
    have hDigits : [upperHex (b.toNat / 16), upperHex (b.toNat % 16)].map hexDigit =
        [b.toNat / 16, b.toNat % 16].map some := by
      simp only [List.map_cons, List.map_nil,
        upperHex_spec _ (by omega : b.toNat / 16 < 16),
          upperHex_spec _ (Nat.mod_lt _ (by decide : 16 > 0))]
    have hLetter := @Letter.hex enc _ rest _ hDigits
      (lt_of_eq_of_lt hValue (hBelow.trans (by decide)))
    rw [show [b.toNat / 16, b.toNat % 16].reverse =
      [b.toNat % 16, b.toNat / 16] from rfl, hValue,
        lettersOf_low (hBelow.trans (by decide)), UInt8.ofNat_toNat] at hLetter
    exact hLetter
  · rename_i hAmp _ _ _ _ _
    exact .plain hSingle hAmp

/-- An escape begins with an ampersand, or is a byte that needs none. -/
theorem encodeByte_head (b : UInt8) :
    (∃ tail, encodeByte b = 38 :: tail) ∨
      encodeByte b = [b] ∧ ¬ b < 32 ∧ b ≠ 38 ∧ b ≠ 60 ∧ b ≠ 62 ∧ b ≠ 34 ∧ b ≠ 39 := by
  unfold encodeByte
  split
  · exact Or.inl ⟨_, rfl⟩
  split
  · exact Or.inl ⟨_, rfl⟩
  split
  · exact Or.inl ⟨_, rfl⟩
  split
  · exact Or.inl ⟨_, rfl⟩
  split
  · exact Or.inl ⟨_, rfl⟩
  split
  · exact Or.inl ⟨_, rfl⟩
  · exact Or.inr ⟨rfl, by assumption, by assumption, by assumption,
      by assumption, by assumption, by assumption⟩

theorem upperHex_ne {n : Nat} (hn : n < 16) {b : UInt8} (hb : hexDigit b = none) :
    b ≠ upperHex n := by
  rintro rfl
  rw [upperHex_spec n hn] at hb
  cases hb

theorem encodeByte_kept (b : UInt8) : Kept (encodeByte b) := by
  unfold encodeByte
  split
  · decide
  split
  · decide
  split
  · decide
  split
  · decide
  split
  · decide
  split
  · rename_i hLow
    have hHigh : b.toNat / 16 < 16 := by
      have hBelow : b.toNat < 32 := UInt8.lt_iff_toNat_lt.1 hLow
      omega
    have hLast : b.toNat % 16 < 16 := Nat.mod_lt _ (by decide)
    refine kept_append.2 ⟨by decide, kept_cons.2 ⟨?_, kept_cons.2 ⟨?_, by decide⟩⟩⟩
    · exact ⟨(upperHex_ne hHigh rfl).symm, (upperHex_ne hHigh rfl).symm⟩
    · exact ⟨(upperHex_ne hLast rfl).symm, (upperHex_ne hLast rfl).symm⟩
  · rename_i hHigh
    refine kept_cons.2 ⟨⟨?_, ?_⟩, kept_nil⟩
    · rintro rfl
      exact hHigh (by decide)
    · rintro rfl
      exact hHigh (by decide)

theorem utf8Bytes_high {b : UInt8} (hWide : utf8Bytes b ≠ 1) : 0xc2 ≤ b := by
  by_contra hLow
  refine hWide ?_
  rw [utf8Bytes, if_pos (UInt8.not_le.1 hLow)]

/-- The bytes of a character of more than one byte. -/
theorem wide_high {b : UInt8} {tail : Bytes} (hLength : utf8Bytes b = tail.length + 1)
    (hTail : tail ≠ []) (hHigh : ∀ c ∈ tail, 0x80 ≤ c) :
    0xc2 ≤ b ∧ ∀ c ∈ b :: tail, 0x80 ≤ c := by
  have hPos := List.length_pos_iff.2 hTail
  have hLead : 0xc2 ≤ b := utf8Bytes_high (by omega)
  refine ⟨hLead, fun c hc => ?_⟩
  rcases List.mem_cons.1 hc with rfl | hMem
  · exact UInt8.le_trans (by decide) hLead
  · exact hHigh c hMem

theorem encodeString_high {tail s : Bytes} (hHigh : ∀ c ∈ tail, 0x80 ≤ c)
    (hReference : ¬ bytesOf "&#x" <:+: tail ++ s)
    (hSize : (tail ++ s).length < 2 ^ 31) :
    encodeString (tail ++ s) = tail ++ encodeString s := by
  rw [encodeString_eq hSize, encodeString_eq (size_of_append hSize),
    encodeLoop_high hHigh hReference]

section Strings

variable {enc : Encoding} {s : Bytes}

/-- The first character of a string, how it is printed, and what follows it. -/
structure First (enc : Encoding) (s c e rest : Bytes) : Prop where
  split : s = c ++ rest
  encode : encodeString s = e ++ encodeString rest
  letter : ∀ q, Letter enc (e ++ q) c q
  kept : Kept e
  rest : Encodable enc rest
  head : (∃ tail, e = 38 :: tail) ∨
    e = c ∧ ∃ b tail, c = b :: tail ∧ 32 ≤ b ∧ b ≠ 60 ∧ b ≠ 34 ∧ b ≠ 39

theorem Encodable.first {b : UInt8} (hEncodable : Encodable enc (b :: s)) :
    ∃ c e rest, First enc (b :: s) c e rest ∧ ∃ tail, c = b :: tail := by
  obtain ⟨hCharacters, hReference, hSize⟩ := hEncodable
  cases hCharacters with
  | plain hSingle hRest =>
      have hTail : Encodable enc s :=
        ⟨hRest, not_infix_of_append (p := [b]) hReference,
          size_of_append (p := [b]) hSize⟩
      refine ⟨[b], encodeByte b, s, ⟨rfl, encodeString_cons hReference hSize,
        encodeByte_letter hSingle, encodeByte_kept b, hTail, ?_⟩, [], rfl⟩
      rcases encodeByte_head b with hAmp | ⟨hSame, hLow, -, hOpen, -, hDouble, hQuote⟩
      · exact Or.inl hAmp
      · exact Or.inr ⟨hSame, b, [], rfl, UInt8.not_lt.1 hLow, hOpen, hDouble, hQuote⟩
  | @wide _ tail s hUtf8 hLength hTail hHigh hRest =>
      obtain ⟨hLead, hAll⟩ := wide_high hLength hTail hHigh
      have hNe : ∀ c : UInt8, c < 0xc2 → b ≠ c := by
        rintro c hc rfl
        exact UInt8.not_lt.2 hLead hc
      rw [← List.cons_append] at hReference hSize
      have hEncode := encodeString_high hAll hReference hSize
      rw [← List.cons_append]
      have hKept : Kept (b :: tail) :=
        ⟨fun hMem => absurd (hAll 0 hMem) (by decide),
          fun hMem => absurd (hAll 13 hMem) (by decide)⟩
      refine ⟨b :: tail, b :: tail, s,
        ⟨rfl, hEncode, fun q => .wide hUtf8 hLength hTail, hKept,
          ⟨hRest, not_infix_of_append (p := b :: tail) hReference,
          size_of_append (p := b :: tail) hSize⟩, ?_⟩, tail, rfl⟩
      exact Or.inr ⟨rfl, b, tail, rfl,
        UInt8.le_trans (by decide) hLead, hNe 60 (by decide),
          hNe 34 (by decide), hNe 39 (by decide)⟩

theorem First.head_ne {c e rest : Bytes} (hFirst : First enc s c e rest) {b : UInt8}
    (hb : b = 60 ∨ b = 34 ∨ b = 39) (q : Bytes) : (e ++ q).head? ≠ some b := by
  rcases hFirst.head with ⟨tail, rfl⟩ | ⟨rfl, b', tail, rfl, -, hOpen, hDouble, hQuote⟩
  · intro hHead
    cases Option.some.inj hHead
    revert hb
    decide
  · intro hHead
    cases Option.some.inj hHead
    rcases hb with rfl | rfl | rfl
    · exact hOpen rfl
    · exact hDouble rfl
    · exact hQuote rfl

theorem First.length_lt {c e rest : Bytes}
    (hFirst : First enc s c e rest) (hs : c ≠ []) :
    rest.length < s.length := by
  have hPos := List.length_pos_iff.2 hs
  rw [hFirst.split, List.length_append]
  omega

theorem Encodable.kept (hEncodable : Encodable enc s) : Kept (encodeString s) := by
  induction hLength : s.length using Nat.strong_induction_on generalizing s with
  | _ n ih =>
      cases s with
      | nil => exact kept_nil
      | cons b s =>
          obtain ⟨c, e, s', hFirst, tail, hc⟩ := hEncodable.first
          have hLess := hFirst.length_lt (hc ▸ List.cons_ne_nil b tail)
          rw [hFirst.encode]
          exact kept_append.2 ⟨hFirst.kept,
            ih s'.length (hLength ▸ hLess) hFirst.rest rfl⟩

/-- A value between quotes. -/
theorem Encodable.quoted (hEncodable : Encodable enc s) {quote : UInt8}
    (hQuote : quote = 39 ∨ quote = 34) (rest : Bytes) :
    Quoted enc quote (encodeString s ++ quote :: rest) s rest := by
  induction hLength : s.length using Nat.strong_induction_on generalizing s with
  | _ n ih =>
      cases s with
      | nil => exact .done
      | cons b s =>
          obtain ⟨c, e, s', hFirst, tail, hc⟩ := hEncodable.first
          have hLess := hFirst.length_lt (hc ▸ List.cons_ne_nil b tail)
          have hRest := ih s'.length (hLength ▸ hLess) hFirst.rest rfl
          rw [hFirst.encode, hFirst.split, List.append_assoc]
          exact .letter (hFirst.head_ne (Or.inr hQuote.symm) _) (hFirst.letter _) hRest

omit s in
theorem words_blank {w : Bytes} (hBlank : Blank w) (white : Bool) (rest : Bytes) :
    Words enc white (w ++ 60 :: rest) [] (60 :: rest) := by
  induction w generalizing white with
  | nil => exact .done
  | cons b w ih =>
      exact .space (hBlank b List.mem_cons_self)
        (ih (fun c hc => hBlank c (List.mem_cons_of_mem b hc)) true)

/-- A character that is not a blank is printed with no white space in front. -/
theorem First.solid {c e rest : Bytes} (hFirst : First enc s c e rest)
    (hc : c.head? ≠ some 32) (q : Bytes) : (e ++ q).head?.any isSpace = false := by
  rcases hFirst.head with ⟨tail, rfl⟩ | ⟨rfl, b, tail, rfl, hLow, -⟩
  · rfl
  · have hAbove : 32 ≤ b.toNat := UInt8.le_iff_toNat_le.1 hLow
    have hNe : b ≠ 32 := fun hEq => hc (congrArg some hEq)
    have hOver : ¬ b ≤ 13 := fun hLe => by
      have hUpper : b.toNat ≤ 13 := UInt8.le_iff_toNat_le.1 hLe
      omega
    show isSpace b = false
    rw [isSpace, beq_eq_false_iff_ne.2 hNe, decide_eq_false hOver,
      Bool.and_false, Bool.or_false]

theorem Encodable.solid (hEncodable : Encodable enc s) (hs : s ≠ [])
    (hHead : s.head? ≠ some 32) (q : Bytes) :
    (encodeString s ++ q).head?.any isSpace = false := by
  obtain ⟨b, s, rfl⟩ := List.exists_cons_of_ne_nil hs
  obtain ⟨c, e, rest, hFirst, tail, rfl⟩ := hEncodable.first
  rw [hFirst.encode, List.append_assoc]
  exact hFirst.solid hHead _

theorem Encodable.blank (hEncodable : Encodable enc (32 :: s)) :
    Encodable enc s ∧ encodeString (32 :: s) = 32 :: encodeString s := by
  obtain ⟨hCharacters, hReference, hSize⟩ := hEncodable
  have hByte : encodeByte 32 = [32] := by decide
  have hEncode := encodeString_cons hReference hSize
  rw [hByte, List.singleton_append] at hEncode
  refine ⟨⟨?_, not_infix_of_append (p := [32]) hReference,
    size_of_append (p := [32]) hSize⟩, hEncode⟩
  cases hCharacters with
  | plain hSingle hRest => exact hRest
  | wide hUtf8 hLength hTail hHigh hRest =>
      exact absurd (List.length_eq_zero_iff.1 (Nat.succ.inj hLength).symm) hTail

/-- A text in front of a tag, with white space behind it.  A blank is not read
but remembered, which is what `white` stands for. -/
theorem Encodable.words (hEncodable : Encodable enc s) (hDouble : ¬ [32, 32] <:+: s)
    (hLast : s.getLast? ≠ some 32) {white : Bool}
    (hWhite : white = true → s ≠ [] ∧ s.head? ≠ some 32) {w : Bytes} (hBlank : Blank w)
    (rest : Bytes) :
    Words enc white (encodeString s ++ (w ++ 60 :: rest))
      ((if white then [32] else []) ++ s)
      (60 :: rest) := by
  induction hLength : s.length using Nat.strong_induction_on generalizing s white with
  | _ n ih =>
      cases s with
      | nil =>
          cases white with
          | true => exact absurd rfl (hWhite rfl).1
          | false => exact words_blank hBlank false rest
      | cons b s =>
          by_cases hb : b = 32
          · subst hb
            obtain ⟨hTail, hEncode⟩ := hEncodable.blank
            have hSome : s ≠ [] := by
              rintro rfl
              exact hLast rfl
            have hSolid : s.head? ≠ some 32 := by
              intro hHead
              obtain ⟨s, rfl⟩ := List.head?_eq_some_iff.1 hHead
              exact hDouble (List.prefix_append [32, 32] s).isInfix
            have hEnd : s.getLast? ≠ some 32 := by
              rwa [List.getLast?_cons_of_ne_nil hSome] at hLast
            have hNext : true = true → s ≠ [] ∧ s.head? ≠ some 32 :=
              fun _ => ⟨hSome, hSolid⟩
            have hRest := ih s.length (hLength ▸ Nat.lt_succ_self _) hTail
              (not_infix_of_append (p := [32]) hDouble) hEnd hNext rfl
            cases white with
            | true => exact absurd rfl (hWhite rfl).2
            | false =>
                rw [hEncode, List.cons_append]
                exact .space rfl hRest
          · obtain ⟨c, e, s', hFirst, tail, hc⟩ := hEncodable.first
            have hLess := hFirst.length_lt (hc ▸ List.cons_ne_nil b tail)
            have hSplit := hFirst.split
            have hEnd : s'.getLast? ≠ some 32 := by
              intro hEnd
              refine hLast ?_
              rw [hSplit, List.getLast?_append, hEnd]
              rfl
            have hNot : false = true → s' ≠ [] ∧ s'.head? ≠ some 32 := fun hTrue =>
              absurd hTrue Bool.false_ne_true
            have hRest := ih s'.length (hLength ▸ hLess) hFirst.rest
              (not_infix_of_append (hSplit ▸ hDouble)) hEnd hNot rfl
            have hHead : c.head? ≠ some 32 := by
              rw [hc]
              exact fun hHead => hb (Option.some.inj hHead)
            rw [hFirst.encode, hSplit, List.append_assoc, ← List.append_assoc _ c s']
            exact .letter (hFirst.head_ne (Or.inl rfl) _)
              (hFirst.solid hHead _) (hFirst.letter _)
              hRest

omit enc s in
theorem isMark_three (a b c : UInt8) (p q : Bytes) :
    isMark (a :: b :: c :: p) = isMark (a :: b :: c :: q) := by
  unfold isMark
  split
  · rename_i hEq
    cases hEq
    rfl
  · rename_i hEq
    cases hEq
    rfl
  · rename_i hEq
    cases hEq
    rfl
  · rename_i hFirst hSecond hThird
    split
    · rename_i hEq
      cases hEq
      exact absurd rfl (hFirst p)
    · rename_i hEq
      cases hEq
      exact absurd rfl (hSecond p)
    · rename_i hEq
      cases hEq
      exact absurd rfl (hThird p)
    · rfl

/-- Printing puts no mark in front. -/
theorem Encodable.unmarked (hEncodable : Encodable enc s)
    (hMark : Unmarked enc s) (hs : s ≠ []) (p : Bytes) :
    Unmarked enc (encodeString s ++ p) := by
  rw [encodeString_eq hEncodable.size]
  intro hUtf8
  have hReference := hEncodable.reference
  cases hEncodable.characters with
  | nil => exact absurd rfl hs
  | @plain b s hSingle hRest =>
      have hb : b ≠ 0xef := by
        rintro rfl
        exact absurd (hSingle hUtf8) (by decide)
      rw [encodeLoop_cons hReference]
      rcases encodeByte_head b with ⟨tail, hEq⟩ | ⟨hEq, -⟩
      · rw [hEq]
        exact isMark_of_ne (by decide) _
      · rw [hEq]
        exact isMark_of_ne hb _
  | @wide b tail s _ hLength hTail hHigh hRest =>
      have hEncode :
          encodeLoop false (b :: (tail ++ s)) = b :: tail ++ encodeLoop false s :=
        encodeLoop_high (wide_high hLength hTail hHigh).2 hReference
      rw [hEncode]
      by_cases hb : b = 0xef
      · -- all three bytes of a mark are in the string
        subst hb
        match tail, hLength with
        | [c, c'], _ => exact (isMark_three _ _ _ _ _).trans (hMark hUtf8)
      · exact isMark_of_ne hb _

theorem IsName.encodeLoop_eq (hName : IsName s) : encodeLoop false s = s := by
  have hAll := hName.all
  clear hName
  induction s with
  | nil => rfl
  | cons b s ih =>
      have hByte := hAll b List.mem_cons_self
      have hNe : ∀ c, isNameByte c = false → b ≠ c := by
        rintro c hc rfl
        rw [hByte] at hc
        cases hc
      have hHigh : ¬ b < 32 := by
        intro hLow
        have hBelow : b.toNat < 32 := UInt8.lt_iff_toNat_lt.1 hLow
        rw [isNameByte_of_low (Nat.le_of_lt hBelow)] at hByte
        cases hByte
      have hPlain : ¬ stringEqual (b :: s) (bytesOf "&#x") = true := by
        rw [show bytesOf "&#x" = 38 :: bytesOf "#x" from rfl,
          stringEqual_of_ne (hNe 38 rfl)]
        exact Bool.false_ne_true
      rw [encodeLoop, Bool.false_and, Bool.false_and,
        if_neg Bool.false_ne_true, if_neg hPlain, encodeByte, if_neg (hNe 38 rfl),
        if_neg (hNe 60 rfl), if_neg (hNe 62 rfl),
        if_neg (hNe 34 rfl), if_neg (hNe 39 rfl), if_neg hHigh,
        ih fun c hc => hAll c (List.mem_cons_of_mem b hc)]
      rfl

theorem NameIn.encodeString_eq (hName : NameIn enc s) : encodeString s = s := by
  rw [TinyXmlParser.encodeString_eq hName.size, hName.name.encodeLoop_eq]

theorem NameIn.encodable (hName : NameIn enc s) : Encodable enc s :=
  ⟨hName.characters, fun hInfix => absurd
    (hName.name.all 38 (hInfix.subset List.mem_cons_self)) (by decide), hName.size⟩

theorem NameIn.unmarked_append (hName : NameIn enc s) (p : Bytes) :
    Unmarked enc (s ++ p) := by
  have hSome : s ≠ [] := by
    obtain ⟨b, tail, hEq, -⟩ := hName.name.first
    exact hEq ▸ List.cons_ne_nil b tail
  have hUnmarked := hName.encodable.unmarked hName.unmarked hSome p
  rwa [hName.encodeString_eq] at hUnmarked

end Strings

/-! ## Nodes -/

section Nodes

variable {enc : Encoding}

theorem Kept.cstr_eq {s : Bytes} (hKept : Kept s) : cstr s = s :=
  (cstr_eq_self_iff s).2 hKept.nul

theorem blank_replicate (n : Nat) : Blank (List.replicate n 32) := by
  intro b hb
  rw [(List.mem_replicate.1 hb).2]
  rfl

theorem blank_blank : Blank [32] := blank_replicate 1

theorem Blank.append {w w' : Bytes} (hBlank : Blank w) (hBlank' : Blank w') :
    Blank (w ++ w') :=
  fun b hb => (List.mem_append.1 hb).elim (hBlank b) (hBlank' b)

/-- White space in front of a content is part of it. -/
theorem Content.blank {inside : Bool} {p e w : Bytes}
    {nodes : List Node} (hBlank : Blank w) (hContent : Content inside enc p nodes e) :
    Content inside enc (w ++ p) nodes e := by
  cases hContent with
  | done hBlank' =>
      rw [← List.append_assoc]
      exact .done (hBlank.append hBlank')
  | text hBlank' hMark hSolid hWords hSome hRest =>
      rw [← List.append_assoc]
      exact .text (hBlank.append hBlank') hMark hSolid hWords hSome hRest
  | declaration hBlank' hDeclaring hRest =>
      rw [← List.append_assoc]
      exact .declaration (hBlank.append hBlank') hDeclaring hRest
  | comment hBlank' hEnd hRest =>
      rw [← List.append_assoc]
      exact .comment (hBlank.append hBlank') hEnd hRest
  | cdata hBlank' hEnd hSome hRest =>
      rw [← List.append_assoc]
      exact .cdata (hBlank.append hBlank') hEnd hSome hRest
  | unknown hBlank' hForeign hRest =>
      rw [← List.append_assoc]
      exact .unknown (hBlank.append hBlank') hForeign hRest
  | empty hBlank' hName hMark hAttributes hDistinct hRest =>
      rw [← List.append_assoc]
      exact .empty (hBlank.append hBlank') hName hMark hAttributes hDistinct hRest
  | element hBlank' hName hMark hAttributes hDistinct hContent hClose hRest =>
      rw [← List.append_assoc]
      exact .element (hBlank.append hBlank') hName hMark hAttributes
        hDistinct hContent hClose hRest

theorem Declarable.quoted {s : Bytes} (hDeclarable : Declarable enc s) (rest : Bytes) :
    Quoted enc 34 (s ++ 34 :: rest) s rest := by
  obtain ⟨-, hCharacters, hQuote, hAmp⟩ := hDeclarable
  induction hCharacters with
  | nil => exact .done
  | @plain b s hSingle hRest ih =>
      have hNext := ih (fun hMem => hQuote (List.mem_cons_of_mem b hMem))
        (fun hMem => hAmp (List.mem_cons_of_mem b hMem))
      refine .letter (fun hHead => hQuote ?_) (.plain hSingle fun hEq => hAmp ?_) hNext
      · exact Option.some.inj hHead ▸ List.mem_cons_self
      · exact hEq ▸ List.mem_cons_self
  | @wide b tail s hUtf8 hLength hTail hHigh hRest ih =>
      have hNext := ih
        (fun hMem => hQuote (List.mem_cons_of_mem b (List.mem_append_right tail hMem)))
        (fun hMem => hAmp (List.mem_cons_of_mem b (List.mem_append_right tail hMem)))
      have hLetter :
          Letter enc (b :: (tail ++ (s ++ 34 :: rest))) (b :: tail) (s ++ 34 :: rest) :=
        .wide hUtf8 hLength hTail
      rw [List.cons_append, List.append_assoc]
      refine .letter (fun hHead => hQuote ?_) hLetter hNext
      exact Option.some.inj hHead ▸ List.mem_cons_self

/-- A string of a declaration, in front of the rest of it. -/
theorem declarationField_assigned (key : String) {value : Bytes}
    (hValue : Declarable enc value) (hSome : value ≠ []) (p : Bytes) :
    Assigned enc (bytesOf key) (declarationField key value ++ p) value (32 :: p) := by
  have hField : declarationField key value ++ p =
      bytesOf key ++ ([] ++ 61 :: ([] ++ 34 :: (value ++ 34 :: (32 :: p)))) := by
    rw [declarationField, if_neg (fun hEmpty => hSome (List.isEmpty_iff.1 hEmpty)),
      hValue.kept.cstr_eq]
    simp
  rw [hField]
  exact .mk blank_nil blank_nil (Or.inr rfl) (hValue.quoted (32 :: p))

theorem declarationPrint_declaring {version encoding standalone : Bytes}
    (hVersion : Declarable enc version) (hEncoding : Declarable enc encoding)
    (hStandalone : Declarable enc standalone) (rest : Bytes) :
    ∃ p, declarationPrint version encoding standalone ++ rest = bytesOf "<?xml" ++ p ∧
      Declaring enc p [] encoding rest := by
  have hBlank := blank_blank
  have hEnd : ∀ e, Declaring enc ([32] ++ 63 :: 62 :: rest) e e rest :=
    fun e => .done hBlank
  have hThird : ∀ e, Declaring enc ([32] ++ (declarationField "standalone" standalone ++
      63 :: 62 :: rest)) e e rest := by
    intro e
    by_cases hSome : standalone = []
    · rw [hSome]
      exact hEnd e
    · exact .other hBlank (Or.inr rfl)
        (declarationField_assigned _ hStandalone hSome _) (hEnd e)
  have hSecond : Declaring enc ([32] ++ (declarationField "encoding" encoding ++
      (declarationField "standalone" standalone ++ 63 :: 62 :: rest)))
        [] encoding rest := by
    by_cases hSome : encoding = []
    · rw [hSome]
      exact hThird []
    · exact .encoding hBlank (declarationField_assigned _ hEncoding hSome _)
        (hThird encoding)
  have hFirst : Declaring enc ([32] ++ (declarationField "version" version ++
      (declarationField "encoding" encoding ++
        (declarationField "standalone" standalone ++
        63 :: 62 :: rest)))) [] encoding rest := by
    by_cases hSome : version = []
    · rw [hSome]
      exact hSecond
    · exact .other hBlank (Or.inl rfl)
        (declarationField_assigned _ hVersion hSome _) hSecond
  refine ⟨_, ?_, hFirst⟩
  simp only [declarationPrint, List.append_assoc]
  rfl

theorem attributePrint_eq {a : Bytes × Bytes} (hName : NameIn enc a.1)
    (hValue : Encodable enc a.2) (q : Bytes) :
    ∃ quote : UInt8, (quote = 39 ∨ quote = 34) ∧ attributePrint a ++ q =
      a.1 ++ ([] ++ 61 :: ([] ++ quote :: (encodeString a.2 ++ quote :: q))) := by
  obtain ⟨quote, hQuote, hPrint⟩ : ∃ quote : UInt8, (quote = 39 ∨ quote = 34) ∧
      attributePrint a =
        cstr (encodeString a.1) ++
        61 :: quote :: (cstr (encodeString a.2) ++ [quote]) := by
    refine ⟨_, ?_, rfl⟩
    split
    · exact Or.inl rfl
    · exact Or.inr rfl
  refine ⟨quote, hQuote, ?_⟩
  rw [hPrint, hName.encodeString_eq, hName.name.cstr_eq, hValue.kept.cstr_eq,
    List.append_assoc, List.cons_append, List.cons_append,
    List.append_assoc, List.nil_append,
    List.nil_append, List.singleton_append]

/-- The attributes of an element, in front of white space and the end of its tag. -/
theorem attributes_printed {attributes : List (Bytes × Bytes)}
    (hAttributes : ∀ a ∈ attributes, NameIn enc a.1 ∧ Encodable enc a.2) {w : Bytes}
    (hBlank : Blank w) (rest : Bytes) :
    Attributes enc (attributes.flatMap (fun a => 32 :: attributePrint a) ++
      (w ++ rest)) attributes
      rest := by
  induction attributes with
  | nil => exact .done hBlank
  | cons a attributes ih =>
      obtain ⟨hName, hValue⟩ := hAttributes a List.mem_cons_self
      have hRest := ih fun a' ha' => hAttributes a' (List.mem_cons_of_mem a ha')
      generalize hPrinted : attributes.flatMap (fun a => 32 :: attributePrint a) ++
        (w ++ rest) = q
        at hRest
      obtain ⟨quote, hQuote, hPrint⟩ := attributePrint_eq hName hValue q
      have hMark : Unmarked enc (attributePrint a ++ q) := by
        rw [hPrint]
        exact hName.unmarked_append _
      have hAssigned : Assigned enc a.1 (attributePrint a ++ q) a.2 q := by
        rw [hPrint]
        exact .mk blank_nil blank_nil hQuote (hValue.quoted hQuote q)
      have hFront : 32 :: attributePrint a ++ q = [32] ++ (attributePrint a ++ q) := by
        rw [List.cons_append, List.singleton_append]
      rw [List.flatMap_cons, List.append_assoc, hPrinted, hFront]
      exact .pair (w := [32]) blank_blank (by decide) hName.name hMark hAssigned hRest

theorem printChildren_eq (depth : Nat) (trees : List Tree) :
    printChildren depth trees =
      trees.flatMap fun t => (if t.isText then [] else [10]) ++
      (t.print depth ++ []) := by
  induction trees with
  | nil => rfl
  | cons t trees ih =>
      rw [printChildren, ih, List.flatMap_cons, List.append_nil, List.append_assoc]

/-- A text that is laid out as white space and a content behind it. -/
def Laid (inside : Bool) (enc : Encoding) (text : Bytes)
    (nodes : List Node) (e : Bytes) : Prop :=
  ∃ w p, text = w ++ 60 :: p ∧ Blank w ∧ Content inside enc (60 :: p) nodes e

theorem Laid.content {inside : Bool} {text e : Bytes} {nodes : List Node}
    (hLaid : Laid inside enc text nodes e) : Content inside enc text nodes e := by
  obtain ⟨w, p, rfl, hBlank, hContent⟩ := hLaid
  exact hContent.blank hBlank

/-- An element around a content. -/
theorem element_laid {inside : Bool} {name q e : Bytes}
    {attributes : List (Bytes × Bytes)} {children : List Tree} {nodes : List Node}
    (depth : Nat) (hName : NameIn enc name)
    (hAttributes : ∀ a ∈ attributes, NameIn enc a.1 ∧ Encodable enc a.2)
    (hDistinct : (attributes.map Prod.fst).Nodup)
    (hChildren : ∀ w rest, Blank w → Content true enc
      (printChildren (depth + 1) children ++ (w ++ 60 :: rest))
        (nodesOf children) (60 :: rest))
    (hRest : Content inside enc q nodes e) :
    Laid inside enc ((Tree.element name attributes children).print depth ++ q)
      (.element name attributes (nodesOf children) :: nodes) e := by
  have hMark := hName.unmarked_append
  cases children with
  | nil =>
      refine ⟨indent depth,
        name ++ (attributes.flatMap (fun a => 32 :: attributePrint a) ++
        ([32] ++ 47 :: 62 :: q)), ?_, blank_replicate _, ?_⟩
      · simp only [Tree.print, hName.name.cstr_eq, List.append_assoc, List.cons_append]
        rfl
      · exact .empty (w := []) blank_nil hName.name (hMark _)
          (attributes_printed hAttributes blank_blank _) hDistinct hRest
  | cons child siblings =>
      generalize hClose : (if child.isText && siblings.isEmpty then
        [] else 10 :: indent depth) = w
      have hBlank : Blank w := by
        rw [← hClose]
        split
        · exact blank_nil
        · exact Blank.append (w := [10]) (by decide) (blank_replicate _)
      refine ⟨indent depth,
        name ++ (attributes.flatMap (fun a => 32 :: attributePrint a) ++
        ([] ++ 62 :: (printChildren (depth + 1) (child :: siblings) ++
          (w ++ 60 :: 47 :: (name ++ ([] ++ 62 :: q)))))), ?_, blank_replicate _, ?_⟩
      · simp only [Tree.print, hName.name.cstr_eq, hClose,
          List.append_assoc, List.cons_append, List.nil_append]
      · exact .element (w := []) blank_nil hName.name (hMark _)
          (attributes_printed hAttributes blank_nil _) hDistinct
            (hChildren w _ hBlank) blank_nil
          hRest

theorem comment_laid {inside : Bool} {value q e : Bytes}
    {nodes : List Node} (depth : Nat) (hKept : Kept value)
    (hEnd : ¬ bytesOf "-->" <:+: value ++ bytesOf "--")
    (hRest : Content inside enc q nodes e) :
    Laid inside enc ((Tree.comment value).print depth ++ q)
      (.comment value :: nodes) e := by
  refine ⟨indent depth, bytesOf "!--" ++ (value ++ (bytesOf "-->" ++ q)),
    ?_, blank_replicate _, ?_⟩
  · rw [Tree.print, hKept.cstr_eq]
    simp only [List.append_assoc]
    rfl
  · exact .comment (w := []) blank_nil hEnd hRest

theorem cdata_laid {inside : Bool} {value q e : Bytes} {nodes : List Node} (depth : Nat)
    (hKept : Kept value) (hEnd : ¬ bytesOf "]]>" <:+: value ++ bytesOf "]]")
    (hRest : Content inside enc q nodes e) :
    Laid inside enc ((Tree.text true value).print depth ++ q)
      (.text value :: nodes) e := by
  have hLine : Blank [10] := by decide
  refine ⟨10 :: indent depth,
    bytesOf "![CDATA[" ++ (value ++ (bytesOf "]]>" ++ ([10] ++ q))), ?_,
      hLine.append (blank_replicate _), ?_⟩
  · rw [Tree.print, textPrint, if_pos rfl, hKept.cstr_eq]
    simp only [List.append_assoc]
    rfl
  · exact .cdata (w := []) blank_nil hEnd (List.cons_ne_nil 10 q) (hRest.blank hLine)

theorem unknown_laid {inside : Bool} {value q e : Bytes}
    {nodes : List Node} (depth : Nat) (hKept : Kept value) (hForeign : Foreign value)
    (hRest : Content inside enc q nodes e) :
    Laid inside enc ((Tree.unknown value).print depth ++ q)
      (.unknown value :: nodes) e := by
  refine ⟨indent depth, value ++ 62 :: q, ?_, blank_replicate _, ?_⟩
  · rw [Tree.print, hKept.cstr_eq]
    simp only [List.append_assoc, List.cons_append, List.nil_append]
  · exact .unknown (w := []) blank_nil hForeign hRest

theorem declaration_laid {inside : Bool} {version encoding standalone q e : Bytes}
    {nodes : List Node} (depth : Nat) (hVersion : Declarable enc version)
    (hEncoding : Declarable enc encoding) (hStandalone : Declarable enc standalone)
    (hRest : Content inside (behindDeclaration inside enc encoding) q nodes e) :
    Laid inside enc ((Tree.declaration version encoding standalone).print depth ++ q)
      (.declaration :: nodes) e := by
  obtain ⟨p, hPrint, hDeclaring⟩ :=
    declarationPrint_declaring hVersion hEncoding hStandalone q
  refine ⟨[], bytesOf "?xml" ++ p, ?_, blank_nil, ?_⟩
  · rw [Tree.print, hPrint]
    rfl
  · exact .declaration (w := []) blank_nil hDeclaring hRest

section Layout

variable {before after : Tree → Bytes} (hBefore : ∀ t, Blank (before t))
  (hAfter : ∀ t, Blank (after t)) {inside : Bool} (depth : Nat) {w e : Bytes}

/-- Trees with white space around each of them. -/
def layout (before after : Tree → Bytes) (depth : Nat) (trees : List Tree) : Bytes :=
  trees.flatMap fun t => before t ++ (t.print depth ++ after t)

include hBefore hAfter

theorem laid_cons {enc' : Encoding} {t : Tree} {rest : List Tree}
    (hItem : ∀ q nodes, Content inside enc' q nodes e →
      Laid inside enc (t.print depth ++ q) (t.node :: nodes) e)
    (hRest : Content inside enc' (layout before after depth rest ++ (w ++ e))
    (nodesOf rest) e) :
    Laid inside enc (layout before after depth (t :: rest) ++ (w ++ e))
      (nodesOf (t :: rest)) e := by
  obtain ⟨w', p, hText, hBlank, hContent⟩ := hItem _ _ (hRest.blank (hAfter t))
  refine ⟨before t ++ w', p, ?_, (hBefore t).append hBlank, hContent⟩
  rw [List.append_assoc, ← hText, layout, List.flatMap_cons]
  simp only [List.append_assoc]
  rfl

/-- **A printed list of trees**, in an element or in a document, with white space
behind it. -/
theorem Printable.laid {trees : List Tree} (hPrintable : Printable inside enc trees)
    (hBlank : Blank w) (hEnd : inside = true → ∃ q, e = 60 :: q) :
    Content inside enc (layout before after depth trees ++ (w ++ e)) (nodesOf trees) e ∧
      (inside = true → trees.head?.any Tree.plainText = false →
        Laid inside enc (layout before after depth trees ++ (w ++ e))
          (nodesOf trees) e) := by
  induction hPrintable generalizing before after depth w e with
  | nil =>
      refine ⟨.done hBlank, fun hInside _ => ?_⟩
      obtain ⟨q, rfl⟩ := hEnd hInside
      exact ⟨w, q, rfl, hBlank, .done (w := []) blank_nil⟩
  | @element _ enc _ _ children _ hName hAttributes hDistinct
      hChildren hRest ihChildren ih =>
      have hInner : ∀ w rest, Blank w → Content true enc
          (printChildren (depth + 1) children ++ (w ++ 60 :: rest)) (nodesOf children)
            (60 :: rest) := by
        intro w rest hBlank
        rw [printChildren_eq]
        refine (ihChildren (fun t => ?_) (fun _ => blank_nil) _ hBlank
          fun _ => ⟨rest, rfl⟩).1
        split
        · exact blank_nil
        · decide
      have hLaid := laid_cons hBefore hAfter depth
        (fun q nodes hContent => element_laid depth hName hAttributes
          hDistinct hInner hContent)
        (ih hBefore hAfter depth hBlank hEnd).1
      exact ⟨hLaid.content, fun _ _ => hLaid⟩
  | comment hKept hClose hRest ih =>
      have hLaid := laid_cons hBefore hAfter depth
        (fun q nodes hContent => comment_laid depth hKept hClose hContent)
        (ih hBefore hAfter depth hBlank hEnd).1
      exact ⟨hLaid.content, fun _ _ => hLaid⟩
  | @text enc value rest hEncodable hSpaced hNext hRest ih =>
      refine ⟨?_, fun _ hPlain => by cases hPlain⟩
      obtain ⟨w', p, hText, hBlank', hContent⟩ :=
        (ih hBefore hAfter depth hBlank hEnd).2 rfl hNext
      have hSome : value ≠ [] := by
        rintro rfl
        cases hSpaced.solid
      have hNone : false = true → value ≠ [] ∧ value.head? ≠ some 32 := fun hTrue =>
        absurd hTrue Bool.false_ne_true
      have hWords := hEncodable.words hSpaced.double hSpaced.last hNone
        ((hAfter (.text false value)).append hBlank') p
      have hPrint : layout before after depth (.text false value :: rest) ++ (w ++ e) =
          before (.text false value) ++ (encodeString value ++
            ((after (.text false value) ++ w') ++ 60 :: p)) := by
        rw [List.append_assoc (after _), ← hText, layout,
          List.flatMap_cons, Tree.print, textPrint, if_neg Bool.false_ne_true,
            hEncodable.kept.cstr_eq]
        simp only [List.append_assoc]
        rfl
      rw [hPrint]
      exact .text (hBefore _) (hEncodable.unmarked hSpaced.unmarked hSome _)
        (hEncodable.solid hSome hSpaced.first _) hWords hSpaced.solid hContent
  | cdata hKept hClose hRest ih =>
      have hLaid := laid_cons hBefore hAfter depth
        (fun q nodes hContent => cdata_laid depth hKept hClose hContent)
        (ih hBefore hAfter depth hBlank hEnd).1
      exact ⟨hLaid.content, fun _ _ => hLaid⟩
  | declaration hVersion hEncoding hStandalone hRest ih =>
      have hLaid := laid_cons hBefore hAfter depth
        (fun q nodes hContent => declaration_laid depth hVersion
          hEncoding hStandalone hContent)
        (ih hBefore hAfter depth hBlank hEnd).1
      exact ⟨hLaid.content, fun _ _ => hLaid⟩
  | unknown hKept hForeign hRest ih =>
      have hLaid := laid_cons hBefore hAfter depth
        (fun q nodes hContent => unknown_laid depth hKept hForeign hContent)
        (ih hBefore hAfter depth hBlank hEnd).1
      exact ⟨hLaid.content, fun _ _ => hLaid⟩

end Layout

end Nodes

/-! ## Files -/

theorem normalize_of_kept {s : Bytes} (hKept : Kept s) : normalize s = s := by
  induction s with
  | nil => rfl
  | cons b s ih =>
      obtain ⟨⟨hNul, hCr⟩, hRest⟩ := kept_cons.1 hKept
      rw [normalize, if_neg hNul, if_neg hCr, ih hRest]

theorem kept_indent (depth : Nat) : Kept (indent depth) :=
  (kept_iff _).2 fun b hb => by
    rw [(List.mem_replicate.1 hb).2]
    decide

theorem IsName.kept {name : Bytes} (hName : IsName name) : Kept name :=
  (kept_iff _).2 fun b hb => by
    have hByte := hName.all b hb
    constructor
    · rintro rfl
      cases hByte
    · rintro rfl
      cases hByte

theorem kept_attribute {enc : Encoding} {a : Bytes × Bytes} (hName : NameIn enc a.1)
    (hValue : Encodable enc a.2) : Kept (attributePrint a) := by
  have hQuote : ∀ quote : UInt8, quote = 39 ∨ quote = 34 → quote ≠ 0 ∧ quote ≠ 13 := by
    rintro quote (rfl | rfl) <;> decide
  have hEither : (if (cstr a.2).contains 34 then (39 : UInt8) else 34) = 39 ∨
      (if (cstr a.2).contains 34 then (39 : UInt8) else 34) = 34 := by
    split
    · exact Or.inl rfl
    · exact Or.inr rfl
  have hNe := hQuote _ hEither
  rw [attributePrint, hName.encodeString_eq, hName.name.cstr_eq, hValue.kept.cstr_eq]
  exact kept_append.2 ⟨hName.name.kept, kept_cons.2 ⟨by decide, kept_cons.2 ⟨hNe,
    kept_append.2 ⟨hValue.kept, kept_cons.2 ⟨hNe, kept_nil⟩⟩⟩⟩⟩

theorem kept_declarationField {enc : Encoding} {key : String} {value : Bytes}
    (hKey : Kept (bytesOf key)) (hValue : Declarable enc value) :
    Kept (declarationField key value) := by
  unfold declarationField
  split
  · exact kept_nil
  · rw [hValue.kept.cstr_eq]
    exact kept_append.2 ⟨hKey, kept_cons.2 ⟨by decide, kept_cons.2 ⟨by decide,
      kept_append.2 ⟨hValue.kept, by decide⟩⟩⟩⟩

theorem Printable.kept {inside : Bool} {enc : Encoding} {trees : List Tree}
    (hPrintable : Printable inside enc trees) (depth : Nat) :
    ∀ t ∈ trees, Kept (t.print depth) := by
  induction hPrintable generalizing depth with
  | nil => exact fun t ht => by cases ht
  | @element _ _ name attributes children _ hName hAttributes hDistinct
      hChildren hRest ihChildren ih =>
      refine List.forall_mem_cons.2 ⟨?_, ih depth⟩
      have hAll : Kept (attributes.flatMap fun a => 32 :: attributePrint a) :=
        kept_flatMap fun a ha => kept_cons.2 ⟨by decide,
          kept_attribute (hAttributes a ha).1 (hAttributes a ha).2⟩
      cases children with
      | nil =>
          simp only [Tree.print, hName.name.cstr_eq, kept_append,
            kept_cons, kept_indent, hName.name.kept, hAll, true_and, and_true]
          decide
      | cons child siblings =>
          have hInner : Kept (printChildren (depth + 1) (child :: siblings)) := by
            rw [printChildren_eq]
            refine kept_flatMap fun t ht => kept_append.2 ⟨?_, ?_⟩
            · split
              · exact kept_nil
              · decide
            · rw [List.append_nil]
              exact ihChildren (depth + 1) t ht
          have hClose : Kept
            (if child.isText && siblings.isEmpty then [] else 10 :: indent depth) := by
            split
            · exact kept_nil
            · exact kept_cons.2 ⟨by decide, kept_indent depth⟩
          simp only [Tree.print, hName.name.cstr_eq, kept_append,
            kept_cons, kept_indent, hName.name.kept, hAll, hInner,
              hClose, true_and, and_true]
          decide
  | comment hKept hClose hRest ih =>
      refine List.forall_mem_cons.2 ⟨?_, ih depth⟩
      rw [Tree.print, hKept.cstr_eq]
      simp only [kept_append, kept_indent, hKept, true_and, and_true]
      decide
  | text hEncodable hSpaced hNext hRest ih =>
      refine List.forall_mem_cons.2 ⟨?_, ih depth⟩
      rw [Tree.print, textPrint, if_neg Bool.false_ne_true, hEncodable.kept.cstr_eq]
      exact hEncodable.kept
  | cdata hKept hClose hRest ih =>
      refine List.forall_mem_cons.2 ⟨?_, ih depth⟩
      rw [Tree.print, textPrint, if_pos rfl, hKept.cstr_eq]
      simp only [kept_append, kept_cons, kept_indent, hKept, and_true]
      decide
  | declaration hVersion hEncoding hStandalone hRest ih =>
      refine List.forall_mem_cons.2 ⟨?_, ih depth⟩
      rw [Tree.print, declarationPrint]
      have hFirst : Kept (declarationField "version" _) :=
        kept_declarationField (by decide) hVersion
      have hSecond : Kept (declarationField "encoding" _) :=
        kept_declarationField (by decide) hEncoding
      have hThird : Kept (declarationField "standalone" _) :=
        kept_declarationField (by decide) hStandalone
      simp only [kept_append, hFirst, hSecond, hThird, and_true]
      decide
  | unknown hKept hForeign hRest ih =>
      refine List.forall_mem_cons.2 ⟨?_, ih depth⟩
      rw [Tree.print, hKept.cstr_eq]
      simp only [kept_append, kept_cons, kept_indent, hKept, true_and]
      decide

/-- A node of a document ends in a bracket, or a CDATA section in a line end. -/
theorem print_last {t : Tree} (hPlain : t.plainText = false) (depth : Nat) :
    ∃ front c, t.print depth = front ++ [c] ∧ (c = 62 ∨ c = 10) := by
  cases t with
  | comment value =>
      refine ⟨indent depth ++ bytesOf "<!--" ++ cstr value ++ [45, 45], 62, ?_,
        Or.inl rfl⟩
      rw [Tree.print, List.append_assoc _ [45, 45]]
      rfl
  | text cdata value =>
      cases cdata with
      | false => cases hPlain
      | true =>
          refine ⟨10 :: indent depth ++ bytesOf "<![CDATA[" ++
            cstr value ++ bytesOf "]]>", 10, ?_, Or.inr rfl⟩
          rw [Tree.print, textPrint, if_pos rfl]
  | declaration version encoding standalone =>
      refine ⟨bytesOf "<?xml " ++ declarationField "version" version ++
        declarationField "encoding" encoding ++
        declarationField "standalone" standalone ++ [63], 62,
        ?_, Or.inl rfl⟩
      rw [Tree.print, declarationPrint, List.append_assoc _ [63]]
      rfl
  | unknown value =>
      refine ⟨indent depth ++ 60 :: cstr value, 62, ?_, Or.inl rfl⟩
      rw [Tree.print, List.append_assoc]
      rfl
  | element value attributes children =>
      cases children with
      | nil =>
          refine ⟨indent depth ++ 60 :: cstr value ++
            attributes.flatMap (fun a => 32 :: attributePrint a) ++ [32, 47], 62, ?_,
              Or.inl rfl⟩
          rw [Tree.print, List.append_assoc _ [32, 47]]
          rfl
      | cons child siblings =>
          refine ⟨indent depth ++ 60 :: cstr value ++
            attributes.flatMap (fun a => 32 :: attributePrint a) ++
            62 :: (printChildren (depth + 1) (child :: siblings) ++
              (if child.isText && siblings.isEmpty then [] else 10 :: indent depth) ++
              60 :: 47 :: cstr value), 62, ?_, Or.inl rfl⟩
          rw [Tree.print]
          simp only [List.append_assoc, List.cons_append]

theorem Printable.plainText {inside : Bool} {enc : Encoding} {trees : List Tree}
    (hPrintable : Printable inside enc trees) (hInside : inside = false) :
    ∀ t ∈ trees, t.plainText = false := by
  induction hPrintable with
  | nil => exact fun t ht => by cases ht
  | text => cases hInside
  | element _ _ _ _ _ _ ih => exact List.forall_mem_cons.2 ⟨rfl, ih hInside⟩
  | comment _ _ _ ih => exact List.forall_mem_cons.2 ⟨rfl, ih hInside⟩
  | cdata _ _ _ ih => exact List.forall_mem_cons.2 ⟨rfl, ih hInside⟩
  | declaration _ _ _ _ ih => exact List.forall_mem_cons.2 ⟨rfl, ih hInside⟩
  | unknown _ _ _ ih => exact List.forall_mem_cons.2 ⟨rfl, ih hInside⟩

/-- A document that begins with a tag does not begin with a mark. -/
theorem Content.no_mark {inside : Bool} {enc : Encoding}
    {p e : Bytes} {nodes : List Node} (hContent : Content inside enc p nodes e)
    (hInside : inside = false) (hNodes : nodes ≠ []) :
    stringEqual p [0xef, 0xbb, 0xbf] = false := by
  have hOpen : ∀ w q : Bytes, Blank w →
    stringEqual (w ++ 60 :: q) [0xef, 0xbb, 0xbf] = false := by
    intro w q hBlank
    cases w with
    | nil => exact stringEqual_of_ne (by decide) _ _
    | cons b w =>
        refine stringEqual_of_ne (fun hEq => ?_) _ _
        cases hEq ▸ hBlank b List.mem_cons_self
  cases hContent with
  | done => exact absurd rfl hNodes
  | text => cases hInside
  | declaration hBlank => exact hOpen _ _ hBlank
  | comment hBlank => exact hOpen _ _ hBlank
  | cdata hBlank => exact hOpen _ _ hBlank
  | unknown hBlank => exact hOpen _ _ hBlank
  | empty hBlank => exact hOpen _ _ hBlank
  | element hBlank => exact hOpen _ _ hBlank

theorem saveFile_passable (useMicrosoftBOM : Bool) {doc : List Tree} (hDoc : doc ≠ [])
    (hPlain : ∀ t ∈ doc, t.plainText = false) :
    Passable (saveFile useMicrosoftBOM doc) := by
  obtain ⟨front, c, hPrint, hc⟩ := print_last (hPlain _ (List.getLast_mem hDoc)) 0
  have hSave : ∃ start, saveFile useMicrosoftBOM doc = start ++ [c, 10] := by
    unfold saveFile
    rw [← List.dropLast_append_getLast hDoc, List.flatMap_append,
      List.flatMap_singleton, hPrint]
    refine ⟨(if useMicrosoftBOM then [0xef, 0xbb, 0xbf] else []) ++
      (doc.dropLast.flatMap (fun t => t.print 0 ++ [10]) ++ front), ?_⟩
    simp only [List.append_assoc]
    rfl
  obtain ⟨start, hSave⟩ := hSave
  intro b hb
  rw [hSave, List.reverse_append, List.reverse_cons, List.reverse_singleton] at hb
  rcases List.mem_cons.1 hb with rfl | hMem
  · decide
  · cases List.mem_singleton.1 hMem
    rcases hc with rfl | rfl <;> decide

theorem characters_ascii {enc : Encoding} {s : Bytes}
    (hAll : (s.all fun b => utf8Bytes b == 1) = true) : Characters enc s := by
  induction s with
  | nil => exact .nil
  | cons b s ih =>
      rw [List.all_cons, Bool.and_eq_true, beq_iff_eq] at hAll
      exact .plain (fun _ => hAll.1) (ih hAll.2)

/-- A declaration that decides for UTF-8, and an element with a character of two
bytes, the five that are escaped, a text, an empty element and a comment. -/
def sampleTree : List Tree :=
  [.declaration (bytesOf "1.0") (bytesOf "UTF-8") [],
    .element (bytesOf "a") [(bytesOf "b", 0xc3 :: 0xa9 :: bytesOf "<>&'" ++ [34])]
      [.text false (bytesOf "c & d"), .element (bytesOf "e") [] [],
        .comment (bytesOf " f ")]]

end MGServer.Ports.TinyXmlParser
