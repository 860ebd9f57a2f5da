import Mathlib.Algebra.Ring.Nat
import MGServer.Ports.TinyXml

/-!
# The parser of tinyxml

Port of `tinyxml/tinyxmlparser.cpp` and of `LoadFile` in `tinyxml/tinyxml.cpp`,
for the text of a whole file.  A `const char*` into the text is what stands from
there on, so that the terminating NUL is `[]`, and a null pointer is `none`.

The library is built with its assertions, and it is not safe on every text: an
assertion can fail, `Stamp` can stay on a byte forever, and a character that is
cut off by the end of the text takes the pointer behind the NUL.  These are the
three ways not to return.  A bound on the rounds of a loop is a fourth in the
model only.

Rows and columns are left out, and with them what `Stamp` computes; that it has
to get through the text is not.  White space is always condensed.  The stack the
recursion of `TiXmlElement::Parse` takes is left out too, so that elements nest
to any depth.
-/

namespace MGServer.Ports.TinyXmlParser

open MGServer.Verified.ByteString
open MGServer.Ports.TinyXml

inductive Encoding where
  | unknown
  | utf8
  | legacy
  deriving Repr, DecidableEq

/-- The errors a text can have, by their texts in `errorString`. -/
inductive Error where
  | openingFile
  | parsingElement
  | failedToReadElementName
  | readingElementValue
  | readingAttributes
  | parsingEmpty
  | readingEndTag
  | parsingUnknown
  | parsingComment
  | parsingDeclaration
  | documentEmpty
  | parsingCData
  deriving Repr, DecidableEq

def Error.desc : Error → String
  | .openingFile => "Failed to open file"
  | .parsingElement => "Error parsing Element."
  | .failedToReadElementName => "Failed to read Element name"
  | .readingElementValue => "Error reading Element value."
  | .readingAttributes => "Error reading Attributes."
  | .parsingEmpty => "Error: empty tag."
  | .readingEndTag => "Error reading end tag."
  | .parsingUnknown => "Error parsing Unknown."
  | .parsingComment => "Error parsing Comment."
  | .parsingDeclaration => "Error parsing Declaration."
  | .documentEmpty => "Error document empty."
  | .parsingCData => "Error parsing CDATA."

/-- How the parser does not return: a failed assertion, a loop that does not
move on, a pointer behind the NUL, or the bound on the rounds. -/
inductive Halt where
  | abort
  | endless
  | overrun
  | rounds
  deriving Repr, DecidableEq

/-- The document's first error, and where `Stamp` got to. -/
structure Data where
  error : Option Error
  stamp : Bytes
  deriving Repr, DecidableEq

abbrev Parser := StateT Data (Except Halt)

/-! ## Characters -/

/-- `utf8ByteTable`. -/
def utf8Bytes (b : UInt8) : Nat :=
  if b < 0xc2 then 1
  else if b < 0xe0 then 2
  else if b < 0xf0 then 3
  else if b < 0xf5 then 4
  else 1

def isAlpha (b : UInt8) : Bool := 127 ≤ b || (65 ≤ b && b ≤ 90) || (97 ≤ b && b ≤ 122)

def isAlphaNum (b : UInt8) : Bool := isAlpha b || isDigit b

def toLower (b : UInt8) : UInt8 := if 65 ≤ b && b ≤ 90 then b + 32 else b

/-- `ef bb bf`, `ef bf be` or `ef bf bf`. -/
def isMark : Bytes → Bool
  | 0xef :: 0xbb :: 0xbf :: _ => true
  | 0xef :: 0xbf :: 0xbe :: _ => true
  | 0xef :: 0xbf :: 0xbf :: _ => true
  | _ => false

/-- The loop of `SkipWhiteSpace` for UTF-8, with the bytes of a mark that are
still to be passed. -/
def skipMarks : Nat → Bytes → Bytes
  | _, [] => []
  | left + 1, _ :: rest => skipMarks left rest
  | 0, b :: rest =>
      if isMark (b :: rest) then skipMarks 2 rest
      else if isSpace b then skipMarks 0 rest
      else b :: rest

def skipWhite (enc : Encoding) (p : Bytes) : Bytes :=
  if enc = .utf8 then skipMarks 0 p else p.dropWhile isSpace

/-- `SkipWhiteSpace`, null at the end of the text. -/
def skipWhiteSpace (enc : Encoding) : Option Bytes → Option Bytes
  | none => none
  | some [] => none
  | some (b :: rest) => some (skipWhite enc (b :: rest))

/-- `StringEqual`, without and with `ignoreCase`; the assertions on the
pointer stand at the calls. -/
def stringEqual (p tag : Bytes) : Bool := tag.isPrefixOf p

def stringEqualNoCase (p tag : Bytes) : Bool :=
  (tag.map toLower).isPrefixOf (p.map toLower)

def isNameByte (b : UInt8) : Bool :=
  isAlphaNum b || b == 95 || b == 45 || b == 46 || b == 58

/-- `ReadName`: the name and what follows it. -/
def readName : Bytes → Option (Bytes × Bytes)
  | [] => none
  | b :: rest =>
      if isAlpha b || b == 95 then
        some ((b :: rest).takeWhile isNameByte, (b :: rest).dropWhile isNameByte)
      else none

/-! ## Character references and entities -/

/-- `ConvertUTF32ToUTF8`. -/
def convertUTF32ToUTF8 (input : Nat) : Bytes :=
  let continued (n : Nat) : UInt8 := UInt8.ofNat ((n ||| 0x80) &&& 0xbf)
  if input < 0x80 then [UInt8.ofNat input]
  else if input < 0x800 then [UInt8.ofNat (input >>> 6 ||| 0xc0), continued input]
  else if input < 0x10000 then
    [UInt8.ofNat (input >>> 12 ||| 0xe0), continued (input >>> 6), continued input]
  else if input < 0x200000 then
    [UInt8.ofNat (input >>> 18 ||| 0xf0), continued (input >>> 12),
      continued (input >>> 6),
      continued input]
  else []

def decimalDigit (b : UInt8) : Option Nat :=
  if isDigit b then some (b.toNat - 48) else none

def hexDigit (b : UInt8) : Option Nat :=
  if isDigit b then some (b.toNat - 48)
  else if 97 ≤ b && b ≤ 102 then some (b.toNat - 87)
  else if 65 ≤ b && b ≤ 70 then some (b.toNat - 55)
  else none

/-- The loop over the digits of a reference, from the last to the first;
`mult` has 32 bits and so have its products, `ucs` has 64. -/
def digitsFrom (base : Nat) (digit : UInt8 → Option Nat) :
    Bytes → Nat → Nat → Option Nat
  | [], _, ucs => some ucs
  | b :: rest, mult, ucs =>
      match digit b with
      | some d =>
          digitsFrom base digit rest (mult * base % 2 ^ 32)
            ((ucs + mult * d % 2 ^ 32) % 2 ^ 64)
      | none => none

theorem digitsFrom_cons {base v : Nat} {digit : UInt8 → Option Nat} {b : UInt8}
    (hDigit : digit b = some v) (digits : Bytes) (mult ucs : Nat) :
    digitsFrom base digit (b :: digits) mult ucs =
      digitsFrom base digit digits (mult * base % 2 ^ 32)
        ((ucs + mult * v % 2 ^ 32) % 2 ^ 64) := by
  show (match digit b with | some d => _ | none => none) = _
  rw [hDigit]

/-- A numeric reference: the digits in front of the semicolon, back to the
first `stop`, and what follows. -/
def getReference (enc : Encoding) (base : Nat) (stop : UInt8)
    (digit : UInt8 → Option Nat) (digits : Bytes) : Bytes × Option Bytes :=
  match digits.dropWhile (· != 59) with
  | [] => ([], none)
  | _ :: after =>
      match digitsFrom base digit
        ((digits.takeWhile (· != 59)).reverse.takeWhile (· != stop)) 1 0 with
      | none => ([], none)
      | some ucs =>
          (if enc = .utf8 then convertUTF32ToUTF8 ucs else [UInt8.ofNat ucs],
            some after)

/-- The table `entity`. -/
def entity : List (Bytes × UInt8) :=
  [(bytesOf "&amp;", 38), (bytesOf "&lt;", 60), (bytesOf "&gt;", 62),
    (bytesOf "&quot;", 34),
    (bytesOf "&apos;", 39)]

/-- `GetEntity` at an ampersand.  One that begins no entity is dropped. -/
def getEntity (enc : Encoding) (p : Bytes) : Bytes × Option Bytes :=
  match p with
  | _ :: 35 :: 120 :: rest => getReference enc 16 120 hexDigit rest
  | _ :: 35 :: c :: rest => getReference enc 10 35 decimalDigit (c :: rest)
  | _ =>
      match entity.find? fun e => e.1.isPrefixOf p with
      | some (str, chr) => ([chr], some (p.drop str.length))
      | none => ([], some p.tail)

/-- `GetChar`: the bytes of a character and what follows it. -/
def getChar (enc : Encoding) : Bytes → Except Halt (Bytes × Option Bytes)
  | [] => .error .overrun
  | b :: rest =>
      let length := if enc = .utf8 then utf8Bytes b else 1
      if length = 1 then
        if b = 38 then .ok (getEntity enc (b :: rest)) else .ok ([b], some rest)
      else if (b :: rest).length < length then .error .overrun
      else .ok ((b :: rest).take length, some ((b :: rest).drop length))

/-! ## Text -/

/-- The first loop of `ReadText`, which keeps the white space. -/
def keptText (enc : Encoding) (endTag : Bytes) :
    Nat → Bytes → Except Halt (Bytes × Option Bytes)
  | 0, _ => .error .rounds
  | fuel + 1, p =>
      if p = [] ∨ stringEqual p endTag = true then .ok ([], some p)
      else do
        let (value, next) ← getChar enc p
        match next with
        | none => .ok (value, none)
        | some q =>
            let (text, e) ← keptText enc endTag fuel q
            .ok (value ++ text, e)

/-- The second loop, which makes one blank of white space. -/
def condensedText (enc : Encoding) (endTag : Bytes) :
    Nat → Bool → Bytes → Except Halt (Bytes × Option Bytes)
  | 0, _, _ => .error .rounds
  | fuel + 1, white, p =>
      if p = [] ∨ stringEqual p endTag = true then .ok ([], some p)
      else if p.head?.any isSpace then condensedText enc endTag fuel true p.tail
      else do
        let (value, next) ← getChar enc p
        let lead := if white then [32] else []
        match next with
        | none => .ok (lead ++ value, none)
        | some q =>
            let (text, e) ← condensedText enc endTag fuel false q
            .ok (lead ++ value ++ text, e)

/-- The last lines of `ReadText`: behind the end tag, null at the end of the
text. -/
def behindTag (endTag : Bytes) : Option Bytes → Option Bytes
  | none => none
  | some p => if p.length ≤ endTag.length then none else some (p.drop endTag.length)

def readText (enc : Encoding) (trim : Bool) (endTag p : Bytes) :
    Except Halt (Bytes × Option Bytes) := do
  let (text, e) ←
    if trim then
      match skipWhiteSpace enc (some p) with
      | none => .ok ([], none)
      | some q => condensedText enc endTag (q.length + 1) false q
    else keptText enc endTag (p.length + 1) p
  .ok (text, behindTag endTag e)

/-! ## Where the parser is -/

/-- One round of `Stamp`, `none` when it stays where it is. -/
def stampStep (enc : Encoding) : Bytes → Option Bytes
  | [] => some []
  | b :: rest =>
      if b = 13 then some (if rest.head? = some 10 then rest.tail else rest)
      else if b = 10 then some (if rest.head? = some 13 then rest.tail else rest)
      else if b = 9 then some rest
      else if b = 0xef then
        if enc = .utf8 then if 2 ≤ rest.length then some (rest.drop 2) else none
        else some rest
      else if enc = .utf8 then some (rest.drop (utf8Bytes b - 1))
      else some rest

def stampLoop (enc : Encoding) (now : Bytes) : Nat → Bytes → Except Halt Bytes
  | 0, _ => .error .rounds
  | fuel + 1, p =>
      if now.length < p.length then
        match stampStep enc p with
        | some q => stampLoop enc now fuel q
        | none => .error .endless
      else .ok p

/-- `Stamp`. -/
def stamp (enc : Encoding) (now : Bytes) : Parser Unit := fun d =>
  (stampLoop enc now (d.stamp.length + 1) d.stamp).map fun p =>
    ((), { d with stamp := p })

/-- `SetError`: the first error stays. -/
def setError (err : Error) (pError : Option Bytes) (enc : Encoding) :
    Parser Unit := fun d =>
  if d.error.isSome then .ok ((), d)
  else
    match pError with
    | none => .ok ((), { d with error := some err })
    | some p => stamp enc p { d with error := some err }

/-! ## The nodes -/

/-- `TiXmlUnknown::Parse`. -/
def unknownParse (enc : Encoding) (p : Bytes) : Parser (Node × Option Bytes) := do
  match skipWhiteSpace enc (some p) with
  | none => throw .abort
  | some p =>
      stamp enc p
      if p.head? = some 60 then
        let value := p.tail.takeWhile (· != 62)
        pure (.unknown value, some ((p.tail.dropWhile (· != 62)).drop 1))
      else
        setError .parsingUnknown (some p) enc
        pure (.unknown [], none)

/-- The text in front of the first `tag`, and what stands from there on. -/
def upTo (tag : Bytes) : Bytes → Bytes × Bytes
  | [] => ([], [])
  | b :: rest =>
      if stringEqual (b :: rest) tag then ([], b :: rest)
      else (b :: (upTo tag rest).1, (upTo tag rest).2)

/-- `TiXmlComment::Parse`. -/
def commentParse (enc : Encoding) (p : Bytes) : Parser (Node × Option Bytes) := do
  match skipWhiteSpace enc (some p) with
  | none => throw .abort
  | some [] => throw .abort
  | some (b :: rest) =>
      stamp enc (b :: rest)
      if stringEqual (b :: rest) (bytesOf "<!--") then
        let (value, q) := upTo (bytesOf "-->") (rest.drop 3)
        pure (.comment value, some (q.drop 3))
      else
        setError .parsingComment (some (b :: rest)) enc
        pure (.comment [], none)

/-- The value of an attribute that has no quotes. -/
def isBare (b : UInt8) : Bool :=
  !isSpace b && b != 47 && b != 62 && b != 39 && b != 34

/-- A failed attribute; one of a declaration has no document for the error. -/
def attributeFail (document : Bool) (enc : Encoding) (pError : Option Bytes)
    (name value : Bytes) : Parser (Option Bytes × Bytes × Bytes) :=
  if document then do
    setError .readingAttributes pError enc
    pure (none, name, value)
  else pure (none, name, value)

/-- The value of an attribute, from its first character on. -/
def attributeValue (document : Bool) (enc : Encoding) (name : Bytes)
    (c : UInt8) (rest : Bytes) :
    Parser (Option Bytes × Bytes × Bytes) :=
  if c = 39 ∨ c = 34 then do
    let (value, e) ← (readText enc false [c] rest : Except Halt _)
    pure (e, name, value)
  else
    let value := (c :: rest).takeWhile isBare
    let q := (c :: rest).dropWhile isBare
    if q.head? = some 39 ∨ q.head? = some 34 then
      attributeFail document enc (some q) name value
    else pure (some q, name, value)

/-- `TiXmlAttribute::Parse`. -/
def attributeParse (document : Bool) (enc : Encoding) (p : Bytes) :
    Parser (Option Bytes × Bytes × Bytes) := do
  match skipWhiteSpace enc (some p) with
  | none => pure (none, [], [])
  | some [] => pure (none, [], [])
  | some (b :: rest) =>
      stamp enc (b :: rest)
      match readName (b :: rest) with
      | none => attributeFail document enc (some (b :: rest)) [] []
      | some (name, q) =>
          if q = [] then attributeFail document enc (some (b :: rest)) name []
          else
            match skipWhiteSpace enc (some q) with
            | some (61 :: q) =>
                match skipWhiteSpace enc (some q) with
                | some (c :: rest) => attributeValue document enc name c rest
                | other => attributeFail document enc other name []
            | other => attributeFail document enc other name []

/-- `TiXmlText::Parse`. -/
def textParse (cdata : Bool) (enc : Encoding) (p : Bytes) :
    Parser (Bytes × Option Bytes) := do
  stamp enc p
  if p = [] then throw .abort
  if cdata || stringEqual p (bytesOf "<![CDATA[") then
    if stringEqual p (bytesOf "<![CDATA[") then
      let (value, q) := upTo (bytesOf "]]>") (p.drop 9)
      let (_, e) ← (readText enc false (bytesOf "]]>") q : Except Halt _)
      pure (value, e)
    else
      setError .parsingCData (some p) enc
      pure ([], none)
  else
    let (value, e) ← (readText enc true [60] p : Except Halt _)
    -- the pointer goes back to the end tag
    pure (value, e.map (60 :: ·))

/-- The loop of `TiXmlDeclaration::Parse`, with the encoding found so far. -/
def declarationLoop (enc : Encoding) :
    Nat → Bytes → Option Bytes → Parser (Bytes × Option Bytes)
  | 0, _, _ => throw .rounds
  | fuel + 1, encoding, p =>
      match p with
      | none => pure (encoding, none)
      | some [] => pure (encoding, none)
      | some (b :: rest) =>
          if b = 62 then pure (encoding, some rest)
          else do
            let q := skipWhite enc (b :: rest)
            if q = [] then throw .abort
            if stringEqualNoCase q (bytesOf "version") then
              let (next, _, _) ← attributeParse false enc q
              declarationLoop enc fuel encoding next
            else if stringEqualNoCase q (bytesOf "encoding") then
              let (next, _, value) ← attributeParse false enc q
              declarationLoop enc fuel value next
            else if stringEqualNoCase q (bytesOf "standalone") then
              let (next, _, _) ← attributeParse false enc q
              declarationLoop enc fuel encoding next
            else
              declarationLoop enc fuel encoding
                (some (q.dropWhile fun b => b != 62 && !isSpace b))

/-- `TiXmlDeclaration::Parse`: the `encoding` of the declaration and what
follows it. -/
def declarationParse (enc : Encoding) (p : Bytes) : Parser (Bytes × Option Bytes) := do
  match skipWhiteSpace enc (some p) with
  | some (b :: rest) =>
      if stringEqualNoCase (b :: rest) (bytesOf "<?xml") then
        stamp enc (b :: rest)
        declarationLoop enc (rest.length + 1) [] (some (rest.drop 4))
      else
        setError .parsingDeclaration none enc
        pure ([], none)
  | _ =>
      setError .parsingDeclaration none enc
      pure ([], none)

/-- What `Identify` finds. -/
inductive Kind where
  | declaration
  | comment
  | cdata
  | unknown
  | element
  deriving Repr, DecidableEq

/-- `Identify`. -/
def identify (enc : Encoding) (p : Bytes) : Option Kind :=
  match skipWhiteSpace enc (some p) with
  | some (60 :: rest) =>
      if stringEqualNoCase (60 :: rest) (bytesOf "<?xml") then some .declaration
      else if stringEqual (60 :: rest) (bytesOf "<!--") then some .comment
      else if stringEqual (60 :: rest) (bytesOf "<![CDATA[") then some .cdata
      else if stringEqual (60 :: rest) (bytesOf "<!") then some .unknown
      else if rest.head?.any fun b => isAlpha b || b == 95 then some .element
      else some .unknown
  | _ => none

section Element

variable (child : Kind → Bytes → Parser (Node × Option Bytes)) (enc : Encoding)

/-- `ReadValue`. -/
def readValue : Nat → Option Bytes → Parser (List Node × Option Bytes)
  | 0, _ => throw .rounds
  | fuel + 1, p =>
      match skipWhiteSpace enc p with
      | none => do
          setError .readingElementValue none enc
          pure ([], none)
      | some [] => pure ([], some [])
      | some (b :: rest) =>
          if b = 60 then
            if stringEqual (b :: rest) [60, 47] then pure ([], some (b :: rest))
            else
              match identify enc (b :: rest) with
              | none => pure ([], none)
              | some kind => do
                  let (node, q) ← child kind (b :: rest)
                  let (nodes, e) ← readValue fuel q
                  pure (node :: nodes, e)
          else do
            let (value, q) ← textParse false enc (b :: rest)
            let (nodes, e) ← readValue fuel q
            -- a blank text is deleted
            pure (if value.all isSpace then nodes else .text value :: nodes, e)

/-- The end of an element, behind its children. -/
def readEndTag (name : Bytes) (q : Option Bytes) : Parser (Option Bytes) := do
  match q with
  | some (b :: rest) =>
      if stringEqual (b :: rest) ([60, 47] ++ name) then
        match skipWhiteSpace enc (some ((b :: rest).drop (name.length + 2))) with
        | some (62 :: after) => pure (some after)
        | other =>
            setError .readingEndTag other enc
            pure none
      else
        setError .readingEndTag (some (b :: rest)) enc
        pure none
  | other =>
      setError .readingEndTag other enc
      pure none

/-- The loop of `TiXmlElement::Parse` behind the name. -/
def attributesLoop (name : Bytes) :
    Nat → List (Bytes × Bytes) → Bytes → Parser (Node × Option Bytes)
  | 0, _, _ => throw .rounds
  | fuel + 1, attributes, p =>
      if p = [] then pure (.element name attributes [], some [])
      else
        match skipWhiteSpace enc (some p) with
        | some (b :: rest) =>
            if b = 47 then
              if rest.head? = some 62 then pure
                (.element name attributes [], some rest.tail)
              else do
                setError .parsingEmpty (some rest) enc
                pure (.element name attributes [], none)
            else if b = 62 then do
              let (children, q) ← readValue child enc (rest.length + 2) (some rest)
              let e ← readEndTag enc name q
              pure (.element name attributes children, e)
            else do
              let (next, key, value) ← attributeParse true enc (b :: rest)
              match next with
              | some (c :: q) =>
                  if attributes.any fun a => decide (cstr a.1 = cstr key) then
                    setError .parsingElement (some (b :: rest)) enc
                    pure (.element name attributes [], none)
                  else attributesLoop name fuel (attributes ++ [(key, value)]) (c :: q)
              | _ =>
                  setError .parsingElement (some (b :: rest)) enc
                  pure (.element name attributes [], none)
        | _ => do
            setError .readingAttributes (some p) enc
            pure (.element name attributes [], none)

/-- `TiXmlElement::Parse`. -/
def elementParse (p : Bytes) : Parser (Node × Option Bytes) := do
  match skipWhiteSpace enc (some p) with
  | some (b :: rest) =>
      stamp enc (b :: rest)
      if b = 60 then
        match skipWhiteSpace enc (some rest) with
        | none => throw .abort
        | some q =>
            match readName q with
            | none =>
                setError .failedToReadElementName (some q) enc
                pure (.element [] [] [], none)
            | some (name, after) =>
                if after = [] then
                  setError .failedToReadElementName (some q) enc
                  pure (.element name [] [], none)
                else attributesLoop child enc name (after.length + 1) [] after
      else
        setError .parsingElement (some (b :: rest)) enc
        pure (.element [] [] [], none)
  | _ =>
      setError .parsingElement none enc
      pure (.element [] [] [], none)

end Element

/-- The `Parse` of what `Identify` found, to a depth of elements. -/
def nodeParse (enc : Encoding) : Nat → Kind → Bytes → Parser (Node × Option Bytes)
  | 0, _, _ => throw .rounds
  | depth + 1, kind, p =>
      match kind with
      | .declaration => do
          let (_, q) ← declarationParse enc p
          pure (.declaration, q)
      | .comment => commentParse enc p
      | .cdata => do
          let (value, q) ← textParse true enc p
          pure (.text value, q)
      | .unknown => unknownParse enc p
      | .element => elementParse (nodeParse enc depth) enc p

/-! ## The document -/

/-- The encoding of a document behind its first declaration. -/
def declared (encoding : Bytes) : Encoding :=
  let enc := cstr encoding
  if enc = [] then .utf8
  else if stringEqualNoCase enc (bytesOf "UTF-8") || stringEqualNoCase
    enc (bytesOf "UTF8") then
    .utf8
  else .legacy

/-- The loop of `TiXmlDocument::Parse`. -/
def documentLoop : Nat → Encoding → Option Bytes → Parser (List Node)
  | 0, _, _ => throw .rounds
  | fuel + 1, enc, p =>
      match p with
      | none => pure []
      | some [] => pure []
      | some (b :: rest) =>
          match identify enc (b :: rest) with
          | none => pure []
          | some .declaration => do
              let (encoding, q) ← declarationParse enc (b :: rest)
              let enc := if enc = .unknown then declared encoding else enc
              let nodes ← documentLoop fuel enc (skipWhiteSpace enc q)
              pure (.declaration :: nodes)
          | some kind => do
              let (node, q) ← nodeParse enc (rest.length + 2) kind (b :: rest)
              let nodes ← documentLoop fuel enc (skipWhiteSpace enc q)
              pure (node :: nodes)

/-- `TiXmlDocument::Parse`. -/
def documentParse (p : Bytes) : Parser (List Node) := do
  if p = [] then
    setError .documentEmpty none .unknown
    pure []
  else
    let enc : Encoding :=
      if stringEqual p [0xef, 0xbb, 0xbf] then .utf8 else .unknown
    let nodes ← documentLoop (p.length + 1) enc (skipWhiteSpace enc (some p))
    if nodes.isEmpty then setError .documentEmpty none enc
    pure nodes

/-- The new lines of the file, up to its first NUL. -/
def normalize : Bytes → Bytes
  | [] => []
  | b :: rest =>
      if b = 0 then []
      else if b = 13 then
        -- the line feed of a pair is the one that stays
        if rest.head? = some 10 then normalize rest else 10 :: normalize rest
      else b :: normalize rest

/-- `LoadFile`, for what the file contains: the nodes if it returns true, and
the error if it returns false. -/
def loadFile (file : Option Bytes) : Except Halt (Except Error (List Node)) :=
  match file with
  | none => .ok (.error .openingFile)
  | some [] => .ok (.error .documentEmpty)
  | some (b :: rest) => do
      let text := normalize (b :: rest)
      let (nodes, d) ← documentParse text ⟨none, text⟩
      match d.error with
      | some err => .ok (.error err)
      | none => .ok (.ok nodes)

end MGServer.Ports.TinyXmlParser
