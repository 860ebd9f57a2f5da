import Mathlib.Data.List.Infix
import MGServer.Verified.Outcomes
import MGServer.Ports.TinyXmlParser

/-!
# When tinyxml returns, and what it accepts

Each function of the parser, for every text: which way it can fail to return,
how far its pointer moves, and what the node it built is like if no error was
set.  Without a byte order mark and without a declaration the encoding stays
unknown, and then nothing can go wrong.
-/

namespace MGServer.Ports.TinyXmlParser

open MGServer.Verified.ByteString
open MGServer.Verified.Outcomes
open MGServer.Ports.TinyXml

/-! ## Pointers -/

/-- A pointer that has moved on, or is null. -/
def Beyond (p : Bytes) (e : Option Bytes) : Prop :=
  ∀ q ∈ e, q <:+ p ∧ q.length < p.length

/-- A pointer that may have stayed. -/
def Within (p : Bytes) (e : Option Bytes) : Prop := ∀ q ∈ e, q <:+ p

theorem beyond_none (p : Bytes) : Beyond p none := fun _ hq => by cases hq

theorem beyond_some {p q : Bytes} (hSuffix : q <:+ p) (hLess : q.length < p.length) :
    Beyond p (some q) := by
  intro q' hq'
  cases hq'
  exact ⟨hSuffix, hLess⟩

theorem Beyond.of_suffix {p p' : Bytes} {e : Option Bytes} (hBeyond : Beyond p e)
    (hSuffix : p <:+ p') : Beyond p' e := fun q hq =>
  ⟨(hBeyond q hq).1.trans hSuffix,
    Nat.lt_of_lt_of_le (hBeyond q hq).2 hSuffix.length_le⟩

theorem Within.beyond {p p' : Bytes} {e : Option Bytes} (hWithin : Within p e)
    (hBeyond : Beyond p' (some p)) : Beyond p' e := by
  intro q hq
  obtain ⟨hSuffix, hLess⟩ := hBeyond p rfl
  have hLe := (hWithin q hq).length_le
  exact ⟨(hWithin q hq).trans hSuffix, by omega⟩

/-- How much text is left at a pointer. -/
def left (e : Option Bytes) : Nat := e.elim 0 List.length

theorem Beyond.left_lt {p : Bytes} {e : Option Bytes} (hBeyond : Beyond p e)
    (hPos : 0 < p.length) : left e < p.length := by
  cases e with
  | none => exact hPos
  | some q => exact (hBeyond q rfl).2

theorem beyond_tail (b : UInt8) (rest : Bytes) : Beyond (b :: rest) (some rest) :=
  beyond_some (List.suffix_cons b rest) (Nat.lt_succ_self _)

/-- Dropping something from what is not empty. -/
theorem beyond_drop {p : Bytes} (hp : p ≠ []) {n : Nat} (hn : 0 < n) :
    Beyond p (some (p.drop n)) := by
  refine beyond_some (List.drop_suffix n p) ?_
  have hLength := List.length_pos_iff.2 hp
  rw [List.length_drop]
  omega

theorem skipMarks_suffix (left : Nat) (p : Bytes) : skipMarks left p <:+ p := by
  induction p generalizing left with
  | nil => cases left <;> exact List.suffix_refl _
  | cons b rest ih =>
      cases left with
      | succ left => exact (ih left).trans (List.suffix_cons b rest)
      | zero =>
          rw [skipMarks]
          split
          · exact (ih 2).trans (List.suffix_cons b rest)
          · split
            · exact (ih 0).trans (List.suffix_cons b rest)
            · exact List.suffix_refl _

theorem skipWhite_suffix (enc : Encoding) (p : Bytes) : skipWhite enc p <:+ p := by
  unfold skipWhite
  split
  · exact skipMarks_suffix 0 p
  · exact List.dropWhile_suffix _

theorem skipWhiteSpace_within (enc : Encoding) (p : Bytes) :
    Within p (skipWhiteSpace enc (some p)) := by
  intro q hq
  cases p with
  | nil => cases hq
  | cons b rest =>
      cases hq
      exact skipWhite_suffix enc _

theorem skipWhiteSpace_some {enc : Encoding} {p q : Bytes}
    (hSkip : skipWhiteSpace enc (some p) = some q) : q <:+ p :=
  skipWhiteSpace_within enc p q hSkip

/-- White space is not followed by white space. -/
theorem skipMarks_head {count : Nat} {p : Bytes} {c : UInt8} {rest : Bytes}
    (hSkip : skipMarks count p = c :: rest) : isSpace c = false := by
  induction p generalizing count with
  | nil => cases count <;> cases hSkip
  | cons b tail ih =>
      cases count with
      | succ count => exact ih hSkip
      | zero =>
          rw [skipMarks] at hSkip
          split at hSkip
          · exact ih hSkip
          · split at hSkip
            · exact ih hSkip
            · rename_i hSpace
              cases hSkip
              exact Bool.not_eq_true _ ▸ hSpace

theorem skipWhite_head {enc : Encoding} {p : Bytes} {c : UInt8} {rest : Bytes}
    (hSkip : skipWhite enc p = c :: rest) : isSpace c = false := by
  unfold skipWhite at hSkip
  split at hSkip
  · exact skipMarks_head hSkip
  · have hHead := List.head?_dropWhile_not isSpace p
    rw [hSkip] at hHead
    simpa using hHead

/-! ## Names -/

/-- A name as `ReadName` reads it. -/
structure IsName (s : Bytes) : Prop where
  first : ∃ b rest, s = b :: rest ∧ (isAlpha b || b == 95) = true
  all : ∀ b ∈ s, isNameByte b = true

theorem isName_cons {b : UInt8} {rest : Bytes} (hFirst : (isAlpha b || b == 95) = true)
    (hAll : (b :: rest).all isNameByte = true) : IsName (b :: rest) :=
  ⟨⟨b, rest, rfl, hFirst⟩, List.all_eq_true.1 hAll⟩

theorem isNameByte_of_first {b : UInt8} (hFirst : (isAlpha b || b == 95) = true) :
    isNameByte b = true := by
  unfold isNameByte isAlphaNum
  cases hAlpha : isAlpha b <;> simp_all

theorem readName_spec {p name q : Bytes} (hRead : readName p = some (name, q)) :
    IsName name ∧ Beyond p (some q) := by
  cases p with
  | nil => cases hRead
  | cons b rest =>
      rw [readName] at hRead
      split at hRead
      · rename_i hFirst
        cases hRead
        have hByte := isNameByte_of_first hFirst
        refine ⟨⟨⟨b, rest.takeWhile isNameByte, ?_, hFirst⟩, ?_⟩, ?_⟩
        · rw [List.takeWhile_cons_of_pos hByte]
        · exact fun c hc => List.mem_takeWhile_imp hc
        · rw [List.dropWhile_cons_of_pos hByte]
          exact Within.beyond (fun q hq => by cases hq; exact List.dropWhile_suffix _)
            (beyond_tail b rest)
      · cases hRead

theorem IsName.zero_not_mem {s : Bytes} (hName : IsName s) : 0 ∉ s := by
  intro hMem
  have hByte := hName.all 0 hMem
  revert hByte
  decide

theorem IsName.cstr_eq {s : Bytes} (hName : IsName s) : cstr s = s :=
  (cstr_eq_self_iff s).2 hName.zero_not_mem

/-! ## Characters and text -/

theorem getReference_beyond (enc : Encoding) (base : Nat) (stop : UInt8)
    (digit : UInt8 → Option Nat) (digits : Bytes) :
    Within digits (getReference enc base stop digit digits).2 := by
  have hSuffix : digits.dropWhile (· != 59) <:+ digits := List.dropWhile_suffix _
  unfold getReference
  split
  · exact fun _ hq => by cases hq
  · rename_i semicolon after hRest
    rw [hRest] at hSuffix
    split
    · exact fun _ hq => by cases hq
    · intro q hq
      cases hq
      exact (List.suffix_cons semicolon _).trans hSuffix

theorem entity_ne_nil {e : Bytes × UInt8} (he : e ∈ entity) : 0 < e.1.length := by
  revert e
  decide

theorem getEntity_beyond (enc : Encoding) (b : UInt8) (rest : Bytes) :
    Beyond (b :: rest) (getEntity enc (b :: rest)).2 := by
  unfold getEntity
  split
  · rename_i b' digits hEq
    cases hEq
    refine (getReference_beyond enc 16 120 hexDigit digits).beyond (beyond_some ?_ ?_)
    · exact ⟨[b, 35, 120], rfl⟩
    · simp only [List.length_cons]
      omega
  · rename_i b' c digits _ hEq
    cases hEq
    refine (getReference_beyond enc 10 35 decimalDigit (c :: digits)).beyond
      (beyond_some ?_ ?_)
    · exact ⟨[b, 35], rfl⟩
    · simp only [List.length_cons]
      omega
  · split
    · rename_i str chr hFind
      exact beyond_drop (by simp) (entity_ne_nil (List.mem_of_find?_eq_some hFind))
    · exact beyond_tail b rest

/-! ## What can go wrong -/

/-- Somewhere in the text there is the beginning of a declaration. -/
def Declares (t : Bytes) : Prop :=
  ∃ s, s <:+ t ∧ stringEqualNoCase s (bytesOf "<?xml") = true

/-- An assertion fails only behind the beginning of a declaration, and the
other two need UTF-8, which is what `wide` says. -/
def Risk (t : Bytes) (wide : Prop) : Halt → Prop
  | .abort => Declares t
  | .endless => wide
  | .overrun => wide
  | .rounds => False

section Specs

variable {t : Bytes} {wide : Prop} {enc : Encoding} (hWide : enc = .utf8 → wide)

include hWide

theorem getChar_ends (b : UInt8) (rest : Bytes) :
    Ends (Risk t wide) (getChar enc (b :: rest)) fun r => Beyond (b :: rest) r.2 := by
  unfold getChar
  by_cases hEnc : enc = .utf8
  · simp only [if_pos hEnc]
    split
    · split
      · exact getEntity_beyond enc b rest
      · exact beyond_tail b rest
    · rename_i hLength
      split
      · exact hWide hEnc
      · refine beyond_drop (by simp) ?_
        have hPos : ∀ b, 0 < utf8Bytes b := by
          intro b
          unfold utf8Bytes
          repeat' split
          all_goals omega
        exact hPos b
  · simp only [if_neg hEnc, if_true]
    split
    · exact getEntity_beyond enc b rest
    · exact beyond_tail b rest

theorem keptText_ends (endTag : Bytes) {fuel : Nat} {p : Bytes}
    (hFuel : p.length < fuel) :
    Ends (Risk t wide) (keptText enc endTag fuel p) fun r => Within p r.2 := by
  induction fuel generalizing p with
  | zero => omega
  | succ fuel ih =>
      rw [keptText]
      split
      · intro q hq
        cases hq
        exact List.suffix_refl _
      · rename_i hGo
        cases p with
        | nil => exact absurd (Or.inl rfl) hGo
        | cons b rest =>
            refine (getChar_ends hWide b rest).bind fun r hr => ?_
            obtain ⟨value, next⟩ := r
            cases next with
            | none => exact fun _ hq => by cases hq
            | some q =>
                obtain ⟨hSuffix, hLess⟩ := hr q rfl
                rw [List.length_cons] at hFuel hLess
                refine (ih (by omega)).bind fun r' hr' => ?_
                exact fun q' hq' => (hr' q' hq').trans hSuffix

theorem condensedText_ends (endTag : Bytes) {fuel : Nat} {white : Bool} {p : Bytes}
    (hFuel : p.length < fuel) :
    Ends (Risk t wide) (condensedText enc endTag fuel white p) fun r =>
      Within p r.2 ∧ ∀ q ∈ r.2, q = [] ∨ stringEqual q endTag = true := by
  induction fuel generalizing p white with
  | zero => omega
  | succ fuel ih =>
      rw [condensedText]
      split
      · rename_i hEnd
        refine ⟨?_, ?_⟩
        · intro q hq
          cases hq
          exact List.suffix_refl _
        · intro q hq
          cases hq
          exact hEnd
      · rename_i hGo
        cases p with
        | nil => exact absurd (Or.inl rfl) hGo
        | cons b rest =>
            rw [List.length_cons] at hFuel
            split
            · refine (ih (by simpa using hFuel)).mono fun r hr => ⟨?_, hr.2⟩
              exact fun q hq => (hr.1 q hq).trans (List.suffix_cons b rest)
            · refine (getChar_ends hWide b rest).bind fun r hr => ?_
              obtain ⟨value, next⟩ := r
              cases next with
              | none => exact ⟨fun _ hq => (by cases hq), fun _ hq => (by cases hq)⟩
              | some q =>
                  obtain ⟨hSuffix, hLess⟩ := hr q rfl
                  rw [List.length_cons] at hLess
                  refine (ih (by omega)).bind fun r' hr' => ?_
                  exact ⟨fun q' hq' => (hr'.1 q' hq').trans hSuffix, hr'.2⟩

omit hWide in
theorem behindTag_beyond {endTag p : Bytes}
    (hTag : 0 < endTag.length) {e : Option Bytes} (hWithin : Within p e) :
    Beyond p (behindTag endTag e) := by
  intro q hq
  cases e with
  | none => cases hq
  | some p' =>
      rw [behindTag] at hq
      split at hq
      · cases hq
      · rename_i hLong
        cases hq
        refine ⟨(List.drop_suffix _ _).trans (hWithin p' rfl), ?_⟩
        have hLe := (hWithin p' rfl).length_le
        rw [List.length_drop]
        omega

/-- `ReadText` to an end tag, with the white space. -/
theorem readText_ends {endTag : Bytes} (hTag : 0 < endTag.length) (p : Bytes) :
    Ends (Risk t wide) (readText enc false endTag p) fun r => Beyond p r.2 := by
  refine (keptText_ends hWide endTag (Nat.lt_succ_self p.length)).bind fun r hr => ?_
  exact behindTag_beyond hTag hr

/-- `ReadText` to the next tag: the pointer is behind the bracket. -/
theorem readText_trimmed (p : Bytes) :
    Ends (Risk t wide) (readText enc true [60] p) fun r => Within p
      (r.2.map (60 :: ·)) := by
  unfold readText
  rw [if_pos rfl]
  cases hSkip : skipWhiteSpace enc (some p) with
  | none => exact fun _ hq => by cases hq
  | some q =>
      refine (condensedText_ends hWide [60] (Nat.lt_succ_self q.length)).bind
        fun r hr => ?_
      obtain ⟨value, e⟩ := r
      obtain ⟨hWithin, hTag⟩ := hr
      intro q' hq'
      obtain ⟨after, hAfter, rfl⟩ := Option.map_eq_some_iff.1 hq'
      cases e with
      | none => cases hAfter
      | some p' =>
          simp only [behindTag] at hAfter
          split at hAfter
          · cases hAfter
          · rename_i hLong
            cases hAfter
            rcases hTag p' rfl with rfl | hPrefix
            · simp at hLong
            · -- what the end tag was found on is the bracket and what is behind it
              obtain ⟨rest, rfl⟩ := List.isPrefixOf_iff_prefix.1 hPrefix
              exact (hWithin _ rfl).trans (skipWhiteSpace_some hSkip)

/-! ## Stamps and errors -/

omit hWide in
/-- A round moves on by at least a byte, and stops for a cut off mark only. -/
theorem stampStep_spec (b : UInt8) (rest : Bytes) :
    (∃ n, stampStep enc (b :: rest) = some (rest.drop n)) ∨
      stampStep enc (b :: rest) = none ∧ enc = .utf8 := by
  have hPair :
      ∀ c, ∃ n, (if rest.head? = some c then rest.tail else rest) = rest.drop n := by
    intro c
    by_cases hHead : rest.head? = some c
    · exact ⟨1, by rw [if_pos hHead, List.drop_one]⟩
    · exact ⟨0, by rw [if_neg hHead, List.drop_zero]⟩
  have hOne : ∃ n, some rest = some (rest.drop n) := ⟨0, by rw [List.drop_zero]⟩
  rw [stampStep]
  split
  · obtain ⟨n, hn⟩ := hPair 10
    exact Or.inl ⟨n, by rw [hn]⟩
  split
  · obtain ⟨n, hn⟩ := hPair 13
    exact Or.inl ⟨n, by rw [hn]⟩
  split
  · exact Or.inl hOne
  by_cases hEnc : enc = .utf8
  · simp only [if_pos hEnc]
    split
    · split
      · exact Or.inl ⟨2, rfl⟩
      · exact Or.inr ⟨rfl, hEnc⟩
    · exact Or.inl ⟨_, rfl⟩
  · simp only [if_neg hEnc, ite_self]
    exact Or.inl hOne

theorem stampLoop_ends (now : Bytes) {fuel : Nat} {p : Bytes}
    (hFuel : p.length < fuel) :
    Ends (Risk t wide) (stampLoop enc now fuel p) fun _ => True := by
  induction fuel generalizing p with
  | zero => omega
  | succ fuel ih =>
      rw [stampLoop]
      split
      · rename_i hBefore
        cases p with
        | nil => simp at hBefore
        | cons b rest =>
            rcases stampStep_spec b rest with ⟨n, hStep⟩ | ⟨hStep, hEnc⟩
            · rw [hStep]
              refine ih ?_
              rw [List.length_cons] at hFuel
              rw [List.length_drop]
              omega
            · rw [hStep]
              exact hWide hEnc
      · trivial

theorem stamp_meets (now : Bytes) (d : Data) :
    Meets (Risk t wide) (stamp enc now) d fun _ d' => d'.error = d.error := by
  have hLoop := stampLoop_ends (t := t) hWide now (Nat.lt_succ_self d.stamp.length)
  unfold Meets stamp
  cases hStamp : stampLoop enc now (d.stamp.length + 1) d.stamp with
  | ok p => exact rfl
  | error h =>
      rw [hStamp] at hLoop
      exact hLoop

theorem setError_meets (err : Error) (pError : Option Bytes) (d : Data) :
    Meets (Risk t wide) (setError err pError enc) d fun _ d' => d'.error ≠ none := by
  unfold setError
  by_cases hError : d.error.isSome
  · show Ends (Risk t wide) (if d.error.isSome then _ else _) _
    rw [if_pos hError]
    exact Option.isSome_iff_ne_none.1 hError
  · show Ends (Risk t wide) (if d.error.isSome then _ else _) _
    rw [if_neg hError]
    cases pError with
    | none => exact Option.some_ne_none err
    | some p =>
        refine Ends.mono (stamp_meets hWide p { d with error := some err })
          fun r hSame => ?_
        exact fun hNone => Option.some_ne_none err (hSame.symm.trans hNone)

/-- An error and a null pointer behind it. -/
theorem fails_meets {α : Type} (err : Error) (pError : Option Bytes) (a : α) (d : Data)
    {post : α → Data → Prop} (hPost : ∀ d', d'.error ≠ none → post a d') :
    Meets (Risk t wide) (do setError err pError enc; pure a) d post :=
  (setError_meets hWide err pError d).bind fun _ d' hError => meets_pure
    (hPost d' hError)

end Specs

/-! ## Nodes -/

/-- What an accepted document is made of. -/
inductive WellFormed : Node → Prop where
  | element {value : Bytes} {attributes : List (Bytes × Bytes)} {children : List Node}
      (hName : IsName value) (hKeys : ∀ a ∈ attributes, IsName a.1)
      (hDistinct : (attributes.map Prod.fst).Nodup)
      (hChildren : ∀ node ∈ children, WellFormed node) :
      WellFormed (.element value attributes children)
  | comment {text : Bytes} (hText : ¬ bytesOf "-->" <:+: text) : WellFormed
      (.comment text)
  | text {text : Bytes} : WellFormed (.text text)
  | declaration : WellFormed .declaration
  | unknown {text : Bytes} (hText : 62 ∉ text) : WellFormed (.unknown text)

/-- What the `Parse` of a node comes to. -/
structure Parsed (p : Bytes) (d : Data) (r : Node × Option Bytes)
    (d' : Data) : Prop where
  beyond : Beyond p r.2
  keeps : d'.error = none → d.error = none
  wellFormed : d'.error = none → WellFormed r.1

theorem parsed_failed {p : Bytes} {d d' : Data} {node : Node}
    (hError : d'.error ≠ none) :
    Parsed p d (node, none) d' :=
  ⟨beyond_none p, fun hNone => absurd hNone hError, fun hNone => absurd hNone hError⟩

theorem identify_spec {enc : Encoding} {p : Bytes} {kind : Kind}
    (hIdentify : identify enc p = some kind) :
    ∃ rest, skipWhiteSpace enc (some p) = some (60 :: rest) ∧
      (kind = .declaration → stringEqualNoCase (60 :: rest) (bytesOf "<?xml") = true) ∧
      (kind = .element → rest ≠ []) := by
  unfold identify at hIdentify
  split at hIdentify
  · rename_i rest hSkip
    refine ⟨rest, hSkip, ?_, ?_⟩
    · rintro rfl
      by_contra hNot
      rw [if_neg hNot] at hIdentify
      repeat' split at hIdentify
      all_goals cases hIdentify
    · rintro rfl rfl
      repeat' split at hIdentify
      all_goals simp_all
  · cases hIdentify

theorem upTo_append (tag p : Bytes) : (upTo tag p).1 ++ (upTo tag p).2 = p := by
  induction p with
  | nil => rfl
  | cons b rest ih =>
      rw [upTo]
      split
      · rfl
      · exact congrArg (b :: ·) ih

/-- The text in front of a tag does not have it. -/
theorem upTo_front_free {tag : Bytes} (hTag : tag ≠ []) (p : Bytes) :
    ¬ tag <:+: (upTo tag p).1 := by
  induction p with
  | nil => exact fun hInfix => hTag (List.infix_nil.1 hInfix)
  | cons b rest ih =>
      rw [upTo]
      split
      · exact fun hInfix => hTag (List.infix_nil.1 hInfix)
      · rename_i hNot
        intro hInfix
        rcases List.infix_cons_iff.1 hInfix with hPrefix | hLater
        · refine hNot (List.isPrefixOf_iff_prefix.2 (hPrefix.trans ?_))
          exact ⟨(upTo tag rest).2, congrArg (b :: ·) (upTo_append tag rest)⟩
        · exact ih hLater

theorem upTo_suffix (tag p : Bytes) : (upTo tag p).2 <:+ p :=
  ⟨(upTo tag p).1, upTo_append tag p⟩

section NodeSpecs

variable {t : Bytes} {wide : Prop} {enc : Encoding} (hWide : enc = .utf8 → wide)

include hWide

theorem unknownParse_meets {p : Bytes} (hIdentify : identify enc p = some .unknown)
    (d : Data) :
    Meets (Risk t wide) (unknownParse enc p) d (Parsed p d) := by
  obtain ⟨rest, hSkip, -, -⟩ := identify_spec hIdentify
  have hSuffix := skipWhiteSpace_some hSkip
  unfold unknownParse
  rw [hSkip]
  refine (stamp_meets hWide _ d).bind fun _ d₁ hSame => ?_
  have hHead : (60 :: rest).head? = some 60 := rfl
  rw [if_pos hHead]
  refine meets_pure ⟨?_, ?_, ?_⟩
  · have hAfter : (rest.dropWhile (· != 62)).drop 1 <:+ rest :=
      (List.drop_suffix _ _).trans (List.dropWhile_suffix _)
    exact (beyond_some (hAfter.trans (List.suffix_cons 60 rest))
      (Nat.lt_succ_of_le hAfter.length_le)).of_suffix hSuffix
  · intro hNone
    rw [← hSame, hNone]
  · intro _
    refine .unknown fun hMem => ?_
    have hByte := List.mem_takeWhile_imp hMem
    simp at hByte

theorem commentParse_meets {p : Bytes} (hIdentify : identify enc p = some .comment)
    (d : Data) :
    Meets (Risk t wide) (commentParse enc p) d (Parsed p d) := by
  obtain ⟨rest, hSkip, -, -⟩ := identify_spec hIdentify
  have hSuffix := skipWhiteSpace_some hSkip
  unfold commentParse
  rw [hSkip]
  refine (stamp_meets hWide _ d).bind fun _ d₁ hSame => ?_
  refine meets_ite (fun _ => ?_) fun _ => ?_
  · refine meets_pure ⟨?_, ?_, ?_⟩
    · have hAfter : (upTo (bytesOf "-->") (rest.drop 3)).2.drop 3 <:+ rest :=
        (List.drop_suffix _ _).trans ((upTo_suffix _ _).trans (List.drop_suffix _ _))
      exact (beyond_some (hAfter.trans (List.suffix_cons 60 rest))
        (Nat.lt_succ_of_le hAfter.length_le)).of_suffix hSuffix
    · intro hNone
      rw [← hSame, hNone]
    · exact fun _ => .comment (upTo_front_free (by decide) _)
  · exact fails_meets hWide _ _ _ d₁ fun d' hError => parsed_failed hError

theorem attributeFail_meets (document : Bool)
    (pError : Option Bytes) (name value : Bytes) (d : Data) :
    Meets (Risk t wide) (attributeFail document enc pError name value) d fun r d' =>
      r = (none, name, value) ∧ (d'.error = none → d.error = none) := by
  unfold attributeFail
  refine meets_ite (fun _ => ?_) fun _ => ?_
  · exact fails_meets hWide _ _ _ d fun d' hError =>
      ⟨rfl, fun hNone => absurd hNone hError⟩
  · exact meets_pure ⟨rfl, id⟩

theorem attributeValue_meets (document : Bool) (name : Bytes) (c : UInt8) (rest : Bytes)
    (d : Data) :
    Meets (Risk t wide) (attributeValue document enc name c rest) d fun r d' =>
      Within (c :: rest) r.1 ∧ r.2.1 = name ∧ (d'.error = none → d.error = none) := by
  unfold attributeValue
  refine meets_ite (fun _ => ?_) fun _ => ?_
  · have hTag : 0 < [c].length := Nat.one_pos
    refine lift_bind_meets (readText_ends hWide hTag rest) fun r hBeyond => ?_
    refine meets_pure ⟨fun q hq => ?_, rfl, id⟩
    exact (hBeyond q hq).1.trans (List.suffix_cons c rest)
  · refine meets_ite (fun _ => ?_) fun _ => ?_
    · refine (attributeFail_meets hWide document _ _ _ d).mono fun r d' hr => ?_
      obtain ⟨rfl, hKeeps⟩ := hr
      exact ⟨fun _ hq => (by cases hq), rfl, hKeeps⟩
    · refine meets_pure ⟨fun q hq => ?_, rfl, id⟩
      cases hq
      exact List.dropWhile_suffix _

/-- What reading an attribute comes to. -/
structure Attributed (p : Bytes) (d : Data)
    (r : Option Bytes × Bytes × Bytes) (d' : Data) : Prop where
  beyond : Beyond p r.1
  keeps : d'.error = none → d.error = none
  name : r.1 ≠ none → IsName r.2.1

theorem attributeParse_meets (document : Bool) (p : Bytes) (d : Data) :
    Meets (Risk t wide) (attributeParse document enc p) d (Attributed p d) := by
  unfold attributeParse
  have hNothing : Attributed p d (none, [], []) d :=
    ⟨beyond_none p, id, fun hSome => absurd rfl hSome⟩
  split
  · exact meets_pure hNothing
  · exact meets_pure hNothing
  · rename_i b rest hSkip
    have hSuffix := skipWhiteSpace_some hSkip
    refine (stamp_meets hWide _ d).bind fun _ d₁ hSame => ?_
    have hFail : ∀ pError name value, Meets (Risk t wide)
        (attributeFail document enc pError name value) d₁ (Attributed p d) := by
      intro pError name value
      refine (attributeFail_meets hWide document pError name value d₁).mono
        fun r d' hr => ?_
      obtain ⟨rfl, hKeeps⟩ := hr
      exact ⟨beyond_none p, fun hNone => hSame ▸ hKeeps hNone,
        fun hSome => absurd rfl hSome⟩
    split
    · exact hFail _ _ _
    · rename_i name q hRead
      obtain ⟨hName, hBeyond⟩ := readName_spec hRead
      refine meets_ite (fun _ => hFail _ _ _) fun _ => ?_
      split
      · rename_i q₁ hSkip₁
        split
        · rename_i c rest₂ hSkip₂
          have hIn : c :: rest₂ <:+ q :=
            (skipWhiteSpace_some hSkip₂).trans
              ((List.suffix_cons 61 q₁).trans (skipWhiteSpace_some hSkip₁))
          refine (attributeValue_meets hWide document name c rest₂ d₁).mono
            fun r d' hr => ?_
          obtain ⟨hWithin, hSameName, hKeeps⟩ := hr
          refine ⟨?_, fun hNone => hSame ▸ hKeeps hNone, fun _ => hSameName ▸ hName⟩
          have hAll : Within q r.1 := fun q' hq' => (hWithin q' hq').trans hIn
          exact (hAll.beyond hBeyond).of_suffix hSuffix
        · exact hFail _ _ _
      · exact hFail _ _ _

theorem textParse_meets (cdata : Bool) {b : UInt8} {rest : Bytes} (d : Data)
    (hText : cdata = true ∨ b ≠ 60) :
    Meets (Risk t wide) (textParse cdata enc (b :: rest)) d fun r d' =>
      Beyond (b :: rest) r.2 ∧ (d'.error = none → d.error = none) := by
  unfold textParse
  refine (stamp_meets hWide _ d).bind fun _ d₁ hSame => ?_
  rw [if_neg (List.cons_ne_nil b rest)]
  refine meets_ite (fun hData => ?_) fun hPlain => ?_
  · refine meets_ite (fun _ => ?_) fun _ => ?_
    · have hSuffix := upTo_suffix (bytesOf "]]>") ((b :: rest).drop 9)
      refine lift_bind_meets (readText_ends hWide (by decide) _) fun r hr => ?_
      have hWithin : Within rest r.2 := fun q hq =>
        (hr q hq).1.trans (hSuffix.trans (List.drop_suffix 8 rest))
      exact meets_pure ⟨hWithin.beyond (beyond_tail b rest), fun hNone => hSame ▸ hNone⟩
    · exact fails_meets hWide _ _ _ d₁ fun d' hError =>
        ⟨beyond_none _, fun hNone => absurd hNone hError⟩
  · refine lift_bind_meets (readText_trimmed hWide (b :: rest)) fun r hWithin => ?_
    refine meets_pure ⟨fun q hq => ⟨hWithin q hq, ?_⟩, fun hNone => hSame ▸ hNone⟩
    -- it stands at a bracket, and the text does not begin with one
    refine Nat.lt_of_le_of_ne (hWithin q hq).length_le fun hLength => ?_
    obtain ⟨after, -, rfl⟩ := Option.map_eq_some_iff.1 hq
    cases (hWithin _ hq).eq_of_length hLength
    rcases hText with hData | hNot
    · rw [hData, Bool.true_or] at hPlain
      exact hPlain rfl
    · exact hNot rfl

/-- Behind the beginning of a declaration. -/
theorem declarationLoop_meets (hDeclares : Declares t) {fuel : Nat} {p : Bytes}
    {e : Option Bytes} (hWithin : Within p e) (hFuel : left e < fuel) (encoding : Bytes)
    (d : Data) :
    Meets (Risk t wide) (declarationLoop enc fuel encoding e) d fun r d' =>
      Within p r.2 ∧ (d'.error = none → d.error = none) := by
  induction fuel generalizing e encoding d with
  | zero => omega
  | succ fuel ih =>
      have hNothing : Within p none := fun _ hq => by cases hq
      rcases e with _ | (_ | ⟨b, rest⟩)
      · exact meets_pure ⟨hNothing, id⟩
      · exact meets_pure ⟨hNothing, id⟩
      · have hIn := hWithin _ rfl
        change (b :: rest).length < fuel + 1 at hFuel
        rw [List.length_cons] at hFuel
        rw [declarationLoop]
        refine meets_ite (fun _ => ?_) fun hClose => ?_
        · refine meets_pure ⟨fun q hq => ?_, id⟩
          cases hq
          exact (List.suffix_cons b rest).trans hIn
        · have hSkip := skipWhite_suffix enc (b :: rest)
          have hHead := @skipWhite_head enc (b :: rest)
          generalize skipWhite enc (b :: rest) = q at hSkip hHead
          have hShort := hSkip.length_le
          rw [List.length_cons] at hShort
          simp only
          refine meets_ite (fun _ => meets_throw hDeclares) fun hSome => ?_
          have hPos := List.length_pos_iff.2 hSome
          have hAttribute : ∀ next : Option Bytes × Bytes × Bytes → Bytes,
              Meets (Risk t wide) (attributeParse false enc q >>= fun r =>
                declarationLoop enc fuel (next r) r.1) d fun r d' =>
                  Within p r.2 ∧ (d'.error = none → d.error = none) := by
            intro next
            refine (attributeParse_meets hWide false q d).bind fun r d₁ hr => ?_
            have hLeft := hr.beyond.left_lt hPos
            refine (ih ?_ (by omega) (next r) d₁).mono fun r' d' hr' =>
              ⟨hr'.1, fun hNone => hr.keeps (hr'.2 hNone)⟩
            exact fun q' hq' => (hr.beyond q' hq').1.trans (hSkip.trans hIn)
          refine meets_ite (fun _ => hAttribute fun _ => encoding) fun _ => ?_
          refine meets_ite (fun _ => hAttribute fun r => r.2.2) fun _ => ?_
          refine meets_ite (fun _ => hAttribute fun _ => encoding) fun _ => ?_
          -- what is read over is either a word, or nothing behind white space
          have hOver := List.dropWhile_suffix (fun b => b != 62 && !isSpace b) (l := q)
          refine ih (fun q' hq' => ?_) ?_ encoding d
          · cases hq'
            exact hOver.trans (hSkip.trans hIn)
          · show (q.dropWhile fun b => b != 62 && !isSpace b).length < fuel
            cases q with
            | nil => exact absurd rfl hSome
            | cons c tail =>
                have hSpace := hHead rfl
                by_cases hEnd : c = 62
                · have hStay : (c :: tail) ≠ b :: rest := by
                    intro hSame
                    cases hSame
                    exact hClose hEnd
                  have hLess : (c :: tail).length ≠ (b :: rest).length :=
                    fun hLength => hStay (hSkip.eq_of_length hLength)
                  have hLe := hOver.length_le
                  simp only [List.length_cons] at hLess hShort hLe ⊢
                  omega
                · rw [List.dropWhile_cons_of_pos (by simp [hEnd, hSpace])]
                  have hTail := (List.dropWhile_suffix (fun b => b != 62 && !isSpace b)
                    (l := tail)).length_le
                  rw [List.length_cons] at hShort
                  omega

theorem declarationParse_meets {p : Bytes} (hText : p <:+ t)
    (hIdentify : identify enc p = some .declaration) (d : Data) :
    Meets (Risk t wide) (declarationParse enc p) d fun r d' =>
      Beyond p r.2 ∧ (d'.error = none → d.error = none) := by
  obtain ⟨rest, hSkip, hXml, -⟩ := identify_spec hIdentify
  have hSuffix := skipWhiteSpace_some hSkip
  have hDeclares : Declares t := ⟨60 :: rest, hSuffix.trans hText, hXml rfl⟩
  unfold declarationParse
  rw [hSkip]
  simp only
  rw [if_pos (hXml rfl)]
  refine (stamp_meets hWide _ d).bind fun _ d₁ hSame => ?_
  have hWithin : Within rest (some (rest.drop 4)) := by
    intro q hq
    cases hq
    exact List.drop_suffix 4 rest
  have hFuel : left (some (rest.drop 4)) < rest.length + 1 :=
    Nat.lt_succ_of_le (List.drop_suffix 4 rest).length_le
  refine (declarationLoop_meets hWide hDeclares hWithin hFuel [] d₁).mono
    fun r d' hr => ?_
  exact ⟨(hr.1.beyond (beyond_tail 60 rest)).of_suffix hSuffix,
    fun hNone => hSame ▸ hr.2 hNone⟩

end NodeSpecs

/-! ## Elements -/

section ElementSpecs

variable {t : Bytes} {wide : Prop} {enc : Encoding} (hWide : enc = .utf8 → wide)
  {child : Kind → Bytes → Parser (Node × Option Bytes)} {bound : Nat}
  (hChild : ∀ kind p d, p <:+ t → p.length < bound → identify enc p = some kind →
    Meets (Risk t wide) (child kind p) d (Parsed p d))

include hWide

/-- The content of an element, with the nodes that were found in it. -/
structure Valued (p : Option Bytes) (d : Data)
    (r : List Node × Option Bytes) (d' : Data) : Prop where
  within : ∀ q ∈ r.2, ∃ p' ∈ p, q <:+ p'
  keeps : d'.error = none → d.error = none
  wellFormed : d'.error = none → ∀ node ∈ r.1, WellFormed node

include hChild in
theorem readValue_meets {fuel : Nat} {p : Option Bytes} (hText : ∀ q ∈ p, q <:+ t)
    (hBound : left p < bound) (hFuel : left p < fuel) (d : Data) :
    Meets (Risk t wide) (readValue child enc fuel p) d (Valued p d) := by
  induction fuel generalizing p d with
  | zero => omega
  | succ fuel ih =>
      rw [readValue]
      split
      · exact fails_meets hWide _ _ _ d fun d' hError =>
          ⟨fun _ hq => (by cases hq), fun hNone => absurd hNone hError,
            fun hNone => absurd hNone hError⟩
      · rename_i hSkip
        refine meets_pure ⟨fun q hq => ?_, id, fun _ _ hMem => (by cases hMem)⟩
        cases hq
        cases p with
        | none => cases hSkip
        | some p' => exact ⟨p', rfl, List.nil_suffix⟩
      · rename_i b rest hSkip
        cases p with
        | none => cases hSkip
        | some p' =>
            have hSuffix := skipWhiteSpace_some hSkip
            have hIn := hSuffix.trans (hText p' rfl)
            have hLe := hSuffix.length_le
            change p'.length < bound at hBound
            change p'.length < fuel + 1 at hFuel
            have hPos : 0 < (b :: rest).length := Nat.succ_pos _
            -- what is behind a part of the content, put in front of the rest of it
            have hRest : ∀ (e : Option Bytes) (d₁ : Data) (front : List Node),
                Beyond (b :: rest) e → (d₁.error = none → d.error = none) →
                (d₁.error = none → ∀ node ∈ front, WellFormed node) →
                Meets (Risk t wide) (readValue child enc fuel e >>= fun r =>
                  pure (front ++ r.1, r.2)) d₁ (Valued (some p') d) := by
              intro e d₁ front hBeyond hKeeps hFront
              have hLeft := hBeyond.left_lt hPos
              refine (ih (fun q hq => (hBeyond q hq).1.trans hIn)
                (by omega) (by omega) d₁).bind
                fun r d₂ hr => meets_pure ⟨?_, fun hNone => hKeeps (hr.keeps hNone), ?_⟩
              · intro q hq
                obtain ⟨q', hq', hSuffix'⟩ := hr.within q hq
                exact ⟨p', rfl, hSuffix'.trans ((hBeyond q' hq').1.trans hSuffix)⟩
              · intro hNone node hNode
                rcases List.mem_append.1 hNode with hOld | hNew
                · exact hFront (hr.keeps hNone) node hOld
                · exact hr.wellFormed hNone node hNew
            refine meets_ite (fun hOpen => ?_) fun hPlain => ?_
            · refine meets_ite (fun _ => ?_) fun _ => ?_
              · refine meets_pure ⟨fun q hq => ?_, id, fun _ _ hMem => (by cases hMem)⟩
                cases hq
                exact ⟨p', rfl, hSuffix⟩
              · split
                · exact meets_pure ⟨fun _ hq => (by cases hq), id,
                    fun _ _ hMem => (by cases hMem)⟩
                · rename_i kind hIdentify
                  refine (hChild kind (b :: rest) d hIn (by omega) hIdentify).bind
                    fun r d₁ hr => ?_
                  refine hRest r.2 d₁ [r.1] hr.beyond hr.keeps
                    fun hNone node hNode => ?_
                  rw [List.mem_singleton.1 hNode]
                  exact hr.wellFormed hNone
            · refine (textParse_meets hWide false d (Or.inr hPlain)).bind
                fun r d₁ hr => ?_
              obtain ⟨value, e⟩ := r
              show Meets (Risk t wide) (readValue child enc fuel e >>= fun r =>
                pure (if value.all isSpace then r.1 else .text value :: r.1, r.2)) d₁
                  (Valued (some p') d)
              cases hBlank : value.all isSpace with
              | true => exact hRest e d₁ [] hr.1 hr.2 fun _ _ hMem => (by cases hMem)
              | false =>
                  refine hRest e d₁ [.text value] hr.1 hr.2 fun _ node hNode => ?_
                  rw [List.mem_singleton.1 hNode]
                  exact .text

theorem readEndTag_meets (name : Bytes) (q : Option Bytes) (d : Data) :
    Meets (Risk t wide) (readEndTag enc name q) d fun e d' =>
      (∀ q' ∈ e, ∃ p ∈ q, q' <:+ p) ∧
      (d'.error = none → d.error = none ∧ e ≠ none) := by
  have hFail : ∀ pError, Meets (Risk t wide)
      (do setError .readingEndTag pError enc; pure (none : Option Bytes)) d fun e d' =>
        (∀ q' ∈ e, ∃ p ∈ q, q' <:+ p) ∧ (d'.error = none → d.error = none ∧ e ≠ none) :=
    fun pError => fails_meets hWide _ _ _ d fun d' hError =>
      ⟨fun _ hq => (by cases hq), fun hNone => absurd hNone hError⟩
  unfold readEndTag
  split
  · rename_i b rest
    refine meets_ite (fun _ => ?_) fun _ => hFail _
    split
    · rename_i after hSkip
      refine meets_pure ⟨fun q' hq' => ?_, fun hNone => ⟨hNone, Option.some_ne_none _⟩⟩
      cases hq'
      exact ⟨b :: rest, rfl, (List.suffix_cons 62 after).trans
        ((skipWhiteSpace_some hSkip).trans (List.drop_suffix _ _))⟩
    · exact hFail _
  · exact hFail _

include hChild in
theorem attributesLoop_meets {name : Bytes} (hName : IsName name) {fuel : Nat}
    {attributes : List (Bytes × Bytes)} (hKeys : ∀ a ∈ attributes, IsName a.1)
    (hDistinct : (attributes.map Prod.fst).Nodup) {p : Bytes} (hText : p <:+ t)
    (hBound : p.length < bound + 1) (hSome : p ≠ [])
    (hFuel : p.length < fuel) (d : Data) :
    Meets (Risk t wide) (attributesLoop child enc name fuel attributes p) d fun r d' =>
      Within p r.2 ∧ (d'.error = none → d.error = none ∧ WellFormed r.1) := by
  induction fuel generalizing attributes p d with
  | zero => omega
  | succ fuel ih =>
      have hFail :
          ∀ (err : Error) (pError : Option Bytes) (d₁ : Data), Meets (Risk t wide)
          (do setError err pError enc; pure (Node.element name attributes [], none)) d₁
            fun r d' => Within p r.2 ∧
              (d'.error = none → d.error = none ∧ WellFormed r.1) :=
        fun err pError d₁ => fails_meets hWide _ _ _ d₁ fun d' hError =>
          ⟨fun _ hq => (by cases hq), fun hNone => absurd hNone hError⟩
      rw [attributesLoop, if_neg hSome]
      split
      · rename_i b rest hSkip
        have hSuffix := skipWhiteSpace_some hSkip
        have hIn := hSuffix.trans hText
        have hLe := hSuffix.length_le
        rw [List.length_cons] at hLe
        refine meets_ite (fun _ => ?_) fun _ => ?_
        · refine meets_ite (fun _ => ?_) fun _ => hFail _ _ d
          refine meets_pure ⟨fun q hq => ?_, fun hNone => ⟨hNone, ?_⟩⟩
          · cases hq
            exact (List.tail_suffix rest).trans
              ((List.suffix_cons b rest).trans hSuffix)
          · exact .element hName hKeys hDistinct fun _ hMem => (by cases hMem)
        · refine meets_ite (fun _ => ?_) fun _ => ?_
          · have hTail := (List.suffix_cons b rest).trans hIn
            have hRest : left (some rest) < bound := by
              show rest.length < bound
              omega
            have hRounds : left (some rest) < rest.length + 2 := by
              show rest.length < rest.length + 2
              omega
            refine (readValue_meets hWide hChild (fun q hq => ?_) hRest hRounds d).bind
              fun r d₁ hr => ?_
            · cases hq
              exact hTail
            · refine (readEndTag_meets hWide name r.2 d₁).bind fun e d₂ he => ?_
              refine meets_pure ⟨fun q hq => ?_, fun hNone => ?_⟩
              · obtain ⟨p₁, hp₁, hSuffix₁⟩ := he.1 q hq
                obtain ⟨p₂, hp₂, hSuffix₂⟩ := hr.within p₁ hp₁
                cases hp₂
                exact hSuffix₁.trans
                  (hSuffix₂.trans ((List.suffix_cons b rest).trans hSuffix))
              · have hNone₁ := (he.2 hNone).1
                exact ⟨hr.keeps hNone₁,
                  .element hName hKeys hDistinct (hr.wellFormed hNone₁)⟩
          · refine (attributeParse_meets hWide true (b :: rest) d).bind fun r d₁ hr =>
              ?_
            obtain ⟨next, key, value⟩ := r
            simp only
            split
            · rename_i c q
              obtain ⟨hNext, hLess⟩ := hr.beyond _ rfl
              have hKey := hr.name (Option.some_ne_none _)
              refine meets_ite (fun _ => hFail _ _ d₁) fun hNew => ?_
              have hKeys' : ∀ a ∈ attributes ++ [(key, value)], IsName a.1 := by
                intro a ha
                rcases List.mem_append.1 ha with hOld | hLast
                · exact hKeys a hOld
                · rw [List.mem_singleton.1 hLast]
                  exact hKey
              have hDistinct' :
                  ((attributes ++ [(key, value)]).map Prod.fst).Nodup := by
                rw [List.map_append, List.nodup_append]
                refine ⟨hDistinct, List.pairwise_singleton _ _, ?_⟩
                intro x hx y hy hSame
                obtain ⟨a, ha, rfl⟩ := List.mem_map.1 hx
                rw [List.map_singleton, List.mem_singleton] at hy
                refine hNew (List.any_eq_true.2 ⟨a, ha, ?_⟩)
                rw [hSame, hy]
                exact decide_eq_true rfl
              rw [List.length_cons (a := b)] at hLess
              refine (ih hKeys' hDistinct' (hNext.trans hIn) (by omega)
                (List.cons_ne_nil c q) (by omega) d₁).mono fun r' d' hr' => ?_
              refine ⟨fun q' hq' => (hr'.1 q' hq').trans (hNext.trans hSuffix),
                fun hNone => ?_⟩
              exact ⟨hr.keeps (hr'.2 hNone).1, (hr'.2 hNone).2⟩
            · exact hFail _ _ d₁
      · exact hFail _ _ d

include hChild in
theorem elementParse_meets {p : Bytes} (hText : p <:+ t) (hBound : p.length < bound + 1)
    (hIdentify : identify enc p = some .element) (d : Data) :
    Meets (Risk t wide) (elementParse child enc p) d (Parsed p d) := by
  obtain ⟨rest, hSkip, -, hRest⟩ := identify_spec hIdentify
  have hSuffix := skipWhiteSpace_some hSkip
  have hLe := hSuffix.length_le
  rw [List.length_cons] at hLe
  unfold elementParse
  rw [hSkip]
  refine (stamp_meets hWide _ d).bind fun _ d₁ hSame => ?_
  rw [if_pos rfl]
  have hFail : ∀ (pError : Option Bytes) (node : Node), Meets (Risk t wide)
      (do setError .failedToReadElementName pError enc; pure (node, none)) d₁
        (Parsed p d) :=
    fun pError node => fails_meets hWide _ _ _ d₁ fun d' hError => parsed_failed hError
  split
  · rename_i hNull
    cases rest with
    | nil => exact absurd rfl (hRest rfl)
    | cons b tail => cases hNull
  · rename_i q hSkip₁
    have hIn : q <:+ rest := skipWhiteSpace_some hSkip₁
    split
    · exact hFail _ _
    · rename_i name after hRead
      obtain ⟨hName, hBeyond⟩ := readName_spec hRead
      obtain ⟨hAfter, hLess⟩ := hBeyond after rfl
      have hTail := (hAfter.trans hIn).trans (List.suffix_cons 60 rest)
      refine meets_ite (fun _ => hFail _ _) fun hSome => ?_
      have hShort := (hAfter.trans hIn).length_le
      have hKeys : ∀ a ∈ ([] : List (Bytes × Bytes)), IsName a.1 :=
        fun _ ha => by cases ha
      have hDistinct :
          (([] : List (Bytes × Bytes)).map Prod.fst).Nodup := List.nodup_nil
      refine (attributesLoop_meets hWide hChild hName hKeys hDistinct
        ((hTail.trans hSuffix).trans hText) (by omega) hSome
        (Nat.lt_succ_self _) d₁).mono fun r d' hr => ?_
      refine ⟨?_, fun hNone => hSame ▸ (hr.2 hNone).1, fun hNone => (hr.2 hNone).2⟩
      exact (hr.1.beyond
        (beyond_some hTail (by rw [List.length_cons]; omega))).of_suffix hSuffix

end ElementSpecs

section Documents

variable {t : Bytes} {wide : Prop} {enc : Encoding}

/-- **Every node of every text.** -/
theorem nodeParse_meets (hWide : enc = .utf8 → wide) {depth : Nat}
    {kind : Kind} {p : Bytes} (hText : p <:+ t) (hDepth : p.length < depth)
    (hIdentify : identify enc p = some kind) (d : Data) : Meets (Risk t wide)
    (nodeParse enc depth kind p) d (Parsed p d) := by
  induction depth generalizing kind p d with
  | zero => omega
  | succ depth ih =>
      cases kind with
      | declaration =>
          refine (declarationParse_meets hWide hText hIdentify d).bind fun r d₁ hr => ?_
          exact meets_pure ⟨hr.1, hr.2, fun _ => .declaration⟩
      | comment => exact commentParse_meets hWide hIdentify d
      | cdata =>
          obtain ⟨rest, hSkip, -, -⟩ := identify_spec hIdentify
          cases p with
          | nil => cases hSkip
          | cons b tail =>
              refine (textParse_meets hWide true d (Or.inl rfl)).bind fun r d₁ hr => ?_
              exact meets_pure ⟨hr.1, hr.2, fun _ => .text⟩
      | unknown => exact unknownParse_meets hWide hIdentify d
      | element =>
          have hChild : ∀ kind q d, q <:+ t → q.length < depth →
            identify enc q = some kind →
              Meets (Risk t wide) (nodeParse enc depth kind q) d (Parsed q d) :=
            fun kind q d hq hLength hKind => ih hq hLength hKind d
          exact elementParse_meets hWide hChild hText hDepth hIdentify d

/-- The nodes of a document. -/
structure Documented (d : Data) (nodes : List Node) (d' : Data) : Prop where
  keeps : d'.error = none → d.error = none
  wellFormed : d'.error = none → ∀ node ∈ nodes, WellFormed node

theorem documentLoop_meets (hDeclared : Declares t → wide)
    {fuel : Nat} {p : Option Bytes} (hWide : enc = .utf8 → wide)
    (hText : ∀ q ∈ p, q <:+ t) (hFuel : left p < fuel) (d : Data) :
    Meets (Risk t wide) (documentLoop fuel enc p) d (Documented d) := by
  induction fuel generalizing enc p d with
  | zero => omega
  | succ fuel ih =>
      have hNothing : Documented d [] d := ⟨id, fun _ _ hMem => (by cases hMem)⟩
      rcases p with _ | (_ | ⟨b, rest⟩)
      · exact meets_pure hNothing
      · exact meets_pure hNothing
      · have hIn := hText _ rfl
        change (b :: rest).length < fuel + 1 at hFuel
        -- behind a node, in the encoding that holds there
        have hRest : ∀ (enc' : Encoding) (e : Option Bytes) (node : Node) (d₁ : Data),
            (enc' = .utf8 → wide) → Beyond (b :: rest) e →
            (d₁.error = none → d.error = none) →
            (d₁.error = none → WellFormed node) →
            Meets (Risk t wide)
              (documentLoop fuel enc' (skipWhiteSpace enc' e) >>= fun nodes =>
              pure (node :: nodes)) d₁ (Documented d) := by
          intro enc' e node d₁ hWide' hBeyond hKeeps hNode
          have hSkip : Beyond (b :: rest) (skipWhiteSpace enc' e) := by
            cases e with
            | none => exact beyond_none _
            | some q => exact (skipWhiteSpace_within enc' q).beyond hBeyond
          have hLeft := hSkip.left_lt (Nat.succ_pos _)
          refine (ih hWide' (fun q hq => (hSkip q hq).1.trans hIn) (by omega) d₁).bind
            fun nodes d₂ hr => meets_pure ⟨fun hNone => hKeeps (hr.keeps hNone), ?_⟩
          intro hNone other hOther
          rcases List.mem_cons.1 hOther with rfl | hLater
          · exact hNode (hr.keeps hNone)
          · exact hr.wellFormed hNone other hLater
        have hDepth : (b :: rest).length < rest.length + 2 := Nat.lt_succ_self _
        rw [documentLoop]
        split
        · exact meets_pure hNothing
        · rename_i hIdentify
          obtain ⟨xml, hSkip, hXml, -⟩ := identify_spec hIdentify
          have hDeclares : Declares t :=
            ⟨60 :: xml, (skipWhiteSpace_some hSkip).trans hIn, hXml rfl⟩
          refine (declarationParse_meets hWide hIn hIdentify d).bind fun r d₁ hr => ?_
          exact hRest _ r.2 .declaration d₁ (fun _ => hDeclared hDeclares) hr.1 hr.2
            fun _ => .declaration
        · rename_i kind _ hIdentify
          refine (nodeParse_meets hWide hIn hDepth hIdentify d).bind fun r d₁ hr => ?_
          exact hRest enc r.2 r.1 d₁ hWide hr.beyond hr.keeps hr.wellFormed

end Documents

/-- The text begins with the byte order mark, or a declaration begins in it. -/
def MayBeUtf8 (t : Bytes) : Prop := stringEqual t [0xef, 0xbb, 0xbf] = true ∨ Declares t

theorem documentParse_meets (t : Bytes) (d : Data) :
    Meets (Risk t (MayBeUtf8 t)) (documentParse t) d (Documented d) := by
  unfold documentParse
  have hNever : Encoding.unknown = .utf8 → MayBeUtf8 t := fun hEnc => by cases hEnc
  refine meets_ite (fun _ => ?_) fun hSome => ?_
  · exact fails_meets hNever _ _ _ d fun d' hError =>
      ⟨fun hNone => absurd hNone hError, fun hNone => absurd hNone hError⟩
  · simp only
    generalize hEnc : (if stringEqual t
      [0xef, 0xbb, 0xbf] then Encoding.utf8 else .unknown) = enc
    have hWide : enc = .utf8 → MayBeUtf8 t := by
      rintro rfl
      left
      by_contra hNot
      rw [if_neg hNot] at hEnc
      cases hEnc
    have hWithin := skipWhiteSpace_within enc t
    have hFuel : left (skipWhiteSpace enc (some t)) < t.length + 1 := by
      cases hSkip : skipWhiteSpace enc (some t) with
      | none => exact Nat.succ_pos _
      | some q => exact Nat.lt_succ_of_le (hWithin q hSkip).length_le
    refine (documentLoop_meets Or.inr hWide hWithin hFuel d).bind fun nodes d₁ hr => ?_
    refine meets_ite (fun _ => ?_) fun _ => meets_pure hr
    exact fails_meets hWide _ _ _ d₁ fun d' hError =>
      ⟨fun hNone => absurd hNone hError, fun hNone => absurd hNone hError⟩

theorem loadFile_ends (content : Bytes) :
    Ends (Risk (normalize content) (MayBeUtf8 (normalize content)))
      (loadFile (some content))
      fun result => ∀ nodes, result = .ok nodes → ∀ node ∈ nodes, WellFormed node := by
  cases content with
  | nil =>
      intro nodes hNodes
      cases hNodes
  | cons b rest =>
      refine Ends.bind (documentParse_meets _ ⟨none, normalize (b :: rest)⟩)
        fun r hr => ?_
      obtain ⟨nodes, d⟩ := r
      cases hError : d.error with
      | some err =>
          simp only [hError]
          intro nodes' hNodes
          cases hNodes
      | none =>
          simp only [hError]
          intro nodes' hNodes
          cases hNodes
          exact hr.wellFormed hError

/-- The failure of a computation. -/
def haltOf {α : Type} : Except Halt α → Option Halt
  | .ok _ => none
  | .error h => some h

theorem haltOf_eq_some {α : Type} {x : Except Halt α} {h : Halt}
    (hx : haltOf x = some h) :
    x = .error h := by
  cases x with
  | ok a => cases hx
  | error h' => exact congrArg Except.error (Option.some.inj hx)

/-- **What is accepted is well formed.** If `LoadFile` returns true, every
element in the document has a name, its attributes have names and no two have
the same, and no comment has its end in it. -/
theorem loadFile_wellFormed {content : Bytes} {nodes : List Node}
    (hLoad : loadFile (some content) = .ok (.ok nodes)) :
    ∀ node ∈ nodes, WellFormed node := by
  have hEnds := loadFile_ends content
  rw [hLoad] at hEnds
  exact hEnds nodes rfl

/-- The document of a load that returned true. -/
def loadedOf : Except Halt (Except Error (List Node)) → Option (List Node)
  | .ok (.ok nodes) => some nodes
  | _ => none

theorem loadedOf_eq_some {x : Except Halt (Except Error (List Node))}
    {nodes : List Node} (hx : loadedOf x = some nodes) : x = .ok (.ok nodes) := by
  rcases x with h | (err | nodes')
  · cases hx
  · cases hx
  · cases hx
    rfl

/-- An attribute without quotes, one with an entity, and a text behind the root
element, which is not looked at. -/
theorem loadFile_wellFormed_bare :
    ∃ nodes,
      loadFile (some (bytesOf "<a b=1 c='&lt;'><!-- d --><e/></a> f")) =
        .ok (.ok nodes) ∧
      (elements nodes).map (fun e => (e.value, e.attributes)) =
        [(bytesOf "a", [(bytesOf "b", bytesOf "1"), (bytesOf "c", bytesOf "<")])] ∧
      ∀ node ∈ nodes, WellFormed node := by
  have hLoad :
      (loadedOf (loadFile (some (bytesOf "<a b=1 c='&lt;'><!-- d --><e/></a> f")))).map
      (fun nodes => (elements nodes).map fun e => (e.value, e.attributes)) =
        some [(bytesOf "a",
          [(bytesOf "b", bytesOf "1"), (bytesOf "c", bytesOf "<")])] := by
    decide +kernel
  obtain ⟨nodes, hNodes, hElements⟩ := Option.map_eq_some_iff.1 hLoad
  have hLoad' := loadedOf_eq_some hNodes
  exact ⟨nodes, hLoad', hElements, loadFile_wellFormed hLoad'⟩

end MGServer.Ports.TinyXmlParser
