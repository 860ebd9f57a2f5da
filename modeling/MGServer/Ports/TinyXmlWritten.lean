import MGServer.Ports.TinyXmlGrammar

/-!
# What tinyxml reads of a text that is in the grammar

Every node is read as the grammar says, and the pointer is then where the grammar
has the rest.  The documents follow by two inductions over the content: one for
`ReadValue` and, outside of the elements, one for `TiXmlDocument::Parse`.

Nothing goes wrong on the way: no error is set, and `Stamp` gets through the text
if its last two bytes begin no mark.
-/

namespace MGServer.Ports.TinyXmlParser

open MGServer.Verified.ByteString
open MGServer.Verified.Outcomes
open MGServer.Ports.TinyXml

/-! ## Results -/

/-- No `ef` is one of the last two bytes. -/
def Passable (t : Bytes) : Prop := ∀ b ∈ t.reverse.take 2, b ≠ 0xef

instance (t : Bytes) : Decidable (Passable t) :=
  decidable_of_iff (0xef ∉ t.reverse.take 2)
    ⟨fun hNot _ hb hEq => hNot (hEq ▸ hb), fun hAll hMem => hAll _ hMem rfl⟩

/-- No error so far, and the stamp is somewhere in the text. -/
structure Clear (t : Bytes) (d : Data) : Prop where
  error : d.error = none
  stamp : d.stamp <:+ t

/-- The parser returns, with this result and without an error. -/
def Gives {α : Type} (t : Bytes) (m : Parser α) (d : Data) (a : α) : Prop :=
  Meets (fun _ => False) m d fun a' d' => a' = a ∧ Clear t d'

section Rules

variable {α β : Type} {t : Bytes} {d : Data}

theorem gives_pure {a : α} (hClear : Clear t d) : Gives t (pure a) d a :=
  meets_pure ⟨rfl, hClear⟩

theorem Gives.bind {m : Parser α} {f : α → Parser β} {a : α} {b : β}
    (hGives : Gives t m d a) (hNext : ∀ d', Clear t d' → Gives t (f a) d' b) :
    Gives t (m >>= f) d b := by
  refine Meets.bind hGives fun a' d' hResult => ?_
  obtain ⟨rfl, hClear⟩ := hResult
  exact hNext d' hClear

theorem gives_lift {x : Except Halt α} {f : α → Parser β} {a : α}
    {b : β} (hx : x = .ok a) (hGives : Gives t (f a) d b) :
    Gives t (liftM x >>= f) d b := by
  rw [hx]
  exact hGives

end Rules

/-- The stamp is passed over a text that ends in no part of a mark. -/
theorem stampStep_ne_none {enc : Encoding} {t rest : Bytes}
    {b : UInt8} (hPass : Passable t) (hSuffix : b :: rest <:+ t) :
    stampStep enc (b :: rest) ≠ none := by
  intro hNone
  rw [stampStep] at hNone
  repeat' split at hNone
  any_goals cases hNone
  rename_i hByte _ hShort
  refine hPass b ?_ hByte
  obtain ⟨front, rfl⟩ := hSuffix
  rcases rest with _ | ⟨c, _ | ⟨c', rest⟩⟩
  · simp
  · simp
  · exact absurd (Nat.le_add_left 2 rest.length) hShort

section Nodes

variable {t : Bytes} (hPass : Passable t)

include hPass

theorem stampLoop_gives (enc : Encoding) (now : Bytes) {fuel : Nat} {p : Bytes}
    (hSuffix : p <:+ t) (hFuel : p.length < fuel) :
    Ends (fun _ => False) (stampLoop enc now fuel p) fun q => q <:+ t := by
  induction fuel generalizing p with
  | zero => cases hFuel
  | succ fuel ih =>
      rw [stampLoop]
      split
      · rename_i hBefore
        cases p with
        | nil => cases hBefore
        | cons b rest =>
            rcases stampStep_spec b rest with ⟨n, hStep⟩ | ⟨hStep, -⟩
            · rw [hStep]
              refine ih
                ((List.drop_suffix n rest).trans
                  ((List.suffix_cons b rest).trans hSuffix)) ?_
              rw [List.length_cons] at hFuel
              rw [List.length_drop]
              omega
            · exact absurd hStep (stampStep_ne_none hPass hSuffix)
      · exact hSuffix

theorem stamp_gives (enc : Encoding) (now : Bytes) {d : Data} (hClear : Clear t d) :
    Gives t (stamp enc now) d () := by
  have hLoop := stampLoop_gives hPass enc now hClear.stamp (Nat.lt_succ_self _)
  unfold Gives Meets stamp
  cases hStamp : stampLoop enc now (d.stamp.length + 1) d.stamp with
  | ok p =>
      rw [hStamp] at hLoop
      exact ⟨rfl, hClear.error, hLoop⟩
  | error h =>
      rw [hStamp] at hLoop
      exact hLoop

/-! ## Attributes -/

omit hPass in
theorem IsName.head {name : Bytes} (hName : IsName name) (rest : Bytes) :
    ∃ b p, name ++ rest = b :: p ∧ (isAlpha b || b == 95) = true := by
  obtain ⟨b, tail, rfl, hFirst⟩ := hName.first
  exact ⟨b, tail ++ rest, rfl, hFirst⟩

omit hPass in
theorem readName_append {name rest : Bytes} (hName : IsName name)
    (hRest : rest.head?.any isNameByte = false) :
    readName (name ++ rest) = some (name, rest) := by
  obtain ⟨b, p, hEq, hFirst⟩ := hName.head rest
  rw [hEq, readName, if_pos hFirst, ← hEq, takeWhile_exact hName.all hRest,
    dropWhile_exact hName.all hRest]

omit hPass in
/-- Control characters and the blank are no part of a name. -/
theorem isNameByte_of_low {b : UInt8} (hLow : b.toNat ≤ 32) : isNameByte b = false := by
  have hBelow :
      ∀ c : UInt8, 32 < c.toNat → (b == c) = false ∧ decide (c ≤ b) = false := by
    intro c hc
    refine ⟨beq_eq_false_iff_ne.2 fun hEq => ?_, decide_eq_false fun hLe => ?_⟩
    · rw [hEq] at hLow
      omega
    · rw [UInt8.le_iff_toNat_le] at hLe
      omega
  simp only [isNameByte, isAlphaNum, isAlpha, isDigit, hBelow 127 (by decide),
    hBelow 65 (by decide), hBelow 97 (by decide),
    hBelow 48 (by decide), hBelow 95 (by decide),
    hBelow 45 (by decide), hBelow 46 (by decide), hBelow 58 (by decide), Bool.false_and,
    Bool.or_self]

omit hPass in
theorem isNameByte_of_isSpace {b : UInt8} (hSpace : isSpace b = true) :
    isNameByte b = false := by
  refine isNameByte_of_low ?_
  simp only [isSpace, Bool.or_eq_true, beq_iff_eq, Bool.and_eq_true, decide_eq_true_eq,
    UInt8.le_iff_toNat_le] at hSpace
  rcases hSpace with rfl | ⟨-, hHigh⟩
  · exact Nat.le_refl _
  · exact hHigh.trans (by decide)

omit hPass in
theorem isSpace_of_first {b : UInt8} (hFirst : (isAlpha b || b == 95) = true) :
    isSpace b = false := by
  by_contra hSpace
  have hName := isNameByte_of_isSpace (Bool.not_eq_false _ ▸ hSpace)
  rw [isNameByte_of_first hFirst] at hName
  cases hName

omit hPass in
theorem blank_head {w p : Bytes} {b : UInt8} (hBlank : Blank w)
    (hb : isNameByte b = false) :
    (w ++ b :: p).head?.any isNameByte = false := by
  cases w with
  | nil => exact hb
  | cons c w => exact isNameByte_of_isSpace (hBlank c List.mem_cons_self)

omit hPass in
theorem quote_solid {quote : UInt8} (hQuote : quote = 39 ∨ quote = 34) :
    quote ≠ 0xef ∧ isSpace quote = false := by
  rcases hQuote with rfl | rfl <;> decide

/-- An attribute in front of something else. -/
theorem attributeParse_gives (document : Bool) {enc : Encoding}
    {w name p value rest : Bytes} (hBlank : Blank w) (hName : IsName name)
    (hMark : Unmarked enc p) (hAssigned : Assigned enc name p value rest)
    (hRest : rest ≠ []) {d : Data} (hClear : Clear t d) :
    Gives t (attributeParse document enc (w ++ p)) d (some rest, name, value) := by
  obtain @⟨w₁, w₂, q, _, _, quote, hBlank₁, hBlank₂, hQuote, hValue⟩ := hAssigned
  have hRead : readName (name ++ (w₁ ++ 61 :: (w₂ ++ quote :: q))) =
      some (name, w₁ ++ 61 :: (w₂ ++ quote :: q)) :=
    readName_append hName (blank_head hBlank₁ (by decide))
  obtain ⟨b, tail, hEq, hFirst⟩ := hName.head (w₁ ++ 61 :: (w₂ ++ quote :: q))
  rw [hEq] at hMark hRead ⊢
  have hSolid := quote_solid hQuote
  unfold attributeParse
  rw [skipWhiteSpace_blank hBlank hMark (isSpace_of_first hFirst)]
  refine (stamp_gives hPass enc _ hClear).bind fun d₁ hClear₁ => ?_
  simp only [hRead,
    if_neg (List.append_ne_nil_of_right_ne_nil w₁ (List.cons_ne_nil 61 _)),
    skipWhiteSpace_blank hBlank₁ (unmarked_of_ne (b := 61) (by decide) _) rfl,
    skipWhiteSpace_blank hBlank₂ (unmarked_of_ne hSolid.1 _) hSolid.2]
  unfold attributeValue
  rw [if_pos hQuote]
  exact gives_lift (hValue.readText hRest) (gives_pure hClear₁)

/-! ## Declarations -/

omit hPass in
theorem Assigned.length_lt {enc : Encoding} {name p value rest : Bytes}
    (hAssigned : Assigned enc name p value rest) : rest.length < p.length := by
  obtain ⟨-, -, -, hValue⟩ := hAssigned
  have hLess := hValue.length_lt
  simp only [List.length_append, List.length_cons]
  omega

omit hPass in
theorem Declaring.ne_nil {enc : Encoding} {p encoding found rest : Bytes}
    (hDeclaring : Declaring enc p encoding found rest) : p ≠ [] := by
  cases hDeclaring with
  | done hBlank => exact List.append_ne_nil_of_right_ne_nil _ (List.cons_ne_nil _ _)
  | other hBlank hKey hAssigned hRest =>
      exact List.append_ne_nil_of_right_ne_nil _
        (List.length_pos_iff.1 (Nat.zero_lt_of_lt hAssigned.length_lt))
  | encoding hBlank hAssigned hRest =>
      exact List.append_ne_nil_of_right_ne_nil _
        (List.length_pos_iff.1 (Nat.zero_lt_of_lt hAssigned.length_lt))

omit hPass in
theorem stringEqualNoCase_append (tag rest : Bytes) :
    stringEqualNoCase (tag ++ rest) tag = true := by
  rw [stringEqualNoCase, List.map_append]
  exact List.isPrefixOf_iff_prefix.2 (List.prefix_append _ _)

omit hPass in
/-- White space in front of the next word makes no difference to the loop. -/
theorem declarationLoop_blank {enc : Encoding} {w p : Bytes}
    {b : UInt8} (hBlank : Blank w) (hMark : Unmarked enc (b :: p))
    (hSolid : isSpace b = false) (hOpen : b ≠ 62) (fuel : Nat) (encoding : Bytes) :
    declarationLoop enc (fuel + 1) encoding (some (w ++ b :: p)) =
      declarationLoop enc (fuel + 1) encoding (some (b :: p)) := by
  cases w with
  | nil => rfl
  | cons c w =>
      have hNot : c ≠ 62 := by
        rintro rfl
        cases hBlank 62 List.mem_cons_self
      have hSkip := skipWhite_blank hBlank hMark (p := b :: p) hSolid
      have hSame := skipWhite_blank blank_nil hMark (p := b :: p) hSolid
      rw [List.cons_append] at hSkip
      rw [List.nil_append] at hSame
      simp only [List.cons_append, declarationLoop, if_neg hNot,
        if_neg hOpen, hSkip, hSame]

omit hPass in
/-- What the loop takes the beginning of a pair for. -/
theorem Assigned.declares {enc : Encoding} {key p value rest : Bytes}
    (hAssigned : Assigned enc key p value rest)
    (hKey : key = bytesOf "version" ∨ key = bytesOf "standalone" ∨
    key = bytesOf "encoding") :
    stringEqualNoCase p (bytesOf "version") = decide (key = bytesOf "version") ∧
      stringEqualNoCase p (bytesOf "encoding") = decide (key = bytesOf "encoding") ∧
      stringEqualNoCase p (bytesOf "standalone") =
        decide (key = bytesOf "standalone") := by
  obtain ⟨-, -, -, -⟩ := hAssigned
  rcases hKey with rfl | rfl | rfl
  · exact ⟨stringEqualNoCase_append _ _, rfl, rfl⟩
  · exact ⟨rfl, rfl, stringEqualNoCase_append _ _⟩
  · exact ⟨rfl, stringEqualNoCase_append _ _, rfl⟩

omit hPass in
theorem Assigned.head {enc : Encoding} {key p value rest : Bytes}
    (hAssigned : Assigned enc key p value rest)
    (hKey : key = bytesOf "version" ∨ key = bytesOf "standalone" ∨
    key = bytesOf "encoding") :
    IsName key ∧ ∃ b tail, p = b :: tail ∧ b ≠ 0xef ∧ isSpace b = false ∧ b ≠ 62 := by
  obtain ⟨-, -, -, -⟩ := hAssigned
  rcases hKey with rfl | rfl | rfl
  · exact ⟨isName_cons rfl (by decide), 118, _, rfl, by decide, rfl, by decide⟩
  · exact ⟨isName_cons rfl (by decide), 115, _, rfl, by decide, rfl, by decide⟩
  · exact ⟨isName_cons rfl (by decide), 101, _, rfl, by decide, rfl, by decide⟩

/-- A pair in a declaration, behind which the loop goes on. -/
theorem declarationLoop_attribute {enc : Encoding}
    {w key p value q : Bytes} (hBlank : Blank w)
    (hKey : key = bytesOf "version" ∨ key = bytesOf "standalone" ∨
    key = bytesOf "encoding") (hAssigned : Assigned enc key p value q) (hq : q ≠ [])
      {fuel : Nat} (encoding : Bytes)
    {d : Data} (hClear : Clear t d) {result : Bytes × Option Bytes}
    (hNext : ∀ d', Clear t d' → Gives t (declarationLoop enc fuel
      (if key = bytesOf "encoding" then value else encoding) (some q)) d' result) :
    Gives t (declarationLoop enc (fuel + 1) encoding (some (w ++ p))) d result := by
  obtain ⟨hVersion, hEncoding, hStandalone⟩ := hAssigned.declares hKey
  obtain ⟨hName, b, tail, rfl, hMark, hSolid, hOpen⟩ := hAssigned.head hKey
  have hUnmarked : Unmarked enc (b :: tail) := unmarked_of_ne hMark tail
  have hSkip := skipWhite_blank blank_nil hUnmarked (p := b :: tail) hSolid
  have hPair := fun d (hClear : Clear t d) =>
    attributeParse_gives hPass false blank_nil hName hUnmarked hAssigned hq hClear
  rw [List.nil_append] at hSkip hPair
  rw [declarationLoop_blank hBlank hUnmarked hSolid hOpen]
  simp only [declarationLoop, if_neg hOpen, hSkip,
    if_neg (List.cons_ne_nil b tail), hVersion, hEncoding, hStandalone]
  rcases hKey with rfl | rfl | rfl
  · exact (hPair d hClear).bind hNext
  · exact (hPair d hClear).bind hNext
  · exact (hPair d hClear).bind hNext

theorem declarationLoop_gives {enc : Encoding} {p encoding found rest : Bytes}
    (hDeclaring : Declaring enc p encoding found rest) {fuel : Nat}
    (hFuel : p.length < fuel) {d : Data} (hClear : Clear t d) :
    Gives t (declarationLoop enc fuel encoding (some p)) d (found, some rest) := by
  induction hDeclaring generalizing fuel d with
  | @done w encoding rest hBlank =>
      obtain ⟨fuel, rfl⟩ : ∃ n, fuel = n + 2 := by
        simp only [List.length_append, List.length_cons] at hFuel
        exact ⟨fuel - 2, by omega⟩
      have hMark : Unmarked enc (63 :: 62 :: rest) := unmarked_of_ne (by decide) _
      have hSkip := skipWhite_blank blank_nil hMark rfl
      rw [List.nil_append] at hSkip
      rw [declarationLoop_blank hBlank hMark rfl (by decide)]
      simp only [declarationLoop, hSkip]
      exact gives_pure hClear
  | other hBlank hKey hAssigned hRest ih =>
      obtain ⟨fuel, rfl⟩ : ∃ n, fuel = n + 1 := ⟨fuel - 1, by omega⟩
      refine declarationLoop_attribute hPass hBlank
        (hKey.imp_right Or.inl) hAssigned hRest.ne_nil
        _ hClear fun d' hClear' => ?_
      have hLess := hAssigned.length_lt
      rw [List.length_append] at hFuel
      have hNext := ih (by omega : _ < fuel) hClear'
      rcases hKey with rfl | rfl
      · exact hNext
      · exact hNext
  | encoding hBlank hAssigned hRest ih =>
      obtain ⟨fuel, rfl⟩ : ∃ n, fuel = n + 1 := ⟨fuel - 1, by omega⟩
      refine declarationLoop_attribute hPass hBlank
        (Or.inr (Or.inr rfl)) hAssigned hRest.ne_nil _
        hClear fun d' hClear' => ?_
      have hLess := hAssigned.length_lt
      rw [List.length_append] at hFuel
      exact ih (by omega : _ < fuel) hClear'

theorem declarationParse_gives {enc : Encoding} {p found rest : Bytes}
    (hDeclaring : Declaring enc p [] found rest) {d : Data} (hClear : Clear t d) :
    Gives t (declarationParse enc (bytesOf "<?xml" ++ p)) d (found, some rest) := by
  have hSkip :
      skipWhiteSpace enc (some (bytesOf "<?xml" ++ p)) = some (bytesOf "<?xml" ++ p) :=
    skipWhiteSpace_blank blank_nil (unmarked_of_ne (by decide) _) rfl
  unfold declarationParse
  rw [hSkip]
  show Gives t
    (if stringEqualNoCase (bytesOf "<?xml" ++ p) (bytesOf "<?xml") then _ else _) d _
  rw [if_pos (stringEqualNoCase_append _ _)]
  refine (stamp_gives hPass enc _ hClear).bind fun d₁ hClear₁ => ?_
  refine declarationLoop_gives hPass hDeclaring ?_ hClear₁
  show p.length < (bytesOf "?xml" ++ p).length + 1
  rw [List.length_append]
  omega

/-! ## Comments, sections and foreign tags -/

omit hPass in
theorem skipWhiteSpace_open (enc : Encoding) (p : Bytes) :
    skipWhiteSpace enc (some (60 :: p)) = some (60 :: p) :=
  skipWhiteSpace_blank blank_nil (unmarked_of_ne (by decide) _) rfl

omit hPass in
/-- The first place of `tag` is behind a text it does not begin in. -/
theorem upTo_first {tag value : Bytes} (rest : Bytes)
    (hEnd : ¬ tag <:+: value ++ tag.dropLast) (hTag : tag ≠ []) :
    upTo tag (value ++ (tag ++ rest)) = (value, tag ++ rest) := by
  induction value with
  | nil =>
      obtain ⟨b, tail, rfl⟩ := List.exists_cons_of_ne_nil hTag
      have hHere : stringEqual (b :: (tail ++ rest)) (b :: tail) = true :=
        List.isPrefixOf_iff_prefix.2 (List.prefix_append (b :: tail) rest)
      show upTo (b :: tail) (b :: (tail ++ rest)) = _
      rw [upTo, if_pos hHere]
      rfl
  | cons b value ih =>
      have hNot : ¬ stringEqual (b :: (value ++ (tag ++ rest))) tag = true := by
        intro hHere
        refine hEnd (List.IsPrefix.isInfix ?_)
        have hPrefix :
            tag <+: (b :: value ++ tag.dropLast) ++ ([tag.getLast hTag] ++ rest) := by
          rw [List.append_assoc, ← List.append_assoc tag.dropLast,
            List.dropLast_append_getLast]
          exact List.isPrefixOf_iff_prefix.1 hHere
        refine List.prefix_of_prefix_length_le hPrefix (List.prefix_append _ _) ?_
        have hPos := List.length_pos_iff.2 hTag
        rw [List.cons_append, List.length_cons,
          List.length_append, List.length_dropLast]
        omega
      have hRest : ¬ tag <:+: value ++ tag.dropLast := fun hInfix =>
        hEnd (hInfix.trans (List.suffix_cons b _).isInfix)
      rw [List.cons_append, upTo, if_neg hNot, ih hRest]

theorem commentParse_gives {enc : Encoding} {value rest : Bytes}
    (hEnd : ¬ bytesOf "-->" <:+: value ++ bytesOf "--")
    {d : Data} (hClear : Clear t d) :
    Gives t (commentParse enc (bytesOf "<!--" ++ (value ++ (bytesOf "-->" ++ rest)))) d
      (.comment value, some rest) := by
  have hUpTo : upTo (bytesOf "-->") (value ++ (bytesOf "-->" ++ rest)) = _ :=
    upTo_first rest hEnd (by decide)
  generalize value ++ (bytesOf "-->" ++ rest) = p at hUpTo
  have hTag : stringEqual (60 :: (bytesOf "!--" ++ p)) (bytesOf "<!--") = true := rfl
  have hDrop : (bytesOf "!--" ++ p).drop 3 = p := rfl
  unfold commentParse
  rw [show bytesOf "<!--" ++ p = 60 :: (bytesOf "!--" ++ p) from rfl,
    skipWhiteSpace_open]
  refine (stamp_gives hPass enc _ hClear).bind fun d₁ hClear₁ => ?_
  rw [if_pos hTag, hDrop, hUpTo]
  exact gives_pure hClear₁

theorem cdataParse_gives {enc : Encoding} {value rest : Bytes}
    (hEnd : ¬ bytesOf "]]>" <:+: value ++ bytesOf "]]") (hRest : rest ≠ []) {d : Data}
    (hClear : Clear t d) :
    Gives t (textParse true enc
      (bytesOf "<![CDATA[" ++ (value ++ (bytesOf "]]>" ++ rest)))) d
      (value, some rest) := by
  have hUpTo : upTo (bytesOf "]]>") (value ++ (bytesOf "]]>" ++ rest)) = _ :=
    upTo_first rest hEnd (by decide)
  generalize value ++ (bytesOf "]]>" ++ rest) = p at hUpTo
  have hTag : stringEqual (bytesOf "<![CDATA[" ++ p) (bytesOf "<![CDATA[") = true :=
    List.isPrefixOf_iff_prefix.2 (List.prefix_append _ _)
  have hDrop : (bytesOf "<![CDATA[" ++ p).drop 9 = p := rfl
  have hClose : readText enc false (bytesOf "]]>") (bytesOf "]]>" ++ rest) =
    .ok ([], some rest) := by
    have hHere : stringEqual (bytesOf "]]>" ++ rest) (bytesOf "]]>") = true :=
      List.isPrefixOf_iff_prefix.2 (List.prefix_append _ _)
    have hLong : ¬ (bytesOf "]]>" ++ rest).length ≤ (bytesOf "]]>").length := by
      have hPos := List.length_pos_iff.2 hRest
      rw [List.length_append]
      omega
    unfold readText
    rw [if_neg Bool.false_ne_true, keptText, if_pos (Or.inr hHere)]
    simp only [ok_bind, behindTag, if_neg hLong, List.drop_left]
  unfold textParse
  refine (stamp_gives hPass enc _ hClear).bind fun d₁ hClear₁ => ?_
  rw [if_neg (by exact List.cons_ne_nil _ _), Bool.true_or, if_pos rfl,
    if_pos hTag, hDrop, hUpTo]
  exact gives_lift hClose (gives_pure hClear₁)

theorem unknownParse_gives {enc : Encoding} {value rest : Bytes} (hClosed : 62 ∉ value)
    {d : Data} (hClear : Clear t d) :
    Gives t (unknownParse enc (60 :: (value ++ 62 :: rest))) d
      (.unknown value, some rest) := by
  have hAhead : ∀ b ∈ value, (b != 62) = true := fun b hb =>
    bne_iff_ne.2 fun hEq => hClosed (hEq ▸ hb)
  unfold unknownParse
  rw [skipWhiteSpace_open]
  refine (stamp_gives hPass enc _ hClear).bind fun d₁ hClear₁ => ?_
  rw [if_pos (by rfl), List.tail_cons, takeWhile_exact hAhead rfl,
    dropWhile_exact hAhead rfl]
  exact gives_pure hClear₁

/-! ## What `Identify` takes them for -/

omit hPass in
theorem identify_declaration (enc : Encoding) (p : Bytes) :
    identify enc (bytesOf "<?xml" ++ p) = some .declaration := by
  unfold identify
  rw [show bytesOf "<?xml" ++ p = 60 :: (bytesOf "?xml" ++ p) from rfl,
    skipWhiteSpace_open]
  exact if_pos (stringEqualNoCase_append (bytesOf "<?xml") p)

omit hPass in
theorem identify_comment (enc : Encoding) (p : Bytes) :
    identify enc (bytesOf "<!--" ++ p) = some .comment := by
  unfold identify
  rw [show bytesOf "<!--" ++ p = 60 :: (bytesOf "!--" ++ p) from rfl,
    skipWhiteSpace_open]
  rfl

omit hPass in
theorem identify_cdata (enc : Encoding) (p : Bytes) :
    identify enc (bytesOf "<![CDATA[" ++ p) = some .cdata := by
  unfold identify
  rw [show bytesOf "<![CDATA[" ++ p = 60 :: (bytesOf "![CDATA[" ++ p) from rfl,
    skipWhiteSpace_open]
  rfl

omit hPass in
theorem stringEqual_of_ne {b c : UInt8} (hNe : b ≠ c) (p tag : Bytes) :
    stringEqual (b :: p) (c :: tag) = false := by
  rw [stringEqual, List.isPrefixOf, beq_eq_false_iff_ne.2 hNe.symm, Bool.false_and]

omit hPass in
theorem isPrefixOf_closed {tag : Bytes} (hTag : 62 ∉ tag) (value rest : Bytes) :
    tag.isPrefixOf (value ++ 62 :: rest) = tag.isPrefixOf value := by
  induction tag generalizing value with
  | nil => rfl
  | cons b tag ih =>
      have hb : (b == 62) = false :=
        beq_eq_false_iff_ne.2 fun hEq => hTag (hEq ▸ List.mem_cons_self)
      cases value with
      | nil =>
          show ((b == 62) && tag.isPrefixOf rest) = false
          rw [hb, Bool.false_and]
      | cons c value =>
          rw [List.cons_append, List.isPrefixOf, List.isPrefixOf,
            ih (fun hMem => hTag (List.mem_cons_of_mem b hMem))]

omit hPass in
theorem identify_unknown (enc : Encoding) {value : Bytes} (hForeign : Foreign value)
    (rest : Bytes) : identify enc (60 :: (value ++ 62 :: rest)) = some .unknown := by
  have hDeclaration :
      stringEqualNoCase (60 :: (value ++ 62 :: rest)) (bytesOf "<?xml") = false := by
    have hTag : 62 ∉ (bytesOf "?xml").map toLower := by decide
    have hClosed := isPrefixOf_closed hTag (value.map toLower) (rest.map toLower)
    refine Eq.trans ?_ (hClosed.trans hForeign.declaration)
    rw [stringEqualNoCase, List.map_cons, List.map_append, List.map_cons]
    rfl
  have hComment :
      stringEqual (60 :: (value ++ 62 :: rest)) (bytesOf "<!--") = false := by
    have hTag : 62 ∉ bytesOf "!--" := by decide
    exact (isPrefixOf_closed hTag value rest).trans hForeign.comment
  have hCdata :
      stringEqual (60 :: (value ++ 62 :: rest)) (bytesOf "<![CDATA[") = false := by
    have hTag : 62 ∉ bytesOf "![CDATA[" := by decide
    exact (isPrefixOf_closed hTag value rest).trans hForeign.cdata
  have hElement :
      ((value ++ 62 :: rest).head?.any fun b => isAlpha b || b == 95) = false := by
    cases value with
    | nil => rfl
    | cons b value => exact (hForeign.first b rfl).1
  unfold identify
  rw [skipWhiteSpace_open]
  simp only [hDeclaration, hComment, hCdata, hElement,
    Bool.false_eq_true, if_false, ite_self]

omit hPass in
/-- The first byte of a name begins none of the other tags. -/
theorem first_ne {b : UInt8} (hFirst : (isAlpha b || b == 95) = true) :
    toLower b ≠ 63 ∧ b ≠ 33 ∧ b ≠ 47 ∧ b ≠ 62 := by
  refine ⟨fun hEq => ?_, ?_, ?_, ?_⟩
  · have hMark : b = 63 := by
      unfold toLower at hEq
      split at hEq
      · rename_i hUpper
        simp only [Bool.and_eq_true, decide_eq_true_eq, UInt8.le_iff_toNat_le] at hUpper
        have hLow : 65 ≤ b.toNat := hUpper.1
        have hHigh : b.toNat ≤ 90 := hUpper.2
        have hSum : (b.toNat + 32) % 256 = 63 := congrArg UInt8.toNat hEq
        omega
      · exact hEq
    rw [hMark] at hFirst
    cases hFirst
  all_goals
    rintro rfl
    cases hFirst

omit hPass in
theorem identify_element (enc : Encoding) {name : Bytes}
    (hName : IsName name) (p : Bytes) :
    identify enc (60 :: (name ++ p)) = some .element := by
  obtain ⟨b, tail, hEq, hFirst⟩ := hName.head p
  obtain ⟨hMark, hBang, -, -⟩ := first_ne hFirst
  rw [hEq]
  have hDeclaration :
      stringEqualNoCase (60 :: b :: tail) (bytesOf "<?xml") = false := by
    show ((63 == toLower b) && _) = false
    rw [beq_eq_false_iff_ne.2 hMark.symm, Bool.false_and]
  have hOther : ∀ tag, stringEqual (60 :: b :: tail) (60 :: 33 :: tag) = false :=
    fun tag => stringEqual_of_ne hBang tail tag
  have hAlpha : ((b :: tail).head?.any fun b => isAlpha b || b == 95) = true := hFirst
  unfold identify
  rw [skipWhiteSpace_open]
  show (if stringEqualNoCase (60 :: b :: tail) (bytesOf "<?xml") = true then _ else
    if stringEqual (60 :: b :: tail) (60 :: 33 :: bytesOf "--") = true then _ else
    if stringEqual (60 :: b :: tail) (60 :: 33 :: bytesOf "[CDATA[") = true then _ else
    if stringEqual (60 :: b :: tail) (60 :: 33 :: []) = true then _ else _) = _
  rw [hDeclaration, hOther, hOther, hOther]
  exact if_pos hAlpha

/-! ## Elements -/

omit hPass in
theorem Attributes.length_le {enc : Encoding} {p rest : Bytes}
    {attributes : List (Bytes × Bytes)}
    (hAttributes : Attributes enc p attributes rest) : rest.length ≤ p.length := by
  induction hAttributes with
  | done hBlank =>
      rw [List.length_append]
      exact Nat.le_add_left _ _
  | pair hBlank hApart hName hMark hAssigned hRest ih =>
      have hLess := hAssigned.length_lt
      rw [List.length_append]
      omega

omit hPass in
/-- A name is not continued by what stands behind it. -/
theorem Attributes.head {enc : Encoding} {p rest : Bytes} {c : UInt8}
    {attributes : List (Bytes × Bytes)}
    (hAttributes : Attributes enc p attributes (c :: rest)) (hc : c = 47 ∨ c = 62) :
    p.head?.any isNameByte = false := by
  cases hAttributes with
  | done hBlank =>
      refine blank_head hBlank ?_
      rcases hc with rfl | rfl <;> rfl
  | @pair w _ _ _ _ _ _ hBlank hApart _ _ _ _ =>
      cases w with
      | nil => exact absurd rfl hApart
      | cons b w => exact isNameByte_of_isSpace (hBlank b List.mem_cons_self)

section Element

variable {child : Kind → Bytes → Parser (Node × Option Bytes)}
  {enc : Encoding} {name : Bytes}

omit hPass in
theorem attributesLoop_blank {w p : Bytes} {b : UInt8} (hBlank : Blank w)
    (hMark : Unmarked enc (b :: p)) (hSolid : isSpace b = false) (fuel : Nat)
    (attributes : List (Bytes × Bytes)) :
    attributesLoop child enc name (fuel + 1) attributes (w ++ b :: p) =
      attributesLoop child enc name (fuel + 1) attributes (b :: p) := by
  have hSkip := skipWhiteSpace_blank hBlank hMark hSolid
  have hSame := skipWhiteSpace_blank blank_nil hMark hSolid
  rw [List.nil_append] at hSame
  simp only [attributesLoop,
    if_neg (List.append_ne_nil_of_right_ne_nil w (List.cons_ne_nil b p)),
      if_neg (List.cons_ne_nil b p), hSkip, hSame]

/-- The loop gets to the end of the attributes with all of them. -/
theorem attributesLoop_gives {c : UInt8} {p q : Bytes}
    {attributes : List (Bytes × Bytes)} (hc : c = 47 ∨ c = 62)
    (hAttributes : Attributes enc p attributes (c :: q))
    {before : List (Bytes × Bytes)} (hNames : ∀ a ∈ before, IsName a.1)
    (hDistinct : ((before ++ attributes).map Prod.fst).Nodup) {fuel : Nat}
    (hFuel : p.length < fuel) {d : Data} (hClear : Clear t d)
    {result : Node × Option Bytes} (hEnd : ∀ n d', Clear t d' →
      Gives t (attributesLoop child enc name (n + 1) (before ++ attributes) (c :: q))
        d' result) :
    Gives t (attributesLoop child enc name fuel before p) d result := by
  have hSolid : c ≠ 0xef ∧ isSpace c = false := by rcases hc with rfl | rfl <;> decide
  generalize hRest : c :: q = rest at hAttributes
  induction hAttributes generalizing before fuel d with
  | done hBlank =>
      subst hRest
      obtain ⟨fuel, rfl⟩ : ∃ n, fuel = n + 1 := ⟨fuel - 1, by omega⟩
      rw [attributesLoop_blank hBlank (unmarked_of_ne hSolid.1 _) hSolid.2]
      have hNext := hEnd fuel d hClear
      rwa [List.append_nil] at hNext
  | @pair w p q' key value rest attributes hBlank hApart hName
      hMark hAssigned hRest' ih =>
      subst hRest
      obtain ⟨fuel, rfl⟩ : ∃ n, fuel = n + 1 := ⟨fuel - 1, by omega⟩
      have hSome : q' ≠ [] := by
        have hLength := hRest'.length_le
        rw [List.length_cons] at hLength
        exact List.length_pos_iff.1 (by omega)
      have hLess := hAssigned.length_lt
      have hPair := fun d (hClear : Clear t d) =>
        attributeParse_gives hPass true blank_nil hName hMark hAssigned hSome hClear
      obtain ⟨b, tail, rfl, hFirst⟩ : ∃ b tail, p = b :: tail ∧
        (isAlpha b || b == 95) = true := by
        obtain ⟨-, -, -, -⟩ := hAssigned
        exact hName.head _
      obtain ⟨-, -, hSlash, hClose⟩ := first_ne hFirst
      have hSame := skipWhiteSpace_blank blank_nil hMark (isSpace_of_first hFirst)
      rw [List.nil_append] at hPair hSame
      have hNew : ¬ (before.any fun a => decide (cstr a.1 = cstr key)) = true := by
        intro hAny
        obtain ⟨a, ha, hSameName⟩ := List.any_eq_true.1 hAny
        have hEq := of_decide_eq_true hSameName
        rw [(hNames a ha).cstr_eq, hName.cstr_eq] at hEq
        rw [List.map_append, List.nodup_append] at hDistinct
        exact hDistinct.2.2 a.1 (List.mem_map_of_mem ha) key List.mem_cons_self hEq
      rw [attributesLoop_blank hBlank hMark (isSpace_of_first hFirst), attributesLoop,
        if_neg (List.cons_ne_nil b tail)]
      simp only [hSame, if_neg hSlash, if_neg hClose]
      refine (hPair d hClear).bind fun d₁ hClear₁ => ?_
      obtain ⟨c', q', rfl⟩ := List.exists_cons_of_ne_nil hSome
      simp only [if_neg hNew]
      refine ih ?_ ?_ ?_ hClear₁ (fun n d' hClear' => ?_) rfl
      · intro a ha
        rcases List.mem_append.1 ha with hOld | hLast
        · exact hNames a hOld
        · cases List.mem_singleton.1 hLast
          exact hName
      · rwa [List.append_assoc]
      · rw [List.length_append] at hFuel
        omega
      · rw [List.append_assoc]
        exact hEnd n d' hClear'

omit hPass in
/-- Behind the children of an element. -/
theorem readEndTag_gives {w rest : Bytes} (hBlank : Blank w)
    {d : Data} (hClear : Clear t d) :
    Gives t (readEndTag enc name (some (60 :: 47 :: (name ++ (w ++ 62 :: rest))))) d
      (some rest) := by
  have hTag :
      stringEqual (60 :: 47 :: (name ++ (w ++ 62 :: rest))) ([60, 47] ++ name) = true :=
    List.isPrefixOf_iff_prefix.2 ⟨w ++ 62 :: rest, by simp⟩
  have hDrop : (60 :: 47 :: (name ++ (w ++ 62 :: rest))).drop (name.length + 2) =
      w ++ 62 :: rest := by
    rw [List.drop_succ_cons, List.drop_succ_cons, List.drop_left]
  unfold readEndTag
  simp only [hTag, if_true, hDrop,
    skipWhiteSpace_blank hBlank (unmarked_of_ne (b := 62) (by decide) rest) rfl]
  exact gives_pure hClear

/-- The name of an element, behind which the loop over its attributes goes on. -/
theorem elementParse_name {c : UInt8} {p q : Bytes} {attributes : List (Bytes × Bytes)}
    (hName : IsName name) (hMark : Unmarked enc (name ++ p)) (hc : c = 47 ∨ c = 62)
    (hAttributes : Attributes enc p attributes (c :: q))
    (hDistinct : (attributes.map Prod.fst).Nodup) {d : Data} (hClear : Clear t d)
    {result : Node × Option Bytes}
    (hEnd : ∀ n d', Clear t d' →
      Gives t (attributesLoop child enc name (n + 1) attributes (c :: q)) d' result) :
    Gives t (elementParse child enc (60 :: (name ++ p))) d result := by
  have hSome : p ≠ [] := by
    have hLength := hAttributes.length_le
    rw [List.length_cons] at hLength
    exact List.length_pos_iff.1 (by omega)
  have hRead := readName_append hName (hAttributes.head hc)
  obtain ⟨b, tail, hEq, hFirst⟩ := hName.head p
  have hSkip : skipWhiteSpace enc (some (name ++ p)) = some (name ++ p) := by
    rw [hEq] at hMark ⊢
    exact skipWhiteSpace_blank blank_nil hMark (isSpace_of_first hFirst)
  unfold elementParse
  rw [skipWhiteSpace_open]
  refine (stamp_gives hPass enc _ hClear).bind fun d₁ hClear₁ => ?_
  simp only [if_true, hSkip, hRead, if_neg hSome]
  have hNone : ∀ a ∈ ([] : List (Bytes × Bytes)), IsName a.1 := fun a ha => by cases ha
  exact attributesLoop_gives hPass hc hAttributes hNone hDistinct
    (Nat.lt_succ_self _) hClear₁ hEnd

theorem elementParse_empty {p q : Bytes} {attributes : List (Bytes × Bytes)}
    (hName : IsName name) (hMark : Unmarked enc (name ++ p))
    (hAttributes : Attributes enc p attributes (47 :: 62 :: q))
    (hDistinct : (attributes.map Prod.fst).Nodup) {d : Data} (hClear : Clear t d) :
    Gives t (elementParse child enc (60 :: (name ++ p))) d
      (.element name attributes [], some q) := by
  refine elementParse_name hPass hName hMark (Or.inl rfl) hAttributes hDistinct hClear
    fun n d' hClear' => ?_
  have hSkip : skipWhiteSpace enc (some (47 :: 62 :: q)) = some (47 :: 62 :: q) :=
    skipWhiteSpace_blank blank_nil (unmarked_of_ne (by decide) _) rfl
  rw [attributesLoop, if_neg (List.cons_ne_nil _ _), hSkip]
  exact gives_pure hClear'

theorem elementParse_children {p q w rest : Bytes} {attributes : List (Bytes × Bytes)}
    {children : List Node} (hName : IsName name) (hMark : Unmarked enc (name ++ p))
    (hAttributes : Attributes enc p attributes (62 :: q))
    (hDistinct : (attributes.map Prod.fst).Nodup) (hBlank : Blank w)
    (hChildren : ∀ d', Clear t d' →
    Gives t (readValue child enc (q.length + 2) (some q)) d'
      (children, some (60 :: 47 :: (name ++ (w ++ 62 :: rest))))) {d :
      Data} (hClear : Clear t d) :
    Gives t (elementParse child enc (60 :: (name ++ p))) d
      (.element name attributes children, some rest) := by
  refine elementParse_name hPass hName hMark (Or.inr rfl) hAttributes hDistinct hClear
    fun n d' hClear' => ?_
  have hSkip : skipWhiteSpace enc (some (62 :: q)) = some (62 :: q) :=
    skipWhiteSpace_blank blank_nil (unmarked_of_ne (by decide) _) rfl
  rw [attributesLoop, if_neg (List.cons_ne_nil _ _), hSkip]
  refine (hChildren d' hClear').bind fun d₁ hClear₁ => ?_
  refine (readEndTag_gives hBlank hClear₁).bind fun d₂ hClear₂ => ?_
  exact gives_pure hClear₂

end Element

/-! ## Contents -/

omit hPass in
theorem Declaring.length_lt {enc : Encoding} {p encoding found rest : Bytes}
    (hDeclaring : Declaring enc p encoding found rest) : rest.length < p.length := by
  induction hDeclaring with
  | done hBlank =>
      simp only [List.length_append, List.length_cons]
      omega
  | other hBlank hKey hAssigned hRest ih =>
      have hLess := hAssigned.length_lt
      rw [List.length_append]
      omega
  | encoding hBlank hAssigned hRest ih =>
      have hLess := hAssigned.length_lt
      rw [List.length_append]
      omega

omit hPass in
theorem Content.length_le {inside : Bool} {enc : Encoding}
    {p rest : Bytes} {nodes : List Node} (hContent : Content inside enc p nodes rest) :
    rest.length ≤ p.length := by
  induction hContent with
  | done hBlank =>
      rw [List.length_append]
      exact Nat.le_add_left _ _
  | text hBlank hMark hSolid hWords hSome hRest ih =>
      have hLess := hWords.length_le
      rw [List.length_append]
      omega
  | declaration hBlank hDeclaring hRest ih =>
      have hLess := hDeclaring.length_lt
      simp only [List.length_append]
      omega
  | comment hBlank hEnd hRest ih =>
      simp only [List.length_append]
      omega
  | cdata hBlank hEnd hSome hRest ih =>
      simp only [List.length_append]
      omega
  | unknown hBlank hForeign hRest ih =>
      simp only [List.length_append, List.length_cons]
      omega
  | empty hBlank hName hMark hAttributes hDistinct hRest ih =>
      have hLess := hAttributes.length_le
      simp only [List.length_append, List.length_cons] at hLess ⊢
      omega
  | element hBlank hName hMark hAttributes hDistinct hContent
      hBlank' hRest ihContent ih =>
      have hLess := hAttributes.length_le
      simp only [List.length_append, List.length_cons] at hLess ihContent ⊢
      omega

/-- A node of some kind that is read whole, from its bracket on. -/
structure Reads (t : Bytes) (enc : Encoding) (depth : Nat) (kind : Kind)
    (p : Bytes) (node : Node) (q : Bytes) : Prop where
  tag : ∃ tail, p = 60 :: tail ∧ tail.head? ≠ some 47
  identify : identify enc p = some kind
  parse : ∀ d, Clear t d → Gives t (nodeParse enc depth kind p) d (node, some q)

variable {enc : Encoding}

theorem reads_declaration {p found q : Bytes} (hDeclaring : Declaring enc p [] found q)
    (depth : Nat) :
    Reads t enc (depth + 1) .declaration (bytesOf "<?xml" ++ p) .declaration q where
  tag := ⟨bytesOf "?xml" ++ p, rfl, show some (63 : UInt8) ≠ some 47 by decide⟩
  identify := identify_declaration enc p
  parse d hClear := by
    rw [nodeParse]
    exact (declarationParse_gives hPass hDeclaring hClear).bind
      fun d' hClear' => gives_pure hClear'

theorem reads_comment {value q : Bytes}
    (hEnd : ¬ bytesOf "-->" <:+: value ++ bytesOf "--") (depth : Nat) :
    Reads t enc (depth + 1) .comment (bytesOf "<!--" ++ (value ++ (bytesOf "-->" ++ q)))
      (.comment value) q where
  tag := ⟨bytesOf "!--" ++ _, rfl, show some (33 : UInt8) ≠ some 47 by decide⟩
  identify := identify_comment enc _
  parse d hClear := by
    rw [nodeParse]
    exact commentParse_gives hPass hEnd hClear

theorem reads_cdata {value q : Bytes}
    (hEnd : ¬ bytesOf "]]>" <:+: value ++ bytesOf "]]") (hSome : q ≠ []) (depth : Nat) :
    Reads t enc (depth + 1) .cdata
      (bytesOf "<![CDATA[" ++ (value ++ (bytesOf "]]>" ++ q)))
      (.text value) q where
  tag := ⟨bytesOf "![CDATA[" ++ _, rfl, show some (33 : UInt8) ≠ some 47 by decide⟩
  identify := identify_cdata enc _
  parse d hClear := by
    rw [nodeParse]
    exact (cdataParse_gives hPass hEnd hSome hClear).bind
      fun d' hClear' => gives_pure hClear'

theorem reads_unknown {value : Bytes} (hForeign : Foreign value)
    (q : Bytes) (depth : Nat) :
    Reads t enc (depth + 1) .unknown (60 :: (value ++ 62 :: q)) (.unknown value) q where
  tag := by
    refine ⟨_, rfl, ?_⟩
    cases value with
    | nil => exact show some (62 : UInt8) ≠ some 47 by decide
    | cons b value =>
        exact fun hHead => (hForeign.first b rfl).2 (Option.some.inj hHead)
  identify := identify_unknown enc hForeign q
  parse d hClear := by
    rw [nodeParse]
    exact unknownParse_gives hPass hForeign.closed hClear

omit hPass in
theorem reads_element {name p q : Bytes} {node : Node}
    (hName : IsName name) {depth : Nat} (hParse : ∀ d, Clear t d →
      Gives t (elementParse (nodeParse enc depth) enc (60 :: (name ++ p))) d
        (node, some q)) :
    Reads t enc (depth + 1) .element (60 :: (name ++ p)) node q where
  tag := by
    refine ⟨_, rfl, ?_⟩
    obtain ⟨b, tail, hEq, hFirst⟩ := hName.head p
    rw [hEq]
    exact fun hHead => (first_ne hFirst).2.2.1 (Option.some.inj hHead)
  identify := identify_element enc hName p
  parse d hClear := by
    rw [nodeParse]
    exact hParse d hClear

omit hPass in
theorem readValue_node {depth fuel : Nat} {kind : Kind} {w p q : Bytes} {node : Node}
    {nodes : List Node} {e : Option Bytes} (hBlank : Blank w)
    (hReads : Reads t enc depth kind p node q)
    (hRest : ∀ d, Clear t d →
      Gives t (readValue (nodeParse enc depth) enc fuel (some q)) d (nodes, e))
    {d : Data} (hClear : Clear t d) :
    Gives t (readValue (nodeParse enc depth) enc (fuel + 1) (some (w ++ p))) d
      (node :: nodes, e) := by
  obtain ⟨⟨tail, rfl, hHead⟩, hIdentify, hParse⟩ := hReads
  have hOpen : stringEqual (60 :: tail) [60, 47] = false := by
    cases tail with
    | nil => rfl
    | cons b tail =>
        exact stringEqual_of_ne (fun hEq => hHead (congrArg some hEq)) tail []
  rw [readValue, skipWhiteSpace_blank hBlank (unmarked_of_ne (by decide) _) rfl]
  simp only [if_true, hOpen, Bool.false_eq_true, if_false, hIdentify]
  refine (hParse d hClear).bind fun d₁ hClear₁ => ?_
  exact (hRest d₁ hClear₁).bind fun d₂ hClear₂ => gives_pure hClear₂

omit hPass in
/-- A text that is not blank does not begin with a tag. -/
theorem Words.head_ne {white : Bool} {p value q : Bytes}
    (hWords : Words enc white p value q) (hSolid : p.head?.any isSpace = false)
    (hSome : value.all isSpace = false) :
    ∃ b tail, p = b :: tail ∧ b ≠ 60 := by
  cases hWords with
  | done => cases hSome
  | space hSpace hText => exact absurd (hSolid.symm.trans hSpace) Bool.false_ne_true
  | @letter _ _ _ _ _ _ hOpen _ hLetter hText =>
      cases p with
      | nil => exact absurd hLetter.length_lt (Nat.not_lt_zero _)
      | cons b tail => exact ⟨b, tail, rfl, fun hEq => hOpen (congrArg some hEq)⟩

omit hPass in
theorem Words.length_lt {p value q : Bytes} (hWords : Words enc false p value q)
    (hSome : value.all isSpace = false) : q.length < p.length := by
  cases hWords with
  | done => cases hSome
  | space hSpace hText => exact Nat.lt_succ_of_le hText.length_le
  | letter hOpen hSolid hLetter hText =>
      exact Nat.lt_of_le_of_lt hText.length_le hLetter.length_lt

theorem textParse_gives {p value rest : Bytes} (hMark : Unmarked enc p)
    (hSolid : p.head?.any isSpace = false)
    (hWords : Words enc false p value (60 :: rest)) (hSome : value.all isSpace = false)
    (hRest : rest ≠ []) {d : Data} (hClear : Clear t d) :
    Gives t (textParse false enc p) d (value, some (60 :: rest)) := by
  obtain ⟨b, tail, rfl, hb⟩ := hWords.head_ne hSolid hSome
  have hPlain : stringEqual (b :: tail) (bytesOf "<![CDATA[") = false :=
    stringEqual_of_ne hb tail (bytesOf "![CDATA[")
  unfold textParse
  refine (stamp_gives hPass enc _ hClear).bind fun d₁ hClear₁ => ?_
  simp only [if_neg (List.cons_ne_nil b tail), hPlain, Bool.or_self,
    Bool.false_eq_true, if_false]
  exact gives_lift (hWords.readText hMark hSolid hRest) (gives_pure hClear₁)

/-- **The content of an element.** `ReadValue` stops at its end tag, with the
nodes that are written in front of it. -/
theorem readValue_gives {p rest : Bytes} {nodes : List Node}
    (hContent : Content true enc p nodes (60 :: 47 :: rest)) {depth fuel : Nat}
    (hDepth : p.length < depth) (hFuel : p.length < fuel)
    {d : Data} (hClear : Clear t d) :
    Gives t (readValue (nodeParse enc depth) enc fuel (some p)) d
      (nodes, some (60 :: 47 :: rest)) := by
  generalize hInside : true = inside at hContent
  generalize hEnd : 60 :: 47 :: rest = e at hContent
  induction hContent generalizing rest depth fuel d with
  | @done inside enc w e hBlank =>
      subst hEnd
      obtain ⟨fuel, rfl⟩ : ∃ n, fuel = n + 1 := ⟨fuel - 1, by omega⟩
      rw [readValue, skipWhiteSpace_blank hBlank (unmarked_of_ne (by decide) _) rfl]
      exact gives_pure hClear
  | @text enc w p q value e nodes hBlank hMark hSolid hWords hSome hRest ih =>
      subst hEnd
      obtain ⟨fuel, rfl⟩ : ∃ n, fuel = n + 1 := ⟨fuel - 1, by omega⟩
      obtain ⟨q, rfl⟩ := hWords.stops
      have hLess := hWords.length_lt hSome
      have hNext := hRest.length_le
      have hFollows : q ≠ [] := by
        simp only [List.length_cons] at hNext
        exact List.length_pos_iff.1 (by omega)
      obtain ⟨b, tail, rfl, hb⟩ := hWords.head_ne hSolid hSome
      rw [List.length_append] at hDepth hFuel
      rw [readValue, skipWhiteSpace_blank hBlank hMark hSolid]
      simp only [if_neg hb]
      refine (textParse_gives hPass hMark hSolid hWords hSome hFollows hClear).bind
        fun d₁ hClear₁ => ?_
      refine (ih (by omega) (by omega) hClear₁ rfl rfl).bind fun d₂ hClear₂ => ?_
      simp only [hSome, Bool.false_eq_true, if_false]
      exact gives_pure hClear₂
  | declaration hBlank hDeclaring hRest ih =>
      subst hInside hEnd
      have hLess := hDeclaring.length_lt
      simp only [List.length_append] at hDepth hFuel
      obtain ⟨depth, rfl⟩ : ∃ n, depth = n + 1 := ⟨depth - 1, by omega⟩
      obtain ⟨fuel, rfl⟩ : ∃ n, fuel = n + 1 := ⟨fuel - 1, by omega⟩
      exact readValue_node hBlank (reads_declaration hPass hDeclaring depth)
        (fun d hClear => ih (by omega) (by omega) hClear rfl rfl) hClear
  | comment hBlank hClose hRest ih =>
      subst hInside hEnd
      have hTag : (bytesOf "<!--").length = 4 := rfl
      simp only [List.length_append] at hDepth hFuel
      obtain ⟨depth, rfl⟩ : ∃ n, depth = n + 1 := ⟨depth - 1, by omega⟩
      obtain ⟨fuel, rfl⟩ : ∃ n, fuel = n + 1 := ⟨fuel - 1, by omega⟩
      exact readValue_node hBlank (reads_comment hPass hClose depth)
        (fun d hClear => ih (by omega) (by omega) hClear rfl rfl) hClear
  | cdata hBlank hClose hSome hRest ih =>
      subst hInside hEnd
      have hTag : (bytesOf "<![CDATA[").length = 9 := rfl
      simp only [List.length_append] at hDepth hFuel
      obtain ⟨depth, rfl⟩ : ∃ n, depth = n + 1 := ⟨depth - 1, by omega⟩
      obtain ⟨fuel, rfl⟩ : ∃ n, fuel = n + 1 := ⟨fuel - 1, by omega⟩
      exact readValue_node hBlank (reads_cdata hPass hClose hSome depth)
        (fun d hClear => ih (by omega) (by omega) hClear rfl rfl) hClear
  | unknown hBlank hForeign hRest ih =>
      subst hInside hEnd
      simp only [List.length_append, List.length_cons] at hDepth hFuel
      obtain ⟨depth, rfl⟩ : ∃ n, depth = n + 1 := ⟨depth - 1, by omega⟩
      obtain ⟨fuel, rfl⟩ : ∃ n, fuel = n + 1 := ⟨fuel - 1, by omega⟩
      exact readValue_node hBlank (reads_unknown hPass hForeign _ depth)
        (fun d hClear => ih (by omega) (by omega) hClear rfl rfl) hClear
  | empty hBlank hName hMark hAttributes hDistinct hRest ih =>
      subst hInside hEnd
      have hLess := hAttributes.length_le
      simp only [List.length_append, List.length_cons] at hDepth hFuel hLess
      obtain ⟨depth, rfl⟩ : ∃ n, depth = n + 1 := ⟨depth - 1, by omega⟩
      obtain ⟨fuel, rfl⟩ : ∃ n, fuel = n + 1 := ⟨fuel - 1, by omega⟩
      exact readValue_node hBlank (reads_element hName fun d hClear =>
        elementParse_empty hPass hName hMark hAttributes hDistinct hClear)
        (fun d hClear => ih (by omega) (by omega) hClear rfl rfl) hClear
  | element hBlank hName hMark hAttributes hDistinct hContent
      hBlank' hRest ihContent ih =>
      subst hInside hEnd
      have hLess := hAttributes.length_le
      have hInner := hContent.length_le
      simp only [List.length_append, List.length_cons] at hDepth hFuel hLess hInner
      obtain ⟨depth, rfl⟩ : ∃ n, depth = n + 1 := ⟨depth - 1, by omega⟩
      obtain ⟨fuel, rfl⟩ : ∃ n, fuel = n + 1 := ⟨fuel - 1, by omega⟩
      refine readValue_node hBlank (reads_element hName fun d hClear => ?_)
        (fun d hClear => ih (by omega) (by omega) hClear rfl rfl) hClear
      exact elementParse_children hPass hName hMark hAttributes hDistinct hBlank'
        (fun d' hClear' => ihContent (by omega) (by omega) hClear' rfl rfl) hClear

/-! ## Documents -/

omit hPass in
theorem documentLoop_node {fuel : Nat} {kind : Kind} {w p q : Bytes} {node : Node}
    {nodes : List Node} (hBlank : Blank w) (hKind : kind ≠ .declaration)
    (hReads : Reads t enc (p.length + 1) kind p node q)
    (hRest : ∀ d, Clear t d →
      Gives t (documentLoop fuel enc (skipWhiteSpace enc (some q))) d nodes)
    {d : Data} (hClear : Clear t d) :
    Gives t (documentLoop (fuel + 1) enc (skipWhiteSpace enc (some (w ++ p)))) d
      (node :: nodes) := by
  obtain ⟨⟨tail, rfl, -⟩, hIdentify, hParse⟩ := hReads
  rw [skipWhiteSpace_blank hBlank (unmarked_of_ne (by decide) _) rfl,
    documentLoop, hIdentify]
  cases kind with
  | declaration => exact absurd rfl hKind
  | _ =>
      refine (hParse d hClear).bind fun d₁ hClear₁ => ?_
      exact (hRest d₁ hClear₁).bind fun d₂ hClear₂ => gives_pure hClear₂

/-- **The content of a document.** `TiXmlDocument::Parse` gets to the end of the
text with the nodes that are written there. -/
theorem documentLoop_gives {p : Bytes} {nodes : List Node}
    (hContent : Content false enc p nodes []) {fuel : Nat}
    (hFuel : p.length < fuel) {d : Data} (hClear : Clear t d) :
    Gives t (documentLoop fuel enc (skipWhiteSpace enc (some p))) d nodes := by
  generalize hInside : false = inside at hContent
  generalize hEnd : ([] : Bytes) = e at hContent
  induction hContent generalizing fuel d with
  | @done inside enc w e hBlank =>
      subst hEnd
      obtain ⟨fuel, rfl⟩ : ∃ n, fuel = n + 1 := ⟨fuel - 1, by omega⟩
      have hSkip :=
        skipWhite_blank (p := []) hBlank (fun _ => rfl : Unmarked enc []) rfl
      rw [List.append_nil] at hSkip ⊢
      cases w with
      | nil => exact gives_pure hClear
      | cons b w =>
          rw [skipWhiteSpace, hSkip]
          exact gives_pure hClear
  | text => cases hInside
  | @declaration inside enc w p q found e nodes hBlank hDeclaring hRest ih =>
      subst hInside hEnd
      have hLess := hDeclaring.length_lt
      simp only [List.length_append] at hFuel
      obtain ⟨fuel, rfl⟩ : ∃ n, fuel = n + 1 := ⟨fuel - 1, by omega⟩
      have hSkip : skipWhiteSpace enc (some (w ++ (bytesOf "<?xml" ++ p))) =
          some (bytesOf "<?xml" ++ p) :=
        skipWhiteSpace_blank hBlank (unmarked_of_ne (by decide) _) rfl
      rw [hSkip, show bytesOf "<?xml" ++ p = 60 :: (bytesOf "?xml" ++ p) from rfl,
        documentLoop]
      rw [show 60 :: (bytesOf "?xml" ++ p) = bytesOf "<?xml" ++ p from rfl,
        identify_declaration]
      refine (declarationParse_gives hPass hDeclaring hClear).bind fun d₁ hClear₁ => ?_
      exact (ih (by omega) hClear₁ rfl rfl).bind fun d₂ hClear₂ => gives_pure hClear₂
  | comment hBlank hClose hRest ih =>
      subst hInside hEnd
      have hTag : (bytesOf "<!--").length = 4 := rfl
      simp only [List.length_append] at hFuel
      obtain ⟨fuel, rfl⟩ : ∃ n, fuel = n + 1 := ⟨fuel - 1, by omega⟩
      exact documentLoop_node hBlank (by decide) (reads_comment hPass hClose _)
        (fun d hClear => ih (by omega) hClear rfl rfl) hClear
  | cdata hBlank hClose hSome hRest ih =>
      subst hInside hEnd
      have hTag : (bytesOf "<![CDATA[").length = 9 := rfl
      simp only [List.length_append] at hFuel
      obtain ⟨fuel, rfl⟩ : ∃ n, fuel = n + 1 := ⟨fuel - 1, by omega⟩
      exact documentLoop_node hBlank (by decide) (reads_cdata hPass hClose hSome _)
        (fun d hClear => ih (by omega) hClear rfl rfl) hClear
  | unknown hBlank hForeign hRest ih =>
      subst hInside hEnd
      simp only [List.length_append, List.length_cons] at hFuel
      obtain ⟨fuel, rfl⟩ : ∃ n, fuel = n + 1 := ⟨fuel - 1, by omega⟩
      exact documentLoop_node hBlank (by decide) (reads_unknown hPass hForeign _ _)
        (fun d hClear => ih (by omega) hClear rfl rfl) hClear
  | empty hBlank hName hMark hAttributes hDistinct hRest ih =>
      subst hInside hEnd
      have hLess := hAttributes.length_le
      simp only [List.length_append, List.length_cons] at hFuel hLess
      obtain ⟨fuel, rfl⟩ : ∃ n, fuel = n + 1 := ⟨fuel - 1, by omega⟩
      exact documentLoop_node hBlank (by decide) (reads_element hName fun d hClear =>
        elementParse_empty hPass hName hMark hAttributes hDistinct hClear)
        (fun d hClear => ih (by omega) hClear rfl rfl) hClear
  | element hBlank hName hMark hAttributes hDistinct hContent
      hBlank' hRest ihContent ih =>
      subst hInside hEnd
      have hLess := hAttributes.length_le
      have hInner := hContent.length_le
      simp only [List.length_append, List.length_cons] at hFuel hLess hInner
      obtain ⟨fuel, rfl⟩ : ∃ n, fuel = n + 1 := ⟨fuel - 1, by omega⟩
      refine documentLoop_node hBlank (by decide)
        (reads_element hName fun d hClear => ?_)
        (fun d hClear => ih (by omega) hClear rfl rfl) hClear
      refine elementParse_children hPass hName hMark hAttributes hDistinct hBlank'
        (fun d' hClear' => readValue_gives hPass hContent ?_ (by omega) hClear') hClear
      simp only [List.length_append, List.length_cons]
      omega

omit hPass in
theorem Content.ne_nil {inside : Bool} {p e : Bytes} {nodes : List Node}
    (hContent : Content inside enc p nodes e) (hNodes : nodes ≠ []) : p ≠ [] := by
  cases hContent with
  | done hBlank => exact absurd rfl hNodes
  | text hBlank hMark hSolid hWords hSome hRest =>
      obtain ⟨b, tail, rfl, -⟩ := hWords.head_ne hSolid hSome
      exact List.append_ne_nil_of_right_ne_nil _ (List.cons_ne_nil b tail)
  | _ => exact List.append_ne_nil_of_right_ne_nil _ (List.cons_ne_nil _ _)

omit hPass in
theorem Gives.eq_ok {α : Type} {m : Parser α} {d : Data} {a : α}
    (hGives : Gives t m d a) :
    ∃ d', m d = .ok (a, d') ∧ Clear t d' := by
  unfold Gives Meets at hGives
  cases hResult : m d with
  | ok r =>
      rw [hResult] at hGives
      obtain ⟨hSame, hClear⟩ := hGives
      exact ⟨r.2, by rw [← hSame], hClear⟩
  | error h =>
      rw [hResult] at hGives
      exact hGives.elim

theorem documentParse_gives {nodes : List Node}
    (hWritten : Written t nodes) (hNodes : nodes ≠ []) {d : Data}
    (hClear : Clear t d) : Gives t (documentParse t) d nodes := by
  have hSome : ¬ nodes.isEmpty = true :=
    fun hEmpty => hNodes (List.isEmpty_iff.1 hEmpty)
  unfold documentParse
  cases hWritten with
  | plain hSolid hContent =>
      rw [if_neg (hContent.ne_nil hNodes), hSolid]
      refine (documentLoop_gives hPass hContent (Nat.lt_succ_self _) hClear).bind
        fun d₁ hClear₁ => ?_
      rw [if_neg hSome]
      exact gives_pure hClear₁
  | @marked t _ hContent =>
      -- the mark is passed like white space
      have hSkip : skipWhiteSpace .utf8 (some (0xef :: 0xbb :: 0xbf :: t)) =
          some (skipMarks 0 t) := rfl
      have hSame : documentLoop ((0xef :: 0xbb :: 0xbf :: t).length + 1) .utf8
          (some (skipMarks 0 t)) =
            documentLoop (t.length + 4) .utf8 (skipWhiteSpace .utf8 (some t)) := by
        cases t with
        | nil => rfl
        | cons b t => rfl
      rw [if_neg (List.cons_ne_nil _ _), show stringEqual (0xef :: 0xbb :: 0xbf :: t)
        [0xef, 0xbb, 0xbf] = true from rfl, if_pos rfl]
      simp only [hSkip, hSame]
      refine (documentLoop_gives hPass hContent (by omega) hClear).bind
        fun d₁ hClear₁ => ?_
      rw [if_neg hSome]
      exact gives_pure hClear₁

end Nodes

end MGServer.Ports.TinyXmlParser
