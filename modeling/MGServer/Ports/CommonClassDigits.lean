import MGServer.Verified.DecimalText
import MGServer.Ports.CommonClassRoundTrip

/-!
# Which numbers a packet carries exactly

The operators set no precision, so each `float` goes through the default
notation of the stream: six significant digits.  The packet code itself adds
nothing to that loss, so for whole numbers the question is decided one field
at a time.  A number keeps its value if and only if it has at most six
significant digits, and `1234567` comes back as `1234570`.

Besides, the count in front of the players is written from a `size_t` and read
into an `int`.  A larger map is lost as a whole: the count does not convert
and no player is read.
-/

namespace MGServer.Ports.CommonClass

open Std
open MGServer.Verified.TextStream
open MGServer.Verified.DecimalText

variable {F : Type} (fmt : FloatFormat F)

/-- What `>>` makes of the encoding of `info` and whatever follows it. -/
def decoded (info : cCharactersInfo F) (rest : Text) (indeterminate : cCharacter F)
    (prior : cCharactersInfo F) : cCharactersInfo F :=
  (prior.read fmt indeterminate ⟨info.write fmt ++ rest, false⟩).2

/-- Every player is there after decoding, with the same ten numbers. -/
def Faithful (info : cCharactersInfo F) (rest : Text) (indeterminate : cCharacter F)
    (prior : cCharactersInfo F) : Prop :=
  ∀ (k : Int32) (c : cCharacter F), info.players[k]? = some c →
    ∃ d, (decoded fmt info rest indeterminate prior).players[k]? = some d ∧
      d.floats = c.floats

/-- Every `float` of every player is an integer that a `float` holds exactly. -/
def cCharactersInfo.Integral (ofInt : Int → F) (info : cCharactersInfo F) : Prop :=
  ∀ (k : Int32) (c : cCharacter F), info.players[k]? = some c →
    ∀ f ∈ c.floats, ∃ x : Int, x.natAbs ≤ 2 ^ 24 ∧ f = ofInt x

/-- No such integer has more than six significant digits. -/
def cCharactersInfo.SixDigits (ofInt : Int → F) (info : cCharactersInfo F) : Prop :=
  ∀ (k : Int32) (c : cCharacter F), info.players[k]? = some c →
    ∀ x : Int, x.natAbs ≤ 2 ^ 24 → ofInt x ∈ c.floats → HasDigits 6 x.natAbs

/-! ## Maps that an `int` can count -/

theorem decoded_legible {info : cCharactersInfo F} (hInfo : info.Legible fmt)
    (rest : Text) (indeterminate : cCharacter F) (prior : cCharactersInfo F) :
    decoded fmt info rest indeterminate prior = info.readBack fmt := by
  have hRead :=
    cCharactersInfo.read_legible fmt hInfo blank_nil rest indeterminate prior
  rw [List.nil_append] at hRead
  rw [decoded, hRead]

/-- Over legible floats, a packet is faithful when each float is read back. -/
theorem faithful_iff_readBack {info : cCharactersInfo F} (hInfo : info.Legible fmt)
    (rest : Text) (indeterminate : cCharacter F) (prior : cCharactersInfo F) :
    Faithful fmt info rest indeterminate prior ↔
      ∀ (k : Int32) (c : cCharacter F), info.players[k]? = some c →
        ∀ f ∈ c.floats, fmt.readBack f = f := by
  have hSame : ∀ c : cCharacter F, (c.readBack fmt).floats = c.floats ↔
      ∀ f ∈ c.floats, fmt.readBack f = f := by
    intro c
    have hMap := List.map_inj_left (f := fmt.readBack) (g := id) (l := c.floats)
    rw [List.map_id] at hMap
    rw [cCharacter.floats_readBack]
    exact hMap
  unfold Faithful
  rw [decoded_legible fmt hInfo]
  constructor
  · intro hAll k c hk
    obtain ⟨d, hd, hFloats⟩ := hAll k c hk
    rw [cCharactersInfo.getElem?_readBack, hk, Option.map_some, Option.some.injEq] at hd
    rw [← hd] at hFloats
    exact (hSame c).1 hFloats
  · intro hAll k c hk
    refine ⟨c.readBack fmt, ?_, (hSame c).2 (hAll k c hk)⟩
    rw [cCharactersInfo.getElem?_readBack, hk, Option.map_some]

/-! ## Maps that it cannot count -/

theorem readPlayers_failed_getElem? {s : IStream} (hs : s.failed = true)
    (p : Int32 × cCharacter F) (n : Nat) {k : Int32} (hk : k ≠ p.1) :
    (readPlayers fmt n s p ∅).2[k]? = none := by
  cases n with
  | zero => simp [readPlayers]
  | succ n =>
      have hKey : p.1 ≠ k := fun h => hk h.symm
      rw [readPlayers_failed fmt hs]
      simp [hKey]

/-- When the count does not convert, nothing is found but under the initial
`SessionId`. -/
theorem decoded_oversized {info : cCharactersInfo F}
    (hSize : 2 ^ 31 ≤ info.players.size) (rest : Text) (indeterminate : cCharacter F)
    (prior : cCharactersInfo F) {k : Int32} (hk : k ≠ 0) :
    (decoded fmt info rest indeterminate prior).players[k]? = none := by
  have hCount := take_natText_none hSize (c := '\n') (by decide)
    (info.players.toList.flatMap (writeEntry fmt) ++ rest)
  have hText : info.write fmt ++ rest = natText info.players.size ++
      '\n' :: (info.players.toList.flatMap (writeEntry fmt) ++ rest) := by
    simp [cCharactersInfo.write, line]
  rw [← hText] at hCount
  exact readPlayers_failed_getElem? fmt (intReader.extract_of_take_none hCount 0)
    (0, indeterminate) _ hk

theorem exists_key_ne_zero {info : cCharactersInfo F} (hSize : 2 ≤ info.players.size) :
    ∃ (k : Int32) (c : cCharacter F), k ≠ 0 ∧ info.players[k]? = some c := by
  have hKeys := ExtTreeMap.distinct_keys_toList (t := info.players)
  have hMem : ∀ e ∈ info.players.toList, info.players[e.1]? = some e.2 :=
    fun e he => ExtTreeMap.mem_toList_iff_getElem?_eq_some.1 he
  rw [← ExtTreeMap.length_toList] at hSize
  match hList : info.players.toList with
  | [] => simp [hList] at hSize
  | [_] => simp [hList] at hSize
  | a :: b :: l =>
      rw [hList] at hKeys hMem
      by_cases ha : a.1 = 0
      · refine ⟨b.1, b.2, ?_, hMem b (by simp)⟩
        intro hb
        have hDistinct : ¬ compare a.1 b.1 = .eq :=
          List.rel_of_pairwise_cons hKeys (List.mem_cons_self)
        rw [ha, hb] at hDistinct
        exact hDistinct compare_self
      · exact ⟨a.1, a.2, ha, hMem a (by simp)⟩

theorem not_faithful_oversized {info : cCharactersInfo F}
    (hSize : 2 ^ 31 ≤ info.players.size) (rest : Text) (indeterminate : cCharacter F)
    (prior : cCharactersInfo F) : ¬ Faithful fmt info rest indeterminate prior := by
  intro hAll
  have hTwo : 2 ≤ info.players.size := by omega
  obtain ⟨k, c, hk, hPlayer⟩ := exists_key_ne_zero hTwo
  obtain ⟨d, hd, -⟩ := hAll k c hPlayer
  rw [decoded_oversized fmt hSize rest indeterminate prior hk] at hd
  cases hd

/-! ## Whole numbers -/

theorem legible_of_integral {ofInt : Int → F}
    (hFmt : GeneralNotation fmt ofInt 6 (2 ^ 24)) {info : cCharactersInfo F}
    (hInt : info.Integral ofInt) (hSize : info.players.size ≤ 2 ^ 31 - 1) :
    info.Legible fmt where
  count := hSize
  player := by
    intro k c hk f hf
    obtain ⟨x, hx, rfl⟩ := hInt k c hk f hf
    obtain ⟨y, -, -, hTake⟩ := take_print hFmt nearest_six_le hx
    exact ⟨ofInt y, hTake⟩

/-- **Six digits.** A packet of whole numbers comes back exactly if and only
if an `int` can count its players and none of the numbers has more than six
significant digits. -/
theorem faithful_iff_sixDigits {ofInt : Int → F}
    (hFmt : GeneralNotation fmt ofInt 6 (2 ^ 24)) (info : cCharactersInfo F)
    (hInt : info.Integral ofInt) (rest : Text) (indeterminate : cCharacter F)
    (prior : cCharactersInfo F) :
    Faithful fmt info rest indeterminate prior ↔
      info.players.size ≤ 2 ^ 31 - 1 ∧ info.SixDigits ofInt := by
  by_cases hSize : info.players.size ≤ 2 ^ 31 - 1
  · rw [faithful_iff_readBack fmt (legible_of_integral fmt hFmt hInt hSize)]
    constructor
    · intro hAll
      refine ⟨hSize, ?_⟩
      intro k c hk x hx hMem
      exact (readBack_eq_iff hFmt nearest_six_le hx).1 (hAll k c hk _ hMem)
    · rintro ⟨-, hDigits⟩ k c hk f hf
      obtain ⟨x, hx, rfl⟩ := hInt k c hk f hf
      exact (readBack_eq_iff hFmt nearest_six_le hx).2 (hDigits k c hk x hx hf)
  · constructor
    · intro hAll
      exact absurd hAll (not_faithful_oversized fmt (by omega) rest indeterminate prior)
    · rintro ⟨hLe, -⟩
      exact absurd hLe hSize

/-! ### Two worlds -/

theorem integral_single (k : Int32) {p : cCharacter Int}
    (hp : ∀ f ∈ p.floats, f.natAbs ≤ 2 ^ 24) :
    cCharactersInfo.Integral id ⟨(∅ : Players Int).insert k p⟩ := by
  intro k' c hk f hf
  rw [eq_of_getElem?_single hk] at hf
  exact ⟨f, hp f hf, rfl⟩

/-- One player, far out but at a position with six significant digits. -/
def wideWorld : cCharactersInfo Int :=
  ⟨(∅ : Players Int).insert 7 { samplePlayer with X := 16777200, Y := -999999 }⟩

theorem wideWorld_integral : wideWorld.Integral id := integral_single _ (by decide)

theorem wideWorld_sixDigits : wideWorld.SixDigits id := by
  intro k c hk x _ hMem
  have hSmall : ∀ f ∈ c.floats, f = 16777200 ∨ f.natAbs < 10 ^ 6 := by
    rw [eq_of_getElem?_single hk]
    decide
  rcases hSmall x hMem with rfl | hLt
  · exact ⟨167772, 2, by decide, by decide⟩
  · exact hasDigits_of_lt hLt

theorem faithful_wideWorld :
    wideWorld.Integral id ∧
      Faithful (decimalFormat 6) wideWorld "12 x".toList samplePlayer ⟨∅⟩ :=
  ⟨wideWorld_integral,
    (faithful_iff_sixDigits (decimalFormat 6) (decimalFormat_general (by decide) _)
      wideWorld wideWorld_integral _ _ _).2 ⟨by decide, wideWorld_sixDigits⟩⟩

/-- One player at a position with seven digits. -/
def longWorld : cCharactersInfo Int :=
  ⟨(∅ : Players Int).insert 7 { samplePlayer with X := 1234567 }⟩

theorem longWorld_integral : longWorld.Integral id := integral_single _ (by decide)

/-- The position is written as `1.23457e+06` and comes back three units off. -/
theorem longWorld_not_faithful :
    GeneralNotation (decimalFormat 6) id 6 (2 ^ 24) ∧ longWorld.Integral id ∧
      (decimalFormat 6).print 1234567 = "1.23457e+06".toList ∧
      (decimalFormat 6).readBack 1234567 = 1234570 ∧
      ¬ Faithful (decimalFormat 6) longWorld [] samplePlayer ⟨∅⟩ := by
  have hFmt : GeneralNotation (decimalFormat 6) id 6 (2 ^ 24) :=
    decimalFormat_general (by decide) _
  have hBack : (decimalFormat 6).readBack 1234567 = 1234570 := by decide
  refine ⟨hFmt, longWorld_integral, by decide, hBack, ?_⟩
  rw [faithful_iff_readBack _
    (legible_of_integral _ hFmt longWorld_integral (by decide))]
  intro hAll
  have hX := hAll 7 { samplePlayer with X := 1234567 } (by simp [longWorld]) 1234567
    (by decide)
  rw [hBack] at hX
  exact absurd hX (by decide)

end MGServer.Ports.CommonClass
