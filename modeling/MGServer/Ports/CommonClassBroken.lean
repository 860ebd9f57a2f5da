import MGServer.Ports.CommonClass
import MGServer.Ports.CommonClassRoundTrip

/-!
# Truncated and malformed packets

`operator>>` of `cCharactersInfo` trusts its count: the loop runs to the end
whatever happens to the stream, and each iteration stores the current contents
of `SessionId` and `Player`.  After a failed extraction these are partly the
broken entry's and partly left over, so a player can appear that no entry of
the input describes.

The main result says for which texts that does not happen: exactly when the
count asks for no more than the complete entries that follow it, or the pair
stored for the broken entry coincides with one of those complete entries (as
it does when the text simply ends after one of them).
-/

namespace MGServer.Ports.CommonClass

open Std
open MGServer.Verified.TextStream

variable {F : Type} (fmt : FloatFormat F)

/-- The entry `(k, c)` stands complete in the text, after the count. -/
def Present (t : Text) (k : Int32) (c : cCharacter F) : Prop :=
  ∃ n t' j, intReader.take t = some (n, t') ∧
    (k, c) ∈ (completeEntries fmt j t').1

/-- Every stored player was completely present in the input. -/
def NoInvented (indeterminate : cCharacter F) (t : Text)
    (prior : cCharactersInfo F) : Prop :=
  ∀ (k : Int32) (c : cCharacter F),
    (prior.read fmt indeterminate ⟨t, false⟩).2.players[k]? = some c →
      Present fmt t k c

/-- What a broken entry at the front of `t` makes of the pair read before it:
the fields it supplies replace the old ones, a token that does not convert
leaves the value its conversion writes, and every later field stays. -/
def brokenEntry (last : Int32 × cCharacter F) (t : Text) :
    Int32 × cCharacter F :=
  match intReader.take t with
  | none => ((intReader.written t).getD last.1, last.2)
  | some (k, t') => (k, overlaySlots (characterIn fmt) last.2 t')

/-- The condition on the text.  With a readable count `n`: all `n` entries are
complete, or at least one is and the broken one behind them turns the last of
them into one of them.  Without a readable count: the number written in its
place is not positive (it is only for a count above the range of `int`). -/
def EntriesBacked (t : Text) : Prop :=
  match intReader.take t with
  | none => ((intReader.written t).getD 0).toInt ≤ 0
  | some (n, t') =>
      (completeEntries fmt n.toInt.toNat t').1.length = n.toInt.toNat ∨
      ∃ last, (completeEntries fmt n.toInt.toNat t').1.getLast? = some last ∧
        brokenEntry fmt last (completeEntries fmt n.toInt.toNat t').2 ∈
          (completeEntries fmt n.toInt.toNat t').1

theorem readEntry_value (last : Int32 × cCharacter F) (t : Text) :
    (readEntry fmt ⟨t, false⟩ last).2 = brokenEntry fmt last t := by
  unfold readEntry brokenEntry
  cases hTake : intReader.take t with
  | none =>
      have hFail := intReader.extract_of_take_none hTake last.1
      simp only [read_failed fmt hFail, intReader.extract_value]
  | some q =>
      simp only [intReader.extract_of_take hTake, cCharacter.read,
        readSlots_value]

/-! ## Entries of a text -/

/-- Once an entry is broken, asking for more finds nothing new. -/
theorem completeEntries_subset : ∀ (n : Nat) (t : Text),
    (completeEntries fmt n t).1.length < n → ∀ j : Nat,
      (completeEntries fmt j t).1 ⊆ (completeEntries fmt n t).1 := by
  intro n
  induction n with
  | zero => intro t hLen; cases hLen
  | succ n ih =>
      intro t hLen j
      cases j with
      | zero => simp [completeEntries]
      | succ j =>
          cases hParse : parseEntry fmt t with
          | none => simp [completeEntries, hParse]
          | some q =>
              obtain ⟨e, t'⟩ := q
              simp only [completeEntries, hParse, List.length_cons,
                Nat.add_lt_add_iff_right] at hLen ⊢
              exact List.cons_subset_cons e (ih t' hLen j)

/-- Every stored pair is one of the pairs that were inserted. -/
theorem mem_of_getElem?_insertMany {entries : List (Int32 × cCharacter F)}
    {k : Int32} {c : cCharacter F}
    (h : ((∅ : Players F).insertMany entries)[k]? = some c) :
    (k, c) ∈ entries := by
  rw [ExtTreeMap.getElem?_insertMany_list, ExtTreeMap.getElem?_empty,
    Option.or_none, List.findSomeRev?_eq_findSome?_reverse] at h
  obtain ⟨⟨k', c'⟩, hMem, hSome⟩ := List.exists_of_findSome?_eq_some h
  simp only [Std.compare_eq_iff_eq, Option.ite_none_right_eq_some,
    Option.some.injEq] at hSome
  obtain ⟨rfl, rfl⟩ := hSome
  exact List.mem_reverse.1 hMem

/-! ## The three kinds of input -/

section Kinds

variable (indeterminate : cCharacter F) (prior : cCharactersInfo F)

/-- A count that cannot be read but writes a positive number makes the loop
store the untouched locals. -/
theorem noInvented_of_no_count {t : Text} (hTake : intReader.take t = none) :
    NoInvented fmt indeterminate t prior ↔
      ((intReader.written t).getD 0).toInt ≤ 0 := by
  have hFail := intReader.extract_of_take_none hTake 0
  rw [← intReader.extract_value t 0]
  unfold NoInvented cCharactersInfo.read
  generalize intReader.extract ⟨t, false⟩ 0 = q at hFail ⊢
  cases hn : q.2.toInt.toNat with
  | zero =>
      simp only [hn, readPlayers, ExtTreeMap.getElem?_empty]
      constructor
      · intro _
        exact Int.toNat_eq_zero.1 hn
      · intro _ k c hk
        cases hk
  | succ n =>
      have hPos : ¬ q.2.toInt ≤ 0 := by omega
      simp only [hn, readPlayers_failed fmt hFail, hPos, iff_false]
      intro hAll
      obtain ⟨_, _, _, hCount, _⟩ := hAll 0 indeterminate
        ExtTreeMap.getElem?_insert_self
      rw [hTake] at hCount
      cases hCount

theorem noInvented_of_complete {t t' : Text} {n : Int32}
    (hTake : intReader.take t = some (n, t'))
    (hLen : (completeEntries fmt n.toInt.toNat t').1.length = n.toInt.toNat) :
    NoInvented fmt indeterminate t prior := by
  intro k c hk
  unfold cCharactersInfo.read at hk
  simp only [intReader.extract_of_take hTake,
    readPlayers_complete fmt _ _ _ _ hLen] at hk
  exact ⟨n, t', n.toInt.toNat, hTake, mem_of_getElem?_insertMany hk⟩

theorem noInvented_of_broken {t t' : Text} {n : Int32}
    (hTake : intReader.take t = some (n, t'))
    (hLen : (completeEntries fmt n.toInt.toNat t').1.length < n.toInt.toNat) :
    NoInvented fmt indeterminate t prior ↔
      ∃ last, (completeEntries fmt n.toInt.toNat t').1.getLast? = some last ∧
        brokenEntry fmt last (completeEntries fmt n.toInt.toNat t').2 ∈
          (completeEntries fmt n.toInt.toNat t').1 := by
  have hSub := completeEntries_subset fmt n.toInt.toNat t' hLen
  have hRead := readPlayers_broken fmt n.toInt.toNat t' (0, indeterminate) ∅ hLen
  unfold NoInvented cCharactersInfo.read
  simp only [intReader.extract_of_take hTake, hRead, readEntry_value]
  generalize hEntries : completeEntries fmt n.toInt.toNat t' = es at hSub ⊢
  constructor
  · intro hAll
    -- the pair stored last is always there
    obtain ⟨m, u, j, hCount, hMem⟩ := hAll _ _ ExtTreeMap.getElem?_insert_self
    rw [hTake] at hCount
    cases hCount
    have hEs := hSub j hMem
    obtain ⟨last, hLast⟩ : ∃ last, es.1.getLast? = some last := by
      cases hLast : es.1.getLast? with
      | none =>
          rw [List.getLast?_eq_none_iff.1 hLast] at hEs
          cases hEs
      | some last => exact ⟨last, rfl⟩
    refine ⟨last, hLast, ?_⟩
    rw [List.getLastD_eq_getLast?, hLast, Option.getD_some] at hEs
    exact hEs
  · rintro ⟨last, hLast, hMem⟩ k c hk
    rw [List.getLastD_eq_getLast?, hLast, Option.getD_some] at hk
    rw [ExtTreeMap.getElem?_insert] at hk
    have hEntry : (k, c) ∈ es.1 := by
      split at hk
      · rename_i hKey
        rw [Std.compare_eq_iff_eq] at hKey
        cases hk
        rw [← hKey]
        exact hMem
      · exact mem_of_getElem?_insertMany hk
    exact ⟨n, t', n.toInt.toNat, hTake, by rw [hEntries]; exact hEntry⟩

end Kinds

/-- **No invented players, exactly.** Whatever the target and the
uninitialised local held, every stored player was completely present in the
input if and only if the text backs its count. -/
theorem noInvented_iff_entriesBacked (indeterminate : cCharacter F) (t : Text)
    (prior : cCharactersInfo F) :
    NoInvented fmt indeterminate t prior ↔ EntriesBacked fmt t := by
  unfold EntriesBacked
  cases hTake : intReader.take t with
  | none => exact noInvented_of_no_count fmt indeterminate prior hTake
  | some q =>
      obtain ⟨n, t'⟩ := q
      dsimp only
      by_cases hLen : (completeEntries fmt n.toInt.toNat t').1.length =
          n.toInt.toNat
      · constructor
        · intro _
          exact Or.inl hLen
        · intro _
          exact noInvented_of_complete fmt indeterminate prior hTake hLen
      · have hLt : (completeEntries fmt n.toInt.toNat t').1.length <
            n.toInt.toNat := by
          have hLe := completeEntries_length_le fmt n.toInt.toNat t'
          omega
        rw [noInvented_of_broken fmt indeterminate prior hTake hLt]
        simp only [hLen, false_or]

/-- A packet of two players, the second cut off after its first two fields. -/
def truncatedText : Text :=
  "2\n7\n9\n100\n-20\n3\n5\n6\n7\n90\n0\n-1\n1\n100\n0\n\n8\n1\n2\n".toList

/-- The player stored for it: session id and `X` of the second entry, the rest
of the first. -/
theorem noInvented_truncated :
    ¬ NoInvented wholeFormat samplePlayer truncatedText ⟨∅⟩ := by
  intro hAll
  have hStored : ((⟨∅⟩ : cCharactersInfo Int).read wholeFormat samplePlayer
      ⟨truncatedText, false⟩).2.players[(8 : Int32)]? =
        some { samplePlayer with SessionId := 1, X := 2 } := by decide +kernel
  obtain ⟨n, t', j, hCount, hMem⟩ := hAll _ _ hStored
  have hTake : intReader.take truncatedText = some (2, truncatedText.drop 1) := by
    decide +kernel
  rw [hTake] at hCount
  cases hCount
  have hLen : (completeEntries wholeFormat 2 (truncatedText.drop 1)).1.length < 2 := by
    decide +kernel
  have hFirst := completeEntries_subset wholeFormat 2 _ hLen j hMem
  revert hFirst
  decide +kernel

end MGServer.Ports.CommonClass
