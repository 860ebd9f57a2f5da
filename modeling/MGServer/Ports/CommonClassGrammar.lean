import MGServer.Ports.CommonClassBroken
import MGServer.Verified.Assignments

/-!
# What the packet decoder accepts

The grammar of a packet, written down on its own: a count, and that many
entries of a key, a session id, nine floats, a bool, a float and a bool.
`operator>>` of `cCharactersInfo` never tests the stream, but failbit is
sticky, so at the end the stream is good exactly when the text starts with a
packet; and then the map holds the last entry of each key, whatever was there
before.
-/

namespace MGServer.Ports.CommonClass

open Std
open MGServer.Verified.Assignments
open MGServer.Verified.TextStream

variable {F : Type} (fmt : FloatFormat F)

/-! ## The grammar -/

/-- `t` starts with an `int`, of value `v`, and `t'` is what follows. -/
def IntAt (t : Text) (v : Int32) (t' : Text) : Prop :=
  takeNumeral t = some (v.toInt, t')

/-- `t` starts with a 0 or a 1. -/
def BoolAt (t : Text) (b : Bool) (t' : Text) : Prop :=
  takeNumeral t = some (if b then 1 else 0, t')

def FloatAt (t : Text) (f : F) (t' : Text) : Prop :=
  (floatReader fmt).take t = some (f, t')

/-- The fields of one player, in order. -/
inductive CharacterAt : Text → cCharacter F → Text → Prop where
  | fields {c : cCharacter F} {t₀ t₁ t₂ t₃ t₄ t₅ t₆ t₇ t₈ t₉ t₁₀ t₁₁ t₁₂ t₁₃ : Text}
      (hSessionId : IntAt t₀ c.SessionId t₁)
      (hX : FloatAt fmt t₁ c.X t₂)
      (hY : FloatAt fmt t₂ c.Y t₃)
      (hZ : FloatAt fmt t₃ c.Z t₄)
      (hVX : FloatAt fmt t₄ c.VX t₅)
      (hVY : FloatAt fmt t₅ c.VY t₆)
      (hVZ : FloatAt fmt t₆ c.VZ t₇)
      (hYaw : FloatAt fmt t₇ c.Yaw t₈)
      (hPitch : FloatAt fmt t₈ c.Pitch t₉)
      (hRoll : FloatAt fmt t₉ c.Roll t₁₀)
      (hIsAlive : BoolAt t₁₀ c.IsAlive t₁₁)
      (hHealthValue : FloatAt fmt t₁₁ c.HealthValue t₁₂)
      (hIsAttacking : BoolAt t₁₂ c.IsAttacking t₁₃) : CharacterAt t₀ c t₁₃

/-- So many entries, each a key and a player. -/
inductive EntriesAt : Nat → Text → List (Int32 × cCharacter F) → Text → Prop where
  | none (t : Text) : EntriesAt 0 t [] t
  | more {n : Nat} {t t₁ t₂ t₃ : Text} {key : Int32} {c : cCharacter F}
      {entries : List (Int32 × cCharacter F)} (hKey : IntAt t key t₁)
      (hPlayer : CharacterAt fmt t₁ c t₂) (hRest : EntriesAt n t₂ entries t₃) :
      EntriesAt (n + 1) t ((key, c) :: entries) t₃

/-- A count `n` and `max(n, 0)` entries. -/
def PacketAt (t : Text) (entries : List (Int32 × cCharacter F)) (rest : Text) : Prop :=
  ∃ (n : Int32) (t' : Text), IntAt t n t' ∧
    EntriesAt fmt (max n.toInt 0).toNat t' entries rest

/-! ## The grammar and the extractions -/

theorem characterAt_iff_takeSlots (base : cCharacter F)
    {t t' : Text} {c : cCharacter F} :
    CharacterAt fmt t c t' ↔ takeSlots (characterIn fmt) base t = some (c, t') := by
  constructor
  · rintro ⟨hSessionId, hX, hY, hZ, hVX, hVY, hVZ, hYaw, hPitch, hRoll, hIsAlive,
      hHealthValue, hIsAttacking⟩
    refine takeSlots_cons.2 ⟨_, _, take_int_iff.2 hSessionId, ?_⟩
    refine takeSlots_cons.2 ⟨_, _, hX, takeSlots_cons.2 ⟨_, _, hY, ?_⟩⟩
    refine takeSlots_cons.2 ⟨_, _, hZ, takeSlots_cons.2 ⟨_, _, hVX, ?_⟩⟩
    refine takeSlots_cons.2 ⟨_, _, hVY, takeSlots_cons.2 ⟨_, _, hVZ, ?_⟩⟩
    refine takeSlots_cons.2 ⟨_, _, hYaw, takeSlots_cons.2 ⟨_, _, hPitch, ?_⟩⟩
    refine takeSlots_cons.2 ⟨_, _, hRoll, takeSlots_cons.2
      ⟨_, _, take_bool_iff.2 hIsAlive, ?_⟩⟩
    exact takeSlots_cons.2 ⟨_, _, hHealthValue, takeSlots_cons.2
      ⟨_, _, take_bool_iff.2 hIsAttacking, rfl⟩⟩
  · intro hTake
    obtain ⟨sessionId, t₁, hSessionId, hTake⟩ := takeSlots_cons.1 hTake
    obtain ⟨x, t₂, hX, hTake⟩ := takeSlots_cons.1 hTake
    obtain ⟨y, t₃, hY, hTake⟩ := takeSlots_cons.1 hTake
    obtain ⟨z, t₄, hZ, hTake⟩ := takeSlots_cons.1 hTake
    obtain ⟨vx, t₅, hVX, hTake⟩ := takeSlots_cons.1 hTake
    obtain ⟨vy, t₆, hVY, hTake⟩ := takeSlots_cons.1 hTake
    obtain ⟨vz, t₇, hVZ, hTake⟩ := takeSlots_cons.1 hTake
    obtain ⟨yaw, t₈, hYaw, hTake⟩ := takeSlots_cons.1 hTake
    obtain ⟨pitch, t₉, hPitch, hTake⟩ := takeSlots_cons.1 hTake
    obtain ⟨roll, t₁₀, hRoll, hTake⟩ := takeSlots_cons.1 hTake
    obtain ⟨isAlive, t₁₁, hIsAlive, hTake⟩ := takeSlots_cons.1 hTake
    obtain ⟨healthValue, t₁₂, hHealthValue, hTake⟩ := takeSlots_cons.1 hTake
    obtain ⟨isAttacking, t₁₃, hIsAttacking, hTake⟩ := takeSlots_cons.1 hTake
    cases hTake
    exact .fields (take_int_iff.1 hSessionId) hX hY hZ hVX hVY hVZ hYaw hPitch hRoll
      (take_bool_iff.1 hIsAlive) hHealthValue (take_bool_iff.1 hIsAttacking)

theorem parseEntry_eq_some {t t' : Text} {key : Int32} {c : cCharacter F} :
    parseEntry fmt t = some ((key, c), t') ↔
      ∃ t₁, IntAt t key t₁ ∧ CharacterAt fmt t₁ c t' := by
  simp only [IntAt, ← take_int_iff,
    characterAt_iff_takeSlots fmt c, takeSlots_characterIn]
  constructor
  · intro hParse
    obtain ⟨⟨key', t₁⟩, hKey, hParse⟩ := Option.bind_eq_some_iff.1 hParse
    obtain ⟨⟨c', t₂⟩, hPlayer, hParse⟩ := Option.bind_eq_some_iff.1 hParse
    cases hParse
    exact ⟨t₁, hKey, hPlayer⟩
  · rintro ⟨t₁, hKey, hPlayer⟩
    simp only [parseEntry, hKey, hPlayer, Option.bind_eq_bind, Option.bind_some]

/-- So many entries stand in a text exactly when so many are found complete
at its front. -/
theorem entriesAt_iff {n : Nat} {t rest : Text}
    {entries : List (Int32 × cCharacter F)} :
    EntriesAt fmt n t entries rest ↔
      completeEntries fmt n t = (entries, rest) ∧ entries.length = n := by
  induction n generalizing t entries with
  | zero =>
      constructor
      · intro hAt
        cases hAt
        exact ⟨rfl, rfl⟩
      · rintro ⟨hEq, -⟩
        cases hEq
        exact .none _
  | succ n ih =>
      constructor
      · intro hAt
        cases hAt with
        | more hKey hPlayer hRest =>
            obtain ⟨hEq, hLen⟩ := ih.1 hRest
            have hParse := (parseEntry_eq_some fmt).2 ⟨_, hKey, hPlayer⟩
            simp only [completeEntries, hParse, hEq, List.length_cons, hLen, and_self]
      · rintro ⟨hEq, hLen⟩
        cases hParse : parseEntry fmt t with
        | none =>
            simp only [completeEntries, hParse, Prod.mk.injEq] at hEq
            rw [← hEq.1] at hLen
            cases hLen
        | some q =>
            obtain ⟨⟨key, c⟩, t₂⟩ := q
            obtain ⟨t₁, hKey, hPlayer⟩ := (parseEntry_eq_some fmt).1 hParse
            simp only [completeEntries, hParse, Prod.mk.injEq] at hEq
            obtain ⟨rfl, rfl⟩ := hEq
            simp only [List.length_cons, Nat.succ.injEq] at hLen
            exact .more hKey hPlayer (ih.2 ⟨rfl, hLen⟩)

/-! ## What is stored -/

/-- Storing entries in order keeps the last one of each key. -/
theorem getElem?_insertMany_lastOf (entries : List (Int32 × cCharacter F)) (k : Int32)
    (players : Players F) :
    (players.insertMany entries)[k]? = (lastOf k entries).or players[k]? := by
  induction entries generalizing players with
  | nil => simp [lastOf]
  | cons e entries ih =>
      obtain ⟨key, c⟩ := e
      rw [ExtTreeMap.insertMany_cons, ih, ExtTreeMap.getElem?_insert, lastOf,
        Option.or_assoc]
      simp only [Std.compare_eq_iff_eq]
      by_cases hk : key = k
      · simp [hk]
      · simp [hk]

section Decoder

variable (indeterminate : cCharacter F) (prior : cCharactersInfo F)

theorem read_of_packetAt {t rest : Text} {entries : List (Int32 × cCharacter F)}
    (hAt : PacketAt fmt t entries rest) :
    prior.read fmt indeterminate ⟨t, false⟩ =
      (⟨rest, false⟩, ⟨(∅ : Players F).insertMany entries⟩) := by
  obtain ⟨n, t', hCount, hEntries⟩ := hAt
  have hMax : (max n.toInt 0).toNat = n.toInt.toNat := by omega
  rw [hMax] at hEntries
  obtain ⟨hEq, hLen⟩ := (entriesAt_iff fmt).1 hEntries
  have hLoop := readPlayers_complete fmt n.toInt.toNat t' (0, indeterminate) ∅
    (by rw [hEq]; exact hLen)
  rw [hEq] at hLoop
  unfold cCharactersInfo.read
  simp only [intReader.extract_of_take (take_int_iff.2 hCount), hLoop]

/-- Failbit is sticky through the rest of the loop. -/
theorem read_failed_of_not_packetAt {t : Text}
    (hNot : ∀ entries rest, ¬ PacketAt fmt t entries rest) :
    (prior.read fmt indeterminate ⟨t, false⟩).1.failed = true := by
  unfold cCharactersInfo.read
  cases hTake : intReader.take t with
  | none =>
      have hFail := intReader.extract_of_take_none hTake 0
      cases hn : (intReader.extract ⟨t, false⟩ 0).2.toInt.toNat with
      | zero =>
          simp only [hn, readPlayers]
          exact hFail
      | succ n =>
          simp only [hn, readPlayers_failed fmt hFail]
          exact hFail
  | some q =>
      obtain ⟨n, t'⟩ := q
      have hMax : (max n.toInt 0).toNat = n.toInt.toNat := by omega
      have hBroken :
          (completeEntries fmt n.toInt.toNat t').1.length < n.toInt.toNat := by
        have hLe := completeEntries_length_le fmt n.toInt.toNat t'
        by_contra hNotLt
        have hEntries : EntriesAt fmt n.toInt.toNat t'
            (completeEntries fmt n.toInt.toNat t').1
            (completeEntries fmt n.toInt.toNat t').2 :=
          (entriesAt_iff fmt).2 ⟨rfl, by omega⟩
        rw [← hMax] at hEntries
        exact hNot _ _ ⟨n, t', take_int_iff.1 hTake, hEntries⟩
      simp only [intReader.extract_of_take hTake,
        readPlayers_broken fmt _ _ _ _ hBroken]
      exact readEntry_of_parseEntry_none fmt
        (parseEntry_completeEntries fmt _ _ hBroken) _

end Decoder

/-- What the decoder makes of a text that starts with the packet `entries`. -/
structure Decoded (t : Text) (entries : List (Int32 × cCharacter F)) : Prop where
  /-- Each key that occurs is sent to its last entry. -/
  last : ∀ (indeterminate : cCharacter F) (prior : cCharactersInfo F) (k : Int32),
    (prior.read fmt indeterminate ⟨t, false⟩).2.players[k]? = lastOf k entries
  /-- What the target and the local held before does not matter. -/
  fresh : ∀ (indeterminate indeterminate' : cCharacter F)
    (prior prior' : cCharactersInfo F),
    prior.read fmt indeterminate ⟨t, false⟩ = prior'.read fmt indeterminate' ⟨t, false⟩
  /-- Nor does the order of entries with different keys: a packet that has the
  same entries of each key, in their order, gives the same map. -/
  reordered : ∀ (u : Text) (entries' : List (Int32 × cCharacter F)) (rest' : Text),
    PacketAt fmt u entries' rest' →
    (∀ k, entries'.filter (fun e => decide (e.1 = k)) =
      entries.filter fun e => decide (e.1 = k)) →
    ∀ (indeterminate : cCharacter F) (prior : cCharactersInfo F),
      (prior.read fmt indeterminate ⟨u, false⟩).2 =
        (prior.read fmt indeterminate ⟨t, false⟩).2

theorem decoded_of_packetAt {t rest : Text} {entries : List (Int32 × cCharacter F)}
    (hAt : PacketAt fmt t entries rest) : Decoded fmt t entries where
  last := by
    intro indeterminate prior k
    rw [read_of_packetAt fmt indeterminate prior hAt, getElem?_insertMany_lastOf,
      ExtTreeMap.getElem?_empty, Option.or_none]
  fresh := by
    intro indeterminate indeterminate' prior prior'
    rw [read_of_packetAt fmt indeterminate prior hAt,
      read_of_packetAt fmt indeterminate' prior' hAt]
  reordered := by
    intro u entries' rest' hAt' hSame indeterminate prior
    have hPlayers : (∅ : Players F).insertMany entries' =
        (∅ : Players F).insertMany entries := by
      apply ExtTreeMap.ext_getElem?
      intro k
      rw [getElem?_insertMany_lastOf, getElem?_insertMany_lastOf,
        ← lastOf_filter k entries', hSame k, lastOf_filter]
    rw [read_of_packetAt fmt indeterminate prior hAt,
      read_of_packetAt fmt indeterminate prior hAt', hPlayers]

/-- **The decoder accepts its grammar.** Whatever the target and the local
held, the stream stays good exactly when the text starts with a packet; and
then the map is the last entry of each key that occurs. -/
theorem decoder_accepts_grammar (t : Text) :
    (∀ (indeterminate : cCharacter F) (prior : cCharactersInfo F),
      (prior.read fmt indeterminate ⟨t, false⟩).1.failed = false ↔
        ∃ entries rest, PacketAt fmt t entries rest) ∧
    (∀ entries rest, PacketAt fmt t entries rest → Decoded fmt t entries) := by
  refine ⟨?_, fun entries rest hAt => decoded_of_packetAt fmt hAt⟩
  intro indeterminate prior
  constructor
  · intro hGood
    by_contra hNot
    have hFail := read_failed_of_not_packetAt fmt indeterminate prior (t := t)
      fun entries rest hAt => hNot ⟨entries, rest, hAt⟩
    rw [hGood] at hFail
    cases hFail
  · rintro ⟨entries, rest, hAt⟩
    rw [read_of_packetAt fmt indeterminate prior hAt]

/-- Two entries under one key, and text that is not part of the packet. -/
def repeatedKeyText : Text :=
  ("2 7 9 100 -20 3 5 6 7 90 0 -1 1 100 0 " ++
    "7 8 100 -20 3 5 6 7 90 0 -1 1 100 0 x").toList

theorem decoder_accepts_grammar_repeatedKey :
    ∃ entries rest, PacketAt wholeFormat repeatedKeyText entries rest ∧
      lastOf 7 entries = some { samplePlayer with SessionId := 8 } := by
  have hDecoder := decoder_accepts_grammar wholeFormat repeatedKeyText
  obtain ⟨entries, rest, hAt⟩ := (hDecoder.1 samplePlayer ⟨∅⟩).1 (by decide +kernel)
  refine ⟨entries, rest, hAt, ?_⟩
  rw [← (hDecoder.2 entries rest hAt).last samplePlayer ⟨∅⟩ 7]
  decide +kernel

end MGServer.Ports.CommonClass
