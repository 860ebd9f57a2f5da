import Std.Data.ExtTreeMap.Lemmas
import MGServer.Verified.TextStream

/-!
# `CommonClass`: the player packets and their stream operators

Port of `MsgPacket/CommonClass.h`.  A packet is text: one field a line, a
count in front of a map of players.  The writer and the reader are two
separate hand-written field lists in the source, and they are two separate
lists here.

The reader's loop never tests the stream.  `readPlayers_complete` and
`readPlayers_broken` say what that means for every text: the complete entries
at the front are stored in order, and if the count asks for more, one last
entry is stored that is made of whatever the broken one supplied, put over
what the previous iteration left behind.
-/

namespace MGServer.Ports.CommonClass

open Std
open MGServer.Verified.TextStream

/-- `class cCharacter`, over the type of its `float` fields. -/
structure cCharacter (F : Type) where
  SessionId : Int32
  X : F
  Y : F
  Z : F
  Yaw : F
  Pitch : F
  Roll : F
  VX : F
  VY : F
  VZ : F
  IsAlive : Bool
  HealthValue : F
  IsAttacking : Bool
  deriving Repr, DecidableEq

abbrev Players (F : Type) := ExtTreeMap Int32 (cCharacter F)

/-- `class cCharactersInfo`. -/
structure cCharactersInfo (F : Type) where
  players : Players F

variable {F : Type} (fmt : FloatFormat F)

/-! ## Writing -/

/-- The fields in the order `operator<<` of `cCharacter` writes them. -/
def characterOut : List (cCharacter F → Text) :=
  [fun info => intText info.SessionId.toInt,
   fun info => fmt.print info.X,
   fun info => fmt.print info.Y,
   fun info => fmt.print info.Z,
   fun info => fmt.print info.VX,
   fun info => fmt.print info.VY,
   fun info => fmt.print info.VZ,
   fun info => fmt.print info.Yaw,
   fun info => fmt.print info.Pitch,
   fun info => fmt.print info.Roll,
   fun info => boolText info.IsAlive,
   fun info => fmt.print info.HealthValue,
   fun info => boolText info.IsAttacking]

/-- `operator<<` of `cCharacter`. -/
def cCharacter.write (info : cCharacter F) : Text :=
  (characterOut fmt).flatMap fun field => line (field info)

/-- One iteration of the writing loop: `<< kvp.first << endl`, then
`<< kvp.second << endl`. -/
def writeEntry (kvp : Int32 × cCharacter F) : Text :=
  line (intText kvp.1.toInt) ++ line (kvp.2.write fmt)

/-- `operator<<` of `cCharactersInfo`. -/
def cCharactersInfo.write (info : cCharactersInfo F) : Text :=
  line (natText info.players.size) ++ info.players.toList.flatMap (writeEntry fmt)

/-! ## Reading -/

/-- The statements of `operator>>` of `cCharacter`, in order. -/
def characterIn : List (Slot (cCharacter F)) :=
  [⟨Int32, intReader, (·.SessionId), fun i v => { i with SessionId := v },
    fun _ => rfl⟩,
   ⟨F, floatReader fmt, (·.X), fun i v => { i with X := v }, fun _ => rfl⟩,
   ⟨F, floatReader fmt, (·.Y), fun i v => { i with Y := v }, fun _ => rfl⟩,
   ⟨F, floatReader fmt, (·.Z), fun i v => { i with Z := v }, fun _ => rfl⟩,
   ⟨F, floatReader fmt, (·.VX), fun i v => { i with VX := v }, fun _ => rfl⟩,
   ⟨F, floatReader fmt, (·.VY), fun i v => { i with VY := v }, fun _ => rfl⟩,
   ⟨F, floatReader fmt, (·.VZ), fun i v => { i with VZ := v }, fun _ => rfl⟩,
   ⟨F, floatReader fmt, (·.Yaw), fun i v => { i with Yaw := v }, fun _ => rfl⟩,
   ⟨F, floatReader fmt, (·.Pitch), fun i v => { i with Pitch := v }, fun _ => rfl⟩,
   ⟨F, floatReader fmt, (·.Roll), fun i v => { i with Roll := v }, fun _ => rfl⟩,
   ⟨Bool, boolReader, (·.IsAlive), fun i v => { i with IsAlive := v }, fun _ => rfl⟩,
   ⟨F, floatReader fmt, (·.HealthValue), fun i v => { i with HealthValue := v },
     fun _ => rfl⟩,
   ⟨Bool, boolReader, (·.IsAttacking), fun i v => { i with IsAttacking := v },
     fun _ => rfl⟩]

/-- `operator>>` of `cCharacter`. -/
def cCharacter.read (s : IStream) (info : cCharacter F) : IStream × cCharacter F :=
  readSlots (characterIn fmt) (s, info)

/-- The two extractions of one loop iteration, into the reused variables
`SessionId` and `Player`. -/
def readEntry (s : IStream) (p : Int32 × cCharacter F) :
    IStream × (Int32 × cCharacter F) :=
  let key := intReader.extract s p.1
  let player := p.2.read fmt key.1
  (player.1, (key.2, player.2))

/-- The loop of `operator>>` of `cCharactersInfo`, `n` iterations long. -/
def readPlayers : Nat → IStream → Int32 × cCharacter F → Players F →
    IStream × Players F
  | 0, s, _, players => (s, players)
  | n + 1, s, p, players =>
      let q := readEntry fmt s p
      readPlayers n q.1 q.2 (players.insert q.2.1 q.2.2)

/-- `operator>>` of `cCharactersInfo`.  `Player` is a local that no
constructor initialises: `indeterminate` is what it happens to hold. -/
def cCharactersInfo.read (indeterminate : cCharacter F) (s : IStream)
    (_info : cCharactersInfo F) : IStream × cCharactersInfo F :=
  let nPlayers := intReader.extract s 0
  let r := readPlayers fmt nPlayers.2.toInt.toNat nPlayers.1 (0, indeterminate) ∅
  (r.1, ⟨r.2⟩)

/-! ## The grammar of one entry -/

/-- Thirteen fields in a row: a session id, nine floats, a bool, a float and a
bool. -/
def parseCharacter (t : Text) : Option (cCharacter F × Text) := do
  let (sessionId, t) ← intReader.take t
  let (x, t) ← (floatReader fmt).take t
  let (y, t) ← (floatReader fmt).take t
  let (z, t) ← (floatReader fmt).take t
  let (vx, t) ← (floatReader fmt).take t
  let (vy, t) ← (floatReader fmt).take t
  let (vz, t) ← (floatReader fmt).take t
  let (yaw, t) ← (floatReader fmt).take t
  let (pitch, t) ← (floatReader fmt).take t
  let (roll, t) ← (floatReader fmt).take t
  let (isAlive, t) ← boolReader.take t
  let (healthValue, t) ← (floatReader fmt).take t
  let (isAttacking, t) ← boolReader.take t
  some ({ SessionId := sessionId, X := x, Y := y, Z := z, VX := vx, VY := vy,
          VZ := vz, Yaw := yaw, Pitch := pitch, Roll := roll,
          IsAlive := isAlive, HealthValue := healthValue,
          IsAttacking := isAttacking }, t)

/-- A key and thirteen fields. -/
def parseEntry (t : Text) : Option ((Int32 × cCharacter F) × Text) := do
  let (key, t) ← intReader.take t
  let (player, t) ← parseCharacter fmt t
  some ((key, player), t)

/-- The complete entries at the front of a text, at most `n` of them, and the
text behind them. -/
def completeEntries : Nat → Text → List (Int32 × cCharacter F) × Text
  | 0, t => ([], t)
  | n + 1, t =>
      match parseEntry fmt t with
      | none => ([], t)
      | some (e, t') =>
          (e :: (completeEntries n t').1, (completeEntries n t').2)

/-- Every field is replaced, so what the record held before does not show. -/
theorem takeSlots_characterIn (base : cCharacter F) (t : Text) :
    takeSlots (characterIn fmt) base t = parseCharacter fmt t := rfl

theorem read_of_parseCharacter {t t' : Text} {c : cCharacter F}
    (h : parseCharacter fmt t = some (c, t')) (base : cCharacter F) :
    base.read fmt ⟨t, false⟩ = (⟨t', false⟩, c) :=
  readSlots_of_take _ (by rw [takeSlots_characterIn, h])

theorem read_of_parseCharacter_none {t : Text}
    (h : parseCharacter fmt t = none) (base : cCharacter F) :
    (base.read fmt ⟨t, false⟩).1.failed = true :=
  readSlots_of_take_none _ (by rw [takeSlots_characterIn, h])

theorem read_failed {s : IStream} (hs : s.failed = true) (base : cCharacter F) :
    base.read fmt s = (s, base) := readSlots_failed _ hs base

theorem readEntry_of_parseEntry {t t' : Text} {e : Int32 × cCharacter F}
    (h : parseEntry fmt t = some (e, t')) (p : Int32 × cCharacter F) :
    readEntry fmt ⟨t, false⟩ p = (⟨t', false⟩, e) := by
  obtain ⟨⟨key, t₁⟩, hKey, h⟩ := Option.bind_eq_some_iff.1 h
  obtain ⟨⟨player, t₂⟩, hPlayer, h⟩ := Option.bind_eq_some_iff.1 h
  simp only [Option.some.injEq, Prod.mk.injEq] at h
  obtain ⟨rfl, rfl⟩ := h
  simp only [readEntry, intReader.extract_of_take hKey,
    read_of_parseCharacter fmt hPlayer]

theorem readEntry_of_parseEntry_none {t : Text}
    (h : parseEntry fmt t = none) (p : Int32 × cCharacter F) :
    (readEntry fmt ⟨t, false⟩ p).1.failed = true := by
  simp only [readEntry]
  cases hKey : intReader.take t with
  | none =>
      have hFail := intReader.extract_of_take_none hKey p.1
      rw [read_failed fmt hFail]
      exact hFail
  | some q =>
      have hPlayer : parseCharacter fmt q.2 = none := by
        cases hp : parseCharacter fmt q.2 with
        | none => rfl
        | some r => simp [parseEntry, hKey, hp] at h
      simp only [intReader.extract_of_take hKey]
      exact read_of_parseCharacter_none fmt hPlayer p.2

theorem readEntry_failed {s : IStream} (hs : s.failed = true)
    (p : Int32 × cCharacter F) : readEntry fmt s p = (s, p) := by
  simp only [readEntry, intReader.extract_failed hs, read_failed fmt hs]

/-! ## What the loop does -/

theorem insert_insert_self (players : Players F) (k : Int32) (c : cCharacter F) :
    (players.insert k c).insert k c = players.insert k c := by
  apply ExtTreeMap.ext_getElem?
  intro k'
  simp only [ExtTreeMap.getElem?_insert]
  split <;> rfl

/-- On a failed stream each iteration stores the same stale pair again. -/
theorem readPlayers_failed {s : IStream} (hs : s.failed = true)
    (p : Int32 × cCharacter F) : ∀ (n : Nat) (players : Players F),
    readPlayers fmt (n + 1) s p players = (s, players.insert p.1 p.2) := by
  intro n
  induction n with
  | zero =>
      intro players
      simp only [readPlayers, readEntry_failed fmt hs]
  | succ n ih =>
      intro players
      rw [readPlayers, readEntry_failed fmt hs]
      simp only [ih, insert_insert_self]

/-- **Complete input.** When the count's worth of entries is there, they are
stored in order and the stream stays good. -/
theorem readPlayers_complete : ∀ (n : Nat) (t : Text)
    (p : Int32 × cCharacter F) (players : Players F),
    (completeEntries fmt n t).1.length = n →
    readPlayers fmt n ⟨t, false⟩ p players =
      (⟨(completeEntries fmt n t).2, false⟩,
        players.insertMany (completeEntries fmt n t).1) := by
  intro n
  induction n with
  | zero =>
      intro t p players _
      simp [readPlayers, completeEntries]
  | succ n ih =>
      intro t p players hLen
      cases hParse : parseEntry fmt t with
      | none => simp [completeEntries, hParse] at hLen
      | some q =>
          obtain ⟨e, t'⟩ := q
          simp only [completeEntries, hParse, List.length_cons,
            Nat.succ.injEq] at hLen ⊢
          simp only [readPlayers, readEntry_of_parseEntry fmt hParse]
          rw [ih t' e _ hLen, ExtTreeMap.insertMany_cons]

/-- **Broken input.** When fewer entries are complete than the count says,
the entries are stored and then one more: what the broken entry supplies, put
over the last pair read. -/
theorem readPlayers_broken : ∀ (n : Nat) (t : Text)
    (p : Int32 × cCharacter F) (players : Players F),
    (completeEntries fmt n t).1.length < n →
    readPlayers fmt n ⟨t, false⟩ p players =
      ((readEntry fmt ⟨(completeEntries fmt n t).2, false⟩
          ((completeEntries fmt n t).1.getLastD p)).1,
        (players.insertMany (completeEntries fmt n t).1).insert
          (readEntry fmt ⟨(completeEntries fmt n t).2, false⟩
            ((completeEntries fmt n t).1.getLastD p)).2.1
          (readEntry fmt ⟨(completeEntries fmt n t).2, false⟩
            ((completeEntries fmt n t).1.getLastD p)).2.2) := by
  intro n
  induction n with
  | zero => intro t p players hLen; cases hLen
  | succ n ih =>
      intro t p players hLen
      cases hParse : parseEntry fmt t with
      | none =>
          have hFail := readEntry_of_parseEntry_none fmt hParse p
          simp only [readPlayers, completeEntries, hParse, List.getLastD_nil,
            ExtTreeMap.insertMany_nil]
          cases n with
          | zero => rfl
          | succ n => rw [readPlayers_failed fmt hFail, insert_insert_self]
      | some q =>
          obtain ⟨e, t'⟩ := q
          simp only [completeEntries, hParse, List.length_cons,
            Nat.add_lt_add_iff_right] at hLen ⊢
          simp only [readPlayers, readEntry_of_parseEntry fmt hParse]
          rw [ih t' e _ hLen, ExtTreeMap.insertMany_cons, List.getLastD_cons]

theorem completeEntries_length_le : ∀ (n : Nat) (t : Text),
    (completeEntries fmt n t).1.length ≤ n := by
  intro n
  induction n with
  | zero => intro t; simp [completeEntries]
  | succ n ih =>
      intro t
      cases hParse : parseEntry fmt t with
      | none => simp [completeEntries, hParse]
      | some q => simpa [completeEntries, hParse] using ih q.2

/-- Where the complete entries stop short, no entry follows. -/
theorem parseEntry_completeEntries : ∀ (n : Nat) (t : Text),
    (completeEntries fmt n t).1.length < n →
    parseEntry fmt (completeEntries fmt n t).2 = none := by
  intro n
  induction n with
  | zero => intro t hLen; cases hLen
  | succ n ih =>
      intro t hLen
      cases hParse : parseEntry fmt t with
      | none => simp [completeEntries, hParse]
      | some q =>
          simp only [completeEntries, hParse, List.length_cons,
            Nat.add_lt_add_iff_right] at hLen ⊢
          exact ih q.2 hLen

end MGServer.Ports.CommonClass
