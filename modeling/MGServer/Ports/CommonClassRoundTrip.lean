import MGServer.Ports.CommonClass

/-!
# Packets read back as they were written

Every value of a packet type that can be written is read back, from any text
that starts with its encoding, into any previous value, and the reader stops
inside the trailing newlines of that encoding.  A stream of packets written
one after another is therefore read back packet by packet.

The packet code adds nothing to and takes nothing from the stream's own
print-then-parse: as long as each `float` prints as a text that is read whole,
what comes back is the packet with every `float` replaced by its own reading
(`cCharactersInfo.read_legible`).  The packet comes back unchanged when every
`float` survives, which is a property of the chosen format.
-/

namespace MGServer.Ports.CommonClass

open Std
open MGServer.Verified.TextStream

variable {F : Type} (fmt : FloatFormat F)

/-- Every `float` field survives print-then-parse. -/
structure cCharacter.Survives (c : cCharacter F) : Prop where
  X : fmt.Survives c.X
  Y : fmt.Survives c.Y
  Z : fmt.Survives c.Z
  Yaw : fmt.Survives c.Yaw
  Pitch : fmt.Survives c.Pitch
  Roll : fmt.Survives c.Roll
  VX : fmt.Survives c.VX
  VY : fmt.Survives c.VY
  VZ : fmt.Survives c.VZ
  HealthValue : fmt.Survives c.HealthValue

/-- A map whose size an `int` can count and whose players all survive. -/
structure cCharactersInfo.Survives (info : cCharactersInfo F) : Prop where
  count : info.players.size ≤ 2 ^ 31 - 1
  player : ∀ (k : Int32) (c : cCharacter F),
    info.players[k]? = some c → c.Survives fmt

/-! ## What comes back -/

/-- The ten `float` fields. -/
def cCharacter.floats (c : cCharacter F) : List F :=
  [c.X, c.Y, c.Z, c.Yaw, c.Pitch, c.Roll, c.VX, c.VY, c.VZ, c.HealthValue]

/-- Every `float` field prints as a text that is read whole. -/
def cCharacter.Legible (c : cCharacter F) : Prop := ∀ f ∈ c.floats, fmt.Legible f

/-- The player with each `float` field as it is read from its own text. -/
def cCharacter.readBack (c : cCharacter F) : cCharacter F :=
  { c with
    X := fmt.readBack c.X
    Y := fmt.readBack c.Y
    Z := fmt.readBack c.Z
    Yaw := fmt.readBack c.Yaw
    Pitch := fmt.readBack c.Pitch
    Roll := fmt.readBack c.Roll
    VX := fmt.readBack c.VX
    VY := fmt.readBack c.VY
    VZ := fmt.readBack c.VZ
    HealthValue := fmt.readBack c.HealthValue }

theorem cCharacter.floats_readBack (c : cCharacter F) :
    (c.readBack fmt).floats = c.floats.map fmt.readBack := rfl

theorem cCharacter.Survives.forall_floats {fmt : FloatFormat F} {c : cCharacter F}
    (hc : c.Survives fmt) : ∀ f ∈ c.floats, fmt.Survives f := by
  intro f hf
  simp only [floats, List.mem_cons, List.not_mem_nil, or_false] at hf
  rcases hf with rfl | rfl | rfl | rfl | rfl | rfl | rfl | rfl | rfl | rfl
  · exact hc.X
  · exact hc.Y
  · exact hc.Z
  · exact hc.Yaw
  · exact hc.Pitch
  · exact hc.Roll
  · exact hc.VX
  · exact hc.VY
  · exact hc.VZ
  · exact hc.HealthValue

theorem cCharacter.Survives.legible {fmt : FloatFormat F} {c : cCharacter F}
    (hc : c.Survives fmt) : c.Legible fmt :=
  fun f hf => ⟨f, hc.forall_floats f hf⟩

theorem cCharacter.Survives.readBack_eq {fmt : FloatFormat F} {c : cCharacter F}
    (hc : c.Survives fmt) : c.readBack fmt = c := by
  simp only [readBack, FloatFormat.readBack_of_take hc.X,
    FloatFormat.readBack_of_take hc.Y, FloatFormat.readBack_of_take hc.Z,
    FloatFormat.readBack_of_take hc.Yaw, FloatFormat.readBack_of_take hc.Pitch,
    FloatFormat.readBack_of_take hc.Roll, FloatFormat.readBack_of_take hc.VX,
    FloatFormat.readBack_of_take hc.VY, FloatFormat.readBack_of_take hc.VZ,
    FloatFormat.readBack_of_take hc.HealthValue]

/-- A map whose size an `int` can count and whose players are all legible. -/
structure cCharactersInfo.Legible (info : cCharactersInfo F) : Prop where
  count : info.players.size ≤ 2 ^ 31 - 1
  player : ∀ (k : Int32) (c : cCharacter F),
    info.players[k]? = some c → c.Legible fmt

def cCharactersInfo.readBack (info : cCharactersInfo F) : cCharactersInfo F :=
  ⟨info.players.map fun _ c => c.readBack fmt⟩

theorem cCharactersInfo.getElem?_readBack (info : cCharactersInfo F) (k : Int32) :
    (info.readBack fmt).players[k]? =
      (info.players[k]?).map fun c => c.readBack fmt := by
  rw [readBack, ExtTreeMap.getElem?_map]

theorem cCharactersInfo.Survives.legible {fmt : FloatFormat F}
    {info : cCharactersInfo F} (hInfo : info.Survives fmt) : info.Legible fmt where
  count := hInfo.count
  player := fun k c hk => (hInfo.player k c hk).legible

theorem cCharactersInfo.Survives.readBack_eq {fmt : FloatFormat F}
    {info : cCharactersInfo F} (hInfo : info.Survives fmt) :
    info.readBack fmt = info := by
  rw [readBack, cCharactersInfo.mk.injEq]
  apply ExtTreeMap.ext_getElem?
  intro k
  rw [ExtTreeMap.getElem?_map]
  cases hk : info.players[k]? with
  | none => rfl
  | some c => rw [Option.map_some, (hInfo.player k c hk).readBack_eq]

/-! ## One player -/

/-- The writer's and the reader's field lists agree, position by position. -/
theorem characterOut_matches {c : cCharacter F} (hc : c.Legible fmt) :
    List.Forall₂ (fun out (f : Slot (cCharacter F)) =>
      f.reader.take (out c) = some (f.get (c.readBack fmt), []))
      (characterOut fmt) (characterIn fmt) := by
  have hField : ∀ f ∈ c.floats,
      (floatReader fmt).take (fmt.print f) = some (fmt.readBack f, []) :=
    fun f hf => (hc f hf).take
  simp only [cCharacter.floats, List.forall_mem_cons] at hField
  obtain ⟨hX, hY, hZ, hYaw, hPitch, hRoll, hVX, hVY, hVZ, hHealth, -⟩ := hField
  exact .cons (take_intText c.SessionId) <| .cons hX <| .cons hY <| .cons hZ <|
    .cons hVX <| .cons hVY <| .cons hVZ <| .cons hYaw <| .cons hPitch <|
    .cons hRoll <| .cons (take_boolText c.IsAlive) <| .cons hHealth <|
    .cons (take_boolText c.IsAttacking) .nil

theorem copySlots_characterIn (c base : cCharacter F) :
    copySlots (characterIn fmt) c base = c := rfl

theorem parseCharacter_write {c : cCharacter F} (hc : c.Legible fmt)
    {ws : Text} (hws : Blank ws) (rest : Text) :
    parseCharacter fmt (ws ++ (c.write fmt ++ rest)) =
      some (c.readBack fmt, '\n' :: rest) := by
  have hTake :=
    takeSlots_lines c (c.readBack fmt) rest (characterOut_matches fmt hc) c hws
  rw [copySlots_characterIn, if_neg (by simp [characterIn])] at hTake
  rw [← takeSlots_characterIn fmt c, ← hTake]
  rfl

/-- A player is read back from its own encoding. -/
theorem cCharacter.read_write {c : cCharacter F} (hc : c.Survives fmt)
    {ws : Text} (hws : Blank ws) (rest : Text) (prior : cCharacter F) :
    prior.read fmt ⟨ws ++ (c.write fmt ++ rest), false⟩ =
      (⟨'\n' :: rest, false⟩, c) := by
  have hParse := parseCharacter_write fmt hc.legible hws rest
  rw [hc.readBack_eq] at hParse
  exact read_of_parseCharacter fmt hParse prior

/-! ## A map of players -/

theorem parseEntry_write {e : Int32 × cCharacter F} (he : e.2.Legible fmt)
    {ws : Text} (hws : Blank ws) (rest : Text) :
    parseEntry fmt (ws ++ (writeEntry fmt e ++ rest)) =
      some ((e.1, e.2.readBack fmt), '\n' :: '\n' :: rest) := by
  have hKey := intReader.take_line (take_intText e.1) hws
    (line (e.2.write fmt) ++ rest)
  have hPlayer := parseCharacter_write fmt he blank_newline ('\n' :: rest)
  rw [writeEntry, List.append_assoc, parseEntry]
  simp only [hKey, Option.bind_eq_bind, Option.bind_some]
  rw [List.singleton_append] at hPlayer
  rw [line, List.append_assoc, List.singleton_append, hPlayer]
  rfl

/-- The text left after the entries: one newline after the count, two after
an entry. -/
def trailer (entries : List (Int32 × cCharacter F)) : Text :=
  if entries = [] then ['\n'] else ['\n', '\n']

theorem trailer_blank (entries : List (Int32 × cCharacter F)) :
    Blank (trailer entries) := by
  unfold trailer
  split
  · exact blank_newline
  · exact blank_newlines

theorem completeEntries_write (rest : Text) :
    ∀ (entries : List (Int32 × cCharacter F)) {ws : Text}, Blank ws →
      (∀ e ∈ entries, e.2.Legible fmt) →
      completeEntries fmt entries.length
          (ws ++ (entries.flatMap (writeEntry fmt) ++ rest)) =
        (entries.map fun e => (e.1, e.2.readBack fmt),
          if entries = [] then ws ++ rest else '\n' :: '\n' :: rest) := by
  intro entries
  induction entries with
  | nil =>
      intro ws _ _
      simp [completeEntries]
  | cons e entries ih =>
      intro ws hws hAll
      have hParse := parseEntry_write fmt (hAll e (by simp)) hws
        (entries.flatMap (writeEntry fmt) ++ rest)
      have hTail := ih blank_newlines fun e' he' => hAll e' (by simp [he'])
      rw [List.cons_append, List.singleton_append] at hTail
      rw [List.flatMap_cons, List.append_assoc, List.length_cons,
        completeEntries, hParse]
      simp only [hTail]
      by_cases hNil : entries = []
      · simp [hNil]
      · simp [hNil]

/-- Storing a map's own entries, in order, rebuilds it. -/
theorem insertMany_toList (players : Players F) :
    (∅ : Players F).insertMany players.toList = players := by
  apply ExtTreeMap.ext_getElem?
  intro k
  cases hk : players[k]? with
  | some c =>
      exact ExtTreeMap.getElem?_insertMany_list_of_mem
        compare_self ExtTreeMap.distinct_keys_toList
        (ExtTreeMap.mem_toList_iff_getElem?_eq_some.2 hk)
  | none =>
      rw [ExtTreeMap.getElem?_insertMany_list_of_contains_eq_false]
      · exact ExtTreeMap.getElem?_empty
      · rw [List.contains_eq_mem, decide_eq_false_iff_not]
        intro hMem
        obtain ⟨⟨k', c⟩, hEntry, rfl⟩ := List.mem_map.1 hMem
        rw [ExtTreeMap.mem_toList_iff_getElem?_eq_some.1 hEntry] at hk
        cases hk

/-- **Nothing but the floats.** A map of players comes back from its own
encoding with each `float` as it is read from its own text. -/
theorem cCharactersInfo.read_legible {info : cCharactersInfo F}
    (hInfo : info.Legible fmt) {ws : Text} (hws : Blank ws) (rest : Text)
    (indeterminate : cCharacter F) (prior : cCharactersInfo F) :
    prior.read fmt indeterminate ⟨ws ++ (info.write fmt ++ rest), false⟩ =
      (⟨trailer info.players.toList ++ rest, false⟩, info.readBack fmt) := by
  have hSize : info.players.size < 2 ^ 31 := by have := hInfo.count; omega
  have hCount := intReader.take_line (take_natText hSize) hws
    (info.players.toList.flatMap (writeEntry fmt) ++ rest)
  have hBack : (Int32.ofInt info.players.size).toInt.toNat =
      info.players.toList.length := by
    rw [Int32.toInt_ofInt_of_le (by omega) (by exact_mod_cast hSize),
      ExtTreeMap.length_toList, Int.toNat_natCast]
  have hEntries := completeEntries_write fmt rest info.players.toList
    blank_newline fun e he =>
      hInfo.player e.1 e.2 (ExtTreeMap.mem_toList_iff_getElem?_eq_some.1 he)
  have hLoop := readPlayers_complete fmt info.players.toList.length
    (['\n'] ++ (info.players.toList.flatMap (writeEntry fmt) ++ rest))
    (0, indeterminate) ∅ (by rw [hEntries, List.length_map])
  have hStored : (∅ : Players F).insertMany
      (info.players.toList.map fun e => (e.1, e.2.readBack fmt)) =
        (info.readBack fmt).players := by
    rw [← insertMany_toList (info.readBack fmt).players, readBack,
      ExtTreeMap.toList_map]
  rw [hEntries] at hLoop
  rw [cCharactersInfo.write, List.append_assoc, cCharactersInfo.read]
  simp only [intReader.extract_of_take hCount, hBack]
  rw [List.singleton_append] at hLoop
  rw [hLoop, hStored]
  unfold trailer
  by_cases hNil : info.players.toList = []
  · simp [hNil]
  · simp [hNil]

/-- A map of players whose floats survive is read back from its own
encoding. -/
theorem cCharactersInfo.read_write {info : cCharactersInfo F}
    (hInfo : info.Survives fmt) {ws : Text} (hws : Blank ws) (rest : Text)
    (indeterminate : cCharacter F) (prior : cCharactersInfo F) :
    prior.read fmt indeterminate ⟨ws ++ (info.write fmt ++ rest), false⟩ =
      (⟨trailer info.players.toList ++ rest, false⟩, info) := by
  rw [read_legible fmt hInfo.legible hws, hInfo.readBack_eq]

/-! ## A stream of packets -/

/-- A value of one of the two packet types. -/
inductive Packet (F : Type) where
  | character (c : cCharacter F)
  | charactersInfo (info : cCharactersInfo F)

/-- What `>>` is pointed at: a previous value, and for a map of players what
the reader's uninitialised local happens to hold. -/
inductive Target (F : Type) where
  | character (prior : cCharacter F)
  | charactersInfo (prior : cCharactersInfo F) (indeterminate : cCharacter F)

def Packet.write : Packet F → Text
  | .character c => c.write fmt
  | .charactersInfo info => info.write fmt

def Packet.Survives : Packet F → Prop
  | .character c => c.Survives fmt
  | .charactersInfo info => info.Survives fmt

/-- The target has the packet's type. -/
def Packet.Fits : Packet F → Target F → Prop
  | .character _, .character _ => True
  | .charactersInfo _, .charactersInfo _ _ => True
  | _, _ => False

def Target.read (s : IStream) : Target F → IStream × Packet F
  | .character prior =>
      ((prior.read fmt s).1, .character (prior.read fmt s).2)
  | .charactersInfo prior indeterminate =>
      ((prior.read fmt indeterminate s).1,
        .charactersInfo (prior.read fmt indeterminate s).2)

/-- One `>>` after another on the same stream. -/
def readPackets : IStream → List (Target F) → IStream × List (Packet F)
  | s, [] => (s, [])
  | s, target :: targets =>
      let q := target.read fmt s
      let r := readPackets q.1 targets
      (r.1, q.2 :: r.2)

theorem Target.read_write {x : Packet F} (hx : x.Survives fmt)
    {target : Target F} (hFits : x.Fits target) {ws : Text} (hws : Blank ws)
    (rest : Text) :
    ∃ ws', Blank ws' ∧ target.read fmt ⟨ws ++ (x.write fmt ++ rest), false⟩ =
      (⟨ws' ++ rest, false⟩, x) := by
  cases x with
  | character c =>
      cases target with
      | character prior =>
          refine ⟨['\n'], blank_newline, ?_⟩
          simp [Target.read, Packet.write, cCharacter.read_write fmt hx hws]
      | charactersInfo prior indeterminate => exact hFits.elim
  | charactersInfo info =>
      cases target with
      | character prior => exact hFits.elim
      | charactersInfo prior indeterminate =>
          refine ⟨trailer info.players.toList, trailer_blank _, ?_⟩
          simp [Target.read, Packet.write, cCharactersInfo.read_write fmt hx hws]

theorem readPackets_write (rest : Text) {xs : List (Packet F)}
    {targets : List (Target F)}
    (hFits : List.Forall₂ Packet.Fits xs targets) :
    (∀ x ∈ xs, x.Survives fmt) → ∀ {ws : Text}, Blank ws →
    ∃ ws', Blank ws' ∧
      readPackets fmt ⟨ws ++ (xs.flatMap (Packet.write fmt) ++ rest), false⟩
        targets = (⟨ws' ++ rest, false⟩, xs) := by
  induction hFits with
  | nil =>
      intro _ ws hws
      exact ⟨ws, hws, by simp [readPackets]⟩
  | cons hHead hTail ih =>
      rename_i x target xs targets
      intro hAll ws hws
      obtain ⟨ws₁, hws₁, hRead⟩ := Target.read_write fmt (hAll x (by simp)) hHead
        hws (xs.flatMap (Packet.write fmt) ++ rest)
      obtain ⟨ws₂, hws₂, hMore⟩ := ih (fun y hy => hAll y (by simp [hy])) hws₁
      refine ⟨ws₂, hws₂, ?_⟩
      rw [List.flatMap_cons, List.append_assoc]
      simp only [readPackets, hRead, hMore]

/-! ## The round trip -/

theorem newline_suffix_write (c : cCharacter F) : ['\n'] <:+ c.write fmt := by
  have hSplit : c.write fmt =
      ((characterOut fmt).dropLast.flatMap fun field => line (field c)) ++
        line (boolText c.IsAttacking) := by
    simp [cCharacter.write, characterOut]
  rw [hSplit, line, ← List.append_assoc]
  exact List.suffix_append _ _

theorem newlines_suffix_writeEntry (e : Int32 × cCharacter F) :
    ['\n', '\n'] <:+ writeEntry fmt e := by
  obtain ⟨body, hBody⟩ := newline_suffix_write fmt e.2
  refine ⟨line (intText e.1.toInt) ++ body, ?_⟩
  rw [writeEntry, line, line, ← hBody]
  simp

/-- What the reader leaves behind is the end of the packet's own encoding. -/
theorem trailer_suffix_write (info : cCharactersInfo F) :
    trailer info.players.toList <:+ info.write fmt := by
  unfold trailer cCharactersInfo.write
  split
  · rename_i hNil
    rw [hNil, List.flatMap_nil, List.append_nil, line]
    exact List.suffix_append _ _
  · rename_i hCons
    rw [← List.dropLast_append_getLast hCons, List.flatMap_append]
    refine List.IsSuffix.trans ?_ (List.suffix_append _ _)
    refine List.IsSuffix.trans ?_ (List.suffix_append _ _)
    simpa using newlines_suffix_writeEntry fmt _

/-- **Round trip with framing.** A map of at most `2^31 - 1` players whose
floats survive printing is read back exactly, whatever text follows and
whatever the target held, with only trailing whitespace of its own encoding
left unread; and any sequence of packets written one after another is read
back in order, each equal to the original. -/
theorem packets_round_trip
    (info : cCharactersInfo F) (hInfo : info.Survives fmt)
    (xs : List (Packet F)) (targets : List (Target F))
    (hFits : List.Forall₂ Packet.Fits xs targets)
    (hAll : ∀ x ∈ xs, x.Survives fmt) :
    (∀ (rest : Text) (indeterminate : cCharacter F) (prior : cCharactersInfo F),
      ∃ body ws, info.write fmt = body ++ ws ∧ Blank ws ∧
        prior.read fmt indeterminate ⟨info.write fmt ++ rest, false⟩ =
          (⟨ws ++ rest, false⟩, info)) ∧
    (∀ rest : Text, ∃ ws, Blank ws ∧
      readPackets fmt ⟨xs.flatMap (Packet.write fmt) ++ rest, false⟩ targets =
        (⟨ws ++ rest, false⟩, xs)) := by
  constructor
  · intro rest indeterminate prior
    obtain ⟨body, hBody⟩ := trailer_suffix_write fmt info
    have hRead := cCharactersInfo.read_write fmt hInfo blank_nil rest
      indeterminate prior
    rw [List.nil_append] at hRead
    exact ⟨body, trailer info.players.toList, hBody.symm, trailer_blank _, hRead⟩
  · intro rest
    obtain ⟨ws, hws, hRead⟩ := readPackets_write fmt rest hFits hAll blank_nil
    rw [List.nil_append] at hRead
    exact ⟨ws, hws, hRead⟩

/-! ### A concrete instance -/

/-- Whole numbers of at most six digits, which a `float` prints as they are. -/
def wholeFormat : FloatFormat Int where
  print := intText
  convert := convertInt (-999999) 999999

/-- A player whose session id differs from the key it is stored under. -/
def samplePlayer : cCharacter Int where
  SessionId := 9
  X := 100
  Y := -20
  Z := 3
  Yaw := 90
  Pitch := 0
  Roll := -1
  VX := 5
  VY := 6
  VZ := 7
  IsAlive := true
  HealthValue := 100
  IsAttacking := false

def samplePlayers : cCharactersInfo Int := ⟨(∅ : Players Int).insert 7 samplePlayer⟩

theorem eq_of_getElem?_single {k k' : Int32} {p c : cCharacter F}
    (h : ((∅ : Players F).insert k p)[k']? = some c) : c = p := by
  rw [ExtTreeMap.getElem?_insert] at h
  split at h
  · exact (Option.some.inj h).symm
  · simp at h

theorem samplePlayer_survives : samplePlayer.Survives wholeFormat where
  X := by unfold FloatFormat.Survives; decide
  Y := by unfold FloatFormat.Survives; decide
  Z := by unfold FloatFormat.Survives; decide
  Yaw := by unfold FloatFormat.Survives; decide
  Pitch := by unfold FloatFormat.Survives; decide
  Roll := by unfold FloatFormat.Survives; decide
  VX := by unfold FloatFormat.Survives; decide
  VY := by unfold FloatFormat.Survives; decide
  VZ := by unfold FloatFormat.Survives; decide
  HealthValue := by unfold FloatFormat.Survives; decide

theorem samplePlayers_survives : samplePlayers.Survives wholeFormat where
  count := by decide
  player := by
    intro k c hk
    rw [eq_of_getElem?_single hk]
    exact samplePlayer_survives

/-- A map and a single player, written one after the other and read back into
two unrelated targets. -/
theorem packets_round_trip_sample :
    samplePlayers.Survives wholeFormat ∧
    ∃ ws, Blank ws ∧
      readPackets wholeFormat
        ⟨[Packet.charactersInfo samplePlayers, .character samplePlayer].flatMap
            (Packet.write wholeFormat) ++ "12 x".toList, false⟩
        [.charactersInfo ⟨∅⟩ samplePlayer, .character samplePlayer] =
        (⟨ws ++ "12 x".toList, false⟩,
          [.charactersInfo samplePlayers, .character samplePlayer]) :=
  ⟨samplePlayers_survives,
    (packets_round_trip wholeFormat samplePlayers samplePlayers_survives
      [.charactersInfo samplePlayers, .character samplePlayer]
      [.charactersInfo ⟨∅⟩ samplePlayer, .character samplePlayer]
      (.cons trivial (.cons trivial .nil))
      (by
        intro x hx
        simp only [List.mem_cons, List.not_mem_nil, or_false] at hx
        rcases hx with rfl | rfl
        · exact samplePlayers_survives
        · exact samplePlayer_survives)).2 _⟩

end MGServer.Ports.CommonClass
