import MGServer.Ports.RedisProtocol

/-!
# How hiredis writes commands

Port of `redisvFormatCommand` of `hiredis/linux/hiredis.c` with all its
conversions.  What `vsnprintf` prints for a number is part of the argument.

The walk over the format never looks at the bytes of an argument, so a format
is a fixed row of words with places in them: however many blanks and line ends
an argument holds, it stays inside its word, and the server reads the words
back as they were filled.
-/

namespace MGServer.Ports.RedisFormat

open MGServer.Verified.ByteString
open MGServer.Verified.DecimalBytes
open MGServer.Verified.Incremental
open MGServer.Ports.RedisReader
open MGServer.Ports.RedisProtocol

/-! ## The format -/

/-- What a `va_list` holds: a `char *`, a `char *` with its `size_t`, or a
number with what `vsnprintf` prints for it under a conversion. -/
inductive Arg where
  | str (s : Bytes)
  | sized (s : Bytes)
  | number (print : Bytes → Bytes)

/-- What is put into an argument: a byte of the format, or a conversion.
`skipped` is a number whose conversion is too long to be printed. -/
inductive Piece where
  | lit (b : UInt8)
  | str
  | sized
  | number (spec : Bytes)
  | skipped
  deriving Repr, DecidableEq

/-- `va_arg` for a conversion, and the bytes it prints. -/
def vaArg : Piece → List Arg → Option (Bytes × List Arg)
  | .lit b, args => some ([b], args)
  | .str, .str s :: args => some (cstr s, args)
  | .sized, .sized s :: args => some (s, args)
  | .number spec, .number print :: args => some (print spec, args)
  | .skipped, .number _ :: args => some ([], args)
  | _, _ => none

/-- The arguments finished, the one being built, and whether it was touched. -/
structure Build where
  done : List Bytes
  cur : Bytes
  touched : Bool

namespace Build

/-- Append to the current argument. -/
def put (b : Build) (s : Bytes) : Build := { b with cur := b.cur ++ s, touched := true }

/-- A blank ends an argument that was touched. -/
def gap (b : Build) : Build := if b.touched then ⟨b.done ++ [b.cur], [], false⟩ else b

/-- The argument vector at the end of the format. -/
def argv (b : Build) : List Bytes := if b.touched then b.done ++ [b.cur] else b.done

end Build

/-- The `printf` conversion behind a percent sign: what follows it, that it
runs into the end of the format, or that there is none.  `strchr` finds the
terminating NUL in every set. -/
inductive Conversion where
  | valid (rest : Bytes)
  | unterminated
  | invalid

def isFlag (b : UInt8) : Bool := (bytesOf "#0-+ ").contains b
def isIntFmt (b : UInt8) : Bool := (bytesOf "diouxX").contains b
def isDoubleFmt (b : UInt8) : Bool := (bytesOf "eEfFgGaA").contains b

/-- An integer conversion behind a size modifier. -/
def sizedInt : Bytes → Conversion
  | [] => .invalid
  | b :: rest => if isIntFmt b then .valid rest else .invalid

def readConversion (spec : Bytes) : Conversion :=
  let p := (spec.dropWhile isFlag).dropWhile isDigit
  let p := if p.head? = some 46 then p.tail.dropWhile isDigit else p
  match p with
  | [] => .unterminated
  | b :: rest =>
      if isIntFmt b || isDoubleFmt b then .valid rest
      else if b = 104 then
        if rest.head? = some 104 then sizedInt rest.tail else sizedInt rest
      else if b = 108 then
        if rest.head? = some 108 then sizedInt rest.tail else sizedInt rest
      else .invalid

/-- The argument vector, `-2`, or a read behind the format or the arguments. -/
inductive Formatted where
  | argv (argv : List Bytes)
  | invalid
  | undefined

/-- `sizeof(_format)-2`. -/
def formatRoom : Nat := 14

/-- The loop of `redisvFormatCommand`, for at most `fuel` rounds. -/
def formatLoop : Nat → Bytes → List Arg → Build → Formatted
  | 0, _, _, _ => .undefined
  | _ + 1, [], _, b => .argv b.argv
  | fuel + 1, c :: rest, args, b =>
      let convert (p : Piece) (after : Bytes) : Formatted :=
        match vaArg p args with
        | some (s, args) => formatLoop fuel after args (b.put s)
        | none => .undefined
      if c ≠ 37 ∨ rest = [] then
        if c = 32 then formatLoop fuel rest args b.gap
        else formatLoop fuel rest args (b.put [c])
      else if rest.head? = some 115 then convert .str rest.tail
      else if rest.head? = some 98 then convert .sized rest.tail
      else if rest.head? = some 37 then formatLoop fuel rest.tail args (b.put [37])
      else
        match readConversion rest with
        | .invalid => .invalid
        | .unterminated =>
            -- the cursor is set behind the NUL, unless the text was too long
            if rest.length + 2 < formatRoom then .undefined
            else convert .skipped rest.tail
        | .valid after =>
            let spec := c :: rest.take (rest.length - after.length)
            if spec.length < formatRoom then convert (.number spec) after
            else convert .skipped rest.tail

/-- The argument vector of `redisvFormatCommand`. -/
def formatArgv (format : Bytes) (args : List Arg) : Formatted :=
  formatLoop (format.length + 1) format args ⟨[], [], false⟩

/-! ## The command -/

/-- The loop of `countDigits`, which ends within five rounds on 64 bits. -/
def digitRounds : Nat → Nat → Nat → Nat
  | 0, _, result => result
  | rounds + 1, v, result =>
      if v < 10 then result
      else if v < 100 then result + 1
      else if v < 1000 then result + 2
      else if v < 10000 then result + 3
      else digitRounds rounds (v / 10000) (result + 4)

def countDigits (v : Nat) : Nat := digitRounds 5 v 1

def bulklen (len : Nat) : Nat := 1 + countDigits len + 2 + len + 2

/-- What is added to an `int` that way is reduced to 32 bits. -/
def addInt (totlen : Int) (n : Nat) : Int := Int.bmod (totlen + n) (2 ^ 32)

/-- The bytes of the arguments behind the count. -/
def argBytes (argv : List Bytes) : Bytes :=
  argv.flatMap fun arg => 36 :: (decimal arg.length ++ crlf ++ (arg ++ crlf))

/-- The bytes that `sprintf` and `memcpy` write. -/
def commandBytes (argv : List Bytes) : Bytes :=
  42 :: (decimal argv.length ++ crlf ++ argBytes argv)

/-- What `redisvFormatCommand` returns: the length and the command, -1, -2, or
nothing at all. -/
inductive Command where
  | ok (len : Int) (cmd : Bytes)
  | memory
  | invalid
  | undefined

/-- The end of `redisvFormatCommand`: a `totlen + 1` that is negative asks for
more memory than there is, and bytes that do not fit it break the assertion. -/
def buildCommand (argv : List Bytes) : Command :=
  let totlen :=
    addInt (argv.foldl (fun totlen arg => addInt totlen (bulklen arg.length)) 0)
    (1 + countDigits argv.length + 2)
  if addInt totlen 1 < 0 then .memory
  else if totlen = (commandBytes argv).length then .ok totlen (commandBytes argv)
  else .undefined

/-- `redisvFormatCommand`; `memory` says whether its allocations succeed.  One
that fails behind a conversion that is not one is not asked for. -/
def redisvFormatCommand (memory : Bool) (format : Bytes) (args : List Arg) : Command :=
  if memory then
    match formatArgv format args with
    | .argv argv => buildCommand argv
    | .invalid => .invalid
    | .undefined => .undefined
  else .memory

/-! ## The length -/

theorem length_decimal_of_le {n : Nat} (hn : 10 ≤ n) :
    (decimal n).length = (decimal (n / 10)).length + 1 := by
  rw [decimal_of_le hn, List.length_append, List.length_singleton]

theorem digitRounds_eq (rounds v result : Nat)
    (hv : v < 10 ^ (4 * rounds)) (hPos : 0 < rounds) :
    digitRounds rounds v result = result + (decimal v).length - 1 := by
  have hSmall : ∀ n, n < 10 → (decimal n).length = 1 := by
    intro n hn
    rw [decimal_of_lt hn, List.length_singleton]
  induction rounds generalizing v result with
  | zero => omega
  | succ rounds ih =>
      rw [digitRounds]
      split
      · rw [hSmall v (by omega)]
        rfl
      · rw [length_decimal_of_le (by omega)]
        split
        · rw [hSmall _ (by omega)]
          omega
        · rw [length_decimal_of_le (by omega)]
          split
          · rw [hSmall _ (by omega)]
            omega
          · rw [length_decimal_of_le (by omega)]
            split
            · rw [hSmall _ (by omega)]
              omega
            · rename_i h10 h100 h1000 h10000
              have hDiv : v / 10 / 10 / 10 / 10 = v / 10000 := by
                simp only [Nat.div_div_eq_div_mul]
              rw [length_decimal_of_le (by omega), hDiv]
              have hRounds : 0 < rounds := by
                rcases Nat.eq_zero_or_pos rounds with rfl | hRounds
                · exact absurd (show v < 10000 from hv) h10000
                · exact hRounds
              have hNext : v / 10000 < 10 ^ (4 * rounds) := by
                rw [Nat.div_lt_iff_lt_mul (by decide)]
                have hPow : 10 ^ (4 * (rounds + 1)) = 10 ^ (4 * rounds) * 10000 := by
                  rw [Nat.mul_add, Nat.pow_add]
                omega
              rw [ih _ _ hNext hRounds]
              omega

/-- `countDigits` is the length of what `%zu` prints. -/
theorem countDigits_eq {v : Nat} (hv : v < 2 ^ 64) :
    countDigits v = (decimal v).length := by
  have hBound : v < 10 ^ (4 * 5) := Nat.lt_of_lt_of_le hv (by decide)
  have hPos : 0 < (decimal v).length := List.length_pos_iff.2 (decimal_ne_nil v)
  rw [countDigits, digitRounds_eq 5 v 1 hBound (by decide)]
  omega

theorem bulklen_eq (len : Nat) (hLen : len < 2 ^ 64) :
    bulklen len = (decimal len).length + len + 5 := by
  rw [bulklen, countDigits_eq hLen]
  omega

theorem length_argBytes_cons (arg : Bytes) (argv : List Bytes) :
    (argBytes (arg :: argv)).length =
      (decimal arg.length).length + arg.length + 5 + (argBytes argv).length := by
  simp only [argBytes, List.flatMap_cons, crlf, List.length_append, List.length_cons,
    List.length_nil]
  omega

theorem length_commandBytes (argv : List Bytes) :
    (commandBytes argv).length =
      (decimal argv.length).length + 3 + (argBytes argv).length := by
  simp only [commandBytes, crlf, List.length_append, List.length_cons, List.length_nil]
  omega

theorem length_le_argBytes (argv : List Bytes) :
    argv.length ≤ (argBytes argv).length := by
  induction argv with
  | nil => exact Nat.zero_le _
  | cons arg argv ih =>
      rw [length_argBytes_cons, List.length_cons]
      omega

theorem addInt_eq {t n : Nat} (hFits : t + n < 2 ^ 31) :
    addInt t n = ((t + n : Nat) : Int) := by
  rw [addInt, ← Int.natCast_add, Int.bmod_eq_of_le (by omega) (by omega)]

/-- As long as the sum fits an `int`, adding up the bulk lengths is exact. -/
theorem foldl_bulklen (argv : List Bytes) {t : Nat}
    (hFits : t + (argBytes argv).length < 2 ^ 31) :
    argv.foldl (fun totlen arg => addInt totlen (bulklen arg.length)) (t : Int) =
      ((t + (argBytes argv).length : Nat) : Int) := by
  induction argv generalizing t with
  | nil => rfl
  | cons arg argv ih =>
      have hLength := length_argBytes_cons arg argv
      have hBulk := bulklen_eq arg.length (by omega)
      rw [List.foldl_cons, addInt_eq (by omega), ih (by omega)]
      congr 1
      omega

section Fits

variable {argv : List Bytes} (hFits : (commandBytes argv).length < 2 ^ 31)

include hFits

theorem countDigits_argc : countDigits argv.length = (decimal argv.length).length := by
  have hLength := length_commandBytes argv
  have hArgs := length_le_argBytes argv
  exact countDigits_eq (by omega)

/-- The buffer is large enough and the assertion on the length holds. -/
theorem buildCommand_eq (hRoom : (commandBytes argv).length + 1 < 2 ^ 31) :
    buildCommand argv = .ok (commandBytes argv).length (commandBytes argv) := by
  have hLength := length_commandBytes argv
  have hSum : argv.foldl (fun totlen arg => addInt totlen (bulklen arg.length)) 0 =
      ((argBytes argv).length : Int) := by
    have hFold := foldl_bulklen argv (t := 0) (by omega)
    simpa using hFold
  have hTotal :
      addInt ((argBytes argv).length : Int) (1 + countDigits argv.length + 2) =
      ((commandBytes argv).length : Int) := by
    rw [countDigits_argc hFits, addInt_eq (by omega)]
    congr 1
    omega
  unfold buildCommand
  simp only
  rw [hSum, hTotal, addInt_eq hRoom, if_neg (by omega), if_pos rfl]

end Fits

/-- A command that is built has a length that fits an `int`. -/
theorem buildCommand_eq_ok {argv : List Bytes} {len : Int} {cmd : Bytes}
    (hBuild : buildCommand argv = .ok len cmd) :
    cmd = commandBytes argv ∧ (commandBytes argv).length < 2 ^ 31 := by
  unfold buildCommand at hBuild
  simp only at hBuild
  split at hBuild
  · cases hBuild
  · split at hBuild
    · rename_i hLength
      cases hBuild
      refine ⟨rfl, ?_⟩
      have hBound : ∀ t n, addInt t n < 2 ^ 31 := fun t n => by
        have hLess := Int.bmod_lt (x := t + n) (m := 2 ^ 32) (by decide)
        unfold addInt
        omega
      have hSmall := hLength ▸ hBound _ _
      exact_mod_cast hSmall
    · cases hBuild

/-- The bytes are those of an array of strings. -/
theorem commandBytes_eq_encode (argv : List Bytes) :
    commandBytes argv = encode (.array (argv.map .string)) := by
  rw [encode, encodeAll_eq, List.flatMap_map, List.length_map]
  rfl

/-- A command that fits is a reply with one array in it. -/
theorem command_sendable {argv : List Bytes}
    (hFits : (commandBytes argv).length < 2 ^ 31) :
    Sendable 1 (.array (argv.map .string)) := by
  have hLength := length_commandBytes argv
  have hArgs := length_le_argBytes argv
  refine ⟨?_, ?_⟩
  · rw [List.length_map, INT_MAX]
    omega
  · intro v hv
    obtain ⟨arg, hArg, rfl⟩ := List.mem_map.1 hv
    have hOne : arg.length ≤ (argBytes argv).length := by
      obtain ⟨before, behind, rfl⟩ := List.append_of_mem hArg
      have hTail := length_argBytes_cons arg behind
      have hSplit : argBytes (before ++ arg :: behind) =
          argBytes before ++ argBytes (arg :: behind) := List.flatMap_append
      rw [hSplit, List.length_append]
      omega
    show Fits64 arg.length
    unfold Fits64
    omega

/-- **A command is read back.** Whoever reads the protocol behind the socket
finds the arguments, each with all its bytes, and the next command behind. -/
theorem commandBytes_read {argv : List Bytes}
    (hFits : (commandBytes argv).length < 2 ^ 31) (rest : Bytes) :
    parseReply 1 (commandBytes argv ++ rest) =
      .ok (.array (argv.map .string)) rest := by
  rw [commandBytes_eq_encode]
  exact parseReply_encode (command_sendable hFits) rest

/-! ## What a format says -/

inductive Token where
  | gap
  | piece (p : Piece)
  deriving Repr, DecidableEq

/-- The format without any argument, if it is one. -/
def tokens : Nat → Bytes → Option (List Token)
  | 0, _ => none
  | _ + 1, [] => some []
  | fuel + 1, c :: rest =>
      if c ≠ 37 ∨ rest = [] then
        (tokens fuel rest).map ((if c = 32 then .gap else .piece (.lit c)) :: ·)
      else if rest.head? = some 115 then (tokens fuel rest.tail).map (.piece .str :: ·)
      else if rest.head? = some 98 then (tokens fuel rest.tail).map (.piece .sized :: ·)
      else if rest.head? = some 37 then (tokens fuel rest.tail).map
        (.piece (.lit 37) :: ·)
      else
        match readConversion rest with
        | .invalid => none
        | .unterminated =>
            if rest.length + 2 < formatRoom then none
            else (tokens fuel rest.tail).map (.piece .skipped :: ·)
        | .valid after =>
            let spec := c :: rest.take (rest.length - after.length)
            if spec.length < formatRoom then
              (tokens fuel after).map (.piece (.number spec) :: ·)
            else (tokens fuel rest.tail).map (.piece .skipped :: ·)

/-- The rest of the current word, and the words behind it. -/
def splitWords : List Token → List Piece × List (List Piece)
  | [] => ([], [])
  | .gap :: ts =>
      let (w, ws) := splitWords ts
      ([], if w = [] then ws else w :: ws)
  | .piece p :: ts =>
      let (w, ws) := splitWords ts
      (p :: w, ws)

/-- The words of a format. -/
def words (format : Bytes) : Option (List (List Piece)) :=
  (tokens (format.length + 1) format).map fun ts =>
    let (w, ws) := splitWords ts
    if w = [] then ws else w :: ws

def fillWord : List Piece → List Arg → Option (Bytes × List Arg)
  | [], args => some ([], args)
  | p :: ps, args =>
      (vaArg p args).bind fun (s, args) =>
        (fillWord ps args).map fun (t, args) => (s ++ t, args)

def fillWords : List (List Piece) → List Arg → Option (List Bytes × List Arg)
  | [], args => some ([], args)
  | w :: ws, args =>
      (fillWord w args).bind fun (s, args) =>
        (fillWords ws args).map fun (argv, args) => (s :: argv, args)

/-- Tokens carried out one after another. -/
def perform : List Token → List Arg → Build → Formatted
  | [], _, b => .argv b.argv
  | .gap :: ts, args, b => perform ts args b.gap
  | .piece p :: ts, args, b =>
      match vaArg p args with
      | some (s, args) => perform ts args (b.put s)
      | none => .undefined

/-- The loop reads the format and the arguments side by side, but the format
by itself. -/
theorem formatLoop_eq_perform {fuel : Nat} {c : Bytes} {ts : List Token}
    (hTokens : tokens fuel c = some ts) (args : List Arg) (b : Build) :
    formatLoop fuel c args b = perform ts args b := by
  induction fuel generalizing c ts args b with
  | zero => cases hTokens
  | succ fuel ih =>
      cases c with
      | nil =>
          cases hTokens
          rfl
      | cons c rest =>
          rw [tokens] at hTokens
          rw [formatLoop]
          -- a conversion is the same on both sides
          have hConvert : ∀ (p : Piece) {after : Bytes} {tail : List Token},
              tokens fuel after = some tail →
              (match vaArg p args with
                | some (s, args) => formatLoop fuel after args (b.put s)
                | none => .undefined) = perform (.piece p :: tail) args b := by
            intro p after tail hTail
            rw [perform]
            cases vaArg p args with
            | none => rfl
            | some filled => exact ih hTail filled.2 (b.put filled.1)
          split at hTokens
          · rename_i hPlain
            obtain ⟨tail, hTail, rfl⟩ := Option.map_eq_some_iff.1 hTokens
            rw [if_pos hPlain]
            split
            · exact ih hTail args b.gap
            · exact ih hTail args (b.put [c])
          · rename_i hPlain
            rw [if_neg hPlain]
            split at hTokens
            · rename_i hKind
              obtain ⟨tail, hTail, rfl⟩ := Option.map_eq_some_iff.1 hTokens
              rw [if_pos hKind]
              exact hConvert .str hTail
            · rename_i hStr
              rw [if_neg hStr]
              split at hTokens
              · rename_i hKind
                obtain ⟨tail, hTail, rfl⟩ := Option.map_eq_some_iff.1 hTokens
                rw [if_pos hKind]
                exact hConvert .sized hTail
              · rename_i hSized
                rw [if_neg hSized]
                split at hTokens
                · rename_i hKind
                  obtain ⟨tail, hTail, rfl⟩ := Option.map_eq_some_iff.1 hTokens
                  rw [if_pos hKind]
                  exact ih hTail args _
                · rename_i hPercent
                  rw [if_neg hPercent]
                  cases hConv : readConversion rest with
                  | invalid => simp [hConv] at hTokens
                  | unterminated =>
                      simp only [hConv] at hTokens ⊢
                      split at hTokens
                      · cases hTokens
                      · rename_i hLong
                        obtain ⟨tail, hTail, rfl⟩ := Option.map_eq_some_iff.1 hTokens
                        rw [if_neg hLong]
                        exact hConvert .skipped hTail
                  | valid after =>
                      simp only [hConv] at hTokens ⊢
                      split at hTokens
                      · rename_i hShort
                        obtain ⟨tail, hTail, rfl⟩ := Option.map_eq_some_iff.1 hTokens
                        rw [if_pos hShort]
                        exact hConvert (.number _) hTail
                      · rename_i hShort
                        obtain ⟨tail, hTail, rfl⟩ := Option.map_eq_some_iff.1 hTokens
                        rw [if_neg hShort]
                        exact hConvert .skipped hTail

/-- The arguments are the words with their places filled. -/
theorem perform_eq_fill (ts : List Token) (args : List Arg) (b : Build)
    (hCur : b.touched = false → b.cur = []) :
    perform ts args b =
      match fillWord (splitWords ts).1 args with
      | none => .undefined
      | some (s, args) =>
          match fillWords (splitWords ts).2 args with
          | none => .undefined
          | some (argv, _) =>
              .argv (b.done ++
                (if b.touched ∨ (splitWords ts).1 ≠ [] then [b.cur ++ s] else []) ++
                  argv) := by
  induction ts generalizing args b with
  | nil =>
      simp only [perform, splitWords, fillWord, fillWords, Build.argv]
      by_cases hTouched : b.touched = true
      · simp [hTouched]
      · simp [hTouched]
  | cons t ts ih =>
      cases t with
      | gap =>
          have hGap : b.gap.touched = false → b.gap.cur = [] := by
            unfold Build.gap
            split
            · exact fun _ => rfl
            · exact hCur
          rw [perform, ih args b.gap hGap]
          simp only [splitWords, fillWord]
          have hTouched : b.gap.touched = false := by
            unfold Build.gap
            split
            · rfl
            · rename_i hNot
              simpa using hNot
          have hDone : b.gap.done = b.done ++ if b.touched then [b.cur] else [] := by
            unfold Build.gap
            split <;> simp
          by_cases hWord : (splitWords ts).1 = []
          · rw [hWord, if_pos rfl]
            simp only [fillWord]
            cases fillWords (splitWords ts).2 args with
            | none => rfl
            | some filled => simp [hTouched, hDone]
          · rw [if_neg hWord, fillWords]
            cases fillWord (splitWords ts).1 args with
            | none => rfl
            | some filled =>
                obtain ⟨s, args⟩ := filled
                simp only [Option.bind_some]
                cases fillWords (splitWords ts).2 args with
                | none => rfl
                | some filled => simp [hTouched, hDone, hWord, hGap hTouched]
      | piece p =>
          simp only [perform, splitWords, fillWord]
          cases vaArg p args with
          | none => rfl
          | some filled =>
              obtain ⟨s, args⟩ := filled
              simp only [Option.bind_some]
              rw [ih args (b.put s) (fun hPut => by cases hPut)]
              cases fillWord (splitWords ts).1 args with
              | none => rfl
              | some filled =>
                  obtain ⟨t, args⟩ := filled
                  simp only [Option.map_some]
                  cases fillWords (splitWords ts).2 args with
                  | none => rfl
                  | some filled => simp [Build.put]

/-- The argument vector of a format is its words, filled. -/
theorem formatArgv_eq_fill {format : Bytes} {ws : List (List Piece)}
    (hWords : words format = some ws) (args : List Arg) :
    formatArgv format args =
      match fillWords ws args with
      | none => .undefined
      | some (argv, _) => .argv argv := by
  obtain ⟨ts, hTokens, rfl⟩ := Option.map_eq_some_iff.1 hWords
  rw [formatArgv, formatLoop_eq_perform hTokens, perform_eq_fill _ _ _ (fun _ => rfl)]
  simp only
  by_cases hWord : (splitWords ts).1 = []
  · rw [hWord, if_pos rfl]
    simp only [fillWord]
    cases fillWords (splitWords ts).2 args with
    | none => rfl
    | some filled => simp
  · rw [if_neg hWord, fillWords]
    cases fillWord (splitWords ts).1 args with
    | none => rfl
    | some filled =>
        obtain ⟨s, args⟩ := filled
        simp only [Option.bind_some]
        cases fillWords (splitWords ts).2 args with
        | none => rfl
        | some filled => simp [hWord]

theorem length_fillWords {ws : List (List Piece)}
    {args rest : List Arg} {argv : List Bytes}
    (hFill : fillWords ws args = some (argv, rest)) : argv.length = ws.length := by
  induction ws generalizing args argv with
  | nil =>
      cases hFill
      rfl
  | cons w ws ih =>
      obtain ⟨⟨s, args'⟩, -, hTail⟩ := Option.bind_eq_some_iff.1 hFill
      obtain ⟨⟨argv', rest'⟩, hWs, hEq⟩ := Option.map_eq_some_iff.1 hTail
      cases hEq
      rw [List.length_cons, List.length_cons, ih hWs]

/-- **An argument stays in its word.** If its allocations succeed and the length
of the buffer fits an `int`, the command is built; and the server reads as many
arguments as the format has words, and each is its word with the arguments' own bytes in
the places, whatever these bytes are. -/
theorem redisvFormatCommand_words {format : Bytes} {ws : List (List Piece)}
    (hWords : words format = some ws) {args rest : List Arg} {argv : List Bytes}
    (hFill : fillWords ws args = some (argv, rest))
    (hFits : (commandBytes argv).length + 1 < 2 ^ 31) :
    ∃ cmd, redisvFormatCommand true format args = .ok cmd.length cmd ∧
      argv.length = ws.length ∧
      ∀ later, parseReply 1 (cmd ++ later) = .ok (.array (argv.map .string)) later := by
  have hShort : (commandBytes argv).length < 2 ^ 31 := Nat.lt_of_succ_lt hFits
  refine ⟨commandBytes argv, ?_, length_fillWords hFill, commandBytes_read hShort⟩
  rw [redisvFormatCommand, if_pos rfl, formatArgv_eq_fill hWords, hFill]
  exact buildCommand_eq hShort hFits

/-- A key with a blank, a line end and a percent sign is one argument. -/
theorem redisvFormatCommand_words_set :
    words (bytesOf "SET %s %s") =
        some [[.lit 83, .lit 69, .lit 84], [.str], [.str]] ∧
      ∃ cmd, redisvFormatCommand true (bytesOf "SET %s %s")
          [.str (bytesOf "a b\r\nDEL %s"), .str []] = .ok cmd.length cmd ∧
        [bytesOf "SET", bytesOf "a b\r\nDEL %s", []].length = 3 ∧
        ∀ later, parseReply 1 (cmd ++ later) =
          .ok (.array ([bytesOf "SET", bytesOf "a b\r\nDEL %s", []].map .string))
            later := by
  have hWords : words (bytesOf "SET %s %s") =
      some [[.lit 83, .lit 69, .lit 84], [.str], [.str]] := by decide
  have hFill : fillWords [[.lit 83, .lit 69, .lit 84], [.str], [.str]]
      [.str (bytesOf "a b\r\nDEL %s"), .str []] =
        some ([bytesOf "SET", bytesOf "a b\r\nDEL %s", []], []) := rfl
  exact ⟨hWords, redisvFormatCommand_words hWords hFill (by decide)⟩

end MGServer.Ports.RedisFormat
