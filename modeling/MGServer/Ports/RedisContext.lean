import MGServer.Ports.RedisReaderRuns
import MGServer.Ports.RedisFormat

/-!
# A blocking hiredis context, byte by byte

Port of `redisCommand` and what it calls in `hiredis/linux/hiredis.c`: the
output buffer that the kernel takes in pieces, the two loops of
`redisGetReply`, and the reader behind them.  What `write` and `read` answer is
a list of events for each call; a call that has used up its events is still
blocked in the kernel.

Two allocations are taken to succeed: the room that the output buffer needs for
a command, and the empty buffer that replaces it when all of it is written.

A `read` that a signal interrupts is repeated.  A `write` that a signal
interrupts is not: `redisBufferWrite` reports an error and leaves `err` as it
is, so `redisCommand` returns null on a context that looks healthy and still
has the command in its buffer.
-/

namespace MGServer.Ports.RedisContext

open MGServer.Verified.ByteString
open MGServer.Verified.Incremental
open MGServer.Ports.RedisReader
open MGServer.Ports.RedisProtocol
open MGServer.Ports.RedisReaderRuns
open MGServer.Ports.RedisFormat

/-! ## The context -/

/-- `c->err`, by where it is set. -/
inductive ContextError where
  | io
  | eof
  | memory
  | format
  | reader (f : Fault)
  deriving Repr, DecidableEq

structure Context where
  err : Option ContextError
  obuf : Bytes
  reader : Reader

/-- A context that has just been connected. -/
def Context.fresh : Context := ⟨none, [], redisReaderCreate⟩

/-- What `write` answers. -/
inductive Write where
  | wrote (n : Nat)
  | interrupted
  | failed
  deriving Repr, DecidableEq

/-- What `read` answers. -/
inductive Read where
  | got (bytes : Bytes)
  | interrupted
  | failed
  deriving Repr, DecidableEq

/-- The bytes an answer of `read` brings. -/
def Read.bytes : Read → Bytes
  | .got bytes => bytes
  | _ => []

def RedisReply.isNull : RedisReply → Bool
  | .null => true
  | _ => false

/-! ## Writing -/

inductive Flushed where
  | done
  | error
  | blocked
  deriving Repr, DecidableEq

/-- What `redisBufferWrite` leaves in the buffer; the kernel takes fewer than
`2 ^ 31` bytes at once. -/
def flushed (obuf : Bytes) (n : Nat) : Bytes :=
  let nwritten := min n obuf.length
  if nwritten = 0 then obuf
  else if (nwritten : Int) = toInt obuf.length then []
  else sdsrange obuf nwritten (-1)

/-- As long as the length fits an `int`, nothing but what was written is lost. -/
theorem flushed_eq {obuf : Bytes} (hSize : obuf.length < 2 ^ 31) (n : Nat) :
    flushed obuf n = obuf.drop n := by
  have hDrop : obuf.drop (min n obuf.length) = obuf.drop n := by
    rcases Nat.le_total n obuf.length with hLess | hAll
    · rw [Nat.min_eq_left hLess]
    · rw [Nat.min_eq_right hAll, List.drop_length, List.drop_eq_nil_of_le hAll]
  unfold flushed
  simp only [toInt_eq hSize]
  split
  · rename_i hNone
    rw [← hDrop, hNone, List.drop_zero]
  · split
    · rename_i hAll
      rw [← hDrop, Int.natCast_inj.1 hAll, List.drop_length]
    · rw [sdsrange_drop hSize (Nat.min_le_right _ _), hDrop]

/-- The write loop of `redisGetReply` over `redisBufferWrite`, with the bytes
the kernel took. -/
def writeLoop : List Write → Context → Flushed × Context × Bytes
  | [], c =>
      if c.err.isSome then (.error, c, [])
      else if c.obuf = [] then (.done, c, [])
      else (.blocked, c, [])
  | w :: ws, c =>
      if c.err.isSome then (.error, c, [])
      else if c.obuf = [] then (.done, c, [])
      else
        match w with
        | .wrote n =>
            let (end', c', sent) := writeLoop ws { c with obuf := flushed c.obuf n }
            (end', c', c.obuf.take n ++ sent)
        | .interrupted => (.error, c, [])
        | .failed => (.error, { c with err := some .io }, [])

section Reading

variable (mem : Nat → Bool)

/-! ## Reading -/

/-- `redisBufferRead`; nothing read is the end of the connection. -/
def redisBufferRead (c : Context) (e : Read) : Option (Bool × Context) :=
  if c.err.isSome then some (false, c)
  else
    match e with
    | .got bytes =>
        if bytes = [] then some (false, { c with err := some .eof })
        else
          (redisReaderFeed mem c.reader bytes).map fun (ok, r) =>
            (ok, { c with reader := r, err := if ok then c.err else r.err.map .reader })
    | .interrupted => some (true, c)
    | .failed => some (false, { c with err := some .io })

/-- `redisGetReplyFromReader`. -/
def redisGetReplyFromReader (c : Context) : Option (Bool × RedisReply × Context) :=
  (redisReaderGetReply mem c.reader).map fun
    | (.failed, r) => (false, .null, { c with reader := r, err := r.err.map .reader })
    | (.ok v, r) => (true, v, { c with reader := r })

/-- What a call returns, or that it has not returned. -/
inductive Result where
  | reply (v : RedisReply)
  | null
  | blocked

/-- The read loop of `redisGetReply`, with the bytes that were read. -/
def readLoop : List Read → Context → Option (Result × Context × Bytes)
  | [], c => some (if c.err.isSome then .null else .blocked, c, [])
  | e :: es, c => do
      let (ok, c) ← redisBufferRead mem c e
      if ok then
        let (ok, v, c) ← redisGetReplyFromReader mem c
        if ok then
          if RedisReply.isNull v then
            let (res, c, more) ← readLoop es c
            some (res, c, e.bytes ++ more)
          else some (.reply v, c, e.bytes)
        else some (.null, c, e.bytes)
      else some (.null, c, e.bytes)

/-- What a call leaves behind: its result, the context, and the bytes written
and read. -/
structure Outcome where
  result : Result
  context : Context
  sent : Bytes
  received : Bytes

/-- `redisGetReply`. -/
def redisGetReply (writes : List Write) (reads : List Read)
    (c : Context) : Option Outcome := do
  let (ok, v, c) ← redisGetReplyFromReader mem c
  if ok then
    if RedisReply.isNull v then
      match writeLoop writes c with
      | (.done, c, sent) =>
          let (res, c, received) ← readLoop mem reads c
          some ⟨res, c, sent, received⟩
      | (.error, c, sent) => some ⟨.null, c, sent, []⟩
      | (.blocked, c, sent) => some ⟨.blocked, c, sent, []⟩
    else some ⟨.reply v, c, [], []⟩
  else some ⟨.null, c, [], []⟩

/-- `redisCommand`; `memory` says whether the allocations for the command
succeed. -/
def redisCommand (format : Bytes) (args : List Arg)
    (memory : Bool) (writes : List Write) (reads : List Read)
    (c : Context) : Option Outcome :=
  match redisvFormatCommand memory format args with
  | .ok _ cmd => redisGetReply mem writes reads { c with obuf := c.obuf ++ cmd }
  | .memory => some ⟨.null, { c with err := some .memory }, [], []⟩
  | .invalid => some ⟨.null, { c with err := some .format }, [], []⟩
  | .undefined => none

end Reading

/-! ## The write loop -/

section WriteLoop

variable {c : Context} (hErr : c.err = none)

include hErr

theorem writeLoop_empty (hEmpty : c.obuf = []) (ws : List Write) :
    writeLoop ws c = (.done, c, []) := by
  have hSome : ¬ c.err.isSome = true := by
    rw [hErr]
    simp
  cases ws with
  | nil => rw [writeLoop, if_neg hSome, if_pos hEmpty]
  | cons w ws => cases w <;> rw [writeLoop, if_neg hSome, if_pos hEmpty]

theorem writeLoop_nil (hFull : c.obuf ≠ []) : writeLoop [] c = (.blocked, c, []) := by
  rw [writeLoop, if_neg (by rw [hErr]; simp), if_neg hFull]

theorem writeLoop_wrote (hSize : c.obuf.length < 2 ^ 31) (hFull : c.obuf ≠ []) (n : Nat)
    (ws : List Write) :
    writeLoop (.wrote n :: ws) c =
      ((writeLoop ws { c with obuf := c.obuf.drop n }).1,
        (writeLoop ws { c with obuf := c.obuf.drop n }).2.1,
        c.obuf.take n ++ (writeLoop ws { c with obuf := c.obuf.drop n }).2.2) := by
  rw [writeLoop, if_neg (by rw [hErr]; simp), if_neg hFull, flushed_eq hSize]

theorem writeLoop_interrupted (hFull : c.obuf ≠ []) (ws : List Write) :
    writeLoop (.interrupted :: ws) c = (.error, c, []) := by
  rw [writeLoop, if_neg (by rw [hErr]; simp), if_neg hFull]

theorem writeLoop_failed (hFull : c.obuf ≠ []) (ws : List Write) :
    writeLoop (.failed :: ws) c = (.error, { c with err := some .io }, []) := by
  rw [writeLoop, if_neg (by rw [hErr]; simp), if_neg hFull]

end WriteLoop

theorem length_drop_lt {s : Bytes} (hSize : s.length < 2 ^ 31) (n : Nat) :
    (s.drop n).length < 2 ^ 31 := by
  rw [List.length_drop]
  omega

/-- Nothing is lost between the buffer and the kernel; the loop is done when
the buffer is empty, and blocked only when it is not. -/
theorem writeLoop_spec (ws : List Write) (c : Context) (hErr : c.err = none)
    (hSize : c.obuf.length < 2 ^ 31) :
    (writeLoop ws c).2.2 ++ (writeLoop ws c).2.1.obuf = c.obuf ∧
      (writeLoop ws c).2.1.reader = c.reader ∧
      ((writeLoop ws c).1 = .done →
        (writeLoop ws c).2.1.err = none ∧ (writeLoop ws c).2.1.obuf = []) ∧
      ((writeLoop ws c).1 = .blocked → (writeLoop ws c).2.1.obuf ≠ []) := by
  induction ws generalizing c with
  | nil =>
      by_cases hEmpty : c.obuf = []
      · rw [writeLoop_empty hErr hEmpty]
        exact ⟨rfl, rfl, fun _ => ⟨hErr, hEmpty⟩, fun hBlocked => by cases hBlocked⟩
      · rw [writeLoop_nil hErr hEmpty]
        exact ⟨rfl, rfl, fun hDone => (by cases hDone), fun _ => hEmpty⟩
  | cons w ws ih =>
      by_cases hEmpty : c.obuf = []
      · rw [writeLoop_empty hErr hEmpty]
        exact ⟨rfl, rfl, fun _ => ⟨hErr, hEmpty⟩, fun hBlocked => by cases hBlocked⟩
      · cases w with
        | wrote n =>
            obtain ⟨hBytes, hReader, hEnds⟩ :=
              ih { c with obuf := c.obuf.drop n } hErr (length_drop_lt hSize n)
            rw [writeLoop_wrote hErr hSize hEmpty]
            refine ⟨?_, hReader, hEnds⟩
            simp only [List.append_assoc]
            rw [hBytes, List.take_append_drop]
        | interrupted =>
            rw [writeLoop_interrupted hErr hEmpty]
            exact ⟨rfl, rfl, fun hDone => (by cases hDone),
              fun hBlocked => by cases hBlocked⟩
        | failed =>
            rw [writeLoop_failed hErr hEmpty]
            exact ⟨rfl, rfl, fun hDone => (by cases hDone),
              fun hBlocked => by cases hBlocked⟩

/-- What the kernel takes is the front of the buffer. -/
theorem writeLoop_sent (ws : List Write) (c : Context)
    (hSize : c.obuf.length < 2 ^ 31) :
    (writeLoop ws c).2.2 <+: c.obuf := by
  cases hErr : c.err with
  | none => exact ⟨_, (writeLoop_spec ws c hErr hSize).1⟩
  | some e =>
      have hNothing : (writeLoop ws c).2.2 = [] := by
        unfold writeLoop
        cases ws <;> simp [hErr]
      rw [hNothing]
      exact List.nil_prefix

/-- The writes of a loop run into a signal before the buffer is empty. -/
def Interrupted : List Write → Bytes → Prop
  | [], _ => False
  | .wrote n :: ws, obuf => obuf ≠ [] ∧ Interrupted ws (obuf.drop n)
  | .interrupted :: _, obuf => obuf ≠ []
  | .failed :: _, _ => False

theorem Interrupted.mem {ws : List Write} {obuf : Bytes}
    (hInterrupted : Interrupted ws obuf) :
    .interrupted ∈ ws := by
  induction ws generalizing obuf with
  | nil => exact hInterrupted.elim
  | cons w ws ih =>
      cases w with
      | wrote n => exact List.mem_cons_of_mem _ (ih hInterrupted.2)
      | interrupted => exact List.mem_cons_self ..
      | failed => exact hInterrupted.elim

/-- **An error that is not reported.** The loop fails and leaves `err` as it is
exactly when a `write` is interrupted before the buffer is empty. -/
theorem writeLoop_unreported (ws : List Write) (c : Context) (hErr : c.err = none)
    (hSize : c.obuf.length < 2 ^ 31) :
    ((writeLoop ws c).1 = .error ∧ (writeLoop ws c).2.1.err = none) ↔
      Interrupted ws c.obuf := by
  induction ws generalizing c with
  | nil =>
      constructor
      · rintro ⟨hError, -⟩
        by_cases hEmpty : c.obuf = []
        · rw [writeLoop_empty hErr hEmpty] at hError
          cases hError
        · rw [writeLoop_nil hErr hEmpty] at hError
          cases hError
      · exact False.elim
  | cons w ws ih =>
      by_cases hEmpty : c.obuf = []
      · rw [writeLoop_empty hErr hEmpty]
        constructor
        · rintro ⟨hError, -⟩
          cases hError
        · intro hInterrupted
          exfalso
          cases w with
          | wrote n => exact hInterrupted.1 hEmpty
          | interrupted => exact hInterrupted hEmpty
          | failed => exact hInterrupted
      · cases w with
        | wrote n =>
            rw [writeLoop_wrote hErr hSize hEmpty]
            have hStep :=
              ih { c with obuf := c.obuf.drop n } hErr (length_drop_lt hSize n)
            simp only
            rw [hStep]
            exact ⟨fun hRest => ⟨hEmpty, hRest⟩, fun hBoth => hBoth.2⟩
        | interrupted =>
            rw [writeLoop_interrupted hErr hEmpty]
            exact ⟨fun _ => hEmpty, fun _ => ⟨rfl, hErr⟩⟩
        | failed =>
            rw [writeLoop_failed hErr hEmpty]
            constructor
            · rintro ⟨-, hNone⟩
              cases hNone
            · exact False.elim

/-! ## The read loop -/

/-- `read` is given a buffer of 16 KiB. -/
def bufferSize : Nat := 1024 * 16

/-- What the reader may hold in front of a reply that it waits for and behind it. -/
def readerRoom : Nat := bufferSize + 1024

/-- The reader has room for the replies that are still to be handed out: each of
them leaves room for what may be in front of it and behind it, or all of them
together for what may be in front of them. -/
def Spacious (vs got : List RedisReply) : Prop :=
  (∀ v ∈ vs, (encode v).length + readerRoom ≤ 2 ^ 31) ∨
    ((vs.drop got.length).flatMap encode).length + 1024 ≤ 2 ^ 31

/-- A context whose reader is in step with what has been received of a stream
of written replies; `future` is what is still to come of it. -/
structure Linked (vs : List RedisReply) (future : Bytes)
    (c : Context) (received : Bytes) (got : List RedisReply) (rest : Bytes) : Prop where
  inStep : InStep (fun _ => True) received got rest c.reader
  stream : received ++ future = vs.flatMap encode
  room : rest.length + 1024 ≤ 2 ^ 31

section Loop

variable (mem : Nat → Bool) {vs : List RedisReply} (hSendable : ∀ v ∈ vs, Sendable 8 v)
  {future received rest : Bytes} {got : List RedisReply} {c : Context}

include hSendable

theorem Linked.rest_eq (hLinked : Linked vs future c received got rest) :
    rest ++ future = (vs.drop got.length).flatMap encode :=
  (behind_encoded hSendable hLinked.stream hLinked.inStep.behind).2

/-- What has been received of a stream of written replies is never at fault. -/
theorem Linked.not_bad (hLinked : Linked vs future c received got rest) (f : Fault) :
    parseReply 8 rest ≠ .bad f := by
  intro hBad
  have hAll := (parseReply_settled 8).bad hBad future
  rw [hLinked.rest_eq hSendable] at hAll
  cases hDrop : vs.drop got.length with
  | nil =>
      rw [hDrop] at hAll
      cases hAll
  | cons v tail =>
      have hv : Sendable 8 v :=
        hSendable v (List.mem_of_mem_drop (hDrop ▸ List.mem_cons_self ..))
      rw [hDrop, List.flatMap_cons, parseReply_encode hv] at hAll
      cases hAll

/-- Behind the replies handed out there is less than a reply, if the reader
waits for more. -/
theorem Linked.rest_short (hLinked : Linked vs future c received got rest)
    (hShort : ∀ v ∈ vs, (encode v).length + readerRoom ≤ 2 ^ 31)
    (hMore : parseReply 8 rest = .more) : rest.length + readerRoom ≤ 2 ^ 31 := by
  have hRest := hLinked.rest_eq hSendable
  cases hDrop : vs.drop got.length with
  | nil =>
      rw [hDrop, List.flatMap_nil, List.append_eq_nil_iff] at hRest
      rw [hRest.1]
      decide
  | cons v tail =>
      have hMem : v ∈ vs := List.mem_of_mem_drop (hDrop ▸ List.mem_cons_self ..)
      have hLess : rest.length < (encode v).length := by
        by_contra hNot
        rw [hDrop, List.flatMap_cons] at hRest
        have hWhole : encode v <+: rest ++ future := by
          rw [hRest]
          exact List.prefix_append _ _
        have hPrefix : encode v <+: rest :=
          List.prefix_of_prefix_length_le hWhole (List.prefix_append _ _) (by omega)
        obtain ⟨behind, rfl⟩ := hPrefix
        rw [parseReply_encode (hSendable v hMem)] at hMore
        cases hMore
      have hBound := hShort v hMem
      omega

/-- There is room for what a `read` brings while the reader waits for more. -/
theorem Linked.grown {bytes : Bytes}
    (hLinked : Linked vs (bytes ++ future) c received got rest)
    (hSpacious : Spacious vs got) (hChunk : bytes.length ≤ bufferSize)
    (hMore : parseReply 8 rest = .more) : (rest ++ bytes).length + 1024 ≤ 2 ^ 31 := by
  rcases hSpacious with hShort | hAll
  · have hRoom := hLinked.rest_short hSendable hShort hMore
    refine Nat.le_trans ?_ hRoom
    rw [List.length_append, Nat.add_assoc]
    exact Nat.add_le_add_left (Nat.add_le_add_right hChunk 1024) rest.length
  · rw [← hLinked.rest_eq hSendable, ← List.append_assoc, List.length_append] at hAll
    omega

/-- The rest gets shorter when a reply is handed out. -/
theorem Linked.handed {c' : Context} {rest' : Bytes} {more : List RedisReply}
    (hLinked : Linked vs future c received got rest)
    (hInStep : InStep (fun _ => True) received (got ++ more) rest' c'.reader) :
    Linked vs future c' received (got ++ more) rest' := by
  refine ⟨hInStep, hLinked.stream, ?_⟩
  have hBefore := congrArg List.length (hLinked.rest_eq hSendable)
  have hAfter := congrArg List.length
    (behind_encoded hSendable hLinked.stream hInStep.behind).2
  have hDrop : ((vs.drop (got ++ more).length).flatMap encode).length ≤
      ((vs.drop got.length).flatMap encode).length := by
    have hSplit : vs.drop got.length =
        (vs.drop got.length).take more.length ++ vs.drop (got ++ more).length := by
      rw [List.length_append, ← List.drop_drop, List.take_append_drop]
    have hLength := congrArg (fun l => (l.flatMap encode).length) hSplit
    simp only [List.flatMap_append, List.length_append] at hLength ⊢
    omega
  have hRoom := hLinked.room
  rw [List.length_append] at hBefore hAfter
  omega

/-- What `redisGetReplyFromReader` can do. -/
inductive Fetched (vs : List RedisReply) (future received : Bytes)
    (got : List RedisReply) (rest : Bytes) (c : Context) :
    Bool → RedisReply → Context → Prop where
  | failed {c' : Context} (hErr : c'.err ≠ none) : Fetched vs future received
      got rest c false .null c'
  | waiting {c' : Context} (hErr : c'.err = c.err) (hObuf : c'.obuf = c.obuf)
      (hMore : parseReply 8 rest = .more)
      (hLinked : Linked vs future c' received got rest) :
      Fetched vs future received got rest c true .null c'
  | fetched {v : RedisReply} {tail : Bytes} {c' : Context} {rest' : Bytes}
      (hErr : c'.err = c.err) (hObuf : c'.obuf = c.obuf)
      (hOk : parseReply 8 rest = .ok v tail)
      (hLinked : Linked vs future c' received (got ++ [v]) rest') :
      Fetched vs future received got rest c true v c'

theorem fromReader_fetched (hLinked : Linked vs future c received got rest) :
    ∃ ok v c', redisGetReplyFromReader mem c = some (ok, v, c') ∧
      Fetched vs future received got rest c ok v c' := by
  have hSmall : c.reader.err = none → c.reader.buf.length < 2 ^ 31 := fun hErr =>
    Nat.lt_of_lt_of_le (hLinked.inStep.buffer hErr) hLinked.room
  have hWhy : ∀ r, Failing mem r → True := fun _ _ => trivial
  obtain ⟨answer, r', rest', hCall, hAnswer, hAfter⟩ :=
    getReply_inStep hWhy hLinked.inStep hSmall
  unfold redisGetReplyFromReader
  rw [hCall, Option.map_some]
  rcases hAnswer with ⟨rfl, hErr⟩ | ⟨rfl, hErr, -⟩
  · cases hVerdict : parseReply 8 rest with
    | bad f => exact absurd hVerdict (hLinked.not_bad hSendable f)
    | more =>
        rw [hVerdict] at hAfter
        have hSame : Linked vs future { c with reader := r' } received _ rest' :=
          hLinked.handed hSendable hAfter
        refine ⟨true, .null, _, rfl, .waiting rfl rfl hVerdict ?_⟩
        have hNothing : got ++ (Answer.handed (answerOf .more)).toList = got :=
          List.append_nil got
        rw [hNothing] at hSame
        have hRest : rest' = rest := by
          have hNew := hSame.rest_eq hSendable
          rw [← hLinked.rest_eq hSendable] at hNew
          exact List.append_cancel_right hNew
        rw [hRest] at hSame
        exact hSame
    | ok v tail =>
        rw [hVerdict] at hAfter
        have hNull := parse_ne_null hVerdict
        have hHanded : Answer.handed (answerOf (.ok v tail)) = some v := by
          cases v with
          | null => exact absurd rfl hNull
          | _ => rfl
        rw [hHanded] at hAfter
        exact ⟨true, v, _, rfl,
          .fetched rfl rfl hVerdict (hLinked.handed hSendable hAfter)⟩
  · refine ⟨false, .null, _, rfl, .failed ?_⟩
    simp [hErr]

omit hSendable in
variable {mem} in
theorem feed_failed {r r' : Reader} {buf : Bytes}
    (hFeed : redisReaderFeed mem r buf = some (false, r')) : r'.err.isSome = true := by
  unfold redisReaderFeed at hFeed
  split at hFeed
  · rename_i hErr
    cases hFeed
    exact hErr
  · split at hFeed
    · cases hFeed
    · obtain ⟨r₁, -, hAppend⟩ := Option.bind_eq_some_iff.1 hFeed
      unfold appendBuffer at hAppend
      split at hAppend
      · cases hAppend
      · simp only at hAppend
        split at hAppend
        · cases hAppend
        · split at hAppend
          · cases hAppend
          · cases hAppend
            rfl

/-- What `redisBufferRead` brings is added to what was received. -/
theorem bufferRead_linked (hErr : c.err = none) (hSpacious : Spacious vs got) {e : Read}
    (hChunk : e.bytes.length ≤ bufferSize) {future : Bytes}
    (hLinked : Linked vs (e.bytes ++ future) c received got rest)
    (hMore : parseReply 8 rest = .more) {ok : Bool} {c' : Context}
    (hRead : redisBufferRead mem c e = some (ok, c')) :
    (ok = false ∧ c'.err ≠ none) ∨
      (ok = true ∧ c'.err = none ∧ c'.obuf = c.obuf ∧
        Linked vs future c' (received ++ e.bytes) got (rest ++ e.bytes)) := by
  have hSize := hLinked.grown hSendable hSpacious hChunk hMore
  have hStream : received ++ e.bytes ++ future = vs.flatMap encode := by
    rw [List.append_assoc]
    exact hLinked.stream
  unfold redisBufferRead at hRead
  rw [if_neg (by rw [hErr]; simp)] at hRead
  cases e with
  | interrupted =>
      cases hRead
      refine Or.inr ⟨rfl, hErr, rfl, ?_, hStream, ?_⟩
      · simpa [Read.bytes] using hLinked.inStep
      · simpa [Read.bytes] using hLinked.room
  | failed =>
      cases hRead
      exact Or.inl ⟨rfl, by simp⟩
  | got bytes =>
      simp only at hRead
      by_cases hBytes : bytes = []
      · rw [if_pos hBytes] at hRead
        cases hRead
        exact Or.inl ⟨rfl, by simp⟩
      · rw [if_neg hBytes] at hRead
        obtain ⟨⟨fed, r'⟩, hFeed, hEq⟩ := Option.map_eq_some_iff.1 hRead
        cases hEq
        have hWhy : ∀ r, Failing mem r → True := fun _ _ => trivial
        have hInStep := feed_inStep hWhy hLinked.inStep hFeed
        cases fed with
        | false =>
            have hSome := feed_failed hFeed
            refine Or.inl ⟨rfl, ?_⟩
            simpa [Option.isSome_iff_ne_none] using hSome
        | true =>
            exact Or.inr ⟨rfl, hErr, rfl, ⟨hInStep, hStream, hSize⟩⟩

/-- How the read loop ends, with `all` the bytes of its events. -/
inductive ReadEnd (vs : List RedisReply) (future received : Bytes)
    (got : List RedisReply) (c : Context) (all : Bytes) :
    Result → Context → Bytes → Prop where
  | reply {v : RedisReply} {c' : Context}
      {rcv left rest' : Bytes} (hErr : c'.err = none) (hObuf : c'.obuf = c.obuf)
      (hSplit : rcv ++ left = all)
      (hLinked : Linked vs (left ++ future) c' (received ++ rcv) (got ++ [v]) rest') :
      ReadEnd vs future received got c all (.reply v) c' rcv
  | null {c' : Context} {rcv : Bytes} (hErr : c'.err ≠ none) :
      ReadEnd vs future received got c all .null c' rcv
  | blocked {c' : Context} {rest' : Bytes} (hErr : c'.err = none)
      (hObuf : c'.obuf = c.obuf)
      (hLinked : Linked vs future c' (received ++ all) got rest')
      (hMore : parseReply 8 rest' = .more) :
      ReadEnd vs future received got c all .blocked c' all

omit hSendable in
/-- A round that brings bytes and no reply. -/
theorem ReadEnd.after {bytes all : Bytes} {c₁ : Context} {res : Result} {c' : Context}
    {rcv : Bytes} (hEnd : ReadEnd vs future (received ++ bytes) got c₁ all res c' rcv)
    (hObuf₁ : c₁.obuf = c.obuf) :
    ReadEnd vs future received got c (bytes ++ all) res c' (bytes ++ rcv) := by
  cases hEnd with
  | reply hErr hObuf hSplit hLinked =>
      rw [List.append_assoc] at hLinked
      refine .reply hErr (hObuf.trans hObuf₁) ?_ hLinked
      rw [List.append_assoc, hSplit]
  | null hErr => exact .null hErr
  | blocked hErr hObuf hLinked hMore =>
      refine .blocked hErr (hObuf.trans hObuf₁) ?_ hMore
      rwa [List.append_assoc] at hLinked

/-- **The read loop.** Any pieces of the stream, cut by signals or not. -/
theorem readLoop_end (hSpacious : Spacious vs got)
    (es : List Read) (hChunks : ∀ e ∈ es, e.bytes.length ≤ bufferSize)
    (hErr : c.err = none)
    (hLinked : Linked vs (es.flatMap Read.bytes ++ future) c received got rest)
    (hMore : parseReply 8 rest = .more) {res : Result} {c' : Context} {rcv : Bytes}
    (hLoop : readLoop mem es c = some (res, c', rcv)) :
    ReadEnd vs future received got c (es.flatMap Read.bytes) res c' rcv := by
  induction es generalizing c received rest rcv with
  | nil =>
      rw [readLoop, if_neg (by rw [hErr]; simp)] at hLoop
      cases hLoop
      exact .blocked hErr rfl (by simpa using hLinked) hMore
  | cons e es ih =>
      rw [List.flatMap_cons, List.append_assoc] at hLinked
      obtain ⟨⟨ok, c₁⟩, hRead, hRest⟩ := Option.bind_eq_some_iff.1 hLoop
      have hCase := bufferRead_linked mem hSendable hErr hSpacious
        (hChunks e (List.mem_cons_self ..)) hLinked hMore hRead
      rw [List.flatMap_cons]
      rcases hCase with ⟨rfl, hErr₁⟩ | ⟨rfl, hErr₁, hObuf₁, hLinked₁⟩
      · cases hRest
        exact .null hErr₁
      · obtain ⟨ok, v, c₂, hFetch, hFetched⟩ :=
          fromReader_fetched mem hSendable hLinked₁
        simp only [if_true, hFetch, Option.bind_eq_bind, Option.bind_some] at hRest
        cases hFetched with
        | failed hErr₂ =>
            cases hRest
            exact .null hErr₂
        | waiting hErr₂ hObuf₂ hMore₂ hLinked₂ =>
            have hNull : RedisReply.isNull .null = true := rfl
            rw [if_pos rfl, if_pos hNull] at hRest
            obtain ⟨⟨res₁, c₃, more⟩, hNext, hEq⟩ := Option.bind_eq_some_iff.1 hRest
            cases hEq
            have hEnd := ih (fun e' he' => hChunks e' (List.mem_cons_of_mem _ he'))
              (hErr₂.trans hErr₁) hLinked₂ hMore₂ hNext
            exact hEnd.after (hObuf₂.trans hObuf₁)
        | fetched hErr₂ hObuf₂ hOk hLinked₂ =>
            have hNull : RedisReply.isNull v = false := by
              cases hv : v with
              | null => exact absurd hv (parse_ne_null hOk)
              | _ => rfl
            rw [if_pos rfl, hNull, if_neg (by simp)] at hRest
            cases hRest
            exact .reply (hErr₂.trans hErr₁) (hObuf₂.trans hObuf₁) rfl hLinked₂

/-! ## One command -/

/-- What `redisCommand` can come to on a healthy context, with `obuf` what was
in the buffer behind the new command and `all` the bytes of the read events. -/
inductive CommandEnd (vs : List RedisReply) (future received : Bytes)
    (got : List RedisReply) (rest : Bytes) (writes : List Write) (obuf all : Bytes)
    (out : Outcome) : Prop where
  | replied {v : RedisReply} {left rest' : Bytes} (hResult : out.result = .reply v)
      (hErr : out.context.err = none) (hSent : out.sent ++ out.context.obuf = obuf)
      (hFlushed : parseReply 8 rest = .more → out.context.obuf = [])
      (hSplit : out.received ++ left = all)
      (hLinked : Linked vs (left ++ future) out.context (received ++ out.received)
        (got ++ [v]) rest')
  | failed (hResult : out.result = .null) (hErr : out.context.err ≠ none)
  | interrupted {rest' : Bytes} (hResult : out.result = .null)
      (hErr : out.context.err = none) (hWrites : Interrupted writes obuf)
      (hSent : out.sent ++ out.context.obuf = obuf) (hReceived : out.received = [])
      (hLinked : Linked vs (all ++ future) out.context received got rest')
  | blocked {left rest' : Bytes} (hResult : out.result = .blocked)
      (hSplit : out.received ++ left = all)
      (hLinked : Linked vs (left ++ future) out.context
      (received ++ out.received) got rest')
      (hMore : parseReply 8 rest' = .more)
      (hWaits : out.context.obuf ≠ [] ∨ left = [] ∧ out.context.obuf = [])
      (hSent : out.sent ++ out.context.obuf = obuf)

/-- The two loops of `redisGetReply`, when no whole reply is in the buffer. -/
theorem redisGetReply_loops (hSpacious : Spacious vs got)
    {writes : List Write} {reads : List Read}
    (hChunks : ∀ e ∈ reads, e.bytes.length ≤ bufferSize) {c₁ : Context}
    (hFetch : redisGetReplyFromReader mem c = some (true, .null, c₁))
    (hErr₁ : c₁.err = none) (hSize₁ : c₁.obuf.length < 2 ^ 31)
    (hMore : parseReply 8 rest = .more)
    (hLinked₁ : Linked vs (reads.flatMap Read.bytes ++ future) c₁ received got rest)
    {out : Outcome} (hOut : redisGetReply mem writes reads c = some out) :
    CommandEnd vs future received got rest writes c₁.obuf (reads.flatMap Read.bytes)
      out := by
  obtain ⟨hBytes, hReader, hDone, hBlocked⟩ := writeLoop_spec writes c₁ hErr₁ hSize₁
  have hUnreported := writeLoop_unreported writes c₁ hErr₁ hSize₁
  have hNull : RedisReply.isNull .null = true := rfl
  unfold redisGetReply at hOut
  simp only [hFetch, Option.bind_eq_bind, Option.bind_some] at hOut
  rw [if_pos trivial, if_pos hNull] at hOut
  obtain ⟨⟨flushed, c₂, sent⟩, hLoop⟩ : ∃ res, writeLoop writes c₁ = res := ⟨_, rfl⟩
  rw [hLoop] at hBytes hReader hDone hBlocked hUnreported hOut
  have hLinked₂ :
      Linked vs (reads.flatMap Read.bytes ++ future) c₂ received got rest :=
    ⟨by rw [hReader]; exact hLinked₁.inStep, hLinked₁.stream, hLinked₁.room⟩
  cases flushed with
  | blocked =>
      cases hOut
      rw [← List.append_nil received] at hLinked₂
      exact .blocked rfl rfl hLinked₂ hMore (Or.inl (hBlocked rfl)) hBytes
  | error =>
      cases hOut
      by_cases hErr₂ : c₂.err = none
      · exact .interrupted rfl hErr₂
          (hUnreported.1 ⟨rfl, hErr₂⟩) hBytes rfl hLinked₂
      · exact .failed rfl hErr₂
  | done =>
      obtain ⟨hErr₂, hObuf₂⟩ := hDone rfl
      obtain ⟨⟨res, c₃, rcv⟩, hRead, hEq⟩ := Option.bind_eq_some_iff.1 hOut
      cases hEq
      have hEnd :=
        readLoop_end mem hSendable hSpacious reads hChunks hErr₂ hLinked₂ hMore hRead
      cases hEnd with
      | null hErr₃ => exact .failed rfl hErr₃
      | blocked hErr₃ hObuf₃ hLinked₃ hMore₃ =>
          have hEmpty : c₃.obuf = [] := hObuf₃.trans hObuf₂
          refine .blocked rfl (List.append_nil _) hLinked₃ hMore₃
            (Or.inr ⟨rfl, hEmpty⟩) ?_
          rw [← hBytes, hObuf₃]
      | reply hErr₃ hObuf₃ hSplit hLinked₃ =>
          refine .replied rfl hErr₃ ?_ (fun _ => hObuf₃.trans hObuf₂) hSplit hLinked₃
          rw [← hBytes, hObuf₃]

/-- **One command.** If it comes back, it does so in one of these four ways,
whatever the kernel does. -/
theorem redisCommand_end (hSpacious : Spacious vs got)
    {format : Bytes} {args : List Arg} {memory : Bool} {len : Int} {cmd : Bytes}
    (hCmd : redisvFormatCommand memory format args = .ok len cmd)
    (hSize : (c.obuf ++ cmd).length < 2 ^ 31) {writes : List Write} {reads : List Read}
    (hChunks : ∀ e ∈ reads, e.bytes.length ≤ bufferSize) (hErr : c.err = none)
    (hLinked : Linked vs (reads.flatMap Read.bytes ++ future) c received got rest)
    {out : Outcome}
    (hOut : redisCommand mem format args memory writes reads c = some out) :
    CommandEnd vs future received got rest writes (c.obuf ++ cmd)
      (reads.flatMap Read.bytes)
      out := by
  have hLinked₀ :
      Linked vs (reads.flatMap Read.bytes ++ future) { c with obuf := c.obuf ++ cmd }
      received got rest := ⟨hLinked.inStep, hLinked.stream, hLinked.room⟩
  obtain ⟨ok, v, c₁, hFetch, hFetched⟩ := fromReader_fetched mem hSendable hLinked₀
  rw [redisCommand, hCmd] at hOut
  cases hFetched with
  | failed hErr₁ =>
      unfold redisGetReply at hOut
      simp only [hFetch, Option.bind_eq_bind, Option.bind_some] at hOut
      cases hOut
      exact .failed rfl hErr₁
  | fetched hErr₁ hObuf₁ hOk hLinked₁ =>
      have hNull : RedisReply.isNull v = false := by
        cases hv : v with
        | null => exact absurd hv (parse_ne_null hOk)
        | _ => rfl
      unfold redisGetReply at hOut
      simp only [hFetch, Option.bind_eq_bind, Option.bind_some] at hOut
      rw [if_pos trivial, hNull, if_neg (by simp)] at hOut
      cases hOut
      rw [← List.append_nil received] at hLinked₁
      have hFlushed : parseReply 8 rest = .more → c₁.obuf = [] := by
        intro hMore
        rw [hOk] at hMore
        cases hMore
      exact .replied rfl (hErr₁.trans hErr) hObuf₁ hFlushed rfl hLinked₁
  | waiting hErr₁ hObuf₁ hMore hLinked₁ =>
      have hObuf₁' : c₁.obuf = c.obuf ++ cmd := hObuf₁
      rw [← hObuf₁'] at hSize ⊢
      exact redisGetReply_loops mem hSendable hSpacious hChunks hFetch
        (hErr₁.trans hErr) hSize hMore hLinked₁ hOut

end Loop

/-- Whatever the reader holds, a command sends from the front of the buffer. -/
theorem redisCommand_sent {mem : Nat → Bool} {format : Bytes} {args : List Arg}
    {memory : Bool} {len : Int} {cmd : Bytes}
    (hCmd : redisvFormatCommand memory format args = .ok len cmd) {writes : List Write}
    {reads : List Read} {c : Context} (hSize : (c.obuf ++ cmd).length < 2 ^ 31)
    {out : Outcome}
    (hOut : redisCommand mem format args memory writes reads c = some out) :
    out.sent <+: c.obuf ++ cmd := by
  rw [redisCommand, hCmd] at hOut
  obtain ⟨⟨ok, v, c₁⟩, hFetch, hRest⟩ := Option.bind_eq_some_iff.1 hOut
  have hObuf : c₁.obuf = c.obuf ++ cmd := by
    obtain ⟨⟨answer, r⟩, -, hEq⟩ := Option.map_eq_some_iff.1 hFetch
    cases answer <;> cases hEq <;> rfl
  rw [← hObuf] at hSize
  have hSent := writeLoop_sent writes c₁ hSize
  rw [hObuf] at hSent
  simp only at hRest
  split at hRest
  · split at hRest
    · split at hRest
      · rename_i hLoop
        obtain ⟨⟨res, c₃, rcv⟩, -, hEq⟩ := Option.bind_eq_some_iff.1 hRest
        cases hEq
        rwa [hLoop] at hSent
      · rename_i hLoop
        cases hRest
        rwa [hLoop] at hSent
      · rename_i hLoop
        cases hRest
        rwa [hLoop] at hSent
    · cases hRest
      exact List.nil_prefix
  · cases hRest
    exact List.nil_prefix

end MGServer.Ports.RedisContext
