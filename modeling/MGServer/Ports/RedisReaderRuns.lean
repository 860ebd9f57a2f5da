import MGServer.Ports.RedisReaderStack

/-!
# What a reader answers over a whole connection

`redisReaderFeed` and `redisReaderGetReply` may be called in any order and the
bytes may come in any pieces.  The answer to a call depends on two things
only: the bytes fed so far, and how many replies have been handed out.  From
there on the stream can be reasoned about as if it had been there at once, and
a stream of written replies comes back as those replies, each once and in
order.
-/

namespace MGServer.Ports.RedisReaderRuns

open MGServer.Verified.ByteString
open MGServer.Verified.Incremental
open MGServer.Verified.Transition
open MGServer.Ports.RedisReader
open MGServer.Ports.RedisProtocol
open MGServer.Ports.RedisReaderStack

/-! ## One call -/

/-- How the loop of `redisReaderGetReply` can end. -/
inductive Reading (p : Place) (unread : Bytes) (r' : Reader) : Prop where
  | waits {p' : Place} (hReads : Reads r' p') (hBounded : Bounded r')
      (hMeaning : ∀ future,
        p.meaning (unread ++ future) = p'.meaning (r'.unread ++ future))
      (hMore : p'.meaning r'.unread = .more) (hSuffix : r'.unread <:+ unread)
  | faults {f : Fault} (hErr : r'.err = some f)
      (hMeaning : ∀ future, p.meaning (unread ++ future) = .bad f)
  | ends {v : RedisReply} (hErr : r'.err = none) (hStack : r'.rstack = [])
      (hReply : r'.reply = v) (hBounded : Bounded r')
      (hMeaning : ∀ future, p.meaning (unread ++ future) = .ok v (r'.unread ++ future))

theorem Reading.after {p p₁ : Place} {unread unread₁ : Bytes} {r' : Reader}
    (hReading : Reading p₁ unread₁ r')
    (hStep : ∀ future, p.meaning (unread ++ future) = p₁.meaning (unread₁ ++ future))
    (hBack : unread₁ <:+ unread) : Reading p unread r' := by
  cases hReading with
  | waits hReads hBounded hMeaning hMore hSuffix =>
      exact .waits hReads hBounded
        (fun future => (hStep future).trans (hMeaning future)) hMore
        (hSuffix.trans hBack)
  | faults hErr hMeaning =>
      exact .faults hErr fun future => (hStep future).trans (hMeaning future)
  | ends hErr hStack hReply hBounded hMeaning =>
      exact .ends hErr hStack hReply hBounded fun future =>
        (hStep future).trans (hMeaning future)

theorem reads_stack_ne_nil {r : Reader} {p : Place} (hReads : Reads r p) :
    r.rstack ≠ [] := by
  obtain ⟨obj, hStack⟩ := hReads.stack
  rw [hStack]
  exact List.cons_ne_nil _ _

section Call

variable {mem : Nat → Bool} (hMem : ∀ n, mem n = true)

include hMem

/-- The loop ends: every round that goes on consumes a byte. -/
theorem processItems_reading {fuel : Nat} {r : Reader} {p : Place} (hReads : Reads r p)
    (hBounded : Bounded r) (hFuel : r.unread.length < fuel) :
    ∃ r', processItems mem fuel r = some r' ∧ Reading p r.unread r' := by
  induction fuel generalizing r p with
  | zero => omega
  | succ fuel ih =>
      have hSize : r.unread.length ≤ 2 ^ 31 := by
        have hBuf := hBounded.size
        rw [length_unread]
        omega
      obtain ⟨ok, r', hRun, hRound⟩ := processItem_round hMem hReads hBounded hSize
      rw [processItems, if_neg (reads_stack_ne_nil hReads), hRun]
      simp only [Option.bind_eq_bind, Option.bind_some]
      cases hRound with
      | waits hReads' hBounded' hMeaning hMore hSuffix =>
          exact ⟨r', rfl, .waits hReads' hBounded' hMeaning hMore hSuffix⟩
      | faults hErr hMeaning => exact ⟨r', rfl, .faults hErr hMeaning⟩
      | moves hReads' hBounded' hMeaning hSuffix hLess =>
          obtain ⟨r'', hRest, hReading⟩ := ih hReads' hBounded' (by omega)
          exact ⟨r'', hRest, hReading.after hMeaning hSuffix⟩
      | ends hErr hStack hReply hBounded' hMeaning hLess =>
          refine ⟨r', ?_, .ends hErr hStack hReply hBounded' hMeaning⟩
          -- the round that ends the reply leaves nothing to do
          cases fuel with
          | zero => omega
          | succ fuel => rw [if_pos rfl, processItems, if_pos hStack]

end Call

/-! ## Between calls -/

/-- A reader between two calls. -/
structure Rests (r : Reader) (p : Place) : Prop where
  reads : Reads (startReply r) p
  pos : r.pos ≤ r.buf.length
  small : r.pos < 1024
  nil : p.meaning [] = .more

/-- On no bytes at all a place asks for more, unless it is an array that goes
too deep. -/
theorem meaning_nil (p : Place) :
    p.meaning [] = .more ∨ ∀ input, p.meaning input = .bad .nested := by
  obtain ⟨fs, kind⟩ := p
  cases kind with
  | none =>
      left
      show (parseReply _ []).bind _ = _
      rw [parseReply_eq]
      rfl
  | some kind =>
      cases kind with
      | array =>
          show (parseMultiBulk (innerParse _) []).bind _ = _ ∨
            ∀ input, (parseMultiBulk (innerParse _) input).bind _ = _
          cases innerParse (depthLeft fs) with
          | none => exact Or.inr fun _ => rfl
          | some parse => exact Or.inl rfl
      | string => exact Or.inl rfl
      | integer => exact Or.inl rfl
      | status => exact Or.inl rfl
      | error => exact Or.inl rfl

theorem startReply_of_ne_nil {r : Reader} (hStack : r.rstack ≠ []) :
    startReply r = r := by
  rw [startReply, if_neg hStack]

theorem startReply_unread (r : Reader) : (startReply r).unread = r.unread := by
  unfold startReply
  split <;> rfl

theorem startReply_bounded {r : Reader} (hBounded : Bounded r) :
    Bounded (startReply r) := by
  unfold startReply
  split
  · exact ⟨hBounded.pos, hBounded.size⟩
  · exact hBounded

/-- In a buffer whose length fits an `int`, `sdsrange` keeps what is unread. -/
theorem discardRead_eq {r : Reader} (hBounded : Bounded r) :
    discardRead r =
      if r.pos ≥ 1024 then { r with buf := r.unread, pos := 0 } else r := by
  have hPos := hBounded.pos
  have hSize := hBounded.size
  rw [discardRead, toInt_eq (by omega), sdsrange_drop hSize hPos]
  rfl

theorem discardRead_unread {r : Reader} (hBounded : Bounded r) :
    (discardRead r).unread = r.unread := by
  rw [discardRead_eq hBounded]
  split
  · simp [Reader.unread]
  · rfl

@[simp] theorem discardRead_err (r : Reader) : (discardRead r).err = r.err := by
  unfold discardRead
  split <;> rfl

@[simp] theorem discardRead_rstack (r : Reader) :
    (discardRead r).rstack = r.rstack := by
  unfold discardRead
  split <;> rfl

@[simp] theorem discardRead_reply (r : Reader) : (discardRead r).reply = r.reply := by
  unfold discardRead
  split <;> rfl

theorem discardRead_small (r : Reader) : (discardRead r).pos < 1024 := by
  unfold discardRead
  split
  · exact Nat.zero_lt_succ _
  · rename_i hPos
    omega

theorem discardRead_pos {r : Reader} (hBounded : Bounded r) :
    (discardRead r).pos ≤ (discardRead r).buf.length := by
  rw [discardRead_eq hBounded]
  split
  · exact Nat.zero_le _
  · exact hBounded.pos

theorem reads_discardRead {r : Reader} {p : Place} (hReads : Reads r p) :
    Reads (discardRead r) p := by
  unfold discardRead
  split
  · exact ⟨hReads.err, hReads.stack, hReads.reply, hReads.isOpen, hReads.deep⟩
  · exact hReads

theorem rests_create : Rests redisReaderCreate ⟨[], none⟩ where
  reads := ⟨rfl, ⟨none, rfl⟩, rfl, fun _ hf => (List.not_mem_nil hf).elim,
    Nat.zero_le _⟩
  pos := Nat.le_refl _
  small := by decide
  nil := rfl

/-- A reader that has handed out a reply starts over. -/
theorem rests_handed {r : Reader} (hErr : r.err = none) (hStack : r.rstack = [])
    (hBounded : Bounded r) :
    Rests { discardRead r with reply := .null } ⟨[], none⟩ := by
  have hErr' : (discardRead r).err = none := (discardRead_err r).trans hErr
  have hStack' : (discardRead r).rstack = [] := (discardRead_rstack r).trans hStack
  refine ⟨⟨?_, ⟨none, ?_⟩, ?_, fun _ hf => (List.not_mem_nil hf).elim, Nat.zero_le _⟩,
    discardRead_pos hBounded, discardRead_small r, rfl⟩
  · rw [startReply, if_pos hStack']
    exact hErr'
  · rw [startReply, if_pos hStack']
    rfl
  · rw [startReply, if_pos hStack']
    rfl

theorem rests_waiting {r : Reader} {p : Place}
    (hReads : Reads r p) (hBounded : Bounded r) (hMore : p.meaning r.unread = .more) :
    Rests (discardRead r) p where
  reads := by
    rw [startReply_of_ne_nil (reads_stack_ne_nil (reads_discardRead hReads))]
    exact reads_discardRead hReads
  pos := discardRead_pos hBounded
  small := discardRead_small r
  nil := by
    rcases meaning_nil p with hNil | hBad
    · exact hNil
    · rw [hBad] at hMore
      cases hMore

/-! ## Sessions -/

inductive Call where
  | feed (buf : Bytes)
  | getReply
  deriving Repr, DecidableEq

/-- A reader and its answers so far. -/
structure Session where
  reader : Reader
  answers : List Answer

def begin : Session := ⟨redisReaderCreate, []⟩

def step (mem : Nat → Bool) (s : Session) : Call → Option Session
  | .feed buf =>
      (redisReaderFeed mem s.reader buf).map fun got => { s with reader := got.2 }
  | .getReply =>
      (redisReaderGetReply mem s.reader).map fun got => ⟨got.2, s.answers ++ [got.1]⟩

/-- The bytes fed by a list of calls. -/
def fed (calls : List Call) : Bytes :=
  calls.flatMap fun
    | .feed buf => buf
    | .getReply => []

/-- The reply in an answer, if there is one. -/
def Answer.handed : Answer → Option RedisReply
  | .failed => none
  | .ok .null => none
  | .ok v => some v

/-- The replies handed out. -/
def replies (answers : List Answer) : List RedisReply := answers.filterMap Answer.handed

theorem replies_append (answers : List Answer) (answer : Answer) :
    replies (answers ++ [answer]) = replies answers ++
    (Answer.handed answer).toList := by
  rw [replies, List.filterMap_append]
  cases hHanded : Answer.handed answer with
  | none => simp [hHanded, replies]
  | some v => simp [hHanded, replies]

/-- The length of the buffer fits the `int`s of `seekNewline` and `sdsrange`. -/
def fits (s : Session) : Bool := s.reader.buf.length < 2 ^ 31

/-- The answer that goes with a verdict. -/
def answerOf : Verdict Fault RedisReply UInt8 → Answer
  | .more => .ok .null
  | .bad _ => .failed
  | .ok v _ => .ok v

def faultOf : Verdict Fault RedisReply UInt8 → Option Fault
  | .bad f => some f
  | _ => none

/-- What holds of a session: the stream starts with the replies handed out,
and the reader stands somewhere in what follows them. -/
structure Follows (stream : Bytes) (got : List RedisReply) (rest : Bytes) (r : Reader) :
    Prop where
  behind : Behind (parseReply 8) stream got rest
  present :
    (∃ f, r.err = some f ∧ ∀ future, parseReply 8 (rest ++ future) = .bad f) ∨
    ∃ p, Rests r p ∧ Tracks (parseReply 8) Place.meaning rest p r.unread ∧
      r.unread <:+ rest

theorem follows_create : Follows [] [] [] redisReaderCreate where
  behind := behind_nil
  present := Or.inr ⟨_, rests_create, tracks_start meaning_start [], List.suffix_refl _⟩

theorem Rests.err {r : Reader} {p : Place} (hRests : Rests r p) : r.err = none := by
  have hErr := hRests.reads.err
  unfold startReply at hErr
  split at hErr <;> exact hErr

/-- No reply of the protocol is null. -/
theorem parse_ne_null {depth : Nat} {input rest : Bytes} {v : RedisReply}
    (hOk : parseReply depth input = .ok v rest) : v ≠ .null := by
  obtain ⟨text, hWire, -⟩ := (parseReply_exact depth _ _ _).1 hOk
  rintro rfl
  cases depth with
  | zero => cases hWire
  | succ depth => cases hWire

/-- A reader that has more in its buffer is where it was. -/
theorem Rests.fed {r r' : Reader} {p : Place} (hRests : Rests r p)
    (hErr : r'.err = r.err) (hStack : r'.rstack = r.rstack)
    (hReply : r'.reply = r.reply) (hPos : r'.pos = r.pos)
    (hRoom : r'.pos ≤ r'.buf.length) : Rests r' p where
  reads := by
    have hReads := hRests.reads
    unfold startReply at hReads ⊢
    rw [hStack]
    split at hReads
    · rename_i hEmpty
      rw [if_pos hEmpty]
      exact ⟨hErr.trans hReads.err, hReads.stack,
        hReply.trans hReads.reply, hReads.isOpen, hReads.deep⟩
    · rename_i hTasks
      rw [if_neg hTasks]
      exact ⟨hErr.trans hReads.err, hStack ▸ hReads.stack, hReply.trans hReads.reply,
        hReads.isOpen, hReads.deep⟩
  pos := hRoom
  small := by
    rw [hPos]
    exact hRests.small
  nil := hRests.nil

/-- One of the allocations asked for so far has failed. -/
def Failing (mem : Nat → Bool) (r : Reader) : Prop := ∃ n, n < r.made ∧ mem n = false

/-- What a feed comes to, if it comes back. -/
inductive Feeding (mem : Nat → Bool) (r : Reader) (buf : Bytes) :
    Bool → Reader → Prop where
  | added {r' : Reader} (hErr : r'.err = r.err) (hStack : r'.rstack = r.rstack)
      (hReply : r'.reply = r.reply) (hPos : r'.pos = r.pos)
      (hBuf : r'.buf = r.buf ++ buf) :
      Feeding mem r buf true r'
  | refused {f : Fault} (hErr : r.err = some f) : Feeding mem r buf false r
  | starved {r' : Reader} (hErr : r'.err = some .memory) (hFails : Failing mem r') :
      Feeding mem r buf false r'

theorem appendBuffer_feeding {mem : Nat → Bool} {r r' : Reader}
    {buf : Bytes} {ok : Bool} (hAppend : appendBuffer mem r buf = some (ok, r')) :
    Feeding mem r buf ok r' := by
  unfold appendBuffer at hAppend
  split at hAppend
  · cases hAppend
    exact .added rfl rfl rfl rfl rfl
  · simp only at hAppend
    split at hAppend
    · cases hAppend
      exact .added rfl rfl rfl rfl rfl
    · rename_i hMem
      split at hAppend
      · cases hAppend
      · cases hAppend
        exact .starved rfl ⟨r.made, Nat.lt_succ_self _, Bool.eq_false_iff.2 hMem⟩

/-- **One call of `redisReaderFeed`.** -/
theorem redisReaderFeed_feeding {mem : Nat → Bool} {r r' : Reader}
    {buf : Bytes} {ok : Bool} (hPos : r.pos ≤ r.buf.length)
    (hFeed : redisReaderFeed mem r buf = some (ok, r')) :
    Feeding mem r buf ok r' := by
  unfold redisReaderFeed at hFeed
  split at hFeed
  · rename_i hErr
    cases hFeed
    obtain ⟨f, hErr⟩ := Option.isSome_iff_exists.1 hErr
    exact .refused hErr
  · split at hFeed
    · rename_i hBuf
      cases hFeed
      exact .added rfl rfl rfl rfl (by rw [hBuf, List.append_nil])
    · obtain ⟨r₁, hRenew, hAppend⟩ := Option.bind_eq_some_iff.1 hFeed
      unfold renewBuffer at hRenew
      split at hRenew
      · rename_i hSpare
        split at hRenew
        · cases hRenew
          have hZero : r.pos = 0 := by
            rw [hSpare.1] at hPos
            exact Nat.le_zero.1 hPos
          cases appendBuffer_feeding hAppend with
          | added hErr hStack hReply hPos' hBuf =>
              exact .added hErr hStack hReply (hPos'.trans hZero.symm) hBuf
          | refused hErr => simp_all
          | starved hErr hFails => exact .starved hErr hFails
        · cases hRenew
      · cases hRenew
        exact appendBuffer_feeding hAppend

theorem feed_follows {mem : Nat → Bool} {stream rest : Bytes} {got : List RedisReply}
    {r r' : Reader} {ok : Bool} (hFollows : Follows stream got rest r) {buf : Bytes}
    (hFeed : redisReaderFeed mem r buf = some (ok, r')) :
    Follows (stream ++ buf) got (rest ++ buf) r' ∨
    r'.err = some .memory ∧ Failing mem r' := by
  have hBehind := hFollows.behind.feed buf
  rcases hFollows.present with ⟨f, hErr, hBad⟩ | ⟨p, hRests, hTracks, hSuffix⟩
  · left
    rw [redisReaderFeed, if_pos (by rw [hErr]; rfl)] at hFeed
    cases hFeed
    refine ⟨hBehind, Or.inl ⟨f, hErr, ?_⟩⟩
    intro future
    rw [List.append_assoc]
    exact hBad (buf ++ future)
  · cases redisReaderFeed_feeding hRests.pos hFeed with
    | refused hErr =>
        rw [hRests.err] at hErr
        cases hErr
    | starved hErr hFails => exact Or.inr ⟨hErr, hFails⟩
    | added hErr hStack hReply hPos hBuf =>
        left
        have hOld := hRests.pos
        have hUnread : r'.unread = r.unread ++ buf := by
          rw [Reader.unread, hBuf, hPos]
          exact List.drop_append_of_le_length hOld
        have hRoom : r'.pos ≤ r'.buf.length := by
          rw [hPos, hBuf, List.length_append]
          omega
        refine ⟨hBehind, Or.inr ⟨p, hRests.fed hErr hStack hReply hPos hRoom, ?_, ?_⟩⟩
        · rw [hUnread]
          exact hTracks.feed buf
        · obtain ⟨front, hFront⟩ := hSuffix
          rw [hUnread]
          exact ⟨front, by rw [← List.append_assoc, hFront]⟩

/-- The reader stops in the middle of a reply. -/
theorem Follows.waiting {stream rest : Bytes} {got : List RedisReply} {r r' : Reader}
    {p p' : Place} (hFollows : Follows stream got rest r)
    (hTracks : Tracks (parseReply 8) Place.meaning rest p r.unread)
    (hSuffix : r.unread <:+ rest) (hReads : Reads r' p') (hBounded : Bounded r')
    (hMeaning : ∀ future,
      p.meaning (r.unread ++ future) = p'.meaning (r'.unread ++ future))
    (hMore : p'.meaning r'.unread = .more) (hBack : r'.unread <:+ r.unread) :
    Follows stream got rest (discardRead r') where
  behind := hFollows.behind
  present := by
    refine Or.inr ⟨p', rests_waiting hReads hBounded hMore, ?_, ?_⟩
    · rw [discardRead_unread hBounded]
      exact hTracks.advance hMeaning
    · rw [discardRead_unread hBounded]
      exact hBack.trans hSuffix

/-- A reply is handed out, and the reader starts over behind it. -/
theorem Follows.handing {stream rest : Bytes} {got : List RedisReply} {r r' : Reader}
    {v : RedisReply} (hFollows : Follows stream got rest r)
    (hOk : ∀ future, parseReply 8 (rest ++ future) = .ok v (r'.unread ++ future))
    (hErr : r'.err = none) (hStack : r'.rstack = []) (hBounded : Bounded r') :
    Follows stream (got ++ [v]) r'.unread
      { discardRead r' with reply := RedisReply.null } where
  behind := hFollows.behind.next hOk
  present := by
    have hUnread : ({ discardRead r' with reply := RedisReply.null } : Reader).unread =
        r'.unread := discardRead_unread hBounded
    refine Or.inr ⟨_, rests_handed hErr hStack hBounded, ?_, ?_⟩
    · rw [hUnread]
      exact tracks_start meaning_start _
    · exact hUnread ▸ List.suffix_refl _

section Sessions

variable {mem : Nat → Bool} (hMem : ∀ n, mem n = true)

include hMem

/-- **One call of `redisReaderGetReply`.** It comes back with the verdict on
the rest of the stream. -/
theorem getReply_follows {stream rest : Bytes} {got : List RedisReply} {r : Reader}
    (hFollows : Follows stream got rest r)
    (hSmall : r.err = none → r.buf.length < 2 ^ 31) :
    ∃ r' rest', redisReaderGetReply mem r = some (answerOf (parseReply 8 rest), r') ∧
      r'.err = faultOf (parseReply 8 rest) ∧
      Follows stream (got ++ (Answer.handed (answerOf (parseReply 8 rest))).toList)
        rest' r' := by
  rcases hFollows.present with ⟨f, hErr, hBad⟩ | ⟨p, hRests, hTracks, hSuffix⟩
  · have hVerdict : parseReply 8 rest = .bad f := by
      simpa using hBad []
    rw [hVerdict]
    refine ⟨r, rest, ?_, hErr, ?_⟩
    · unfold redisReaderGetReply
      rw [if_pos (by rw [hErr]; rfl)]
      rfl
    · simpa [answerOf, Answer.handed] using hFollows
  · have hVerdict := hTracks.verdict
    have hSize := hSmall hRests.err
    unfold redisReaderGetReply
    rw [if_neg (by rw [hRests.err]; simp)]
    by_cases hBuf : r.buf = []
    · have hNil : r.unread = [] := by simp [Reader.unread, hBuf]
      rw [if_pos hBuf, hVerdict, hNil, hRests.nil]
      refine ⟨r, rest, rfl, hRests.err, ?_⟩
      simpa [answerOf, Answer.handed] using hFollows
    · rw [if_neg hBuf]
      have hUnread := startReply_unread r
      obtain ⟨r', hRun, hReading⟩ := processItems_reading hMem hRests.reads
        (startReply_bounded ⟨hRests.pos, hSize⟩)
          (by rw [hUnread]; exact Nat.lt_succ_self _)
      rw [hUnread] at hReading
      rw [hRun]
      simp only [Option.bind_eq_bind, Option.bind_some]
      cases hReading with
      | waits hReads hBounded hMeaning hMore hBack =>
          have hNow : parseReply 8 rest = .more := by
            rw [hVerdict, ← hMore]
            simpa using hMeaning []
          have hStack : (discardRead r').rstack ≠ [] :=
            reads_stack_ne_nil (reads_discardRead hReads)
          rw [if_neg (by rw [hReads.err]; simp), if_neg hStack, hNow]
          refine ⟨_, rest, rfl, (reads_discardRead hReads).err, ?_⟩
          rw [show Answer.handed (answerOf .more) = none from rfl, Option.toList_none,
            List.append_nil]
          exact hFollows.waiting hTracks hSuffix hReads hBounded hMeaning hMore hBack
      | faults hErr hMeaning =>
          rename_i f
          have hBad : ∀ future, parseReply 8 (rest ++ future) = .bad f := by
            intro future
            rw [hTracks future, hMeaning future]
          have hNow : parseReply 8 rest = .bad f := by
            simpa using hBad []
          rw [if_pos (by rw [hErr]; rfl), hNow]
          refine ⟨r', rest, rfl, hErr, ?_⟩
          rw [show Answer.handed (answerOf (.bad f)) =
            none from rfl, Option.toList_none, List.append_nil]
          exact ⟨hFollows.behind, Or.inl ⟨f, hErr, hBad⟩⟩
      | ends hErr hStack hReply hBounded hMeaning =>
          rename_i v
          have hOk : ∀ future, parseReply 8 (rest ++ future) =
            .ok v (r'.unread ++ future) := by
            intro future
            rw [hTracks future, hMeaning future]
          have hNow : parseReply 8 rest = .ok v r'.unread := by
            simpa using hOk []
          have hHanded : Answer.handed (answerOf (.ok v r'.unread)) = some v := by
            have hNull := parse_ne_null hNow
            cases v with
            | null => exact absurd rfl hNull
            | _ => rfl
          rw [if_neg (by rw [hErr]; simp),
            if_pos ((discardRead_rstack r').trans hStack), hNow, hHanded,
            (discardRead_reply r').trans hReply]
          exact ⟨_, r'.unread, rfl, (discardRead_err r').trans hErr,
            hFollows.handing hOk hErr hStack hBounded⟩

end Sessions

/-! ## Allocations that fail -/

/-- Every allocation succeeds. -/
def plenty : Nat → Bool := fun _ => true

/-- A round that ends in `Out of memory`, because an allocation fails. -/
def Starved (mem : Nat → Bool) (res : Option (Bool × Reader)) : Prop :=
  ∃ r', res = some (false, r') ∧ r'.err = some .memory ∧ Failing mem r'

section Memory

variable (mem : Nat → Bool)

theorem createObject_memory (r : Reader) (obj : RedisReply) :
    createObject mem r obj = createObject plenty r obj ∨
      mem r.made = false ∧
        createObject mem r obj = some (false, { r with made := r.made + 1 }) := by
  unfold createObject
  by_cases hMem : mem r.made = true
  · left
    rw [if_pos hMem, if_pos (show plenty r.made = true from rfl)]
  · right
    rw [if_neg hMem]
    exact ⟨Bool.eq_false_iff.2 hMem, rfl⟩

theorem finishItem_memory (r : Reader) (obj : RedisReply) :
    finishItem mem r obj = finishItem plenty r obj ∨
    Starved mem (finishItem mem r obj) := by
  unfold finishItem
  rcases createObject_memory mem r obj with hSame | ⟨hFails, hNull⟩
  · left
    rw [hSame]
  · right
    rw [hNull]
    exact ⟨_, rfl, rfl, r.made, Nat.lt_succ_self _, hFails⟩

theorem processMultiBulkItem_memory (r : Reader) :
    processMultiBulkItem mem r = processMultiBulkItem plenty r ∨
      Starved mem (processMultiBulkItem mem r) := by
  unfold processMultiBulkItem
  split
  · exact Or.inl rfl
  · split
    · exact Or.inl rfl
    · rename_i line r _
      split
      · exact Or.inl rfl
      · rename_i elements _
        split
        · exact Or.inl rfl
        · split
          · exact finishItem_memory mem r _
          · split
            · exact finishItem_memory mem r _
            · rcases createObject_memory mem r
                (.array (List.replicate elements.toNat .null)) with
                hSame | ⟨hFails, hNull⟩
              · left
                simp only [hSame]
              · right
                simp only [hNull]
                exact ⟨_, rfl, rfl, r.made, Nat.lt_succ_self _, hFails⟩

theorem processLineItem_memory (kind : Kind) (r : Reader) :
    processLineItem mem kind r = processLineItem plenty kind r ∨
      Starved mem (processLineItem mem kind r) := by
  unfold processLineItem
  split
  · exact Or.inl rfl
  · split
    · exact Or.inl rfl
    · exact finishItem_memory mem _ _

theorem processBulkItem_memory (r : Reader) :
    processBulkItem mem r = processBulkItem plenty r ∨
    Starved mem (processBulkItem mem r) := by
  unfold processBulkItem
  split
  · exact Or.inl rfl
  · split
    · exact Or.inl rfl
    · split
      · exact Or.inl rfl
      · split
        · exact finishItem_memory mem _ _
        · simp only
          split
          · exact finishItem_memory mem _ _
          · exact Or.inl rfl

theorem processItem_memory (r : Reader) :
    processItem mem r = processItem plenty r ∨ Starved mem (processItem mem r) := by
  have hTyped : ∀ kind r, processTyped mem kind r = processTyped plenty kind r ∨
      Starved mem (processTyped mem kind r) := by
    intro kind r
    cases kind with
    | string => exact processBulkItem_memory mem r
    | array => exact processMultiBulkItem_memory mem r
    | integer => exact processLineItem_memory mem .integer r
    | status => exact processLineItem_memory mem .status r
    | error => exact processLineItem_memory mem .error r
  unfold processItem
  split
  · exact Or.inl rfl
  · split
    · exact hTyped _ _
    · split
      · exact Or.inl rfl
      · simp only
        split
        · exact Or.inl rfl
        · exact hTyped _ _

theorem processItems_memory (fuel : Nat) (r : Reader) :
    processItems mem fuel r = processItems plenty fuel r ∨
      ∃ r', processItems mem fuel r = some r' ∧
        r'.err = some .memory ∧ Failing mem r' := by
  induction fuel generalizing r with
  | zero => exact Or.inl rfl
  | succ fuel ih =>
      rw [processItems, processItems]
      split
      · exact Or.inl rfl
      · rcases processItem_memory mem r with hSame | ⟨r', hStarved, hErr, hFails⟩
        · rw [hSame]
          cases processItem plenty r with
          | none => exact Or.inl rfl
          | some res =>
              obtain ⟨ok, r'⟩ := res
              cases ok with
              | false => exact Or.inl rfl
              | true => exact ih r'
        · right
          rw [hStarved]
          exact ⟨r', rfl, hErr, hFails⟩

/-- A call answers as it would with enough memory, or reports that an
allocation has failed. -/
theorem getReply_memory (r : Reader) :
    redisReaderGetReply mem r = redisReaderGetReply plenty r ∨
      ∃ r', redisReaderGetReply mem r = some (.failed, r') ∧ r'.err = some .memory ∧
        Failing mem r' := by
  unfold redisReaderGetReply
  split
  · exact Or.inl rfl
  · split
    · exact Or.inl rfl
    · rcases processItems_memory mem (r.unread.length + 1) (startReply r) with
        hSame | ⟨r', hStarved, hErr, hFails⟩
      · rw [hSame]
        exact Or.inl rfl
      · right
        rw [hStarved]
        simp only [Option.bind_eq_bind, Option.bind_some]
        rw [if_pos (by rw [hErr]; rfl)]
        exact ⟨r', rfl, hErr, hFails⟩

end Memory

/-! ## Whole sessions -/

/-- A reader that has reported an error goes on reporting it. -/
theorem failed_sticks {mem : Nat → Bool} {r : Reader} {f : Fault}
    (hErr : r.err = some f) :
    redisReaderGetReply mem r = some (.failed, r) ∧
      ∀ buf, redisReaderFeed mem r buf = some (false, r) := by
  have hSome : r.err.isSome = true := by
    rw [hErr]
    rfl
  refine ⟨?_, fun buf => ?_⟩
  · rw [redisReaderGetReply, if_pos hSome]
  · rw [redisReaderFeed, if_pos hSome]

/-- What holds of a session with any memory; `why` is what is known of a reader
that has run out of it. -/
def InStep (why : Reader → Prop) (stream : Bytes) (got : List RedisReply) (rest : Bytes)
    (r : Reader) : Prop :=
  Follows stream got rest r ∨
    (r.err = some .memory ∧ why r) ∧ Behind (parseReply 8) stream got rest

section InStep

variable {why : Reader → Prop} {stream rest : Bytes}
  {got : List RedisReply} {r : Reader}

theorem InStep.behind (hInStep : InStep why stream got rest r) :
    Behind (parseReply 8) stream got rest := by
  rcases hInStep with hFollows | ⟨-, hBehind⟩
  · exact hFollows.behind
  · exact hBehind

/-- What a working reader has not read is the end of what has not been handed
out, and there is less than 1 KiB in front of it. -/
theorem InStep.buffer (hInStep : InStep why stream got rest r) (hErr : r.err = none) :
    r.buf.length < rest.length + 1024 := by
  rcases hInStep with hFollows | ⟨⟨hMemory, -⟩, -⟩
  · rcases hFollows.present with ⟨f, hFault, -⟩ | ⟨p, hRests, -, hSuffix⟩
    · rw [hErr] at hFault
      cases hFault
    · have hLength := hSuffix.length_le
      have hSmall := hRests.small
      have hPos := hRests.pos
      rw [length_unread] at hLength
      omega
  · rw [hErr] at hMemory
    cases hMemory

variable {mem : Nat → Bool} (hWhy : ∀ r, Failing mem r → why r)

include hWhy

/-- A call of `redisReaderGetReply` in step with the stream. -/
theorem getReply_inStep (hInStep : InStep why stream got rest r)
    (hSmall : r.err = none → r.buf.length < 2 ^ 31) :
    ∃ answer r' rest', redisReaderGetReply mem r = some (answer, r') ∧
      ((answer = answerOf (parseReply 8 rest) ∧ r'.err = faultOf (parseReply 8 rest)) ∨
        (answer = .failed ∧ r'.err = some .memory ∧ why r')) ∧
      InStep why stream (got ++ (Answer.handed answer).toList) rest' r' := by
  have hNothing : got ++ (Answer.handed .failed).toList = got := List.append_nil got
  rcases hInStep with hFollows | ⟨⟨hErr, hKnown⟩, hBehind⟩
  · rcases getReply_memory mem r with hSame | ⟨r', hStarved, hErr, hFails⟩
    · obtain ⟨r', rest', hCall, hErr, hAfter⟩ :=
        getReply_follows (fun _ => rfl) hFollows hSmall
      exact ⟨_, r', rest', hSame.trans hCall, Or.inl ⟨rfl, hErr⟩, Or.inl hAfter⟩
    · have hKnown := hWhy r' hFails
      refine ⟨_, r', rest, hStarved, Or.inr ⟨rfl, hErr, hKnown⟩,
        Or.inr ⟨⟨hErr, hKnown⟩, ?_⟩⟩
      rw [hNothing]
      exact hFollows.behind
  · refine ⟨.failed, r, rest, (failed_sticks hErr).1, Or.inr ⟨rfl, hErr, hKnown⟩,
      Or.inr ⟨⟨hErr, hKnown⟩, ?_⟩⟩
    rw [hNothing]
    exact hBehind

theorem feed_inStep {r' : Reader} {ok : Bool} (hInStep : InStep why stream got rest r)
    {buf : Bytes} (hFeed : redisReaderFeed mem r buf = some (ok, r')) :
    InStep why (stream ++ buf) got (rest ++ buf) r' := by
  have hBehind := hInStep.behind.feed buf
  rcases hInStep with hFollows | ⟨hMemory, -⟩
  · rcases feed_follows hFollows hFeed with hAfter | ⟨hErr, hFails⟩
    · exact Or.inl hAfter
    · exact Or.inr ⟨⟨hErr, hWhy r' hFails⟩, hBehind⟩
  · rw [(failed_sticks hMemory.1).2 buf] at hFeed
    cases hFeed
    exact Or.inr ⟨hMemory, hBehind⟩

end InStep

section Sessions

variable {mem : Nat → Bool}

/-- A session stays in step with its stream. -/
theorem run_inStep {calls : List Call} {s : Session}
    (hRun : run (guarded (step mem) fits) begin calls = some s) :
    (∃ rest, InStep (Failing mem) (fed calls) (replies s.answers) rest s.reader) ∧
      s.reader.buf.length < 2 ^ 31 := by
  have hStart :
      (∃ rest, InStep (Failing mem) (fed [])
        (replies begin.answers) rest begin.reader) ∧
        begin.reader.buf.length < 2 ^ 31 :=
    ⟨⟨[], Or.inl follows_create⟩, by decide⟩
  refine run_invariant_from (guarded (step mem) fits)
    (P := fun hist s =>
      (∃ rest, InStep (Failing mem) (fed hist) (replies s.answers) rest s.reader) ∧
        s.reader.buf.length < 2 ^ 31)
    hStart ?_ hRun
  rintro hist s call s' ⟨⟨rest, hInStep⟩, hSize⟩ hStep
  obtain ⟨hOne, hFits⟩ := guarded_eq_some.1 hStep
  refine ⟨?_, by simpa [fits] using hFits⟩
  cases call with
  | feed buf =>
      obtain ⟨⟨ok, r'⟩, hFeed, hEq⟩ := Option.map_eq_some_iff.1 hOne
      cases hEq
      have hFed : fed (hist ++ [.feed buf]) = fed hist ++ buf := by simp [fed]
      rw [hFed]
      exact ⟨_, feed_inStep (fun _ hFails => hFails) hInStep hFeed⟩
  | getReply =>
      obtain ⟨answer, r', rest', hCall, -, hAfter⟩ :=
        getReply_inStep (fun _ hFails => hFails) hInStep fun _ => hSize
      rw [step, hCall, Option.map_some] at hOne
      cases hOne
      have hFed : fed (hist ++ [.getReply]) = fed hist := by simp [fed]
      rw [hFed, replies_append]
      exact ⟨rest', hAfter⟩

/-- **The answer depends on the bytes alone.** After any sequence of calls, the
next `redisReaderGetReply` comes back, and with the verdict of the parser on
the first reply of the stream that has not been handed out; only when one of the
allocations asked for so far has failed may it report that instead. -/
theorem redisReaderGetReply_stream {calls : List Call} {s : Session}
    (hRun : run (guarded (step mem) fits) begin calls = some s) :
    ∃ answer r', redisReaderGetReply mem s.reader = some (answer, r') ∧
      ((answer = answerOf (nth (parseReply 8) (replies s.answers).length (fed calls)) ∧
          r'.err =
            faultOf (nth (parseReply 8) (replies s.answers).length (fed calls))) ∨
        (answer = .failed ∧ r'.err = some .memory ∧ Failing mem r')) := by
  obtain ⟨⟨rest, hInStep⟩, hSize⟩ := run_inStep hRun
  obtain ⟨answer, r', -, hCall, hAnswer, -⟩ :=
    getReply_inStep (fun _ hFails => hFails) hInStep fun _ => hSize
  have hNth : nth (parseReply 8) (replies s.answers).length (fed calls) =
    parseReply 8 rest := by
    simpa using hInStep.behind.nth []
  rw [hNth]
  exact ⟨answer, r', hCall, hAnswer⟩

/-- Two fragments of a status, asked for in between. -/
theorem redisReaderGetReply_stream_status :
    ∃ s, run (guarded (step plenty) fits) begin
        [.feed (bytesOf "+O"), .getReply, .feed (bytesOf "K\r\n")] = some s ∧
      ∃ answer r', redisReaderGetReply plenty s.reader = some (answer, r') ∧
        ((answer = answerOf (nth (parseReply 8) (replies s.answers).length
              (fed [.feed (bytesOf "+O"), .getReply, .feed (bytesOf "K\r\n")])) ∧
            r'.err = faultOf (nth (parseReply 8) (replies s.answers).length
              (fed [.feed (bytesOf "+O"), .getReply, .feed (bytesOf "K\r\n")]))) ∨
          (answer = .failed ∧ r'.err = some .memory ∧ Failing plenty r')) :=
  ⟨_, rfl, redisReaderGetReply_stream rfl⟩

/-- **Exactly the protocol.** A reply is handed out next only if the stream is
the texts of the replies before it and a text of this one, with something
behind; and where the stream is that, it is handed out, unless an allocation
asked for so far has failed. -/
theorem redisReaderGetReply_exact {calls : List Call} {s : Session}
    (hRun : run (guarded (step mem) fits) begin calls = some s) :
    (∀ v r', redisReaderGetReply mem s.reader = some (.ok v, r') → v ≠ .null →
      ∃ texts text rest, List.Forall₂ (Wire 8) (replies s.answers) texts ∧
        Wire 8 v text ∧
        fed calls = texts.flatten ++ (text ++ rest)) ∧
    ∀ v texts text rest, List.Forall₂ (Wire 8) (replies s.answers) texts →
      Wire 8 v text →
      fed calls = texts.flatten ++ (text ++ rest) →
      ∃ answer r', redisReaderGetReply mem s.reader = some (answer, r') ∧
        (answer = .ok v ∨
          answer = .failed ∧ r'.err = some .memory ∧ Failing mem r') := by
  obtain ⟨⟨rest₀, hInStep⟩, hSize⟩ := run_inStep hRun
  obtain ⟨answer, r', -, hCall, hAnswer, -⟩ :=
    getReply_inStep (fun _ hFails => hFails) hInStep fun _ => hSize
  have hCollect := hInStep.behind.collect
  have hExact := parseReply_exact 8
  constructor
  · intro v r'' hGot hNull
    rw [hCall, Option.some.injEq, Prod.mk.injEq] at hGot
    obtain ⟨rfl, rfl⟩ := hGot
    rcases hAnswer with ⟨hAnswer, -⟩ | ⟨hFailed, -⟩
    · cases hVerdict : parseReply 8 rest₀ with
      | more =>
          rw [hVerdict] at hAnswer
          cases hAnswer
          exact absurd rfl hNull
      | bad f =>
          rw [hVerdict] at hAnswer
          cases hAnswer
      | ok w rest =>
          rw [hVerdict] at hAnswer
          cases hAnswer
          obtain ⟨text, hWire, rfl⟩ := (hExact _ _ _).1 hVerdict
          obtain ⟨texts, hTexts, -, hFed⟩ := (collect_exact hExact _ _ _ _).1 hCollect
          exact ⟨texts, text, rest, hTexts, hWire, hFed⟩
    · cases hFailed
  · intro v texts text rest hTexts hWire hFed
    refine ⟨answer, r', hCall, ?_⟩
    rcases hAnswer with ⟨rfl, -⟩ | hStarved
    · left
      have hSame :=
        (collect_exact hExact _ _ _ (text ++ rest)).2 ⟨texts, hTexts, rfl, hFed⟩
      rw [hCollect, Verdict.ok.injEq] at hSame
      rw [hSame.2, (hExact _ _ _).2 ⟨text, hWire, rfl⟩]
      rfl
    · exact Or.inr hStarved

/-- An integer behind a status that has been handed out. -/
theorem redisReaderGetReply_exact_second :
    ∃ s, run (guarded (step plenty) fits) begin
        [.feed (bytesOf "+OK\r\n:7\r\n"), .getReply] = some s ∧
      replies s.answers = [.status (bytesOf "OK")] ∧
      (∀ v r', redisReaderGetReply plenty s.reader = some (.ok v, r') → v ≠ .null →
        ∃ texts text rest, List.Forall₂ (Wire 8) (replies s.answers) texts ∧
          Wire 8 v text ∧
          fed [.feed (bytesOf "+OK\r\n:7\r\n"), .getReply] =
            texts.flatten ++ (text ++ rest)) ∧
      ∀ v texts text rest, List.Forall₂ (Wire 8) (replies s.answers) texts →
        Wire 8 v text →
        fed [.feed (bytesOf "+OK\r\n:7\r\n"), .getReply] =
          texts.flatten ++ (text ++ rest) →
        ∃ answer r', redisReaderGetReply plenty s.reader = some (answer, r') ∧
          (answer = .ok v ∨
            answer = .failed ∧ r'.err = some .memory ∧ Failing plenty r') :=
  ⟨_, rfl, rfl, redisReaderGetReply_exact rfl⟩

/-- What has been handed out of a stream of written replies, and what is left
of it. -/
theorem behind_encoded {vs got : List RedisReply} {stream rest future : Bytes}
    (hSendable : ∀ v ∈ vs, Sendable 8 v)
    (hStream : stream ++ future = vs.flatMap encode)
    (hBehind : Behind (parseReply 8) stream got rest) :
    got <+: vs ∧ rest ++ future = (vs.drop got.length).flatMap encode := by
  have hRead :
      ∀ v, Sendable 8 v → ∀ rest, parseReply 8 (encode v ++ rest) = .ok v rest :=
    fun v hv rest => parseReply_encode hv rest
  have hGot := hBehind future
  rw [hStream] at hGot
  rcases Nat.lt_or_ge vs.length got.length with hMore | hLess
  · -- more than was written cannot have been read
    exfalso
    have hAll := collect_write hRead hSendable []
    rw [List.append_nil] at hAll
    obtain ⟨k, hk⟩ := Nat.exists_eq_add_of_lt hMore
    rw [hk, Nat.add_assoc, collect_add, hAll, Verdict.ok_bind, collect_succ] at hGot
    cases hGot
  · have hFront : ∀ v ∈ vs.take got.length, Sendable 8 v :=
      fun v hv => hSendable v (List.mem_of_mem_take hv)
    have hCount : (vs.take got.length).length = got.length := by
      rw [List.length_take]
      omega
    have hRest := collect_write hRead hFront ((vs.drop got.length).flatMap encode)
    rw [hCount, ← List.flatMap_append, List.take_append_drop, hGot] at hRest
    simp only [Verdict.ok.injEq] at hRest
    exact ⟨hRest.1 ▸ List.take_prefix _ _, hRest.2⟩

/-- **No reply is lost, repeated or moved.** While a stream of written replies
comes in, however it is cut and however often the reader is asked, what it has
handed out is a front part of what was written; once all of it has come in,
the next answer is the next reply, or that there is none left, unless an
allocation asked for so far has failed. -/
theorem replies_of_stream {calls : List Call} {s : Session}
    (hRun : run (guarded (step mem) fits) begin calls = some s) {vs : List RedisReply}
    (hSendable : ∀ v ∈ vs, Sendable 8 v) {future : Bytes}
    (hStream : fed calls ++ future = vs.flatMap encode) :
    replies s.answers <+: vs ∧
      (future = [] → ∃ answer r', redisReaderGetReply mem s.reader = some (answer, r') ∧
        (answer = .ok (vs[(replies s.answers).length]?.getD .null) ∨
          answer = .failed ∧ r'.err = some .memory ∧ Failing mem r')) := by
  obtain ⟨⟨rest, hInStep⟩, hSize⟩ := run_inStep hRun
  obtain ⟨hPrefix, hRest⟩ := behind_encoded hSendable hStream hInStep.behind
  refine ⟨hPrefix, ?_⟩
  rintro rfl
  rw [List.append_nil] at hRest
  obtain ⟨answer, r', -, hCall, hAnswer, -⟩ :=
    getReply_inStep (fun _ hFails => hFails) hInStep fun _ => hSize
  refine ⟨answer, r', hCall, ?_⟩
  rcases hAnswer with ⟨rfl, -⟩ | hStarved
  · left
    rw [hRest]
    rcases Nat.lt_or_ge (replies s.answers).length vs.length with hLess | hEnd
    · rw [List.drop_eq_getElem_cons hLess, List.flatMap_cons,
        parseReply_encode (hSendable _ (List.getElem_mem hLess)),
          List.getElem?_eq_getElem hLess]
      rfl
    · rw [List.drop_eq_nil_of_le hEnd, List.getElem?_eq_none hEnd]
      rfl
  · exact Or.inr hStarved

/-- A stream that is cut inside its second reply. -/
theorem replies_of_stream_cut :
    ∃ s, run (guarded (step plenty) fits) begin
        [.feed (bytesOf ":1\r\n:"), .getReply, .feed (bytesOf "2")] = some s ∧
      replies s.answers <+: [.integer 1, .integer 2] ∧
      (bytesOf "\r\n" = [] →
        ∃ answer r', redisReaderGetReply plenty s.reader = some (answer, r') ∧
        (answer =
          .ok ([.integer 1, .integer 2][(replies s.answers).length]?.getD .null) ∨
          answer = .failed ∧ r'.err = some .memory ∧ Failing plenty r')) := by
  obtain ⟨s, hRun⟩ : ∃ s, run (guarded (step plenty) fits) begin
      [.feed (bytesOf ":1\r\n:"), .getReply, .feed (bytesOf "2")] = some s := ⟨_, rfl⟩
  refine ⟨s, hRun, replies_of_stream hRun ?_ ?_⟩
  · intro v hv
    simp only [List.mem_cons, List.not_mem_nil, or_false] at hv
    rcases hv with rfl | rfl
    · exact ⟨by decide, by decide⟩
    · exact ⟨by decide, by decide⟩
  · decide

end Sessions

end MGServer.Ports.RedisReaderRuns
