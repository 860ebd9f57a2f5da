import Mathlib.Data.List.Infix
import MGServer.Ports.RedisContext

/-!
# A client and a server over two byte streams

A run of `redisCommand` calls on one context, with the server at the other end.
The server is a state and a function that answers one command; it reads the
protocol and answers each command as soon as the whole of it has come in.  The
kernel takes the client's bytes in pieces, and a `read` brings no more than the
server has written by then.

Nothing in `redisGetReply` says which command a reply belongs to.  The order of
the two streams keeps them together, until a `write` is interrupted: that call
returns null on a healthy context, its command goes out with the next one, and
from then on every call gets the reply of an earlier command.
-/

namespace MGServer.Ports.RedisConnection

open MGServer.Verified.ByteString
open MGServer.Verified.Incremental
open MGServer.Verified.Transition
open MGServer.Ports.RedisReader
open MGServer.Ports.RedisProtocol
open MGServer.Ports.RedisReaderRuns (follows_create behind_encoded)
open MGServer.Ports.RedisFormat
open MGServer.Ports.RedisContext

/-! ## The server -/

section Server

/-- The arguments of a request. -/
def requestArgv : RedisReply → List Bytes
  | .array element => element.filterMap fun
      | .string s => some s
      | _ => none
  | _ => []

/-- The commands of which the whole has come in. -/
def serverReads (input : Bytes) : List (List Bytes) :=
  (readAll (parseReply 1) input.length input).map requestArgv

/-- What the server has written when `input` has come in. -/
def serverOutput {σ : Type} (serve : σ → List Bytes → σ × RedisReply) (server : σ)
    (input : Bytes) : Bytes :=
  (answers serve server (serverReads input)).flatMap encode

/-- The request of a command. -/
def request (argv : List Bytes) : RedisReply := .array (argv.map .string)

theorem requestArgv_command (argv : List Bytes) :
    requestArgv (request argv) = argv := by
  rw [request, requestArgv, List.filterMap_map]
  exact List.filterMap_some

/-- A request whose command could be built. -/
def Fits (v : RedisReply) : Prop :=
  ∃ argv, v = request argv ∧ (commandBytes argv).length < 2 ^ 31

theorem fits_read (v : RedisReply) (hFits : Fits v) (rest : Bytes) :
    parseReply 1 (encode v ++ rest) = .ok v rest := by
  obtain ⟨argv, rfl, hLength⟩ := hFits
  exact parseReply_encode (command_sendable hLength) rest

theorem flatMap_commandBytes (argvs : List (List Bytes)) :
    argvs.flatMap commandBytes = (argvs.map request).flatMap encode := by
  rw [List.flatMap_map]
  exact List.flatMap_congr fun argv _ => commandBytes_eq_encode argv

theorem length_le_flatMap_commandBytes (argvs : List (List Bytes)) :
    argvs.length ≤ (argvs.flatMap commandBytes).length := by
  induction argvs with
  | nil => exact Nat.le_refl _
  | cons argv argvs ih =>
      rw [List.flatMap_cons, List.length_append, List.length_cons, length_commandBytes]
      omega

theorem map_requestArgv (argvs : List (List Bytes)) :
    (argvs.map request).map requestArgv = argvs := by
  rw [List.map_map]
  exact List.map_id'' requestArgv_command argvs

variable {argvs : List (List Bytes)}
  (hFits : ∀ argv ∈ argvs, (commandBytes argv).length < 2 ^ 31)

include hFits

theorem fits_requests : ∀ v ∈ argvs.map request, Fits v := by
  intro v hv
  obtain ⟨argv, hArgv, rfl⟩ := List.mem_map.1 hv
  exact ⟨argv, rfl, hFits argv hArgv⟩

/-- While commands come in, the server has read the first of them. -/
theorem serverReads_front {input : Bytes}
    (hInput : input <+: argvs.flatMap commandBytes) :
    serverReads input <+: argvs := by
  obtain ⟨future, hStream⟩ := hInput
  rw [flatMap_commandBytes] at hStream
  have hFront := readAll_front (parseReply_settled 1) fits_read rfl input.length
    (fits_requests hFits) hStream
  have hArgvs := hFront.map requestArgv
  rwa [map_requestArgv] at hArgvs

/-- It has read all that have come in, up to a part of another. -/
theorem serverReads_part {front : Bytes} (hFront : parseReply 1 front = .more) :
    serverReads (argvs.flatMap commandBytes ++ front) = argvs := by
  have hFuel :
      (argvs.map request).length ≤ (argvs.flatMap commandBytes ++ front).length := by
    have hCount := length_le_flatMap_commandBytes argvs
    rw [List.length_map, List.length_append]
    omega
  unfold serverReads
  nth_rewrite 2 [flatMap_commandBytes]
  rw [readAll_part fits_read (fits_requests hFits) hFuel hFront, map_requestArgv]

end Server

/-! ## The connection -/

/-- A call of `redisCommand`, with what the memory and the kernel answer. -/
structure Call where
  format : Bytes
  args : List Arg
  memory : Bool
  mem : Nat → Bool
  writes : List Write
  reads : List Read

/-- The arguments that the format makes of a call's own. -/
def Call.argv (call : Call) : List Bytes :=
  match formatArgv call.format call.args with
  | .argv argv => argv
  | _ => []

/-- A call that has returned. -/
structure Exchange where
  argv : List Bytes
  reply : Option RedisReply

/-- The client's end: its context, the bytes the kernel has taken and brought,
and the calls so far. -/
structure Connection where
  context : Context
  sent : Bytes
  received : Bytes
  log : List Exchange

def Connection.fresh : Connection := ⟨.fresh, [], [], []⟩

/-- What a call that has returned has returned. -/
def returned : Result → Option (Option RedisReply)
  | .reply v => some (some v)
  | .null => some none
  | .blocked => none

section Step

variable {σ : Type} (serve : σ → List Bytes → σ × RedisReply) (server : σ)

/-- The kernel has no more for `read` than what the server has written, and
brings at most one buffer at a time. -/
def possible (s : Connection) (call : Call) (sent : Bytes) : Bool :=
  call.reads.all (fun e => e.bytes.length ≤ bufferSize) &&
    (s.received ++ call.reads.flatMap Read.bytes).isPrefixOf
      (serverOutput serve server sent)

/-- A call that returns; no other can follow one that does not. -/
def step (s : Connection) (call : Call) : Option Connection := do
  let out ← redisCommand call.mem call.format call.args call.memory
    call.writes call.reads s.context
  if possible serve server s call (s.sent ++ out.sent) then
    let reply ← returned out.result
    some ⟨out.context, s.sent ++ out.sent, s.received ++ out.received,
      s.log ++ [⟨call.argv, reply⟩]⟩
  else none

end Step

/-- The test of `RedisHandle` before each command. -/
def healthy (s : Connection) : Bool := s.context.err.isNone

/-! ## What holds between two calls -/

section Runs

variable {σ : Type} {serve : σ → List Bytes → σ × RedisReply} {server : σ}

/-- The answers of the server have a text, with at most eight arrays inside one
another, and one that the reader can hold in a buffer below 2 GiB. -/
def Answerable (serve : σ → List Bytes → σ × RedisReply) : Prop :=
  ∀ s argv, Sendable 8 (serve s argv).2 ∧
    (encode (serve s argv).2).length + bufferSize ≤ 2 ^ 31

/-- There is room for a call below 2 GiB: for its command in the output buffer, with
what earlier calls have left there, and in the reader for the answers that are still
to be handed out. -/
structure Connection.Room (serve : σ → List Bytes → σ × RedisReply) (server : σ)
    (s : Connection) (call : Call) : Prop where
  obuf : (commandBytes call.argv).length < 2 ^ 31 →
    s.context.obuf.length + (commandBytes call.argv).length < 2 ^ 31
  reader : Spacious (answers serve server (s.log.map Exchange.argv ++ [call.argv]))
    (s.log.filterMap Exchange.reply)

/-- Both streams of a healthy connection, against the calls so far. -/
structure Ordered (serve : σ → List Bytes → σ × RedisReply)
    (server : σ) (s : Connection) : Prop where
  sent : s.sent ++ s.context.obuf = (s.log.map Exchange.argv).flatMap commandBytes
  fits : ∀ argv ∈ s.log.map Exchange.argv, (commandBytes argv).length < 2 ^ 31
  linked : ∃ future rest, Linked (answers serve server (s.log.map Exchange.argv)) future
    s.context s.received (s.log.filterMap Exchange.reply) rest

theorem ordered_fresh : Ordered serve server .fresh where
  sent := rfl
  fits := fun _ hArgv => by cases hArgv
  linked := ⟨[], [], ⟨Or.inl follows_create, rfl, by decide⟩⟩

theorem Ordered.fits_append {s : Connection} (hOrdered : Ordered serve server s)
    {argv : List Bytes} (hFits : (commandBytes argv).length < 2 ^ 31) :
    ∀ argv' ∈ s.log.map Exchange.argv ++ [argv],
      (commandBytes argv').length < 2 ^ 31 := by
  intro argv' hArgv
  rcases List.mem_append.1 hArgv with hOld | hNew
  · exact hOrdered.fits argv' hOld
  · rw [List.mem_singleton.1 hNew]
    exact hFits

/-- A command of which nothing is sent because it could not be built. -/
structure Unbuilt (out : Outcome) : Prop where
  result : out.result = .null
  sent : out.sent = []
  err : out.context.err ≠ none

/-- The command of a call is built, and its length fits. -/
structure Built (call : Call) : Prop where
  formatted : ∃ len, redisvFormatCommand call.memory call.format call.args =
    .ok len (commandBytes call.argv)
  fits : (commandBytes call.argv).length < 2 ^ 31

theorem built_or_unbuilt {call : Call} {c : Context} {out : Outcome}
    (hOut : redisCommand call.mem call.format call.args call.memory call.writes
      call.reads c = some out) : Built call ∨ Unbuilt out := by
  unfold redisCommand at hOut
  split at hOut
  · rename_i len cmd hCmd
    left
    have hFormat := hCmd
    unfold redisvFormatCommand at hFormat
    split at hFormat
    · split at hFormat
      · rename_i argv hArgv
        obtain ⟨rfl, hFits⟩ := buildCommand_eq_ok hFormat
        have hOwn : call.argv = argv := by rw [Call.argv, hArgv]
        exact ⟨⟨len, hOwn ▸ hCmd⟩, hOwn ▸ hFits⟩
      · cases hFormat
      · cases hFormat
    · cases hFormat
  · cases hOut
    exact Or.inr ⟨rfl, rfl, by simp⟩
  · cases hOut
    exact Or.inr ⟨rfl, rfl, by simp⟩
  · cases hOut

variable (server) in
theorem answerable_sendable (hServe : Answerable serve) (argvs : List (List Bytes)) :
    ∀ v ∈ answers serve server argvs, Sendable 8 v := by
  intro v hv
  obtain ⟨s, argv, rfl⟩ := mem_answers hv
  exact (hServe s argv).1

variable (server) in
/-- A server whose answers are all a little shorter leaves room for any number of
them. -/
theorem spacious_of_short
    (hShort : ∀ s argv, (encode (serve s argv).2).length + readerRoom ≤ 2 ^ 31)
    (argvs : List (List Bytes)) (got : List RedisReply) :
    Spacious (answers serve server argvs) got := by
  left
  intro v hv
  obtain ⟨s, argv, rfl⟩ := mem_answers hv
  exact hShort s argv

/-- **One call on a healthy connection**, as `CommandEnd` says, with the
answers to all commands so far and to its own as the stream that is read. -/
theorem call_end (hServe : Answerable serve) {s : Connection}
    (hOrdered : Ordered serve server s) (hErr : s.context.err = none) {call : Call}
    (hRoom : s.Room serve server call) {out : Outcome}
    (hOut : redisCommand call.mem call.format call.args call.memory call.writes
      call.reads s.context = some out)
    (hBuilt : Built call)
    (hPossible : possible serve server s call (s.sent ++ out.sent) = true) :
    ∃ future rest,
      ((s.log.filterMap Exchange.reply).length = s.log.length → rest = []) ∧
      CommandEnd (answers serve server (s.log.map Exchange.argv ++ [call.argv])) future
        s.received (s.log.filterMap Exchange.reply) rest call.writes
        (s.context.obuf ++ commandBytes call.argv)
          (call.reads.flatMap Read.bytes) out := by
  have hSendable := answerable_sendable server hServe
    (s.log.map Exchange.argv ++ [call.argv])
  obtain ⟨oldFuture, rest, hLinked⟩ := hOrdered.linked
  have hCaught :
      (s.log.filterMap Exchange.reply).length = s.log.length → rest = [] := by
    intro hCount
    have hRest := hLinked.rest_eq (answerable_sendable server hServe _)
    rw [List.drop_eq_nil_of_le (by rw [length_answers, List.length_map, hCount]),
      List.flatMap_nil, List.append_eq_nil_iff] at hRest
    exact hRest.1
  have hAll := hOrdered.fits_append hBuilt.fits
  have hSize : (s.context.obuf ++ commandBytes call.argv).length < 2 ^ 31 := by
    rw [List.length_append]
    exact hRoom.obuf hBuilt.fits
  obtain ⟨len, hCmd⟩ := hBuilt.formatted
  -- what has been sent is a front part of the commands, so what may be read is one of
  -- the answers
  have hSent : s.sent ++ out.sent <+:
      (s.log.map Exchange.argv ++ [call.argv]).flatMap commandBytes := by
    rw [List.flatMap_append, List.flatMap_singleton, ← hOrdered.sent, List.append_assoc,
      List.prefix_append_right_inj]
    exact redisCommand_sent hCmd hSize hOut
  unfold possible at hPossible
  rw [Bool.and_eq_true, List.all_eq_true, List.isPrefixOf_iff_prefix] at hPossible
  obtain ⟨hChunks, hRead⟩ := hPossible
  have hAnswers : answers serve server (serverReads (s.sent ++ out.sent)) <+:
      answers serve server (s.log.map Exchange.argv ++ [call.argv]) := by
    obtain ⟨more, hMore⟩ := serverReads_front hAll hSent
    rw [← hMore, answers_append]
    exact List.prefix_append _ _
  obtain ⟨future, hStream⟩ := hRead.trans (hAnswers.flatMap encode)
  have hNow : Linked (answers serve server (s.log.map Exchange.argv ++ [call.argv]))
      (call.reads.flatMap Read.bytes ++ future) s.context s.received
      (s.log.filterMap Exchange.reply) rest :=
    ⟨hLinked.inStep, by rw [← List.append_assoc]; exact hStream, hLinked.room⟩
  exact ⟨future, rest, hCaught, redisCommand_end call.mem hSendable hRoom.reader hCmd
    hSize
    (fun e he => by simpa using hChunks e he) hErr hNow hOut⟩

/-- A call that returns and leaves the context healthy: a reply, or null and
an interrupted write. -/
theorem step_ordered (hServe : Answerable serve) {s s' : Connection}
    (hOrdered : Ordered serve server s) (hErr : s.context.err = none) {call : Call}
    (hRoom : s.Room serve server call)
    (hStep : step serve server s call = some s') (hHealthy : s'.context.err = none) :
    Ordered serve server s' ∧ ∃ reply, s'.log = s.log ++ [⟨call.argv, reply⟩] ∧
      (reply = none → .interrupted ∈ call.writes) ∧
      ((s.log.filterMap Exchange.reply).length = s.log.length → reply ≠ none →
        s'.context.obuf = []) := by
  obtain ⟨out, hOut, hRest⟩ := Option.bind_eq_some_iff.1 hStep
  split at hRest
  · rename_i hPossible
    obtain ⟨reply, hReply, hEq⟩ := Option.bind_eq_some_iff.1 hRest
    cases hEq
    have hBuilt : Built call :=
      (built_or_unbuilt hOut).resolve_right fun hUnbuilt => hUnbuilt.err hHealthy
    obtain ⟨future, rest, hCaught, hEnd⟩ :=
      call_end hServe hOrdered hErr hRoom hOut hBuilt hPossible
    have hBytes :
        ∀ obuf : Bytes, out.sent ++ obuf = s.context.obuf ++ commandBytes call.argv →
        s.sent ++ out.sent ++ obuf =
          ((s.log ++ [Exchange.mk call.argv reply]).map Exchange.argv).flatMap
            commandBytes := by
      intro obuf hObuf
      rw [List.append_assoc, hObuf, ← List.append_assoc, hOrdered.sent, List.map_append,
        List.flatMap_append, List.map_singleton, List.flatMap_singleton]
    have hAll : ∀ argv ∈ (s.log ++ [Exchange.mk call.argv reply]).map Exchange.argv,
        (commandBytes argv).length < 2 ^ 31 := by
      rw [List.map_append]
      exact hOrdered.fits_append hBuilt.fits
    cases hEnd with
    | replied hResult _ hSent hFlushed _ hLinked =>
        rw [hResult] at hReply
        cases hReply
        refine ⟨⟨hBytes _ hSent, hAll, ?_⟩, _, rfl, fun hNone => (by cases hNone), ?_⟩
        swap
        · intro hCount _
          rw [hCaught hCount] at hFlushed
          exact hFlushed rfl
        rw [List.map_append, List.map_singleton, List.filterMap_append]
        exact ⟨_, _, hLinked⟩
    | failed _ hBad => exact absurd hHealthy hBad
    | interrupted hResult _ hWrites hSent hReceived hLinked =>
        rw [hResult] at hReply
        cases hReply
        refine ⟨⟨hBytes _ hSent, hAll, ?_⟩, _, rfl, fun _ => hWrites.mem,
          fun _ hSome => absurd rfl hSome⟩
        rw [List.map_append, List.map_singleton, List.filterMap_append, hReceived]
        simp only [List.filterMap_cons, List.filterMap_nil, List.append_nil]
        exact ⟨_, _, hLinked⟩
    | blocked hResult _ _ _ _ _ =>
        rw [hResult] at hReply
        cases hReply
  · cases hRest

/-- What a call and its entry in the log have to do with one another. -/
def Logged (call : Call) (e : Exchange) : Prop :=
  e.argv = call.argv ∧ (e.reply = none → .interrupted ∈ call.writes)

/-- Every call of the sequence finds room. -/
def Roomy (serve : σ → List Bytes → σ × RedisReply) (server : σ) (calls : List Call) :
    Prop :=
  ∀ pre call post s, calls = pre ++ call :: post →
    run (guarded (step serve server) healthy) .fresh pre = some s →
      s.Room serve server call

/-- Both streams are in order after every run of calls that find room and leave
the context healthy. -/
theorem run_ordered (hServe : Answerable serve) {calls : List Call}
    (hRoomy : Roomy serve server calls) {s : Connection}
    (hRun : run (guarded (step serve server) healthy) .fresh calls = some s) :
    s.context.err = none ∧ Ordered serve server s ∧
    List.Forall₂ Logged calls s.log := by
  induction calls using List.reverseRecOn generalizing s with
  | nil =>
      cases hRun
      exact ⟨rfl, ordered_fresh, .nil⟩
  | append_singleton hist call ih =>
      rw [run_append] at hRun
      obtain ⟨t, hHist, hLast⟩ := Option.bind_eq_some_iff.1 hRun
      have hBefore : Roomy serve server hist := fun pre c post t hSplit =>
        hRoomy pre c (post ++ [call]) t (by rw [hSplit]; simp)
      obtain ⟨hErr, hOrdered, hLogged⟩ := ih hBefore hHist
      have hRoom := hRoomy hist call [] t rfl hHist
      obtain ⟨s', hStep, hEnd⟩ := (run_cons_eq_some _).1 hLast
      cases hEnd
      obtain ⟨hOne, hHealthy⟩ := guarded_eq_some.1 hStep
      have hErr' : s.context.err = none := Option.isNone_iff_eq_none.1 hHealthy
      obtain ⟨hOrdered', reply, hLog, hNull, -⟩ :=
        step_ordered hServe hOrdered hErr hRoom hOne hErr'
      refine ⟨hErr', hOrdered', ?_⟩
      rw [hLog]
      exact List.rel_append hLogged (.cons ⟨rfl, hNull⟩ .nil)

/-- Between two calls nothing is on its way: each command has been sent, and
its reply handed out. -/
structure Quiet (serve : σ → List Bytes → σ × RedisReply)
    (server : σ) (s : Connection) : Prop where
  err : s.context.err = none
  ordered : Ordered serve server s
  obuf : s.context.obuf = []
  replied : (s.log.filterMap Exchange.reply).length = s.log.length

/-- With nothing outstanding there is room for any command that can be built, and
for its answer. -/
theorem Quiet.room (hServe : Answerable serve) {s : Connection}
    (hQuiet : Quiet serve server s) (call : Call) : s.Room serve server call where
  obuf := by
    intro hFits
    rwa [hQuiet.obuf, List.length_nil, Nat.zero_add]
  reader := by
    right
    rw [answers_append, List.drop_left' (by
      rw [length_answers, List.length_map, hQuiet.replied])]
    obtain ⟨s', argv, hAnswer⟩ : ∃ s' argv, answers serve
        (served serve server (s.log.map Exchange.argv)) [call.argv] =
          [(serve s' argv).2] := ⟨_, _, rfl⟩
    have hBound := (hServe s' argv).2
    rw [hAnswer, List.flatMap_singleton]
    refine Nat.le_trans (Nat.add_le_add_left ?_ _) hBound
    decide

/-- Calls that are not interrupted leave the connection quiet. -/
theorem run_quiet (hServe : Answerable serve) {calls : List Call} {s : Connection}
    (hRun : run (guarded (step serve server) healthy) .fresh calls = some s)
    (hCalm : ∀ call ∈ calls, .interrupted ∉ call.writes) : Quiet serve server s := by
  refine run_preserves_on (guarded (step serve server) healthy)
    (P := Quiet serve server)
    ?_ hCalm ⟨rfl, ordered_fresh, rfl, rfl⟩ hRun
  intro s call s' hCall hQuiet hStep
  obtain ⟨hOne, hHealthy⟩ := guarded_eq_some.1 hStep
  have hErr' : s'.context.err = none := Option.isNone_iff_eq_none.1 hHealthy
  obtain ⟨hOrdered, reply, hLog, hNull, hFlushed⟩ :=
    step_ordered hServe hQuiet.ordered hQuiet.err
      (hQuiet.room hServe call) hOne hErr'
  cases reply with
  | none => exact absurd (hNull rfl) hCall
  | some v =>
      refine ⟨hErr', hOrdered, hFlushed hQuiet.replied (by simp), ?_⟩
      rw [hLog, List.filterMap_append, List.length_append,
        List.length_append, hQuiet.replied]
      rfl

/-- Calls that are not interrupted always find room. -/
theorem roomy_of_calm (hServe : Answerable serve) {calls : List Call}
    (hCalm : ∀ call ∈ calls, .interrupted ∉ call.writes) :
    Roomy serve server calls := by
  intro pre call post s hSplit hRun
  have hBefore : ∀ c ∈ pre, .interrupted ∉ c.writes := fun c hc =>
    hCalm c (by rw [hSplit]; exact List.mem_append_left _ hc)
  exact (run_quiet hServe hRun hBefore).room hServe call

theorem logged_argv {calls : List Call} {log : List Exchange}
    (hLogged : List.Forall₂ Logged calls log) :
    log.map Exchange.argv = calls.map Call.argv := by
  induction hLogged with
  | nil => rfl
  | cons hOne _ ih => rw [List.map_cons, List.map_cons, ih, hOne.1]

/-- The replies handed out are a front part of the answers to the commands. -/
theorem replies_front (hServe : Answerable serve) {s : Connection}
    (hOrdered : Ordered serve server s) :
    s.log.filterMap Exchange.reply <+: answers serve server
      (s.log.map Exchange.argv) := by
  obtain ⟨future, rest, hLinked⟩ := hOrdered.linked
  exact (behind_encoded (answerable_sendable _ hServe _) hLinked.stream
    hLinked.inStep.behind).1

/-- An entry moves forward by the number of entries left out before it. -/
theorem getElem?_filterMap_reply {log : List Exchange} {k : Nat}
    {e : Exchange} {v : RedisReply} (hEntry : log[k]? = some e)
    (hReply : e.reply = some v) :
    (log.filterMap Exchange.reply)[k - (log.take k).countP (fun e => e.reply.isNone)]? =
      some v := by
  induction log generalizing k with
  | nil => cases hEntry
  | cons first log ih =>
      cases k with
      | zero =>
          rw [List.getElem?_cons_zero, Option.some.injEq] at hEntry
          rw [hEntry, List.filterMap_cons_some hReply]
          rfl
      | succ k =>
          have hRest := ih (by simpa using hEntry)
          have hCount : (log.take k).countP (fun e => e.reply.isNone) ≤ k :=
            Nat.le_trans List.countP_le_length (List.length_take_le ..)
          rw [List.take_succ_cons]
          cases hFirst : first.reply with
          | none =>
              rw [List.filterMap_cons_none hFirst,
                List.countP_cons_of_pos (by simp [hFirst]), Nat.add_sub_add_right]
              exact hRest
          | some w =>
              rw [List.filterMap_cons_some hFirst,
                List.countP_cons_of_neg (by simp [hFirst]), Nat.sub_add_comm hCount,
                  List.getElem?_cons_succ]
              exact hRest

/-- **Which command a reply answers.** In every run of calls that find room and leave
the context healthy, the commands are on their way in the order of the calls; a call
returns null only when one of its writes is interrupted; and the reply of a call is the
server's answer to the command as many places before its own as calls before it have
returned null. -/
theorem redisCommand_shifted (hServe : Answerable serve) {calls : List Call}
    (hRoomy : Roomy serve server calls) {s : Connection}
    (hRun : run (guarded (step serve server) healthy) .fresh calls = some s) :
    s.sent ++ s.context.obuf = (calls.map Call.argv).flatMap commandBytes ∧
      List.Forall₂ Logged calls s.log ∧
      ∀ k e v, s.log[k]? = some e → e.reply = some v →
        (answers serve server (calls.map Call.argv))[
          k - (s.log.take k).countP (fun e => e.reply.isNone)]? = some v := by
  obtain ⟨-, hOrdered, hLogged⟩ := run_ordered hServe hRoomy hRun
  rw [← logged_argv hLogged]
  refine ⟨hOrdered.sent, hLogged, ?_⟩
  intro k e v hEntry hReply
  have hIndex := getElem?_filterMap_reply hEntry hReply
  obtain ⟨more, hFront⟩ := replies_front hServe hOrdered
  rw [← hFront, List.getElem?_append_left (List.getElem?_eq_some_iff.1 hIndex).1]
  exact hIndex

/-- A server that knows one value. -/
def oneValue (_ : Unit) (argv : List Bytes) : Unit × RedisReply :=
  ((), if argv.head? = some (bytesOf "SET") then .status (bytesOf "OK")
    else .string (bytesOf "v"))

theorem oneValue_answerable : Answerable oneValue := by
  intro s argv
  unfold oneValue
  split
  · exact ⟨oneLine_of_not_mem (by decide), by decide⟩
  · exact ⟨⟨by decide, by decide⟩, by decide⟩

theorem oneValue_short (s : Unit) (argv : List Bytes) :
    (encode (oneValue s argv).2).length + readerRoom ≤ 2 ^ 31 := by
  unfold oneValue
  split
  · decide
  · decide

/-- A `SET` that a signal interrupts, and a `GET` behind it. -/
def interruptedRun : List Call :=
  [⟨bytesOf "SET %s %s", [.str (bytesOf "k"), .str (bytesOf "w")], true, fun _ => true,
      [.wrote 5, .interrupted], []⟩,
    ⟨bytesOf "GET %s", [.str (bytesOf "k")], true, fun _ => true, [.wrote 100],
      [.got (bytesOf "+OK\r\n$1\r\nv\r\n")]⟩]

/-- The `GET` returns the reply of the `SET`. -/
theorem redisCommand_shifted_interrupted :
    ∃ s, run (guarded (step oneValue ()) healthy) .fresh interruptedRun = some s ∧
      s.log.map (fun e => e.reply.map encode) = [none, some (bytesOf "+OK\r\n")] ∧
      s.sent ++ s.context.obuf = (interruptedRun.map Call.argv).flatMap commandBytes ∧
      List.Forall₂ Logged interruptedRun s.log ∧
      ∀ k e v, s.log[k]? = some e → e.reply = some v →
        (answers oneValue () (interruptedRun.map Call.argv))[
          k - (s.log.take k).countP (fun e => e.reply.isNone)]? = some v := by
  have hReplies : (run (guarded (step oneValue ()) healthy) .fresh interruptedRun).map
      (fun s => s.log.map fun e => e.reply.map encode) =
        some [none, some (bytesOf "+OK\r\n")] := by decide +kernel
  obtain ⟨s, hRun, hLog⟩ := Option.map_eq_some_iff.1 hReplies
  have hRoomy : Roomy oneValue () interruptedRun := by
    have hBuffer : ∀ k, k < interruptedRun.length →
        (run (guarded (step oneValue ()) healthy) .fresh (interruptedRun.take k)).all
          (fun s => s.context.obuf.length ≤ 100) = true := by decide +kernel
    have hCommands :
        ∀ call ∈ interruptedRun, (commandBytes call.argv).length ≤ 100 := by
      decide +kernel
    intro pre call post t hSplit hPre
    refine ⟨fun _ => ?_, spacious_of_short () oneValue_short _ _⟩
    have hMem : call ∈ interruptedRun := by
      rw [hSplit]
      exact List.mem_append_right _ List.mem_cons_self
    have hLess : pre.length < interruptedRun.length := by
      rw [hSplit, List.length_append, List.length_cons]
      omega
    have hSmall := hBuffer pre.length hLess
    rw [hSplit, List.take_left, hPre] at hSmall
    have hObuf : t.context.obuf.length ≤ 100 := of_decide_eq_true hSmall
    have hCommand := hCommands call hMem
    omega
  exact ⟨s, hRun, hLog, redisCommand_shifted oneValue_answerable hRoomy hRun⟩

/-- What has been handed out on a quiet connection. -/
theorem Quiet.replies (hServe : Answerable serve) {s : Connection}
    (hQuiet : Quiet serve server s) :
    s.log.filterMap Exchange.reply =
      answers serve server (s.log.map Exchange.argv) := by
  refine (replies_front hServe hQuiet.ordered).eq_of_length ?_
  rw [hQuiet.replied, length_answers, List.length_map]

theorem map_reply_of_length {log : List Exchange}
    (hLength : (log.filterMap Exchange.reply).length = log.length) :
    log.map Exchange.reply = (log.filterMap Exchange.reply).map some := by
  induction log with
  | nil => rfl
  | cons e log ih =>
      have hLess := List.length_filterMap_le Exchange.reply log
      cases hReply : e.reply with
      | none =>
          rw [List.filterMap_cons_none hReply, List.length_cons] at hLength
          omega
      | some v =>
          rw [List.filterMap_cons_some hReply, List.length_cons, List.length_cons,
            Nat.add_right_cancel_iff] at hLength
          rw [List.map_cons, List.filterMap_cons_some hReply,
            List.map_cons, hReply, ih hLength]

/-- **No interruption, no confusion.** If no write is interrupted, each call
has returned the answer to its own command, and nothing is left unsent. -/
theorem redisCommand_own (hServe : Answerable serve)
    {calls : List Call} {s : Connection}
    (hRun : run (guarded (step serve server) healthy) .fresh calls = some s)
    (hCalm : ∀ call ∈ calls, .interrupted ∉ call.writes) :
    s.log.map Exchange.reply = (answers serve server (calls.map Call.argv)).map some ∧
      s.context.obuf = [] := by
  have hQuiet := run_quiet hServe hRun hCalm
  obtain ⟨-, -, hLogged⟩ := run_ordered hServe (roomy_of_calm hServe hCalm) hRun
  rw [map_reply_of_length hQuiet.replied, hQuiet.replies hServe, logged_argv hLogged]
  exact ⟨rfl, hQuiet.obuf⟩

/-- A command that goes out in two pieces, and a reply that comes in two with a
signal between them. -/
def calmRun : List Call :=
  [⟨bytesOf "SET %s %s", [.str (bytesOf "k"), .str (bytesOf "w")], true, fun _ => true,
      [.wrote 5, .wrote 100],
        [.got (bytesOf "+O"), .interrupted, .got (bytesOf "K\r\n")]⟩,
    ⟨bytesOf "GET %s", [.str (bytesOf "k")], true, fun _ => true, [.wrote 100],
      [.got (bytesOf "$1\r\nv\r\n")]⟩]

theorem redisCommand_own_calm :
    ∃ s, run (guarded (step oneValue ()) healthy) .fresh calmRun = some s ∧
      s.log.map Exchange.reply =
        (answers oneValue () (calmRun.map Call.argv)).map some ∧
      s.context.obuf = [] := by
  have hReturns :
      (run (guarded (step oneValue ()) healthy) .fresh calmRun).isSome = true := by
    decide +kernel
  obtain ⟨s, hRun⟩ := Option.isSome_iff_exists.1 hReturns
  exact ⟨s, hRun, redisCommand_own oneValue_answerable hRun (by decide)⟩

/-- Once the command and everything before it are sent, answered and read, the
answer to the command, if no other, is still to be handed out. -/
theorem not_more_of_all (hServe : Answerable serve) {s : Connection}
    (hOrdered : Ordered serve server s) {call : Call} (hBuilt : Built call)
    {out : Outcome} {future rest : Bytes}
    (hSent : out.sent = s.context.obuf ++ commandBytes call.argv)
    (hLinked : Linked (answers serve server (s.log.map Exchange.argv ++ [call.argv]))
      future out.context (s.received ++ out.received)
      (s.log.filterMap Exchange.reply) rest)
    (hAll : s.received ++ out.received =
      serverOutput serve server (s.sent ++ out.sent)) :
    parseReply 8 rest ≠ .more := by
  have hCommands : s.sent ++ out.sent =
      (s.log.map Exchange.argv ++ [call.argv]).flatMap commandBytes := by
    rw [hSent, ← List.append_assoc, hOrdered.sent, List.flatMap_append,
      List.flatMap_singleton]
  have hReads :
      serverReads (s.sent ++ out.sent) = s.log.map Exchange.argv ++ [call.argv] := by
    have hMore : parseReply 1 [] = .more := rfl
    have hNothing := serverReads_part (hOrdered.fits_append hBuilt.fits) hMore
    rwa [List.append_nil, ← hCommands] at hNothing
  rw [serverOutput, hReads] at hAll
  have hSendable := answerable_sendable server hServe
    (s.log.map Exchange.argv ++ [call.argv])
  have hFuture : future = [] := by
    have hStream := hLinked.stream
    rw [← hAll] at hStream
    simpa using hStream
  have hRest := hLinked.rest_eq hSendable
  rw [hFuture, List.append_nil] at hRest
  have hLess : (s.log.filterMap Exchange.reply).length <
      (answers serve server (s.log.map Exchange.argv ++ [call.argv])).length := by
    have hReplies := List.length_filterMap_le Exchange.reply s.log
    rw [length_answers, List.length_append, List.length_map, List.length_singleton]
    omega
  intro hMore
  rw [hRest, List.drop_eq_getElem_cons hLess, List.flatMap_cons,
    parseReply_encode (hSendable _ (List.getElem_mem hLess))] at hMore
  cases hMore

/-- **No call waits for a reply that has come.** A call on a healthy connection
that has not returned has no whole reply among the bytes it has been brought; and
it is waiting for the kernel to take the rest of the buffer, or for bytes that
the server has written and the kernel has not brought. -/
theorem redisCommand_waits (hServe : Answerable serve) {calls : List Call} {call : Call}
    (hRoomy : Roomy serve server (calls ++ [call])) {s : Connection}
    (hRun : run (guarded (step serve server) healthy) .fresh calls = some s)
    {out : Outcome}
    (hOut : redisCommand call.mem call.format call.args call.memory call.writes
      call.reads s.context = some out)
    (hPossible : possible serve server s call (s.sent ++ out.sent) = true)
    (hBlocked : out.result = .blocked) :
    nth (parseReply 8) (s.log.filterMap Exchange.reply).length
        (s.received ++ out.received) = .more ∧
      (out.context.obuf ≠ [] ∨
        s.received ++ out.received ≠
          serverOutput serve server (s.sent ++ out.sent)) := by
  have hBefore : Roomy serve server calls := fun pre c post t hSplit =>
    hRoomy pre c (post ++ [call]) t (by rw [hSplit]; simp)
  obtain ⟨hErr, hOrdered, hLogged⟩ := run_ordered hServe hBefore hRun
  have hRoom := hRoomy calls call [] s rfl hRun
  have hBuilt : Built call := by
    refine (built_or_unbuilt hOut).resolve_right fun hUnbuilt => ?_
    have hResult := hUnbuilt.result
    rw [hBlocked] at hResult
    cases hResult
  obtain ⟨future, rest, hCaught, hEnd⟩ :=
    call_end hServe hOrdered hErr hRoom hOut hBuilt hPossible
  cases hEnd with
  | replied hResult _ _ _ _ _ =>
      rw [hBlocked] at hResult
      cases hResult
  | failed hResult _ =>
      rw [hBlocked] at hResult
      cases hResult
  | interrupted hResult _ _ _ _ _ =>
      rw [hBlocked] at hResult
      cases hResult
  | @blocked left rest _ hSplit hLinked hMore hWaits hSent =>
      constructor
      · have hNth := hLinked.inStep.behind.nth []
        rw [List.append_nil, List.append_nil] at hNth
        rw [hNth, hMore]
      · rcases hWaits with hUnsent | ⟨rfl, hEmpty⟩
        · exact Or.inl hUnsent
        · right
          intro hAll
          rw [hEmpty, List.append_nil] at hSent
          exact not_more_of_all hServe hOrdered hBuilt hSent hLinked hAll hMore

/-- A call that has half of its reply. -/
def waitingCall : Call :=
  ⟨bytesOf "GET %s", [.str (bytesOf "k")], true, fun _ => true, [.wrote 100],
    [.got (bytesOf "$1\r\n")]⟩

theorem redisCommand_waits_half :
    ∃ out, redisCommand waitingCall.mem waitingCall.format waitingCall.args
        waitingCall.memory waitingCall.writes waitingCall.reads .fresh = some out ∧
      nth (parseReply 8) 0 out.received = .more ∧
      (out.context.obuf ≠ [] ∨
        out.received ≠ serverOutput oneValue () out.sent) := by
  have hBlocked : (redisCommand waitingCall.mem waitingCall.format waitingCall.args
      waitingCall.memory waitingCall.writes waitingCall.reads .fresh).map (fun out =>
        (returned out.result).isNone &&
          possible oneValue () .fresh waitingCall ([] ++ out.sent)) = some true := by
    decide +kernel
  obtain ⟨out, hOut, hBoth⟩ := Option.map_eq_some_iff.1 hBlocked
  rw [Bool.and_eq_true] at hBoth
  have hResult : out.result = .blocked := by
    cases hResult : out.result with
    | blocked => rfl
    | _ =>
        rw [hResult] at hBoth
        cases hBoth.1
  have hRun : run (guarded (step oneValue ()) healthy) .fresh [] = some .fresh := rfl
  have hRoomy : Roomy oneValue () ([] ++ [waitingCall]) :=
    roomy_of_calm oneValue_answerable (by decide)
  exact ⟨out, hOut, redisCommand_waits oneValue_answerable hRoomy
    hRun hOut hBoth.2 hResult⟩

end Runs

end MGServer.Ports.RedisConnection
