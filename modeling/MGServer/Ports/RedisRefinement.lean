import MGServer.Ports.RedisConnection
import MGServer.Ports.RedisHandle

/-!
# The handle on bytes

`RedisHandle.lean` has the handle over commands and replies as wholes, and says
by a `Weather` what a call meets.  Here the same members (`Parts`) run over the
byte level of `RedisConnection.lean`: what a call meets is what the kernel
answers.  Each such call is one of the other model, with the same result or the
same exception and the same commands executed, as long as no `write` is
interrupted.
-/

namespace MGServer.Ports.RedisRefinement

open MGServer.Verified.ByteString
open MGServer.Verified.Incremental
open MGServer.Verified.Transition
open MGServer.Ports.RedisReader
open MGServer.Ports.RedisProtocol
open MGServer.Ports.RedisFormat
open MGServer.Ports.RedisContext
open MGServer.Ports.RedisConnection
open MGServer.Ports.Hiredis (Connect Weather)
open MGServer.Ports.RedisHandle (Parts Ended)

/-! ## The two formats -/

/-- Where the other model has a result, the format makes the same of it. -/
theorem formatLoop_refines {format : Bytes} {args done : List Bytes} {cur : Bytes}
    {touched : Bool} {argv : List Bytes}
    (hFormat : Hiredis.formatLoop format args done cur touched = some argv) {fuel : Nat}
    (hFuel : format.length < fuel) :
    formatLoop fuel format (args.map .str) ⟨done, cur, touched⟩ = .argv argv := by
  fun_induction Hiredis.formatLoop format args done cur touched generalizing fuel with
  | case1 args done cur touched =>
      obtain ⟨fuel, rfl⟩ := Nat.exists_eq_add_of_lt hFuel
      cases hFormat
      rfl
  | case2 done cur touched rest arg args ih =>
      obtain ⟨fuel, rfl⟩ := Nat.exists_eq_add_of_lt hFuel
      exact ih hFormat (by simp only [List.length_cons]; omega)
  | case3 done cur touched args ih =>
      obtain ⟨fuel, rfl⟩ := Nat.exists_eq_add_of_lt hFuel
      exact ih hFormat (by simp only [List.length_cons, List.length_nil]; omega)
  | case4 rest args done cur touched _ _ => cases hFormat
  | case5 rest args done cur hBlank ih =>
      obtain ⟨fuel, rfl⟩ := Nat.exists_eq_add_of_lt hFuel
      exact ih hFormat (by simp only [List.length_cons]; omega)
  | case6 rest args done cur touched hTouched hBlank ih =>
      obtain ⟨fuel, rfl⟩ := Nat.exists_eq_add_of_lt hFuel
      rw [Bool.not_eq_true] at hTouched
      subst hTouched
      exact ih hFormat (by simp only [List.length_cons]; omega)
  | case7 c rest args done cur touched hPercent hBlank ih =>
      obtain ⟨fuel, rfl⟩ := Nat.exists_eq_add_of_lt hFuel
      rw [List.length_cons, formatLoop, if_pos (Or.inl hPercent), if_neg hBlank]
      exact ih hFormat (by omega)

theorem formatArgv_refines {format : String} {args argv : List Bytes}
    (hFormat : Hiredis.redisvFormatCommand format args = some argv) :
    formatArgv (bytesOf format) (args.map .str) = .argv argv :=
  formatLoop_refines hFormat (Nat.lt_succ_self _)

/-! ## The handle -/

/-- A reply as the handle looks at it; the reader never hands out a null. -/
def handleReply : RedisReply → Hiredis.Reply
  | .null => .nil
  | .string s => .string s
  | .array element => .array element.length
  | .integer v => .integer v
  | .nil => .nil
  | .status s => .status s
  | .error s => .error s

/-- What a call meets. -/
structure Meets where
  connect : Connect
  memory : Bool
  mem : Nat → Bool
  writes : List Write
  reads : List Read
  /-- A logger can be built, if there is none yet. -/
  logger : Bool

/-- The handle, its connection, and the server as it was when the connection
was made. -/
structure Handle (σ : Type) where
  RedisInfo : Bool
  RotatingLogger : Bool
  RedisContext : Option Connection
  base : σ

/-- The constructor. -/
def Handle.init {σ : Type} (logger : Bool) (server : σ) : Handle σ :=
  ⟨false, logger, none, server⟩

section Members

variable {σ : Type} (serve : σ → List Bytes → σ × RedisReply)

/-- The server now. -/
def Handle.server (h : Handle σ) : σ :=
  match h.RedisContext with
  | some s => served serve h.base (serverReads s.sent)
  | none => h.base

/-- A connection that could not be made. -/
def Connection.failed : Connection :=
  { Connection.fresh with context := { Context.fresh with err := some .io } }

/-- The call of `redisCommand` and its reply. -/
def command (m : Meets) (format : String) (args : List Bytes) (h : Handle σ) :
    Option (Option RedisReply × Handle σ) := do
  let s ← h.RedisContext
  let s' ← step serve h.base s
    ⟨bytesOf format, args.map .str, m.memory, m.mem, m.writes, m.reads⟩
  some ((s'.log.getLast?).bind Exchange.reply, { h with RedisContext := some s' })

/-- The handle over bytes: the server keeps what it has read when a connection
is given up. -/
def parts : Parts (Handle σ) Meets RedisReply where
  RedisInfo h := h.RedisInfo
  setRedisInfo info h := { h with RedisInfo := info }
  err h := h.RedisContext.map fun s => !healthy s
  redisFree h := h
  redisConnectWithTimeout m h :=
    match m.connect with
    | .null => { h with RedisContext := none, base := h.server serve }
    | .errored =>
        { h with RedisContext := some Connection.failed, base := h.server serve }
    | .good => { h with RedisContext := some .fresh, base := h.server serve }
  redisCommand := command serve
  interpret _ h := h
  freeReplyObject _ h := h
  reply := handleReply
  LOG m h :=
    if h.RotatingLogger || m.logger then some { h with RotatingLogger := true }
    else none

/-- A call of a member and what it meets. -/
structure Op where
  call : RedisHandle.Call
  info : Bool
  meets : Meets

/-- One call, with what it returns. -/
def perform (h : Handle σ) (op : Op) : Option (Ended (Bool × Bytes) × Handle σ) :=
  (parts serve).perform op.call op.info op.meets h

end Members

/-! ## One command -/

section Command

variable {σ : Type} {serve : σ → List Bytes → σ × RedisReply}

/-- The server of the other model. -/
def handleServe (serve : σ → List Bytes → σ × RedisReply) (s : σ) (argv : List Bytes) :
    σ × Hiredis.Reply :=
  ((serve s argv).1, handleReply (serve s argv).2)

/-- A connection of this model and a context of the other. -/
structure Matches (serve : σ → List Bytes → σ × RedisReply) (base : σ) (s : Connection)
    (c : Hiredis.Context) : Prop where
  err : c.err = s.context.err.isSome
  quiet : s.context.err = none → Quiet serve base s ∧ c.Idle

variable {base : σ} {s s' : Connection}

/-- On a quiet connection the server has read every command. -/
theorem Quiet.reads (hQuiet : Quiet serve base s) :
    s.sent = (s.log.map Exchange.argv).flatMap commandBytes ∧
      serverReads s.sent = s.log.map Exchange.argv := by
  have hSent := hQuiet.ordered.sent
  rw [hQuiet.obuf, List.append_nil] at hSent
  have hMore : parseReply 1 [] = .more := rfl
  have hReads := serverReads_part hQuiet.ordered.fits hMore
  rw [List.append_nil, ← hSent] at hReads
  exact ⟨hSent, hReads⟩

/-- A call that does not leave the context healthy: no reply, and the server
has read the command or has not. -/
theorem step_lost (hServe : Answerable serve) (hQuiet : Quiet serve base s)
    {call : RedisConnection.Call} (hStep : step serve base s call = some s')
    (hErr : s'.context.err ≠ none) :
    (∃ e, s'.log = s.log ++ [e] ∧ e.reply = none) ∧
      (serverReads s'.sent = s.log.map Exchange.argv ∨
        serverReads s'.sent = s.log.map Exchange.argv ++ [call.argv]) := by
  obtain ⟨hSent, hReads⟩ := Quiet.reads hQuiet
  obtain ⟨out, hOut, hRest⟩ := Option.bind_eq_some_iff.1 hStep
  split at hRest
  · rename_i hPossible
    obtain ⟨reply, hReply, hEq⟩ := Option.bind_eq_some_iff.1 hRest
    cases hEq
    rcases built_or_unbuilt hOut with hBuilt | hUnbuilt
    · constructor
      · refine ⟨_, rfl, ?_⟩
        obtain ⟨future, rest, -, hEnd⟩ :=
          call_end hServe hQuiet.ordered hQuiet.err
            (hQuiet.room hServe call) hOut hBuilt hPossible
        cases hEnd with
        | replied _ hNone _ _ _ _ => exact absurd hNone hErr
        | failed hResult _ =>
            rw [hResult] at hReply
            cases hReply
            rfl
        | interrupted _ hNone _ _ _ _ => exact absurd hNone hErr
        | blocked hResult _ _ _ _ _ =>
            rw [hResult] at hReply
            cases hReply
      · obtain ⟨len, hCmd⟩ := hBuilt.formatted
        have hSize : (s.context.obuf ++ commandBytes call.argv).length < 2 ^ 31 := by
          rw [hQuiet.obuf]
          exact hBuilt.fits
        obtain ⟨back, hBack⟩ := redisCommand_sent hCmd hSize hOut
        rw [hQuiet.obuf, List.nil_append] at hBack
        by_cases hWhole : back = []
        · right
          have hMore : parseReply 1 [] = .more := rfl
          have hAll := serverReads_part (hQuiet.ordered.fits_append hBuilt.fits) hMore
          rw [hWhole, List.append_nil] at hBack
          rw [List.append_nil, List.flatMap_append, List.flatMap_singleton, ← hSent,
            ← hBack] at hAll
          exact hAll
        · left
          rw [commandBytes_eq_encode] at hBack
          have hMore := parse_part (parseReply_settled 1) fits_read
            ⟨call.argv, rfl, hBuilt.fits⟩ hBack hWhole
          have hFront := serverReads_part hQuiet.ordered.fits hMore
          rwa [← hSent] at hFront
    · rw [hUnbuilt.result] at hReply
      cases hReply
      refine ⟨⟨_, rfl, rfl⟩, Or.inl ?_⟩
      rw [hUnbuilt.sent, List.append_nil, hReads]
  · cases hRest

/-- The two models meet the same connect and the same log. -/
def SameWeather (m : Meets) (w : Weather) : Prop :=
  w.connect = m.connect ∧ w.logger = m.logger

/-- A command that is lost before or behind the server, in the other model. -/
theorem redisCommand_lost {c : Hiredis.Context} (hIdle : c.Idle) {format : String}
    {args argv : List Bytes}
    (hFormat : Hiredis.redisvFormatCommand format args = some argv)
    (abstract : σ → List Bytes → σ × Hiredis.Reply) (connect : Connect) (logger : Bool)
    (server : σ) (n : Nat) :
    (∃ c', Hiredis.redisCommand abstract
      ⟨connect, true, .brokenAfter 0, none, .broken, logger⟩
      server c n format args = (server, c', none) ∧ c'.err = true) ∧
    ∃ c', Hiredis.redisCommand abstract ⟨connect, true, .sent, none, .broken, logger⟩
      server c n format args = ((abstract server argv).1, c', none) ∧
      c'.err = true := by
  obtain ⟨conn, err, obuf, wire, reader⟩ := c
  obtain ⟨hErr, hObuf, hWire, hReader⟩ := hIdle
  simp only at hErr hObuf hWire hReader
  subst hErr hObuf hWire hReader
  simp [Hiredis.redisCommand, Hiredis.redisGetReply, hFormat, Hiredis.executeAll,
    Hiredis.execute]

/-- **One command in both models.** Whatever the kernel answers, short of an
interrupted write, there is a weather that makes the other model return the
same reply, leave the server in the same state and the context in one that
matches. -/
theorem command_refines (hServe : Answerable serve) (hQuiet : Quiet serve base s)
    {m : Meets} (hCalm : .interrupted ∉ m.writes) {format : String}
    {args argv : List Bytes}
    (hFormat : Hiredis.redisvFormatCommand format args = some argv)
    (hStep : step serve base s
      ⟨bytesOf format, args.map .str, m.memory, m.mem, m.writes, m.reads⟩ = some s')
    {c : Hiredis.Context} (hIdle : c.Idle) (n : Nat) :
    ∃ w c', SameWeather m w ∧
      Hiredis.redisCommand (handleServe serve) w
        (served serve base (serverReads s.sent)) c n
          format args =
        (served serve base (serverReads s'.sent), c',
          (s'.log.getLast?.bind Exchange.reply).map fun v =>
            ⟨c.conn, ⟨n, argv⟩, handleReply v⟩) ∧
      Matches serve base s' c' := by
  have hArgv : RedisConnection.Call.argv
      ⟨bytesOf format, args.map .str, m.memory, m.mem, m.writes, m.reads⟩ = argv := by
    rw [RedisConnection.Call.argv]
    simp only [formatArgv_refines hFormat]
  have hReads := (Quiet.reads hQuiet).2
  by_cases hErr : s'.context.err = none
  · obtain ⟨hOrdered, reply, hLog, hNull, hFlushed⟩ :=
      step_ordered hServe hQuiet.ordered hQuiet.err
        (hQuiet.room hServe _) hStep hErr
    rw [hArgv] at hLog
    cases reply with
    | none => exact absurd (hNull rfl) hCalm
    | some v =>
        have hQuiet' : Quiet serve base s' := by
          refine ⟨hErr, hOrdered, hFlushed hQuiet.replied (by simp), ?_⟩
          rw [hLog, List.filterMap_append, List.length_append, List.length_append,
            hQuiet.replied]
          rfl
        have hAnswer :
            v = (serve (served serve base (s.log.map Exchange.argv)) argv).2 := by
          have hAll := hQuiet'.replies hServe
          rw [hLog, List.filterMap_append, List.map_append, answers_append,
            hQuiet.replies hServe, List.append_cancel_left_eq] at hAll
          simpa [answers] using hAll
        have hReads' : serverReads s'.sent = s.log.map Exchange.argv ++ [argv] := by
          rw [(Quiet.reads hQuiet').2, hLog, List.map_append]
          rfl
        refine ⟨⟨m.connect, true, .sent, none, .received 0, m.logger⟩, c, ⟨rfl, rfl⟩,
          ?_, ?_⟩
        · rw [Hiredis.redisCommand_answered (handleServe serve) hIdle _
            _ n hFormat rfl, hReads, hReads', hLog, served, served,
              List.foldl_append, List.getLast?_append]
          simp [hAnswer, Hiredis.execute, handleServe, served]
        · exact ⟨by rw [hErr]; exact hIdle.err, fun _ => ⟨hQuiet', hIdle⟩⟩
  · obtain ⟨⟨e, hLog, hReply⟩, hRead⟩ := step_lost hServe hQuiet hStep hErr
    obtain ⟨⟨c₁, hUnsent, hErr₁⟩, c₂, hUnread, hErr₂⟩ :=
      redisCommand_lost hIdle hFormat (handleServe serve) m.connect m.logger
        (served serve base (serverReads s.sent)) n
    have hNone : (s'.log.getLast?.bind Exchange.reply) = none := by
      rw [hLog, List.getLast?_concat]
      exact hReply
    have hSome : s'.context.err.isSome = true := Option.isSome_iff_ne_none.2 hErr
    rw [hNone, Option.map_none]
    rcases hRead with hBefore | hAfter
    · refine ⟨⟨m.connect, true, .brokenAfter 0, none, .broken, m.logger⟩, c₁,
        ⟨rfl, rfl⟩, ?_, by rw [hErr₁, hSome], fun hNo => absurd hNo hErr⟩
      rw [hUnsent, hBefore, hReads]
    · refine ⟨⟨m.connect, true, .sent, none, .broken, m.logger⟩, c₂, ⟨rfl, rfl⟩, ?_,
        by rw [hErr₂, hSome], fun hNo => absurd hNo hErr⟩
      rw [hUnread, hAfter, hReads, hArgv, served, served, List.foldl_append]
      rfl

end Command

/-! ## The members -/

section Simulation

variable {σ : Type} {serve : σ → List Bytes → σ × RedisReply}

/-- The two handles, side by side. -/
structure Refines (serve : σ → List Bytes → σ × RedisReply) (h : Handle σ)
    (a : RedisHandle.State σ) : Prop where
  info : a.RedisInfo = h.RedisInfo
  logger : a.RotatingLogger = h.RotatingLogger
  server : a.server = h.server serve
  contexts : Option.Rel (Matches serve h.base) h.RedisContext a.RedisContext

variable {h h' : Handle σ} {a : RedisHandle.State σ}

theorem fresh_matches (base : σ) (conn : Nat) :
    Matches serve base .fresh (Hiredis.Context.fresh conn false) :=
  ⟨rfl, fun _ => ⟨⟨rfl, ordered_fresh, rfl, rfl⟩, Hiredis.fresh_idle conn⟩⟩

theorem failed_matches (base : σ) (conn : Nat) :
    Matches serve base Connection.failed (Hiredis.Context.fresh conn true) :=
  ⟨rfl, fun hErr => by cases hErr⟩

/-- Entries of the trace are no part of the other handle. -/
theorem Refines.log (hRefines : Refines serve h a) (entry : RedisHandle.HiredisCall) :
    Refines serve h (a.log entry) :=
  ⟨hRefines.info, hRefines.logger, hRefines.server, hRefines.contexts⟩

/-- The handle's test says the same in both. -/
theorem err_refines (hRefines : Refines serve h a) :
    a.RedisContext.map Hiredis.Context.err =
      h.RedisContext.map fun s => !healthy s := by
  have hContexts := hRefines.contexts
  generalize h.RedisContext = concrete at hContexts ⊢
  generalize a.RedisContext = abstract at hContexts ⊢
  cases hContexts with
  | none => rfl
  | some hMatches =>
      simp only [Option.map_some, healthy, hMatches.err, Option.some.injEq]
      rename_i s c
      cases s.context.err <;> rfl

/-- The command of a handle whose connection is healthy. -/
theorem handle_command_refines (hServe : Answerable serve)
    (hRefines : Refines serve h a) (hHealthy : h.RedisContext.any healthy = true)
    {m : Meets} (hCalm : .interrupted ∉ m.writes) {format : String}
    {args argv : List Bytes}
    (hFormat : Hiredis.redisvFormatCommand format args = some argv)
    {reply : Option RedisReply}
    (hCommand : command serve m format args h = some (reply, h')) :
    ∃ w got a', SameWeather m w ∧
      RedisHandle.command (handleServe serve) w format args a = some (got, a') ∧
      got.map (fun r => r.answer.reply) = reply.map handleReply ∧
      Refines serve h' a' := by
  obtain ⟨s, hSome, hRest⟩ := Option.bind_eq_some_iff.1 hCommand
  obtain ⟨s', hStep, hEq⟩ := Option.bind_eq_some_iff.1 hRest
  cases hEq
  have hContexts := hRefines.contexts
  rw [hSome] at hContexts hHealthy
  obtain ⟨info, logger, context, server, connects, calls, trace⟩ := a
  cases hContexts with
  | @some _ c hMatches =>
      have hErr : s.context.err = none := by simpa [healthy] using hHealthy
      obtain ⟨hQuiet, hIdle⟩ := hMatches.quiet hErr
      obtain ⟨w, c', hWeather, hSame, hMatches'⟩ :=
        command_refines hServe hQuiet hCalm hFormat hStep hIdle calls
      have hServer : server = served serve h.base (serverReads s.sent) := by
        have hNow := hRefines.server
        rwa [Handle.server, hSome] at hNow
      have hRun : ∃ entry, RedisHandle.command (handleServe serve) w format args
          ⟨info, logger, some c, server, connects, calls, trace⟩ =
            some (((s'.log.getLast?.bind Exchange.reply).map
              fun v => ⟨c.conn, ⟨calls, argv⟩, handleReply v⟩).map
                fun answer => ⟨calls, c.conn, answer⟩,
              ⟨info, logger, some c', served serve h.base (serverReads s'.sent),
                connects, calls + 1, trace ++ [entry]⟩) := by
        rw [RedisHandle.command]
        simp only [hServer, hSame]
        exact ⟨_, rfl⟩
      obtain ⟨entry, hRun⟩ := hRun
      refine ⟨w, _, _, hWeather, hRun, ?_, hRefines.info, hRefines.logger, rfl,
        .some hMatches'⟩
      rw [Option.map_map, Option.map_map]
      rfl

/-- **The parts over bytes do what the parts over commands do**, in calm
weather. -/
theorem parts_simulate (hServe : Answerable serve) :
    (parts serve).Simulates (RedisHandle.parts (handleServe serve)) (Refines serve)
      SameWeather (fun m => .interrupted ∉ m.writes) where
  meets m := ⟨⟨m.connect, true, .sent, none, .broken, m.logger⟩, rfl, rfl⟩
  agree := by
    intro m w₁ w₂ hW₁ hW₂
    have hConnect : w₁.connect = w₂.connect := hW₁.1.trans hW₂.1.symm
    have hLogger : w₁.logger = w₂.logger := hW₁.2.trans hW₂.2.symm
    constructor
    · funext a
      simp only [RedisHandle.parts, hConnect]
    · funext a
      have hLogs : a.logs w₁ = a.logs w₂ := by
        rw [RedisHandle.State.logs, RedisHandle.State.logs, hLogger]
      simp only [RedisHandle.parts]
      rw [hLogs]
  RedisInfo hRefines := hRefines.info
  setRedisInfo info {_ _} hRefines :=
    ⟨rfl, hRefines.logger, hRefines.server, hRefines.contexts⟩
  err hRefines := err_refines hRefines
  redisFree hRefines := hRefines.log _
  redisConnectWithTimeout := by
    intro m w h a hWeather hRefines
    have hServer := hRefines.server
    simp only [parts, RedisHandle.parts, hWeather.1]
    cases m.connect with
    | null => exact ⟨hRefines.info, hRefines.logger, hServer, .none⟩
    | errored =>
        exact ⟨hRefines.info, hRefines.logger, hServer, .some (failed_matches _ _)⟩
    | good => exact ⟨hRefines.info, hRefines.logger, hServer, .some (fresh_matches _ _)⟩
  redisCommand := by
    intro m format args argv reply h a h' hFormat hCalm hRefines hUp hCommand
    have hHealthy : h.RedisContext.any healthy = true := by
      have hErr := of_decide_eq_true hUp
      simp only [parts] at hErr
      obtain ⟨s, hSome, hGood⟩ := Option.map_eq_some_iff.1 hErr
      rw [hSome, Option.any_some]
      simpa using hGood
    obtain ⟨w, got, a', hWeather, hRun, hSame, hRefines'⟩ :=
      handle_command_refines hServe hRefines hHealthy hCalm hFormat hCommand
    exact ⟨w, got, a', hWeather, hRun, hSame, hRefines'⟩
  interpret _ _ {_ _} hRefines := hRefines.log _
  freeReplyObject _ _ {_ _} hRefines := hRefines.log _
  LOG := by
    intro m w h a hWeather hRefines
    simp only [parts, RedisHandle.parts, RedisHandle.State.logs,
      hRefines.logger, hWeather.2]
    split
    · exact .some ⟨hRefines.info, rfl, hRefines.server, hRefines.contexts⟩
    · exact .none

/-- **One call in both models.** -/
theorem perform_refines (hServe : Answerable serve)
    (hRefines : Refines serve h a) {op : Op} (hCalm : .interrupted ∉ op.meets.writes)
    {ended : Ended (Bool × Bytes)} (hPerform : perform serve h op = some (ended, h')) :
    ∃ op' a', RedisHandle.perform (handleServe serve) a op' = some (ended, a') ∧
      (op'.call, op'.info) = (op.call, op.info) ∧ Refines serve h' a' := by
  obtain ⟨w, a', hRun, hRefines'⟩ :=
    (parts_simulate hServe).perform hCalm hRefines hPerform
  exact ⟨⟨op.call, op.info, w⟩, a', hRun, rfl, hRefines'⟩

/-- **The byte level refines the handle.** How the members end in any sequence
of calls, over any cutting of the two streams, any failures of the kernel and of
the allocations that the model has, any reconnects and with or without a logger,
they end in a run of the other model with the same calls, which leaves the server
in the same state.  Only a `write` must not be interrupted, and the server's
answers must be ones the reader can hold. -/
theorem handle_refines (hServe : Answerable serve) {logger : Bool} {server : σ}
    {ops : List Op} (hCalm : ∀ op ∈ ops, .interrupted ∉ op.meets.writes)
    {results : List (Ended (Bool × Bytes))}
    (hRun :
      runOut (perform serve) (Handle.init logger server) ops = some (results, h)) :
    ∃ ops' a, runOut (RedisHandle.perform (handleServe serve))
        (RedisHandle.State.init logger server) ops' = some (results, a) ∧
      ops'.map (fun op => (op.call, op.info)) = ops.map (fun op => (op.call, op.info)) ∧
      a.server = h.server serve := by
  have hStart : Refines serve (Handle.init logger server)
      (RedisHandle.State.init logger server) := ⟨rfl, rfl, rfl, .none⟩
  obtain ⟨ops', a, hRun', hSame, hEnd⟩ := runOut_simulates (R := Refines serve)
    (f := fun op : Op => (op.call, op.info))
    (g := fun op : RedisHandle.Op => (op.call, op.info))
    (fun _ _ _ _ _ hOp hRefines hPerform => perform_refines
      hServe hRefines hOp hPerform)
    hCalm hStart hRun
  exact ⟨ops', a, hRun', hSame, hEnd.server⟩

/-- A `SET` whose connection breaks behind the first byte, a `GET` on the next
connection, whose reply comes in two pieces, and one that finds no logger. -/
def brokenRun : List Op :=
  [⟨.init, true, ⟨.good, true, fun _ => true, [], [], false⟩⟩,
    ⟨.getString (bytesOf "k") [], true,
      ⟨.good, true, fun _ => true, [.wrote 100],
        [.got (bytesOf "$1\r\nv\r\n")], false⟩⟩,
    ⟨.setString (bytesOf "k") (bytesOf "w"), true,
      ⟨.good, true, fun _ => true, [.wrote 1, .failed], [], true⟩⟩,
    ⟨.getString (bytesOf "k") [], true,
      ⟨.good, true, fun _ => true, [.wrote 100],
        [.got (bytesOf "$1\r"), .interrupted, .got (bytesOf "\nv\r\n")], false⟩⟩]

/-- How the calls of `brokenRun` end. -/
def brokenResults : List (Ended (Bool × Bytes)) :=
  [.returned (true, []), .threw, .returned (false, bytesOf "w"),
    .returned (true, bytesOf "v")]

theorem handle_refines_broken :
    ∃ h, runOut (perform oneValue) (Handle.init false ()) brokenRun =
        some (brokenResults, h) ∧
      ∃ ops' a, runOut (RedisHandle.perform (handleServe oneValue))
          (RedisHandle.State.init false ()) ops' = some (brokenResults, a) ∧
        ops'.map (fun op => (op.call, op.info)) =
          brokenRun.map (fun op => (op.call, op.info)) ∧
        a.server = h.server oneValue := by
  have hResults :
      (runOut (perform oneValue) (Handle.init false ()) brokenRun).map Prod.fst =
      some brokenResults := by decide +kernel
  obtain ⟨⟨results, h⟩, hRun, hEq⟩ := Option.map_eq_some_iff.1 hResults
  cases hEq
  exact ⟨h, hRun, handle_refines oneValue_answerable (by decide) hRun⟩

end Simulation

end MGServer.Ports.RedisRefinement
