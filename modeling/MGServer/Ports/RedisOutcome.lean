import MGServer.Ports.RedisHandle

/-!
# What a call comes to

What a member does exactly, for each state and each weather, down to the
context it leaves and the entries of its trace: the old context freed before a
new one is asked for, the command, the reply read and freed.  Each member ends
early where a `LOG_*` throws.
-/

namespace MGServer.Ports.RedisHandle

open MGServer.Verified.ByteString
open MGServer.Verified.Transition
open MGServer.Ports.Hiredis

variable {σ : Type}

/-! ## Connecting -/

/-- What `ConnectRedis` frees. -/
def State.freed (s : State σ) : List HiredisCall :=
  match s.RedisContext with
  | some c => [.redisFree (some c.conn)]
  | none => []

/-- The handle after `ConnectRedis` has freed and connected. -/
def State.relinked (s : State σ) : Connect → State σ
  | .null =>
      { s with
        RedisContext := none,
        trace := s.trace ++ (s.freed ++ [.redisConnect none]) }
  | .errored =>
      { s with
        RedisContext := some (Context.fresh s.connects true)
        connects := s.connects + 1
        trace := s.trace ++ (s.freed ++ [.redisConnect (some s.connects)]) }
  | .good =>
      { s with
        RedisContext := some (Context.fresh s.connects false)
        connects := s.connects + 1
        trace := s.trace ++ (s.freed ++ [.redisConnect (some s.connects)]) }

/-- The log has its logger. -/
def State.logging (s : State σ) : State σ := { s with RotatingLogger := true }

section Connecting

variable (serve : σ → List Bytes → σ × Reply) {s : State σ} {w : Weather}

theorem logged_some {α : Type} (hLogs : s.logs w = true)
    (rest : State σ → Option (Ended α × State σ)) :
    (parts serve).logged w s rest = rest s.logging := by
  simp [Parts.logged, parts, hLogs, State.logging]

theorem logged_none {α : Type} (hMute : s.logs w = false)
    (rest : State σ → Option (Ended α × State σ)) :
    (parts serve).logged w s rest = some (.threw, s) := by
  simp [Parts.logged, parts, hMute]

/-- The old context is freed. -/
def State.unlinked (s : State σ) : State σ := { s with trace := s.trace ++ s.freed }

theorem redisConnect_unlinked (s : State σ) (w : Weather) :
    (parts serve).redisConnectWithTimeout w s.unlinked = s.relinked w.connect := by
  cases hConnect : w.connect <;>
    simp [parts, hConnect, State.unlinked, State.attach, State.log, State.relinked]

theorem connected_relinked (s : State σ) (answer : Connect) :
    (s.relinked answer).connected = decide (answer = .good) := by
  cases answer <;> rfl

theorem connect_unlinked (hInfo : s.RedisInfo = true) :
    (parts serve).connect w s.unlinked =
      if w.connect = .good then some (.returned true, s.relinked w.connect)
      else if s.logs w then some (.returned false, (s.relinked w.connect).logging)
      else some (.threw, s.relinked w.connect) := by
  have hSet : (parts serve).RedisInfo s.unlinked = true := hInfo
  have hSame : (s.relinked w.connect).logs w = s.logs w := by cases w.connect <;> rfl
  simp only [Parts.connect, if_pos hSet, redisConnect_unlinked, parts_connected,
    connected_relinked, decide_eq_true_eq]
  by_cases hGood : w.connect = .good
  · rw [if_pos hGood, if_pos hGood]
  · rw [if_neg hGood, if_neg hGood]
    cases hLogs : s.logs w with
    | true =>
        rw [logged_some serve (hSame.trans hLogs)]
        rfl
    | false =>
        rw [logged_none serve (hSame.trans hLogs)]
        rfl

/-- The log makes no difference to what is freed and connected. -/
theorem relinked_logger (s : State σ) (answer : Connect) (logger : Bool) :
    State.relinked { s with RotatingLogger := logger } answer =
      { s.relinked answer with RotatingLogger := logger } := by
  cases answer <;> rfl

/-- Behind the old context there is a new one, and the log has its logger or is
as it was. -/
theorem connect_relinks (hInfo : s.RedisInfo = true) :
    ∃ ended logger, (s.RotatingLogger = true → logger = true) ∧
      (parts serve).connect w s.unlinked =
        some (ended, { s.relinked w.connect with RotatingLogger := logger }) := by
  have hSelf :
      { s.relinked w.connect with RotatingLogger := s.RotatingLogger } =
        s.relinked w.connect := by
    cases w.connect <;> rfl
  rw [connect_unlinked serve hInfo]
  split
  · exact ⟨_, s.RotatingLogger, id, by rw [hSelf]⟩
  · split
    · exact ⟨_, true, fun _ => rfl, rfl⟩
    · exact ⟨_, s.RotatingLogger, id, by rw [hSelf]⟩

/-- With a context, the `LOG_WARN` in front of `redisFree` has to return. -/
theorem connectRedis_eq (s : State σ) (w : Weather) :
    (parts serve).connectRedis w s =
      if s.RedisContext = none then (parts serve).connect w s.unlinked
      else if s.logs w then (parts serve).connect w s.logging.unlinked
      else some (.threw, s) := by
  cases hc : s.RedisContext with
  | none =>
      have hSame : s.unlinked = s := by
        obtain ⟨info, logger, ctx, server, connects, calls, trace⟩ := s
        cases hc
        simp [State.unlinked, State.freed]
      rw [hSame]
      simp [Parts.connectRedis, parts, hc]
  | some c =>
      have hSome : ((parts serve).err s).isSome = true := by simp [parts, hc]
      have hFree : (parts serve).redisFree s.logging = s.logging.unlinked := by
        simp [parts, State.logging, State.unlinked, State.freed, State.log, hc]
      rw [Parts.connectRedis, if_pos hSome, if_neg (by simp)]
      cases hLogs : s.logs w with
      | true =>
          rw [logged_some serve hLogs, hFree]
          rfl
      | false =>
          rw [logged_none serve hLogs]
          rfl

/-- `ConnectRedis` connects anew unless its `LOG_WARN` throws. -/
theorem connectRedis_relinks (hInfo : s.RedisInfo = true) :
    (s.logs w = false ∧ (parts serve).connectRedis w s = some (.threw, s)) ∨
      ∃ ended logger, (s.RotatingLogger = true → logger = true) ∧
        (parts serve).connectRedis w s =
          some (ended, { s.relinked w.connect with RotatingLogger := logger }) := by
  rw [connectRedis_eq]
  split
  · exact Or.inr (connect_relinks serve hInfo)
  · split
    · right
      obtain ⟨ended, logger, hKept, hConnect⟩ :=
        connect_relinks serve (s := s.logging) (w := w) hInfo
      refine ⟨ended, logger, fun _ => hKept rfl, ?_⟩
      rw [hConnect, State.logging, relinked_logger]
    · rename_i hMute
      exact Or.inl ⟨Bool.eq_false_iff.2 hMute, rfl⟩

/-- Free and connect, behind a `LOG_*`. -/
theorem connectRedis_logging (hInfo : s.RedisInfo = true) :
    (parts serve).connectRedis w s.logging =
      some (.returned (decide (w.connect = .good)), s.logging.relinked w.connect) := by
  have hConnect := connect_unlinked serve (s := s.logging) (w := w) hInfo
  have hSame :
      (s.logging.relinked w.connect).logging = s.logging.relinked w.connect := by
    cases w.connect <;> rfl
  have hLogs : s.logging.logs w = true := rfl
  have hTwice : s.logging.logging = s.logging := rfl
  rw [connectRedis_eq, hTwice, hLogs, hConnect, hLogs, hSame]
  by_cases hGood : w.connect = .good <;> simp [hGood]

theorem connectRedis_null (hInfo : s.RedisInfo = false) :
    (parts serve).connectRedis w s.logging = none := by
  have hNone : (parts serve).connect w s.logging.unlinked = none := by
    have hUnset : (parts serve).RedisInfo s.logging.unlinked = false := hInfo
    simp [Parts.connect, hUnset]
  have hLogs : s.logging.logs w = true := rfl
  have hTwice : s.logging.logging = s.logging := rfl
  rw [connectRedis_eq, hTwice, hLogs, hNone]
  simp

end Connecting

/-- The connection stands, or can be made. -/
def State.reaches (s : State σ) (w : Weather) : Bool :=
  s.connected || (s.RedisInfo && decide (w.connect = .good))

/-- The handle when the command is sent. -/
def State.linkedFor (s : State σ) (w : Weather) : State σ :=
  if s.connected then s else s.logging.relinked w.connect

section Ensuring

variable (serve : σ → List Bytes → σ × Reply) {s : State σ} {w : Weather}

theorem ensureConnected_up (hUp : s.connected = true) :
    (parts serve).ensureConnected w s = some (.returned true, s.linkedFor w) := by
  rw [Parts.ensureConnected, parts_connected, if_pos hUp, State.linkedFor, if_pos hUp]

theorem ensureConnected_mute (hDown : s.connected = false) (hMute : s.logs w = false) :
    (parts serve).ensureConnected w s = some (.threw, s) := by
  rw [Parts.ensureConnected, parts_connected, if_neg (by simp [hDown]),
    logged_none serve hMute]

theorem ensureConnected_crashed (hDown : s.connected = false) (hLogs : s.logs w = true)
    (hInfo : s.RedisInfo = false) : (parts serve).ensureConnected w s = none := by
  rw [Parts.ensureConnected, parts_connected, if_neg (by simp [hDown]),
    logged_some serve hLogs, connectRedis_null serve hInfo]
  rfl

/-- Behind the first `LOG_ERROR` no other one throws. -/
theorem ensureConnected_down (hDown : s.connected = false) (hLogs : s.logs w = true)
    (hInfo : s.RedisInfo = true) :
    (parts serve).ensureConnected w s =
      some (.returned (decide (w.connect = .good)), s.linkedFor w) := by
  rw [Parts.ensureConnected, parts_connected, if_neg (by simp [hDown]),
    logged_some serve hLogs, connectRedis_logging serve hInfo, State.linkedFor,
    if_neg (by simp [hDown])]
  by_cases hGood : w.connect = .good
  · simp [hGood]
  · have hLater : (s.logging.relinked w.connect).logs w = true := by
      cases w.connect <;> rfl
    have hSame :
        (s.logging.relinked w.connect).logging = s.logging.relinked w.connect := by
      cases w.connect <;> rfl
    simp [hGood, hSame, logged_some serve hLater]

end Ensuring

theorem linkedFor_idle {s : State σ} (hReady : s.Ready) {w : Weather}
    (hReaches : s.reaches w = true) :
    ∃ c, (s.linkedFor w).RedisContext = some c ∧ c.Idle := by
  unfold State.linkedFor
  cases hUp : s.connected with
  | true =>
      unfold State.connected at hUp
      split at hUp
      · rename_i c hc
        exact ⟨c, by simpa using hc, hReady c hc (by simpa using hUp)⟩
      · cases hUp
  | false =>
      have hGood : w.connect = .good := by
        simp only [State.reaches, hUp, Bool.false_or, Bool.and_eq_true,
          decide_eq_true_eq] at hReaches
        exact hReaches.2
      simp only [hGood, Bool.false_eq_true, if_false]
      exact ⟨_, rfl, fresh_idle s.connects⟩

@[simp] theorem logging_server (s : State σ) : s.logging.server = s.server := rfl

@[simp] theorem logging_calls (s : State σ) : s.logging.calls = s.calls := rfl

@[simp] theorem logging_info (s : State σ) : s.logging.RedisInfo = s.RedisInfo := rfl

@[simp] theorem logging_trace (s : State σ) : s.logging.trace = s.trace := rfl

@[simp] theorem relinked_server (s : State σ) (answer : Connect) :
    (s.relinked answer).server = s.server := by
  cases answer <;> rfl

@[simp] theorem relinked_calls (s : State σ) (answer : Connect) :
    (s.relinked answer).calls = s.calls := by
  cases answer <;> rfl

@[simp] theorem relinked_info (s : State σ) (answer : Connect) :
    (s.relinked answer).RedisInfo = s.RedisInfo := by
  cases answer <;> rfl

@[simp] theorem linkedFor_server (s : State σ) (w : Weather) :
    (s.linkedFor w).server = s.server := by
  unfold State.linkedFor
  split <;> simp

@[simp] theorem linkedFor_calls (s : State σ) (w : Weather) :
    (s.linkedFor w).calls = s.calls := by
  unfold State.linkedFor
  split <;> simp

@[simp] theorem linkedFor_info (s : State σ) (w : Weather) :
    (s.linkedFor w).RedisInfo = s.RedisInfo := by
  unfold State.linkedFor
  split <;> simp

theorem mem_freed {s : State σ} {e : HiredisCall} (he : e ∈ s.freed) :
    ∃ ctx, e = .redisFree (some ctx) := by
  unfold State.freed at he
  split at he
  · exact ⟨_, List.mem_singleton.1 he⟩
  · cases he

/-- Entries of `ConnectRedis`. -/
def HiredisCall.Connecting (e : HiredisCall) : Prop :=
  (∃ ctx, e = .redisFree (some ctx)) ∨ ∃ got, e = .redisConnect got

theorem relinked_trace (s : State σ) (answer : Connect) :
    ∃ es, (s.relinked answer).trace = s.trace ++ es ∧
      ∀ e ∈ es, HiredisCall.Connecting e := by
  have hConnecting : ∀ got, ∀ e ∈ s.freed ++ [HiredisCall.redisConnect got],
      HiredisCall.Connecting e := by
    intro got e he
    rcases List.mem_append.1 he with hFree | hConnect
    · exact Or.inl (mem_freed hFree)
    · exact Or.inr ⟨got, List.mem_singleton.1 hConnect⟩
  cases answer with
  | null => exact ⟨_, rfl, hConnecting _⟩
  | errored => exact ⟨_, rfl, hConnecting _⟩
  | good => exact ⟨_, rfl, hConnecting _⟩

theorem linkedFor_trace (s : State σ) (w : Weather) :
    ∃ es, (s.linkedFor w).trace = s.trace ++ es ∧
      ∀ e ∈ es, HiredisCall.Connecting e := by
  unfold State.linkedFor
  split
  · exact ⟨[], by simp, by simp⟩
  · exact relinked_trace s.logging w.connect

/-! ## Exchanging -/

section Exchange

variable (serve : σ → List Bytes → σ × Reply)

/-- What a command does to the handle `s` it is sent from: the context after
it, the log, and the entries of the trace. -/
def State.sent (s : State σ) (logs : Bool) (server : σ) (c : Context)
    (es : List HiredisCall) : State σ :=
  { s with
    RotatingLogger := logs
    server := server
    RedisContext := some c
    calls := s.calls + 1
    trace := s.trace ++ es }

/-- The entries of one command: its reply, if there is one, is read, and it is
freed if the `LOG_*` in front of that returns. -/
def commandEntries (ctx call : Nat) (format : String) (args : List Bytes) (logs : Bool)
    (reply : Option Answer) : List HiredisCall :=
  .redisCommand ctx false call format args reply ::
    ((reply.map fun a => HiredisCall.interpret call ctx a).toList ++
      if logs then [.freeReplyObject reply] else [])

/-- The end of a member whose last `LOG_*` returns or not. -/
def endedIf {α : Type} (logs : Bool) (value : α) : Ended α :=
  if logs then .returned value else .threw

/-- The result of an exchange. -/
inductive Outcome (s : State σ) (w : Weather) (format : String)
    (args argv : List Bytes) :
    Option (Ended (Option Received) × State σ) → Prop where
  /-- The first `LOG_ERROR` throws. -/
  | mute (hDown : s.connected = false) (hMute : s.logs w = false) :
      Outcome s w format args argv (some (.threw, s))
  /-- `RedisInfo` is null and needed. -/
  | crashed (hDown : s.connected = false) (hLogs : s.logs w = true)
      (hInfo : s.RedisInfo = false) : Outcome s w format args argv none
  | refused (hDown : s.connected = false) (hLogs : s.logs w = true)
      (hInfo : s.RedisInfo = true) (hConnect : w.connect ≠ .good) :
      Outcome s w format args argv
        (some (.returned none, s.logging.relinked w.connect))
  | lost {c c' : Context} {server : σ} (hReaches : s.reaches w = true)
      (hLogs : s.connected = true ∨ s.logs w = true) (hAnswers : w.answers = false)
      (hc : (s.linkedFor w).RedisContext = some c)
      (hErr : w.calm = true → c'.err = true) (hConn : c'.conn = c.conn)
      (hServer : server = s.server ∨ server = (execute serve w s.server argv).1) :
      Outcome s w format args argv
        (some (endedIf (s.logs w) none, (s.linkedFor w).sent (s.logs w) server c'
          (commandEntries c.conn s.calls format args (s.logs w) none)))
  | answered {c : Context} {a : Answer} (hReaches : s.reaches w = true)
      (hLogs : s.connected = true ∨ s.logs w = true) (hAnswers : w.answers = true)
      (hc : (s.linkedFor w).RedisContext = some c) (hIdle : c.Idle)
      (hAnswer : a = ⟨c.conn, ⟨s.calls, argv⟩, (execute serve w s.server argv).2⟩) :
      Outcome s w format args argv
        (some (endedIf (s.logs w) (some ⟨s.calls, c.conn, a⟩),
          (s.linkedFor w).sent (s.logs w) (execute serve w s.server argv).1 c
            (commandEntries c.conn s.calls format args (s.logs w) (some a))))

/-- A handle that cannot log has no logger. -/
theorem mute_logger {t : State σ} {w : Weather} (hMute : t.logs w = false) :
    { t with RotatingLogger := false } = t := by
  obtain ⟨info, logger, ctx, server, connects, calls, trace⟩ := t
  have hLogger : logger = false := (Bool.or_eq_false_iff.1 hMute).1
  rw [hLogger]

theorem consume_eq (w : Weather) (reply : Option Received) (t : State σ) :
    (parts serve).consume w reply t =
      some (endedIf (t.logs w) reply,
        { t with
          RotatingLogger := t.logs w
          trace := t.trace ++
            ((reply.map fun r => HiredisCall.interpret r.call r.ctx r.answer).toList ++
              if t.logs w then [.freeReplyObject (reply.map Received.answer)]
              else []) }) := by
  cases hLogs : t.logs w with
  | true =>
      cases reply with
      | none =>
          rw [Parts.consume, logged_some serve hLogs]
          simp [endedIf, State.logging, parts, State.log]
      | some r =>
          have hRead : ((parts serve).interpret r t).logs w = true := hLogs
          rw [Parts.consume, logged_some serve hRead]
          simp [endedIf, State.logging, parts, State.log]
  | false =>
      cases reply with
      | none =>
          rw [Parts.consume, logged_none serve hLogs]
          simp [endedIf, mute_logger hLogs]
      | some r =>
          have hRead : ((parts serve).interpret r t).logs w = false := hLogs
          rw [Parts.consume, logged_none serve hRead, ← mute_logger hRead]
          simp [endedIf, parts, State.log]

/-- The command on a handle whose context has no error, and what becomes of its
reply. -/
theorem consume_command {t : State σ} {c c' : Context} {server : σ} {w : Weather}
    {format : String} {args : List Bytes} {reply : Option Answer}
    (hc : t.RedisContext = some c) (hErr : c.err = false)
    (hCommand :
      redisCommand serve w t.server c t.calls format args = (server, c', reply)) :
    ((parts serve).redisCommand w format args t).bind
        (fun got => (parts serve).consume w got.1 got.2) =
      some (endedIf (t.logs w) (reply.map fun a => ⟨t.calls, c.conn, a⟩),
        t.sent (t.logs w) server c'
          (commandEntries c.conn t.calls format args (t.logs w) reply)) := by
  have hRun : (parts serve).redisCommand w format args t =
      some (reply.map fun a => ⟨t.calls, c.conn, a⟩,
        { t with
          server := server
          RedisContext := some c'
          calls := t.calls + 1
          trace := t.trace ++
            [.redisCommand c.conn false t.calls format args reply] }) := by
    simp only [parts, command, hc, hCommand, hErr, State.log]
  rw [hRun, Option.bind_some, consume_eq]
  cases reply <;>
    simp [State.logs, State.sent, commandEntries, List.append_assoc]

/-- The command is sent with the log as the call found it. -/
theorem linkedFor_logs {s : State σ} {w : Weather}
    (hLogs : s.connected = true ∨ s.logs w = true) :
    (s.linkedFor w).logs w = s.logs w := by
  unfold State.linkedFor
  split
  · rfl
  · rename_i hDown
    have hLater : s.logs w = true := hLogs.resolve_left hDown
    rw [hLater]
    cases w.connect <;> rfl

/-- With a connection the command goes out. -/
theorem exchange_sent {s : State σ} (hReady : s.Ready)
    {w : Weather} {format : String} {args argv : List Bytes}
    (hFormat : redisvFormatCommand format args = some argv)
    (hReaches : s.reaches w = true) (hLogs : s.connected = true ∨ s.logs w = true)
    (hEnsure :
      (parts serve).ensureConnected w s = some (.returned true, s.linkedFor w)) :
    Outcome serve s w format args argv (exchange serve s w format args) := by
  obtain ⟨c, hc, hIdle⟩ := linkedFor_idle hReady hReaches
  have hSame := linkedFor_logs hLogs
  cases hAnswers : w.answers with
  | true =>
      obtain ⟨a, hAnswer⟩ : ∃ a : Answer,
          a = ⟨c.conn, ⟨s.calls, argv⟩, (execute serve w s.server argv).2⟩ := ⟨_, rfl⟩
      have hCommand := redisCommand_answered serve hIdle w (s.linkedFor w).server
        (s.linkedFor w).calls hFormat hAnswers
      have hBody := consume_command serve hc hIdle.err hCommand
      simp only [linkedFor_server, linkedFor_calls, ← hAnswer, hSame, Option.map_some]
        at hBody
      have hEq : exchange serve s w format args =
          some (endedIf (s.logs w) (some ⟨s.calls, c.conn, a⟩),
            (s.linkedFor w).sent (s.logs w) (execute serve w s.server argv).1 c
              (commandEntries c.conn s.calls format args (s.logs w) (some a))) := by
        rw [exchange, Parts.exchange, hEnsure]
        exact hBody
      rw [hEq]
      exact Outcome.answered hReaches hLogs hAnswers hc hIdle hAnswer
  | false =>
      obtain ⟨server', c', hCommand, hErr, hConn, hServer⟩ :=
        redisCommand_lost serve hIdle w (s.linkedFor w).server (s.linkedFor w).calls
          hFormat hAnswers
      have hBody := consume_command serve hc hIdle.err hCommand
      simp only [linkedFor_calls, hSame, Option.map_none] at hBody
      have hEq : exchange serve s w format args =
          some (endedIf (s.logs w) none, (s.linkedFor w).sent (s.logs w) server' c'
            (commandEntries c.conn s.calls format args (s.logs w) none)) := by
        rw [exchange, Parts.exchange, hEnsure]
        exact hBody
      rw [hEq]
      rw [linkedFor_server] at hServer
      exact Outcome.lost hReaches hLogs hAnswers hc hErr hConn hServer

/-- **What an exchange comes to.** -/
theorem exchange_outcome {s : State σ} (hReady : s.Ready)
    (w : Weather) {format : String} {args argv : List Bytes}
    (hFormat : redisvFormatCommand format args = some argv) :
    Outcome serve s w format args argv (exchange serve s w format args) := by
  cases hUp : s.connected with
  | true =>
      exact exchange_sent serve hReady hFormat (by simp [State.reaches, hUp])
        (Or.inl hUp) (ensureConnected_up serve hUp)
  | false =>
      cases hLogs : s.logs w with
      | false =>
          have hEq : exchange serve s w format args = some (.threw, s) := by
            rw [exchange, Parts.exchange, ensureConnected_mute serve hUp hLogs]
            rfl
          rw [hEq]
          exact Outcome.mute hUp hLogs
      | true =>
          cases hInfo : s.RedisInfo with
          | false =>
              have hEq : exchange serve s w format args = none := by
                rw [exchange, Parts.exchange,
                  ensureConnected_crashed serve hUp hLogs hInfo]
                rfl
              rw [hEq]
              exact Outcome.crashed hUp hLogs hInfo
          | true =>
              have hEnsure := ensureConnected_down serve hUp hLogs hInfo
              by_cases hGood : w.connect = .good
              · rw [decide_eq_true hGood] at hEnsure
                exact exchange_sent serve hReady hFormat
                  (by simp [State.reaches, hInfo, hGood]) (Or.inr hLogs) hEnsure
              · rw [decide_eq_false hGood] at hEnsure
                have hEq : exchange serve s w format args =
                    some (.returned none, s.logging.relinked w.connect) := by
                  rw [exchange, Parts.exchange, hEnsure, State.linkedFor,
                    if_neg (by simp [hUp])]
                  rfl
                rw [hEq]
                exact Outcome.refused hUp hLogs hInfo hGood

theorem relinked_ready (s : State σ) (answer : Connect) :
    (s.relinked answer).Ready := by
  intro c hc hErr
  cases answer with
  | null => cases hc
  | errored =>
      cases hc
      cases hErr
  | good =>
      cases hc
      exact fresh_idle _

/-- In calm weather an exchange leaves nothing outstanding. -/
theorem Outcome.ready {s s' : State σ} {w : Weather} {format : String}
    {args argv : List Bytes} {ended : Ended (Option Received)} (hReady : s.Ready)
    (hCalm : w.calm = true)
    (hOutcome : Outcome serve s w format args argv (some (ended, s'))) : s'.Ready := by
  cases hOutcome with
  | mute hDown hMute => exact hReady
  | refused hDown hLogs hInfo hConnect => exact relinked_ready _ _
  | lost hReaches hLogs hAnswers hc hErr hConn hServer =>
      intro c hc' hOk
      cases hc'
      rw [hErr hCalm] at hOk
      cases hOk
  | answered hReaches hLogs hAnswers hc hIdle hAnswer =>
      intro d hd _
      cases hd
      exact hIdle

end Exchange

/-! ## One step -/

/-- What `Init` comes to. -/
inductive Reset (s : State σ) (op : Op) : State σ → Prop where
  | unset (hInfo : op.info = false) :
      Reset s op { s with RedisInfo := false, RotatingLogger := s.logs op.weather }
  /-- There is a context, and the `LOG_WARN` in front of `redisFree` throws. -/
  | mute (hInfo : op.info = true) (hMute : s.logs op.weather = false) :
      Reset s op { s with RedisInfo := true }
  | relinked (hInfo : op.info = true) {logger : Bool}
      (hKept : s.RotatingLogger = true → logger = true) :
      Reset s op (State.relinked { s with RedisInfo := true, RotatingLogger := logger }
        op.weather.connect)

theorem step_init (serve : σ → List Bytes → σ × Reply) (s : State σ) (op : Op)
    (hCall : op.call = .init) : ∃ s', step serve s op = some s' ∧ Reset s op s' := by
  have hStep : step serve s op =
      ((parts serve).init op.info op.weather s).map Prod.snd := by
    simp only [step, perform, Parts.perform, hCall, Option.map_map]
    rfl
  rw [hStep, Parts.init]
  cases hInfo : op.info with
  | false =>
      refine ⟨_, ?_, Reset.unset hInfo⟩
      have hSame : ({ s with RedisInfo := false } : State σ).logs op.weather =
        s.logs op.weather := rfl
      cases hLogs : s.logs op.weather with
      | true =>
          rw [hLogs] at hSame
          exact congrArg (Option.map Prod.snd) (logged_some serve hSame _)
      | false =>
          rw [hLogs] at hSame
          have hKept := mute_logger hSame
          exact (congrArg (Option.map Prod.snd) (logged_none serve hSame _)).trans
            (congrArg some hKept.symm)
  | true =>
      rcases connectRedis_relinks serve (s := { s with RedisInfo := true })
        (w := op.weather) rfl with ⟨hMute, hConnect⟩ | ⟨ended, logger, hKept, hConnect⟩
      · exact ⟨_, congrArg (Option.map Prod.snd) hConnect, Reset.mute hInfo hMute⟩
      · refine ⟨_, congrArg (Option.map Prod.snd) hConnect, ?_⟩
        rw [← relinked_logger]
        exact Reset.relinked hInfo hKept

/-- `SetString` and `GetString` are an exchange and what they make of its
reply. -/
theorem step_exchange (serve : σ → List Bytes → σ × Reply) (s : State σ) (op : Op)
    (hCall : op.call ≠ .init) :
    ∃ format args argv, redisvFormatCommand format args = some argv ∧
      step serve s op = (exchange serve s op.weather format args).map Prod.snd := by
  cases hOp : op.call with
  | init => exact absurd hOp hCall
  | setString key value =>
      refine ⟨_, _, _, format_set key value, ?_⟩
      simp only [step, perform, Parts.perform, hOp, Parts.setString,
        exchange, Option.map_map]
      rfl
  | getString key value =>
      refine ⟨_, _, _, format_get key, ?_⟩
      simp only [step, perform, Parts.perform, hOp, Parts.getString,
        exchange, Option.map_map]
      rfl

/-- **A call that comes back** is an `Init` or an exchange. -/
theorem step_cases {serve : σ → List Bytes → σ × Reply} {s s' : State σ} {op : Op}
    (hReady : s.Ready) (hStep : step serve s op = some s') :
    (op.call = .init ∧ Reset s op s') ∨
      (op.call ≠ .init ∧ ∃ format args argv ended,
        redisvFormatCommand format args = some argv ∧
        Outcome serve s op.weather format args argv (some (ended, s'))) := by
  by_cases hCall : op.call = .init
  · obtain ⟨t, hSome, hReset⟩ := step_init serve s op hCall
    rw [hStep] at hSome
    cases hSome
    exact Or.inl ⟨hCall, hReset⟩
  · obtain ⟨format, args, argv, hFormat, hEq⟩ := step_exchange serve s op hCall
    rw [hEq] at hStep
    obtain ⟨⟨ended, t⟩, hExchange, rfl⟩ := Option.map_eq_some_iff.1 hStep
    have hOutcome := exchange_outcome serve hReady op.weather hFormat
    rw [hExchange] at hOutcome
    exact Or.inr ⟨hCall, format, args, argv, ended, hFormat, hOutcome⟩

/-- **Every call in calm weather** leaves nothing outstanding. -/
theorem step_ready {serve : σ → List Bytes → σ × Reply} {s s' : State σ} {op : Op}
    (hReady : s.Ready) (hCalm : op.weather.calm = true)
    (hStep : step serve s op = some s') : s'.Ready := by
  rcases step_cases hReady hStep with
    ⟨_, hReset⟩ | ⟨_, format, args, argv, ended, _, hOutcome⟩
  · cases hReset with
    | unset hInfo => exact hReady
    | mute hInfo hMute => exact hReady
    | relinked hInfo hKept => exact relinked_ready _ _
  · exact hOutcome.ready serve hReady hCalm

theorem run_ready {serve : σ → List Bytes → σ × Reply} {ops : List Op} {s s' : State σ}
    (hReady : s.Ready) (hCalm : Calm ops) (hRun : run (step serve) s ops = some s') :
    s'.Ready :=
  run_preserves_on (step serve) (Q := fun op => op.weather.calm = true)
    (fun _ _ _ hOp hS hStep => step_ready hS hOp hStep) hCalm hReady hRun

end MGServer.Ports.RedisHandle
