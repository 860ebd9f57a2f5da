import MGServer.Ports.RedisPairing

/-!
# Null pointers

`hiredis/win`, which the MSVC build links, dereferences what `redisFree` and
`freeReplyObject` are given.  `ConnectRedis` looks before it frees; the
destructor does not, nor do the exits for a null reply, and `SetString` and
`GetString` reconnect through `RedisInfo` whether or not `Init` has set it.
Which lives of the handle stay clear of all that is decided by the order of
the calls and what each of them meets.  In that build no `LOG_*` throws: the log
starts with a logger.
-/

namespace MGServer.Ports.RedisHandle

open MGServer.Verified.ByteString
open MGServer.Verified.Transition
open MGServer.Ports.Hiredis

variable {σ : Type}

/-- No null pointer is freed. -/
structure NoNullFreed (trace : List HiredisCall) : Prop where
  contexts : .redisFree none ∉ trace
  replies : .freeReplyObject none ∉ trace

/-- The life of the handle comes to its end, so `RedisInfo` is not used while
it is null, and no null pointer is freed.  A null reply is not read: `interpret`
takes a reply. -/
def NullSafe (serve : σ → List Bytes → σ × Reply) (server : σ) (ops : List Op) : Prop :=
  ∃ s, lifetime serve true server ops = some s ∧ NoNullFreed s.trace

/-- The calls, from a handle whose `RedisInfo` is set if `info` and whose last
connection came to `link`: no reconnecting without `RedisInfo`, every command
that is sent is answered, and the connection left at the end is not null. -/
def safeFrom : Bool → Connect → List Op → Bool
  | _, link, [] => decide (link ≠ .null)
  | info, link, op :: ops =>
      match op.call with
      | .init =>
          if op.info then safeFrom true op.weather.connect ops
          else safeFrom false link ops
      | _ =>
          if link = .good then op.weather.answers && safeFrom info .good ops
          else if op.weather.connect = .good then
            info && op.weather.answers && safeFrom info .good ops
          else info && safeFrom info op.weather.connect ops

/-! ## The handle as these conditions see it -/

/-- What the last connection came to. -/
def State.link (s : State σ) : Connect :=
  match s.RedisContext with
  | none => .null
  | some c => if c.err then .errored else .good

theorem connected_iff_link (s : State σ) : s.connected = true ↔ s.link = .good := by
  unfold State.connected State.link
  cases s.RedisContext with
  | none => simp
  | some c => cases hErr : c.err <;> simp [hErr]

theorem link_relinked (s : State σ) (answer : Connect) :
    (s.relinked answer).link = answer := by
  cases answer <;> rfl

theorem link_sent {s : State σ} {c : Context} (hIdle : c.Idle)
    (logs : Bool) (server : σ) (es : List HiredisCall) :
    (s.sent logs server c es).link = .good := by
  simp [State.link, State.sent, hIdle.err]

theorem safeFrom_reached {s : State σ} {op : Op} {ops : List Op}
    (hCall : op.call ≠ .init) (hReaches : s.reaches op.weather = true) :
    safeFrom s.RedisInfo s.link (op :: ops) =
      (op.weather.answers && safeFrom s.RedisInfo .good ops) := by
  simp only [State.reaches, Bool.or_eq_true, Bool.and_eq_true, decide_eq_true_eq,
    connected_iff_link] at hReaches
  simp only [safeFrom]
  rcases hReaches with hLink | ⟨hInfo, hConnect⟩
  · rw [if_pos hLink]
  · simp [hInfo, hConnect]

theorem safeFrom_refused {s : State σ} {op : Op} {ops : List Op}
    (hCall : op.call ≠ .init) (hDown : s.connected = false) (hInfo : s.RedisInfo = true)
    (hConnect : op.weather.connect ≠ .good) :
    safeFrom s.RedisInfo s.link (op :: ops) =
      safeFrom s.RedisInfo op.weather.connect ops := by
  have hLink : s.link ≠ .good := by simp [← connected_iff_link, hDown]
  simp [safeFrom, hLink, hConnect, hInfo]

theorem safeFrom_crashed {s : State σ} {op : Op} {ops : List Op}
    (hCall : op.call ≠ .init) (hDown : s.connected = false)
    (hInfo : s.RedisInfo = false) :
    safeFrom s.RedisInfo s.link (op :: ops) = false := by
  have hLink : s.link ≠ .good := by simp [← connected_iff_link, hDown]
  simp [safeFrom, hLink, hInfo]

theorem noNullFreed_append {pre post : List HiredisCall} :
    NoNullFreed (pre ++ post) ↔ NoNullFreed pre ∧ NoNullFreed post := by
  constructor
  · rintro ⟨hContexts, hReplies⟩
    simp only [List.mem_append, not_or] at hContexts hReplies
    exact ⟨⟨hContexts.1, hReplies.1⟩, ⟨hContexts.2, hReplies.2⟩⟩
  · rintro ⟨hPre, hPost⟩
    constructor
    · simp only [List.mem_append, not_or]
      exact ⟨hPre.contexts, hPost.contexts⟩
    · simp only [List.mem_append, not_or]
      exact ⟨hPre.replies, hPost.replies⟩

theorem noNullFreed_connecting {es : List HiredisCall}
    (hEs : ∀ e ∈ es, HiredisCall.Connecting e) : NoNullFreed es := by
  constructor
  · intro hMem
    rcases hEs _ hMem with ⟨ctx, hEq⟩ | ⟨got, hEq⟩
    · cases hEq
    · cases hEq
  · intro hMem
    rcases hEs _ hMem with ⟨ctx, hEq⟩ | ⟨got, hEq⟩
    · cases hEq
    · cases hEq

theorem noNullFreed_relinked (s : State σ) (answer : Connect) :
    NoNullFreed (s.relinked answer).trace ↔ NoNullFreed s.trace := by
  obtain ⟨es, hTrace, hEs⟩ := relinked_trace s answer
  rw [hTrace, noNullFreed_append]
  exact and_iff_left (noNullFreed_connecting hEs)

theorem noNullFreed_linkedFor (s : State σ) (w : Weather) :
    NoNullFreed (s.linkedFor w).trace ↔ NoNullFreed s.trace := by
  obtain ⟨es, hTrace, hEs⟩ := linkedFor_trace s w
  rw [hTrace, noNullFreed_append]
  exact and_iff_left (noNullFreed_connecting hEs)

/-- With a logger a reply is freed, whatever it is. -/
theorem noNullFreed_commandEntries (ctx call : Nat)
    (format : String) (args : List Bytes) (reply : Option Answer) :
    NoNullFreed (commandEntries ctx call format args true reply) ↔
    reply.isSome = true := by
  cases reply with
  | none =>
      constructor
      · intro hClean
        exact absurd (by simp [commandEntries]) hClean.replies
      · intro hNone
        cases hNone
  | some a =>
      constructor
      · intro _
        rfl
      · intro _
        exact ⟨by simp [commandEntries], by simp [commandEntries]⟩

theorem noNullFreed_sent (s : State σ) (w : Weather) (server : σ) (c : Context)
    (ctx call : Nat) (format : String) (args : List Bytes) (reply : Option Answer) :
    NoNullFreed ((s.linkedFor w).sent true server c
        (commandEntries ctx call format args true reply)).trace ↔
      NoNullFreed s.trace ∧ reply.isSome = true := by
  show NoNullFreed ((s.linkedFor w).trace ++ _) ↔ _
  rw [noNullFreed_append, noNullFreed_linkedFor, noNullFreed_commandEntries]

theorem noNullFreed_destroy (s : State σ) :
    NoNullFreed (destroy s).trace ↔ NoNullFreed s.trace ∧ s.link ≠ .null := by
  show NoNullFreed (s.trace ++ [_]) ↔ _
  rw [noNullFreed_append]
  apply and_congr_right
  intro _
  unfold State.link
  cases s.RedisContext with
  | none =>
      constructor
      · intro hClean
        exact absurd (by simp) hClean.contexts
      · intro hNe
        exact absurd rfl hNe
  | some c =>
      constructor
      · intro _
        show (if c.err then Connect.errored else Connect.good) ≠ .null
        split <;> simp
      · intro _
        exact ⟨by simp, by simp⟩

/-! ## Whole lives -/

section Lives

variable (serve : σ → List Bytes → σ × Reply)

/-- The trace only grows. -/
theorem parts_grow (front : List HiredisCall) :
    (parts serve).Preserves fun s => front <+: s.trace where
  setRedisInfo := fun _ _ hs => hs
  redisFree := fun _ hs => hs.trans (List.prefix_append _ _)
  redisConnectWithTimeout := by
    intro w s hs
    have hNext : s.trace <+: ((parts serve).redisConnectWithTimeout w s).trace := by
      cases hConnect : w.connect <;>
        simp [parts, hConnect, State.attach, State.log]
    exact hs.trans hNext
  redisCommand := by
    intro w format args s reply s' hs hCommand
    cases hc : s.RedisContext with
    | none => simp [parts, command, hc] at hCommand
    | some c =>
        simp only [parts, command, hc, Option.some.injEq, Prod.mk.injEq] at hCommand
        obtain ⟨-, rfl⟩ := hCommand
        exact hs.trans (List.prefix_append _ _)
  interpret := fun _ _ hs => hs.trans (List.prefix_append _ _)
  freeReplyObject := fun _ _ hs => hs.trans (List.prefix_append _ _)
  LOG := by
    intro w s s' hs hLog
    simp only [parts] at hLog
    split at hLog
    · cases hLog
      exact hs
    · cases hLog

theorem step_trace {s s' : State σ} {op : Op} (hStep : step serve s op = some s') :
    s.trace <+: s'.trace := by
  obtain ⟨⟨ended, t⟩, hPerform, rfl⟩ := Option.map_eq_some_iff.1 hStep
  exact (parts_grow serve s.trace).perform (List.prefix_refl _) hPerform

/-- A null pointer freed stays in the trace. -/
theorem run_noNullFreed {ops : List Op} {s s' : State σ}
    (hRun : run (step serve) s ops = some s') (hClean : NoNullFreed s'.trace) :
    NoNullFreed s.trace := by
  have hGrown : s.trace <+: s'.trace :=
    run_preserves (step serve) (P := fun t => s.trace <+: t.trace)
      (fun _ _ _ hOld hStep => hOld.trans (step_trace serve hStep))
        (List.prefix_refl _) hRun
  obtain ⟨es, hTrace⟩ := hGrown
  rw [← hTrace] at hClean
  exact (noNullFreed_append.1 hClean).1

/-- The rest of a life from `s`, as it is to be. -/
def EndsClean (s : State σ) (ops : List Op) : Prop :=
  ∃ s', run (step serve) s ops = some s' ∧ NoNullFreed (destroy s').trace

theorem endsClean_cons (s : State σ) (op : Op) (ops : List Op) :
    EndsClean serve s (op :: ops) ↔
      ∃ s₁, step serve s op = some s₁ ∧ EndsClean serve s₁ ops := by
  constructor
  · rintro ⟨s', hRun, hClean⟩
    obtain ⟨s₁, hStep, hRest⟩ := (run_cons_eq_some _).1 hRun
    exact ⟨s₁, hStep, s', hRest, hClean⟩
  · rintro ⟨s₁, hStep, s', hRest, hClean⟩
    exact ⟨s', (run_cons_eq_some _).2 ⟨s₁, hStep, hRest⟩, hClean⟩

theorem not_endsClean {s : State σ} (hDirty : ¬ NoNullFreed s.trace) (ops : List Op) :
    ¬ EndsClean serve s ops := by
  rintro ⟨s', hRun, hClean⟩
  exact hDirty (run_noNullFreed serve hRun ((noNullFreed_destroy s').1 hClean).1)

theorem endsClean_iff (ops : List Op) : ∀ {s : State σ}, s.Ready →
    s.RotatingLogger = true →
    NoNullFreed s.trace →
    (EndsClean serve s ops ↔ safeFrom s.RedisInfo s.link ops = true) := by
  induction ops with
  | nil =>
      intro s _ _ hClean
      simp only [EndsClean, run, Option.some.injEq,
        exists_eq_left', noNullFreed_destroy, hClean, true_and,
          safeFrom, decide_eq_true_eq]
  | cons op ops ih =>
      intro s hReady hLogger hClean
      have hLogs : s.logs op.weather = true := by simp [State.logs, hLogger]
      -- what follows a step that frees no null pointer is the induction
      have hNext : ∀ s₁, step serve s op = some s₁ → s₁.Ready →
        s₁.RotatingLogger = true →
          NoNullFreed s₁.trace →
          (EndsClean serve s (op :: ops) ↔
            safeFrom s₁.RedisInfo s₁.link ops = true) := by
        intro s₁ hStep hReady₁ hLogger₁ hClean₁
        rw [endsClean_cons, hStep]
        simp only [Option.some.injEq, exists_eq_left']
        exact ih hReady₁ hLogger₁ hClean₁
      by_cases hCall : op.call = .init
      · obtain ⟨t, hStep, hReset⟩ := step_init serve s op hCall
        simp only [safeFrom, hCall]
        cases hReset with
        | unset hInfo =>
            rw [hNext _ hStep hReady hLogs hClean, hInfo]
            simp [State.link]
        | mute hInfo hMute =>
            rw [hLogs] at hMute
            cases hMute
        | relinked hInfo hKept =>
            have hLoggerKept := hKept hLogger
            rw [hNext _ hStep (relinked_ready _ _)
              (by rw [← hLoggerKept]; cases op.weather.connect <;> rfl)
              ((noNullFreed_relinked _ _).2 hClean), hInfo]
            simp [link_relinked]
      · obtain ⟨format, args, argv, hFormat, hEq⟩ := step_exchange serve s op hCall
        have hOutcome := exchange_outcome serve hReady op.weather hFormat
        generalize exchange serve s op.weather format args = result at hEq hOutcome
        cases hOutcome with
        | mute hDown hMute =>
            rw [hLogs] at hMute
            cases hMute
        | crashed hDown _ hInfo =>
            rw [endsClean_cons, hEq, safeFrom_crashed hCall hDown hInfo]
            simp
        | refused hDown _ hInfo hConnect =>
            rw [hNext _ hEq (relinked_ready _ _) (by cases op.weather.connect <;> rfl)
                ((noNullFreed_relinked _ _).2 hClean),
              safeFrom_refused hCall hDown hInfo hConnect]
            simp [hInfo, link_relinked]
        | @lost c c' server' hReaches _ hAnswers hc hErr hConn hServer =>
            rw [endsClean_cons, hEq, safeFrom_reached hCall hReaches, hAnswers, hLogs]
            simp only [Option.map_some, Option.some.injEq,
              exists_eq_left', Bool.false_and, Bool.false_eq_true, iff_false]
            apply not_endsClean serve
            intro hClean₁
            simpa using ((noNullFreed_sent _ _ _ _ _ _ _ _ _).1 hClean₁).2
        | @answered c a hReaches _ hAnswers hc hIdle hAnswer =>
            rw [hLogs] at hEq
            have hClean₁ := (noNullFreed_sent s op.weather
              (execute serve op.weather s.server argv).1 c c.conn s.calls format args
              (some a)).2 ⟨hClean, rfl⟩
            have hReady₁ : ((s.linkedFor op.weather).sent true
                (execute serve op.weather s.server argv).1 c
                (commandEntries c.conn s.calls format args true (some a))).Ready := by
              intro d hd _
              cases hd
              exact hIdle
            rw [hNext _ hEq hReady₁ rfl hClean₁, link_sent hIdle,
              safeFrom_reached hCall hReaches, hAnswers]
            simp [State.sent]

/-- **Null safety.** A life of the handle uses no null `RedisInfo` and frees
no null pointer exactly when its calls and what they meet are safe. -/
theorem nullSafe_iff (server : σ) (ops : List Op) :
    NullSafe serve server ops ↔ safeFrom false .null ops = true := by
  have hClean : NoNullFreed (State.init true server).trace :=
    ⟨by simp [State.init], by simp [State.init]⟩
  have hLife : NullSafe serve server ops ↔
    EndsClean serve (State.init true server) ops := by
    unfold NullSafe lifetime EndsClean
    constructor
    · rintro ⟨s, hSome, hFreed⟩
      obtain ⟨t, hRun, rfl⟩ := Option.map_eq_some_iff.1 hSome
      exact ⟨t, hRun, hFreed⟩
    · rintro ⟨t, hRun, hFreed⟩
      exact ⟨destroy t, by rw [hRun]; rfl, hFreed⟩
  exact hLife.trans (endsClean_iff serve ops (init_ready true server) rfl hClean)

end Lives

/-- A good connection, a `GetString` whose reply never comes, and the object is
gone: the null reply is freed. -/
theorem nullUnsafe_lostReply :
    ¬ NullSafe countingServer 0
      [⟨.init, true, fair⟩,
        ⟨.getString (bytesOf "k") [], true, { fair with receiving := .broken }⟩] := by
  rintro ⟨s, hLife, hFreed⟩
  have hEval : (lifetime countingServer true 0
      [⟨.init, true, fair⟩,
        ⟨.getString (bytesOf "k") [], true, { fair with receiving := .broken }⟩]).all
      (fun s => decide (.freeReplyObject none ∈ s.trace)) = true := by decide +kernel
  rw [hLife] at hEval
  exact hFreed.replies (of_decide_eq_true hEval)

end MGServer.Ports.RedisHandle
