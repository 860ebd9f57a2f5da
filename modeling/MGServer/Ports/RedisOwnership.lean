import MGServer.Ports.RedisPairing
import MGServer.Verified.Lifetimes
import Mathlib.Data.List.Range

/-!
# Who frees contexts and replies

A context is replaced inside `SetString` and `GetString` as well as by `Init`;
each time the old one is freed first, so at most one is live, and the
destructor frees the last.  A reply is freed by the call that got it, on each
of the exits it is written for; but every one of them logs first, and if there
is no logger to be had the call ends there and the reply is never freed.
Freeing null is no action here, as in `hiredis/linux`.
-/

namespace MGServer.Ports.RedisHandle

open MGServer.Verified.ByteString
open MGServer.Verified.Transition
open MGServer.Verified.Lifetimes
open MGServer.Ports.Hiredis

variable {σ : Type} {serve : σ → List Bytes → σ × Reply}

/-! ## The two kinds of resources -/

/-- `redisContext*`, by connection. -/
def contextProtocol : Protocol HiredisCall Nat where
  obtains
    | .redisConnect got => got
    | _ => none
  passes
    | .redisFree (some ctx) => [some ctx]
    | .redisCommand ctx _ _ _ _ _ => [some ctx]
    | _ => []
  releases
    | .redisFree ctx => ctx
    | _ => none
  releases_passes := by
    intro e k hReleases
    cases e with
    | redisFree ctx =>
        have hCtx : ctx = some k := hReleases
        simp [hCtx]
    | _ => cases hReleases

/-- `redisReply*`, by what it answers. -/
def replyProtocol : Protocol HiredisCall Answer where
  obtains
    | .redisCommand _ _ _ _ _ reply => reply
    | _ => none
  passes
    | .interpret _ _ reply => [some reply]
    | .freeReplyObject (some reply) => [some reply]
    | _ => []
  releases
    | .freeReplyObject reply => reply
    | _ => none
  releases_passes := by
    intro e k hReleases
    cases e with
    | freeReplyObject reply =>
        have hReply : reply = some k := hReleases
        simp [hReply]
    | _ => cases hReleases

/-- Contexts and replies each have a name of their own, are freed exactly once
and not used before or after, no two contexts are live together, and no
command goes to a context with an error. -/
structure Released (trace : List HiredisCall) : Prop where
  contextNames : contextProtocol.Fresh trace
  contexts : contextProtocol.Disciplined trace
  oneContext : contextProtocol.Capped 1 trace
  replyNames : replyProtocol.Fresh trace
  replies : replyProtocol.Disciplined trace
  commands : ∀ ctx err call format args reply,
    .redisCommand ctx err call format args reply ∈ trace → err = false

/-! ## The invariant -/

/-- The context the handle holds. -/
def State.held (s : State σ) : List Nat := (s.RedisContext.map fun c => c.conn).toList

/-- Between calls the handle's context is the one live context, and names are
in order. -/
structure Held (s : State σ) : Prop where
  ready : s.Ready
  contexts : run (contextProtocol.cappedAudit 1) [] s.trace = some s.held
  contextNames : s.trace.filterMap contextProtocol.obtains = List.range s.connects
  replyNames : ((s.trace.filterMap replyProtocol.obtains).map fun a =>
    a.request.call).Sublist
    (List.range s.calls)
  commands : ∀ ctx err call format args reply,
    .redisCommand ctx err call format args reply ∈ s.trace → err = false

/-- No reply is live. -/
def Settled (s : State σ) : Prop := run replyProtocol.audit [] s.trace = some []

/-- Some reply will never be freed: only later ones can be. -/
def Leaky (s : State σ) : Prop :=
  ∃ a, a ∈ s.trace.filterMap replyProtocol.obtains ∧
    a ∉ s.trace.filterMap replyProtocol.releases ∧ a.request.call < s.calls

theorem init_held (logger : Bool) (server : σ) : Held (State.init logger server) where
  ready := init_ready logger server
  contexts := rfl
  contextNames := rfl
  replyNames := List.Sublist.refl _
  commands := by intro ctx err call format args reply hMem; cases hMem

/-- If this call gets a reply, it can log: it reaches a `LOG_*` in front of
`freeReplyObject`.  A call that had to reconnect has logged already. -/
def Op.heard (op : Op) (s : State σ) : Prop :=
  op.call ≠ .init → s.connected = true → op.weather.answers = true →
    s.logs op.weather = true

section Steps

variable {s : State σ}

/-- Nothing that the invariant speaks of has changed. -/
theorem Held.same (hHeld : Held s) (s' : State σ) (hTrace : s'.trace = s.trace)
    (hContext : s'.RedisContext = s.RedisContext) (hConnects : s'.connects = s.connects)
    (hCalls : s'.calls = s.calls) : Held s' where
  ready := fun c hc => hHeld.ready c (hContext ▸ hc)
  contexts := by rw [hTrace, hHeld.contexts, State.held, State.held, hContext]
  contextNames := by rw [hTrace, hHeld.contextNames, hConnects]
  replyNames := by rw [hTrace, hCalls]; exact hHeld.replyNames
  commands := by rw [hTrace]; exact hHeld.commands

/-- What the new entries of the trace must do. -/
theorem Held.extended (hHeld : Held s) {s' : State σ} {es : List HiredisCall}
    (hTrace : s'.trace = s.trace ++ es) (hReady : s'.Ready)
    (hContexts : run (contextProtocol.cappedAudit 1) s.held es = some s'.held)
    (hContextNames : List.range s.connects ++ es.filterMap contextProtocol.obtains =
      List.range s'.connects)
    (hReplyNames : (List.range s.calls ++
        (es.filterMap replyProtocol.obtains).map fun a => a.request.call).Sublist
      (List.range s'.calls))
    (hCommands : ∀ ctx err call format args reply,
      .redisCommand ctx err call format args reply ∈ es → err = false) : Held s' where
  ready := hReady
  contexts := by
    rw [hTrace, run_append, hHeld.contexts]
    exact hContexts
  contextNames := by
    rw [hTrace, List.filterMap_append, hHeld.contextNames]
    exact hContextNames
  replyNames := by
    rw [hTrace, List.filterMap_append, List.map_append]
    exact (hHeld.replyNames.append_right _).trans hReplyNames
  commands := by
    intro ctx err call format args reply hMem
    rw [hTrace] at hMem
    rcases List.mem_append.1 hMem with hOld | hNew
    · exact hHeld.commands _ _ _ _ _ _ hOld
    · exact hCommands _ _ _ _ _ _ hNew

/-- Freeing the context that is held, if any, leaves none. -/
theorem run_freed (s : State σ) :
    run (contextProtocol.cappedAudit 1) s.held s.freed = some [] := by
  unfold State.held State.freed
  cases s.RedisContext with
  | none => rfl
  | some c =>
      simp [run, Protocol.cappedAudit, guarded, Protocol.audit, Protocol.remaining,
        contextProtocol]

/-- Entries of `ConnectRedis` have nothing to do with replies. -/
theorem replies_connecting {es : List HiredisCall}
    (hEs : ∀ e ∈ es, HiredisCall.Connecting e) :
    es.filterMap replyProtocol.obtains = [] ∧ es.filterMap replyProtocol.releases = [] ∧
      run replyProtocol.audit [] es = some [] := by
  induction es with
  | nil => exact ⟨rfl, rfl, rfl⟩
  | cons e es ih =>
      obtain ⟨hObtains, hReleases, hRun⟩ :=
        ih fun e' he' => hEs e' (List.mem_cons_of_mem e he')
      rcases hEs e List.mem_cons_self with ⟨ctx, rfl⟩ | ⟨got, rfl⟩
      · exact ⟨hObtains, hReleases, hRun⟩
      · exact ⟨hObtains, hReleases, hRun⟩

/-- `ConnectRedis` only frees and connects. -/
theorem Held.connects (hHeld : Held s) {s' : State σ} (got : Option Nat)
    (hTrace : s'.trace = s.trace ++ (s.freed ++ [.redisConnect got]))
    (hReady : s'.Ready) (hNow : s'.held = got.toList) (hCalls : s'.calls = s.calls)
    (hNames : List.range s.connects ++ got.toList = List.range s'.connects) :
    Held s' := by
  have hEs :
      ∀ e ∈ s.freed ++ [HiredisCall.redisConnect got], HiredisCall.Connecting e := by
    intro e he
    rcases List.mem_append.1 he with hFree | hConnect
    · exact Or.inl (mem_freed hFree)
    · exact Or.inr ⟨got, List.mem_singleton.1 hConnect⟩
  have hObtained : s.freed.filterMap contextProtocol.obtains = [] := by
    apply List.filterMap_eq_nil_iff.2
    intro e he
    obtain ⟨ctx, rfl⟩ := mem_freed he
    rfl
  apply hHeld.extended hTrace hReady
  · rw [run_append, run_freed, hNow]
    cases got with
    | none => rfl
    | some ctx => rfl
  · rw [List.filterMap_append, hObtained, ← hNames]
    cases got with
    | none => rfl
    | some ctx => rfl
  · rw [hCalls, (replies_connecting hEs).1]
    simp
  · intro ctx err call format args reply hMem
    rcases hEs _ hMem with ⟨ctx', hEq⟩ | ⟨got', hEq⟩
    · cases hEq
    · cases hEq

theorem Held.relinked (hHeld : Held s) (answer : Connect) :
    Held (s.relinked answer) := by
  have hReady := relinked_ready s answer
  cases answer with
  | null => exact hHeld.connects none rfl hReady rfl rfl (List.append_nil _)
  | errored =>
      exact hHeld.connects (some s.connects) rfl hReady rfl rfl List.range_succ.symm
  | good =>
      exact hHeld.connects (some s.connects) rfl hReady rfl rfl List.range_succ.symm

theorem Held.linkedFor (hHeld : Held s) (w : Weather) : Held (s.linkedFor w) := by
  unfold State.linkedFor
  split
  · exact hHeld
  · exact (hHeld.same s.logging rfl rfl rfl rfl).relinked w.connect

theorem run_commandEntries_context (ctx call : Nat)
    (format : String) (args : List Bytes) (logs : Bool) (reply : Option Answer) :
    run (contextProtocol.cappedAudit 1) [ctx]
      (commandEntries ctx call format args logs reply) = some [ctx] := by
  cases reply <;> cases logs <;>
    simp [commandEntries, run, Protocol.cappedAudit, guarded, Protocol.audit,
      Protocol.remaining, contextProtocol, Option.filter]

theorem Held.sent (hHeld : Held s) {c c' : Context} (hc : s.RedisContext = some c)
    (hConn : c'.conn = c.conn) (hReady : c'.err = false → c'.Idle) {logs : Bool}
    {server : σ} {format : String} {args : List Bytes} {reply : Option Answer}
    (hName : ∀ a, reply = some a → a.request.call = s.calls) :
    Held (s.sent logs server c'
      (commandEntries c.conn s.calls format args logs reply)) := by
  have hHeldConn : s.held = [c.conn] := by simp [State.held, hc]
  refine hHeld.extended rfl ?_ ?_ ?_ ?_ ?_
  · intro d hd hErr
    cases hd
    exact hReady hErr
  · show run _ s.held _ = some [c'.conn]
    rw [hHeldConn, hConn]
    exact run_commandEntries_context _ _ _ _ _ _
  · cases reply <;> cases logs <;> exact List.append_nil _
  · show (List.range s.calls ++ _).Sublist (List.range (s.calls + 1))
    rw [List.range_succ]
    apply List.Sublist.append_left
    cases reply with
    | none => cases logs <;> exact List.nil_sublist _
    | some a =>
        have hCall := hName a rfl
        cases logs <;> simp [commandEntries, replyProtocol, hCall]
  · intro ctx err call format' args' reply' hMem
    cases reply <;> cases logs <;> simp_all [commandEntries]

/-- What one call adds, as far as replies go: nothing, or a command with its
reply, which is read, and freed if the call can log. -/
inductive Added (s : State σ) (op : Op) (s' : State σ) : Prop where
  | quiet {es : List HiredisCall} (hTrace : s'.trace = s.trace ++ es)
      (hEs : ∀ e ∈ es, HiredisCall.Connecting e) (hCalls : s'.calls = s.calls)
      (hHeard : op.heard s)
  | command {es : List HiredisCall} {ctx : Nat} {format : String} {args : List Bytes}
      {reply : Option Answer}
      (hTrace : s'.trace = s.trace ++ (es ++
        commandEntries ctx s.calls format args (s.logs op.weather) reply))
      (hEs : ∀ e ∈ es, HiredisCall.Connecting e) (hCalls : s'.calls = s.calls + 1)
      (hName : ∀ a, reply = some a → a.request.call = s.calls)
      (hReply : reply.isSome = true ↔ op.weather.answers = true)
      (hCall : op.call ≠ .init) (hLogs : s.connected = true ∨ s.logs op.weather = true)

/-- `Init` keeps the contexts in order and has nothing to do with replies. -/
theorem Reset.held {s' : State σ} {op : Op} (hHeld : Held s) (hCall : op.call = .init)
    (hReset : Reset s op s') : Held s' ∧ Added s op s' := by
  have hQuiet : op.heard s := fun hNot => absurd hCall hNot
  cases hReset with
  | unset hInfo =>
      exact ⟨hHeld.same _ rfl rfl rfl rfl,
        .quiet (List.append_nil _).symm (by simp) rfl hQuiet⟩
  | mute hInfo hMute =>
      exact ⟨hHeld.same _ rfl rfl rfl rfl,
        .quiet (List.append_nil _).symm (by simp) rfl hQuiet⟩
  | @relinked _ logger hKept =>
      have hSet := hHeld.same
        { s with RedisInfo := true, RotatingLogger := logger } rfl rfl rfl rfl
      obtain ⟨es, hTrace, hEs⟩ := relinked_trace
        { s with RedisInfo := true, RotatingLogger := logger } op.weather.connect
      exact ⟨hSet.relinked _, .quiet hTrace hEs (by simp) hQuiet⟩

/-- What a command adds to the trace, behind the entries of a reconnect. -/
theorem sent_trace (s : State σ) (w : Weather) (logs : Bool) (server : σ)
    (c : Context) (entries : List HiredisCall) :
    ∃ es, ((s.linkedFor w).sent logs server c entries).trace =
        s.trace ++ (es ++ entries) ∧
      ∀ e ∈ es, HiredisCall.Connecting e := by
  obtain ⟨es, hTrace, hEs⟩ := linkedFor_trace s w
  refine ⟨es, ?_, hEs⟩
  show (s.linkedFor w).trace ++ entries = _
  rw [hTrace, List.append_assoc]

/-- An exchange keeps the contexts in order, and its reply, if it has one, is
its own. -/
theorem Outcome.held {s' : State σ} {op : Op} {format : String}
    {args argv : List Bytes} {ended : Ended (Option Received)} (hHeld : Held s)
    (hCalm : op.weather.calm = true) (hCall : op.call ≠ .init)
    (hOutcome : Outcome serve s op.weather format args argv (some (ended, s'))) :
    Held s' ∧ Added s op s' := by
  have hLinked := hHeld.linkedFor op.weather
  have hCalls : (s.linkedFor op.weather).calls + 1 = s.calls + 1 := by
    rw [linkedFor_calls]
  have hQuiet : s.connected = false → op.heard s := by
    intro hDown _ hUp
    rw [hDown] at hUp
    cases hUp
  cases hOutcome with
  | mute hDown hMute =>
      exact ⟨hHeld, .quiet (List.append_nil _).symm (by simp) rfl (hQuiet hDown)⟩
  | refused hDown hLogs hInfo hConnect =>
      obtain ⟨es, hTrace, hEs⟩ := relinked_trace s.logging op.weather.connect
      exact ⟨(hHeld.same s.logging rfl rfl rfl rfl).relinked _,
        .quiet hTrace hEs (by simp) (hQuiet hDown)⟩
  | @lost c c' server hReaches hLogs hAnswers hc hErr hConn hServer =>
      constructor
      · rw [← linkedFor_calls s op.weather]
        refine hLinked.sent hc hConn ?_ (by simp)
        intro hOk
        rw [hErr hCalm] at hOk
        cases hOk
      · obtain ⟨es, hTrace, hEs⟩ := sent_trace s op.weather (s.logs op.weather) server
          c' (commandEntries c.conn s.calls format args (s.logs op.weather) none)
        exact .command hTrace hEs hCalls (by simp) (by simp [hAnswers]) hCall hLogs
  | @answered c a hReaches hLogs hAnswers hc hIdle hAnswer =>
      have hName : ∀ b, some a = some b → b.request.call = s.calls := by
        intro b hb
        cases hb
        rw [hAnswer]
      constructor
      · rw [← linkedFor_calls s op.weather] at hName ⊢
        exact hLinked.sent hc rfl (fun _ => hIdle) hName
      · obtain ⟨es, hTrace, hEs⟩ := sent_trace s op.weather (s.logs op.weather)
          (execute serve op.weather s.server argv).1 c
          (commandEntries c.conn s.calls format args (s.logs op.weather) (some a))
        exact .command hTrace hEs hCalls hName (by simp [hAnswers]) hCall hLogs

/-- **Every call in calm weather** keeps the contexts in order, and either has
no reply or a reply of its own. -/
theorem step_held {s' : State σ} {op : Op} (hHeld : Held s)
    (hCalm : op.weather.calm = true) (hStep : step serve s op = some s') :
    Held s' ∧ Added s op s' := by
  rcases step_cases hHeld.ready hStep with
    ⟨hCall, hReset⟩ | ⟨hCall, format, args, argv, ended, _, hOutcome⟩
  · exact hReset.held hHeld hCall
  · exact hOutcome.held hHeld hCalm hCall

/-- A reply that was left behind stays behind. -/
theorem Added.leaky {s' : State σ} {op : Op}
    (hAdded : Added s op s') (hLeaky : Leaky s) :
    Leaky s' := by
  obtain ⟨a, hObtained, hReleased, hOld⟩ := hLeaky
  cases hAdded with
  | quiet hTrace hEs hCalls hHeard =>
      refine ⟨a, ?_, ?_, by omega⟩
      · rw [hTrace, List.filterMap_append]
        exact List.mem_append_left _ hObtained
      · rw [hTrace, List.filterMap_append,
          (replies_connecting hEs).2.1, List.append_nil]
        exact hReleased
  | @command es ctx format args reply hTrace hEs hCalls hName hReply hCall hLogs =>
      refine ⟨a, ?_, ?_, by omega⟩
      · rw [hTrace, List.filterMap_append]
        exact List.mem_append_left _ hObtained
      · rw [hTrace, List.filterMap_append, List.filterMap_append,
          (replies_connecting hEs).2.1, List.nil_append, List.mem_append, not_or]
        refine ⟨hReleased, ?_⟩
        -- the reply that this call frees is its own
        intro hMem
        have hOwn : reply = some a := by
          cases reply <;> cases hLog : s.logs op.weather <;>
            simp_all [commandEntries, replyProtocol]
        have hCallNow := hName a hOwn
        omega

/-- A reply that was freed is an earlier one. -/
theorem Held.released (hHeld : Held s) (hSettled : Settled s) {a : Answer}
    (hMem : a ∈ s.trace.filterMap replyProtocol.releases) :
    a.request.call < s.calls := by
  have hFresh : replyProtocol.Fresh s.trace :=
    List.Nodup.of_map _ (hHeld.replyNames.nodup List.nodup_range)
  obtain ⟨e, he, hReleases⟩ := List.mem_filterMap.1 hMem
  obtain ⟨pre, post, hSplit⟩ := List.append_of_mem he
  obtain ⟨b, hb, hLive⟩ :=
    ((Protocol.disciplined_iff hFresh).2 hSettled).sound pre e post
    hSplit (some a) (replyProtocol.releases_passes e a hReleases)
  cases hb
  have hObtained : a ∈ s.trace.filterMap replyProtocol.obtains := by
    rw [hSplit, List.filterMap_append]
    exact List.mem_append_left _ hLive.1
  exact List.mem_range.1 (hHeld.replyNames.subset (List.mem_map_of_mem hObtained))

/-- A call that can log frees its reply; one that cannot leaves it behind. -/
theorem Added.settled {s' : State σ} {op : Op} (hAdded : Added s op s') (hHeld : Held s)
    (hSettled : Settled s) :
    (op.heard s → Settled s') ∧ (¬ op.heard s → Leaky s') := by
  have hAudit : ∀ es, Settled s → s'.trace = s.trace ++ es →
      run replyProtocol.audit [] s'.trace = run replyProtocol.audit [] es := by
    intro es hOld hTrace
    rw [hTrace, run_append, hOld, Option.bind_some]
  cases hAdded with
  | quiet hTrace hEs hCalls hHeard =>
      refine ⟨fun _ => ?_, fun hNot => absurd hHeard hNot⟩
      rw [Settled, hAudit _ hSettled hTrace]
      exact (replies_connecting hEs).2.2
  | @command es ctx format args reply hTrace hEs hCalls hName hReply hCall hLogs =>
      have hRun := hAudit _ hSettled hTrace
      rw [run_append, (replies_connecting hEs).2.2, Option.bind_some] at hRun
      constructor
      · intro hHeard
        rw [Settled, hRun]
        cases reply with
        | none =>
            cases s.logs op.weather <;>
              simp [commandEntries, run, Protocol.audit,
                Protocol.remaining, replyProtocol]
        | some a =>
            have hLog : s.logs op.weather = true :=
              hLogs.elim (fun hUp => hHeard hCall hUp (hReply.1 rfl)) id
            rw [hLog]
            simp [commandEntries, run, Protocol.audit,
              Protocol.remaining, replyProtocol]
      · intro hNot
        have hMute : s.logs op.weather = false := by
          cases hLog : s.logs op.weather with
          | false => rfl
          | true => exact absurd (fun _ _ _ => hLog) hNot
        have hAnswers : op.weather.answers = true := by
          cases hAnswered : op.weather.answers with
          | true => rfl
          | false =>
              refine absurd (fun _ _ hYes => ?_) hNot
              rw [hAnswered] at hYes
              cases hYes
        obtain ⟨a, rfl⟩ := Option.isSome_iff_exists.1 (hReply.2 hAnswers)
        have hOwn := hName a rfl
        refine ⟨a, ?_, ?_, by omega⟩
        · rw [hTrace, List.filterMap_append, List.filterMap_append]
          apply List.mem_append_right
          apply List.mem_append_right
          simp [commandEntries, replyProtocol]
        · rw [hTrace, List.filterMap_append, List.filterMap_append,
            (replies_connecting hEs).2.1, List.nil_append, hMute,
              List.mem_append, not_or]
          constructor
          · intro hOld
            have hEarlier := hHeld.released hSettled hOld
            omega
          · simp [commandEntries, replyProtocol]

theorem Held.held_live (hHeld : Held s) {c : Context} (hc : s.RedisContext = some c) :
    contextProtocol.Live s.trace c.conn := by
  have hFresh : contextProtocol.Fresh s.trace := by
    unfold Protocol.Fresh
    rw [hHeld.contextNames]
    exact List.nodup_range
  have hAudited := Protocol.audited_of_run hFresh (run_of_guarded hHeld.contexts)
  apply (hAudited.mem c.conn).1
  simp [State.held, hc]

/-- The destructor frees what is left: the contexts are in order, and the
replies are if they were. -/
theorem Held.destroyed (hHeld : Held s) :
    (Settled s → Released (destroy s).trace) ∧
    (Leaky s → ¬ Released (destroy s).trace) := by
  have hTrace : (destroy s).trace =
      s.trace ++ [.redisFree (s.RedisContext.map Context.conn)] := rfl
  have hContexts :
      run (contextProtocol.cappedAudit 1) [] (destroy s).trace = some [] := by
    rw [hTrace, run_append, hHeld.contexts, State.held]
    cases s.RedisContext with
    | none => rfl
    | some c =>
        simp [run, Protocol.cappedAudit, guarded, Protocol.audit, Protocol.remaining,
          contextProtocol]
  have hContextNames : contextProtocol.Fresh (destroy s).trace := by
    unfold Protocol.Fresh
    rw [hTrace, List.filterMap_append, hHeld.contextNames]
    simpa [contextProtocol] using List.nodup_range
  have hReplyNames : replyProtocol.Fresh (destroy s).trace := by
    unfold Protocol.Fresh
    rw [hTrace, List.filterMap_append]
    have hNodup := hHeld.replyNames.nodup List.nodup_range
    simpa [replyProtocol] using List.Nodup.of_map _ hNodup
  constructor
  · intro hSettled
    have hReplies : run replyProtocol.audit [] (destroy s).trace = some [] := by
      rw [hTrace, run_append, hSettled]
      rfl
    exact
      { contextNames := hContextNames
        contexts := (Protocol.disciplined_iff hContextNames).2
          (run_of_guarded hContexts)
        oneContext := Protocol.capped_of_run hContextNames hContexts
        replyNames := hReplyNames
        replies := (Protocol.disciplined_iff hReplyNames).2 hReplies
        commands := by
          intro ctx err call format args reply hMem
          rw [hTrace] at hMem
          rcases List.mem_append.1 hMem with hOld | hLast
          · exact hHeld.commands _ _ _ _ _ _ hOld
          · cases List.mem_singleton.1 hLast }
  · rintro ⟨a, hObtained, hReleased, -⟩ hFreed
    have hOnce := hFreed.replies.returned a (by
      rw [hTrace, Protocol.Obtained, List.filterMap_append]
      exact List.mem_append_left _ hObtained)
    have hNever : replyProtocol.releaseCount (destroy s).trace a = 0 := by
      rw [hTrace, Protocol.releaseCount, List.filterMap_append]
      apply List.count_eq_zero_of_not_mem
      simpa [replyProtocol] using hReleased
    omega

/-- With `RedisInfo` set every call returns or throws. -/
theorem step_completes (serve : σ → List Bytes → σ × Reply) {op : Op} (hReady : s.Ready)
    (hInfo : s.RedisInfo = true) (hOp : op.call = .init → op.info = true) :
    ∃ s', step serve s op = some s' ∧ s'.RedisInfo = true := by
  by_cases hCall : op.call = .init
  · obtain ⟨t, hSome, hReset⟩ := step_init serve s op hCall
    refine ⟨t, hSome, ?_⟩
    cases hReset with
    | unset hUnset =>
        rw [hOp hCall] at hUnset
        cases hUnset
    | mute hSet hMute => rfl
    | relinked hSet hKept => simp
  · obtain ⟨format, args, argv, hFormat, hEq⟩ := step_exchange serve s op hCall
    rw [hEq]
    have hOutcome := exchange_outcome serve hReady op.weather hFormat
    generalize exchange serve s op.weather format args = result at hOutcome
    cases hOutcome with
    | mute hDown hMute => exact ⟨_, rfl, hInfo⟩
    | crashed hDown hLogs hNull => simp [hInfo] at hNull
    | refused hDown hLogs hSet hConnect => exact ⟨_, rfl, by simpa using hInfo⟩
    | lost hReaches hLogs hAnswers hc hErr hConn hServer =>
        exact ⟨_, rfl, by simpa [State.sent] using hInfo⟩
    | answered hReaches hLogs hAnswers hc hIdle hAnswer =>
        exact ⟨_, rfl, by simpa [State.sent] using hInfo⟩

end Steps

/-! ## Whole lives -/

theorem run_held {ops : List Op} {s s' : State σ} (hHeld : Held s) (hCalm : Calm ops)
    (hRun : run (step serve) s ops = some s') : Held s' :=
  run_preserves_on (step serve) (Q := fun op => op.weather.calm = true)
    (fun _ _ _ hOp hS hStep => (step_held hS hOp hStep).1) hCalm hHeld hRun

theorem run_leaky {ops : List Op} : ∀ {s s' : State σ}, Held s → Leaky s → Calm ops →
    run (step serve) s ops = some s' → Leaky s' := by
  induction ops with
  | nil =>
      intro s s' _ hLeaky _ hRun
      cases hRun
      exact hLeaky
  | cons op ops ih =>
      intro s s' hHeld hLeaky hCalm hRun
      obtain ⟨s₁, hStep, hRest⟩ := (run_cons_eq_some _).1 hRun
      obtain ⟨hHeld₁, hAdded⟩ := step_held hHeld (hCalm op List.mem_cons_self) hStep
      exact ih hHeld₁ (hAdded.leaky hLeaky)
        (fun o ho => hCalm o (List.mem_cons_of_mem op ho)) hRest

/-- Every call of the sequence, from `s` on, that gets a reply can log. -/
def HeardFrom (serve : σ → List Bytes → σ × Reply) (s : State σ)
    (ops : List Op) : Prop :=
  ∀ pre op post t, ops = pre ++ op :: post →
    run (step serve) s pre = some t → op.heard t

theorem heardFrom_cons {s s₁ : State σ} {op : Op} {ops : List Op}
    (hStep : step serve s op = some s₁) :
    HeardFrom serve s (op :: ops) ↔ op.heard s ∧ HeardFrom serve s₁ ops := by
  constructor
  · intro hHeard
    refine ⟨hHeard [] op ops s rfl rfl, ?_⟩
    intro pre o post t hSplit hRun
    exact hHeard (op :: pre) o post t (by rw [hSplit]; rfl)
      ((run_cons_eq_some _).2 ⟨s₁, hStep, hRun⟩)
  · rintro ⟨hFirst, hRest⟩ pre o post t hSplit hRun
    cases pre with
    | nil =>
        cases hSplit
        cases hRun
        exact hFirst
    | cons p pre =>
        obtain ⟨rfl, rfl⟩ := List.cons.inj hSplit
        obtain ⟨s₂, hStep₂, hRun₂⟩ := (run_cons_eq_some _).1 hRun
        rw [hStep] at hStep₂
        cases hStep₂
        exact hRest pre o post t rfl hRun₂

/-- A run ends with no reply left exactly when each of its calls was heard. -/
theorem run_settled_iff {ops : List Op} : ∀ {s s' : State σ}, Held s → Settled s →
    Calm ops → run (step serve) s ops = some s' →
      (HeardFrom serve s ops → Settled s') ∧ (¬ HeardFrom serve s ops → Leaky s') := by
  induction ops with
  | nil =>
      intro s s' _ hSettled _ hRun
      cases hRun
      refine ⟨fun _ => hSettled, fun hNot => absurd ?_ hNot⟩
      intro pre op post t hSplit
      simp at hSplit
  | cons op ops ih =>
      intro s s' hHeld hSettled hCalm hRun
      obtain ⟨s₁, hStep, hRest⟩ := (run_cons_eq_some _).1 hRun
      obtain ⟨hHeld₁, hAdded⟩ := step_held hHeld (hCalm op List.mem_cons_self) hStep
      have hCalmRest : Calm ops := fun o ho => hCalm o (List.mem_cons_of_mem op ho)
      obtain ⟨hKept, hLost⟩ := hAdded.settled hHeld hSettled
      rw [heardFrom_cons hStep]
      by_cases hHeard : op.heard s
      · obtain ⟨hThen, hElse⟩ := ih hHeld₁ (hKept hHeard) hCalmRest hRest
        refine ⟨fun hAll => hThen hAll.2,
          fun hNot => hElse fun hAll => hNot ⟨hHeard, hAll⟩⟩
      · exact ⟨fun hAll => absurd hAll.1 hHeard,
          fun _ => run_leaky hHeld₁ (hLost hHeard) hCalmRest hRest⟩

theorem run_completes (serve : σ → List Bytes → σ × Reply) {ops : List Op}
    (hOps : ∀ op ∈ ops, op.call = .init → op.info = true) :
    ∀ {s : State σ}, Held s → s.RedisInfo = true → Calm ops →
      ∃ s', run (step serve) s ops = some s' := by
  induction ops with
  | nil => exact fun {s} _ _ _ => ⟨s, rfl⟩
  | cons op ops ih =>
      intro s hHeld hInfo hCalm
      have hCalmOp := hCalm op List.mem_cons_self
      obtain ⟨s₁, hStep, hInfo₁⟩ :=
        step_completes serve hHeld.ready hInfo (hOps op List.mem_cons_self)
      obtain ⟨s', hRest⟩ := ih (fun o ho => hOps o (List.mem_cons_of_mem op ho))
        (step_held hHeld hCalmOp hStep).1 hInfo₁
        (fun o ho => hCalm o (List.mem_cons_of_mem op ho))
      exact ⟨s', (run_cons_eq_some _).2 ⟨s₁, hStep, hRest⟩⟩

/-- **Context and reply ownership.** In every life of the handle that starts
with `Init`, whatever each call meets in calm weather: every context and every
reply is freed exactly once and not used after that, at most one context is live
at a time, and commands go to live contexts without an error, exactly when each
call that gets a reply can log.  Whether or not it can, the context that the
next call looks at is live.  A life comes to its end whenever `Init` gets its
`RedisInfo`, which the constructor of `ServerConf` allocates. -/
theorem contexts_and_replies_released (serve : σ → List Bytes → σ × Reply)
    (logger : Bool) (server : σ) (op : Op) (ops : List Op) (hFirst : op.call = .init)
    (hCalm : Calm (op :: ops)) :
    (∀ s, lifetime serve logger server (op :: ops) = some s →
      (Released s.trace ↔ HeardFrom serve (State.init logger server) (op :: ops))) ∧
    (∀ pre post s, op :: ops = pre ++ post →
      run (step serve) (State.init logger server) pre = some s →
      ∀ c, s.RedisContext = some c → contextProtocol.Live s.trace c.conn) ∧
    ((∀ o ∈ op :: ops, o.call = .init → o.info = true) →
      ∃ s, lifetime serve logger server (op :: ops) = some s) := by
  have hStart := init_held logger server
  refine ⟨?_, ?_, ?_⟩
  · intro s hLife
    obtain ⟨t, hRun, rfl⟩ := Option.map_eq_some_iff.1 hLife
    obtain ⟨hFreed, hLeaked⟩ := (run_held hStart hCalm hRun).destroyed
    obtain ⟨hSettled, hLeaky⟩ := run_settled_iff hStart rfl hCalm hRun
    constructor
    · intro hReleased
      by_contra hNot
      exact hLeaked (hLeaky hNot) hReleased
    · exact fun hHeard => hFreed (hSettled hHeard)
  · intro pre post s hSplit hRun c hc
    have hCalmPre : Calm pre := by
      intro o ho
      exact hCalm o (by rw [hSplit]; exact List.mem_append_left _ ho)
    exact (run_held hStart hCalmPre hRun).held_live hc
  · intro hInfos
    obtain ⟨t, hStep, hReset⟩ := step_init serve (State.init logger server) op hFirst
    have hInfo : t.RedisInfo = true := by
      cases hReset with
      | unset hUnset =>
          rw [hInfos op List.mem_cons_self hFirst] at hUnset
          cases hUnset
      | mute hSet hMute => rfl
      | relinked hSet hKept => simp
    obtain ⟨s', hRest⟩ := run_completes serve
      (fun o ho => hInfos o (List.mem_cons_of_mem op ho))
      (step_held hStart (hCalm op List.mem_cons_self) hStep).1 hInfo
      (fun o ho => hCalm o (List.mem_cons_of_mem op ho))
    refine ⟨destroy s', ?_⟩
    unfold lifetime
    rw [(run_cons_eq_some _).2 ⟨_, hStep, hRest⟩]
    rfl

/-- An errored context, a good one that loses its reply, none at all, and a
good one again. -/
def stormyLife : List Op :=
  [⟨.init, true, { fair with connect := .errored }⟩,
    ⟨.setString (bytesOf "k") (bytesOf "v"), true, fair⟩,
    ⟨.getString (bytesOf "k") [], true, { fair with receiving := .broken }⟩,
    ⟨.setString (bytesOf "k") (bytesOf "w"), true, { fair with connect := .null }⟩,
    ⟨.getString (bytesOf "k") [], true, fair⟩]

/-- With a logger every call is heard. -/
theorem heardFrom_logger {ops : List Op} (hOps : ∀ op ∈ ops, op.weather.logger = true)
    (s : State σ) : HeardFrom serve s ops := by
  intro pre op post t hSplit _ _ _ _
  have hLogger := hOps op (by rw [hSplit]; simp)
  simp [State.logs, hLogger]

theorem contexts_and_replies_released_stormyLife :
    ∃ s, lifetime countingServer false 0 stormyLife = some s ∧ Released s.trace ∧
      s.trace.filterMap contextProtocol.releases = [0, 1, 2] ∧
      (s.trace.filterMap replyProtocol.releases).length = 2 := by
  have hLife := contexts_and_replies_released countingServer false 0
    ⟨.init, true, { fair with connect := .errored }⟩ stormyLife.tail rfl (by decide)
  obtain ⟨s, hSome⟩ := hLife.2.2 (by decide)
  have hEval : (lifetime countingServer false 0 stormyLife).map (fun s =>
      (s.trace.filterMap contextProtocol.releases,
        (s.trace.filterMap replyProtocol.releases).length)) = some ([0, 1, 2], 2) := by
    decide +kernel
  have hStormy : lifetime countingServer false 0 stormyLife = some s := hSome
  rw [hStormy, Option.map_some, Option.some.injEq, Prod.mk.injEq] at hEval
  exact ⟨s, hStormy, (hLife.1 s hSome).2 (heardFrom_logger (by decide) _), hEval⟩

/-- A good connection and a `GetString` that is answered while no logger can be
built: nobody frees the reply. -/
theorem replies_unreleased_mute :
    ∃ s, lifetime countingServer false 0
        [⟨.init, true, { fair with logger := false }⟩,
          ⟨.getString (bytesOf "k") [], true, { fair with logger := false }⟩] = some s ∧
      ¬ Released s.trace := by
  have hEval : (lifetime countingServer false 0
      [⟨.init, true, { fair with logger := false }⟩,
        ⟨.getString (bytesOf "k") [], true, { fair with logger := false }⟩]).map
      (fun s =>
        (s.trace.filterMap replyProtocol.obtains,
          s.trace.filterMap replyProtocol.releases)) =
      some ([⟨0, ⟨0, [bytesOf "GET", bytesOf "k"]⟩, .integer 0⟩], []) := by
    decide +kernel
  obtain ⟨s, hLife, hReplies⟩ := Option.map_eq_some_iff.1 hEval
  obtain ⟨hObtains, hReleases⟩ := Prod.mk.inj hReplies
  refine ⟨s, hLife, fun hReleased => ?_⟩
  have hOnce :=
    hReleased.replies.returned ⟨0, ⟨0, [bytesOf "GET", bytesOf "k"]⟩, .integer 0⟩
    (by rw [Protocol.Obtained, hObtains]; exact List.mem_singleton_self _)
  rw [Protocol.releaseCount, hReleases] at hOnce
  simp at hOnce

end MGServer.Ports.RedisHandle
