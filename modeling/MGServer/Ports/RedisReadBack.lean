import MGServer.Ports.RedisPairing
import Mathlib.Logic.Function.Basic

/-!
# Reading back what was set

Keys and values go out as C strings and a bulk string comes back as one, so a
NUL cuts off the rest of a value, and two keys that agree before their first
NUL are one key to the server.  Against a server that is a map, and over every
run in calm weather, this is also all that can go wrong: `reads_your_writes_iff`
says exactly for which calls a value that was set is read back.  An interrupted
write leaves its command outstanding, and a later `GetString` reads the reply to
an earlier one.
-/

namespace MGServer.Ports.RedisHandle

open MGServer.Verified.ByteString
open MGServer.Verified.Transition
open MGServer.Ports.Hiredis

/-! ## A server that is a map -/

abbrev Store := Bytes → Option Bytes

def mapServer (store : Store) : List Bytes → Store × Reply
  | [name, key, value] =>
      if name = bytesOf "SET" then
        (Function.update store key (some value), .status (bytesOf "OK"))
      else (store, .error (bytesOf "ERR"))
  | [name, key] =>
      if name = bytesOf "GET" then
        (store,
          match store key with
          | some value => .string value
          | none => .nil)
      else (store, .error (bytesOf "ERR"))
  | _ => (store, .error (bytesOf "ERR"))

/-- A `SET` is executed and answered with `OK`, or refused with an error. -/
theorem execute_set (w : Weather) (store : Store) (key value : Bytes) :
    execute mapServer w store [bytesOf "SET", key, value] =
        (Function.update store key (some value), .status (bytesOf "OK")) ∨
      ∃ text, execute mapServer w store [bytesOf "SET", key, value] =
        (store, .error text) := by
  unfold execute
  cases w.refusal with
  | none => exact Or.inl (by simp [mapServer])
  | some text => exact Or.inr ⟨text, rfl⟩

theorem execute_get (w : Weather) (store : Store) (key : Bytes) :
    (execute mapServer w store [bytesOf "GET", key]).1 = store ∧
      ∀ text, (execute mapServer w store [bytesOf "GET", key]).2 = .string text →
        store key = some text := by
  unfold execute
  cases w.refusal with
  | some err =>
      refine ⟨rfl, ?_⟩
      intro text hText
      cases hText
  | none =>
      simp only [mapServer, if_true, true_and]
      intro text hText
      cases hKey : store key with
      | none =>
          rw [hKey] at hText
          cases hText
      | some value =>
          rw [hKey] at hText
          cases hText
          rfl

/-! ## What each call does to the store -/

section Calls

variable {s s' : State Store} {w : Weather} {key value : Bytes}

/-- A `SetString` that returned true has stored the C strings, and has logged. -/
theorem setString_store (hReady : s.Ready)
    (hSet : setString mapServer s w key value = some (.returned true, s')) :
    s'.server = Function.update s.server (cstr key) (some (cstr value)) ∧
      s'.RotatingLogger = true := by
  obtain ⟨⟨ended, s₁⟩, hExchange, hEq⟩ := Option.map_eq_some_iff.1 hSet
  have hOutcome := exchange_outcome mapServer hReady w (format_set key value)
  rw [exchange, hExchange] at hOutcome
  cases hOutcome with
  | mute hDown hMute => cases hEq
  | refused hDown hLogs hInfo hConnect => cases hEq
  | lost hReaches hLogs hAnswers hc hErr hConn hServer =>
      cases hLog : s.logs w <;> rw [hLog] at hEq <;> cases hEq
  | answered hReaches hLogs hAnswers hc hIdle hAnswer =>
      cases hLog : s.logs w with
      | false =>
          rw [hLog] at hEq
          cases hEq
      | true =>
          rw [hLog] at hEq
          obtain ⟨hOk, rfl⟩ := Prod.mk.inj hEq
          rcases execute_set w s.server (cstr key)
            (cstr value) with hStored | ⟨text, hErr⟩
          · exact ⟨by rw [State.sent, hStored], rfl⟩
          · rw [hAnswer, hErr] at hOk
            cases hOk

/-- What an exchange leaves on the server, it had or the command left. -/
theorem exchange_server {format : String} {args argv : List Bytes}
    {ended : Ended (Option Received)} (hReady : s.Ready)
    (hFormat : redisvFormatCommand format args = some argv)
    (hExchange : exchange mapServer s w format args = some (ended, s')) :
    (s'.server = s.server ∨ s'.server = (execute mapServer w s.server argv).1) ∧
      (s.RotatingLogger = true → s'.RotatingLogger = true) := by
  have hOutcome := exchange_outcome mapServer hReady w hFormat
  rw [hExchange] at hOutcome
  have hKept : s.RotatingLogger = true → s.logs w = true := by
    intro hLogger
    simp [State.logs, hLogger]
  cases hOutcome with
  | mute hDown hMute => exact ⟨Or.inl rfl, id⟩
  | refused hDown hLogs hInfo hConnect =>
      refine ⟨Or.inl (by simp), fun _ => ?_⟩
      cases w.connect <;> rfl
  | lost hReaches hLogs hAnswers hc hErr hConn hServer => exact ⟨hServer, hKept⟩
  | answered hReaches hLogs hAnswers hc hIdle hAnswer => exact ⟨Or.inr rfl, hKept⟩

/-- A `GetString` that reads a bulk string, behind a call that has logged, sets
`StrValue` to the C string of what the store holds. -/
theorem getString_bulk {ended : Ended (Bool × Bytes)} {prior text : Bytes} {ctx : Nat}
    {a : Answer} (hPaired : Paired s) (hLogger : s.RotatingLogger = true)
    (hGet : getString mapServer s w key prior = some (ended, s'))
    (hRead : .interpret s.calls ctx a ∈ s'.trace) (hBulk : a.reply = .string text) :
    s.server (cstr key) = some text ∧ ended = .returned (true, cstr text) := by
  obtain ⟨⟨got, s₁⟩, hExchange, hEq⟩ := Option.map_eq_some_iff.1 hGet
  have hOutcome := exchange_outcome mapServer hPaired.ready w (format_get key)
  rw [exchange, hExchange] at hOutcome
  have hLog : s.logs w = true := by simp [State.logs, hLogger]
  -- earlier calls have smaller numbers, so the reply read is not an old one
  have hNew : ∀ {t : State Store}, Paired t → t.calls = s.calls →
      .interpret s.calls ctx a ∉ t.trace := by
    intro t hMid hCalls hOld
    obtain ⟨format, args, argv, hSent, -⟩ := hMid.replies _ _ _ hOld
    have hNumber : s.calls ∈ callNumbers t.trace := List.mem_filterMap.2 ⟨_, hSent, rfl⟩
    rw [hMid.numbers, List.mem_range, hCalls] at hNumber
    exact Nat.lt_irrefl _ hNumber
  have hLinked := hNew (hPaired.linkedFor w) (linkedFor_calls s w)
  cases hOutcome with
  | mute hDown hMute =>
      rw [hLog] at hMute
      cases hMute
  | refused hDown hLogs hInfo hConnect =>
      cases hEq
      have hMid := (hPaired.same s.logging rfl rfl rfl).relinked w.connect
      exact absurd hRead (hNew hMid (relinked_calls _ _))
  | lost hReaches hLogs hAnswers hc hErr hConn hServer =>
      cases hEq
      rcases List.mem_append.1 hRead with hOld | hLast
      · exact absurd hOld hLinked
      · simp [commandEntries, hLog] at hLast
  | @answered c b hReaches hLogs hAnswers hc hIdle hAnswer =>
      rw [hLog] at hEq
      obtain ⟨rfl, rfl⟩ := Prod.mk.inj hEq
      rcases List.mem_append.1 hRead with hOld | hLast
      · exact absurd hOld hLinked
      · obtain ⟨-, rfl⟩ : ctx = c.conn ∧ a = b := by
          simpa [commandEntries, hLog] using hLast
        refine ⟨?_, ?_⟩
        · apply (execute_get w s.server (cstr key)).2
          rw [← hBulk, hAnswer]
        · simp [Ended.map, endedIf, parts, hBulk, assignValue]

/-- One step: the store stays as it is, or takes the C strings of a
`SetString`; a logger that is there stays. -/
theorem step_store {op : Op} (hReady : s.Ready)
    (hStep : step mapServer s op = some s') :
    (s'.server = s.server ∨
      ∃ k v, op.call = .setString k v ∧
        s'.server = Function.update s.server (cstr k) (some (cstr v))) ∧
      (s.RotatingLogger = true → s'.RotatingLogger = true) := by
  cases hCall : op.call with
  | init =>
      obtain ⟨t, hSome, hReset⟩ := step_init mapServer s op hCall
      rw [hStep] at hSome
      cases hSome
      cases hReset with
      | unset hInfo => exact ⟨Or.inl rfl, fun hLogger => by simp [State.logs, hLogger]⟩
      | mute hInfo hMute => exact ⟨Or.inl rfl, id⟩
      | relinked hInfo hKept =>
          refine ⟨Or.inl (by simp), fun hLogger => ?_⟩
          rw [← hKept hLogger]
          cases op.weather.connect <;> rfl
  | setString k v =>
      simp only [step, perform, Parts.perform, hCall, Option.map_map] at hStep
      obtain ⟨got, hSet, rfl⟩ := Option.map_eq_some_iff.1 hStep
      obtain ⟨⟨ended, s₁⟩, hExchange, rfl⟩ := Option.map_eq_some_iff.1 hSet
      obtain ⟨hServer, hKept⟩ := exchange_server hReady (format_set k v) hExchange
      refine ⟨?_, hKept⟩
      rcases hServer with hSame | hRun
      · exact Or.inl hSame
      · rcases execute_set op.weather s.server (cstr k) (cstr v) with hOk | ⟨text, hErr⟩
        · exact Or.inr ⟨k, v, rfl, hRun.trans (by rw [hOk])⟩
        · exact Or.inl (hRun.trans (by rw [hErr]))
  | getString k v =>
      simp only [step, perform, Parts.perform, hCall] at hStep
      obtain ⟨got, hGet, rfl⟩ := Option.map_eq_some_iff.1 hStep
      obtain ⟨⟨ended, s₁⟩, hExchange, rfl⟩ := Option.map_eq_some_iff.1 hGet
      obtain ⟨hServer, hKept⟩ := exchange_server hReady (format_get k) hExchange
      refine ⟨Or.inl ?_, hKept⟩
      rcases hServer with hSame | hRun
      · exact hSame
      · exact hRun.trans (execute_get op.weather s.server (cstr k)).1

end Calls

/-- Calls that write nothing else under the key's C string keep what is there,
and the logger. -/
theorem run_store (key value : Bytes) {ops : List Op} (hCalm : Calm ops)
    (hOps : ∀ op ∈ ops, ∀ k v, op.call = .setString k v → cstr k = cstr key →
      cstr v = value) :
    ∀ {s s' : State Store}, s.Ready → s.server (cstr key) = some value →
      s.RotatingLogger = true → run (step mapServer) s ops = some s' →
      s'.server (cstr key) = some value ∧ s'.RotatingLogger = true := by
  induction ops with
  | nil =>
      intro s s' _ hValue hLogger hRun
      cases hRun
      exact ⟨hValue, hLogger⟩
  | cons op ops ih =>
      intro s s' hReady hValue hLogger hRun
      obtain ⟨s₁, hStep, hRest⟩ := (run_cons_eq_some _).1 hRun
      have hReady₁ := step_ready hReady (hCalm op List.mem_cons_self) hStep
      obtain ⟨hServer, hKept⟩ := step_store hReady hStep
      refine ih (fun o ho => hCalm o (List.mem_cons_of_mem op ho))
        (fun o ho => hOps o (List.mem_cons_of_mem op ho)) hReady₁
          ?_ (hKept hLogger) hRest
      rcases hServer with hSame | ⟨k, v, hCall, hServer⟩
      · rw [hSame, hValue]
      · rw [hServer]
        by_cases hk : cstr key = cstr k
        · rw [hk, Function.update_self,
            hOps op (List.mem_cons_self ..) k v hCall hk.symm]
        · rw [Function.update_of_ne hk, hValue]

/-! ## Fair weather, and a server that refuses -/

section Weathers

variable {σ : Type} (serve : σ → List Bytes → σ × Reply)

/-- The server executes nothing and answers with an error. -/
def refusing : Weather := { fair with refusal := some [] }

/-- A command in a weather that answers, on a handle that can connect. -/
theorem exchange_answered {s : State σ} (hReady : s.Ready) (hInfo : s.RedisInfo = true)
    {w : Weather} (hConnect : w.connect = .good) (hAnswers : w.answers = true)
    (hLogger : w.logger = true) {format : String} {args argv : List Bytes}
    (hFormat : redisvFormatCommand format args = some argv) :
    ∃ s' r, exchange serve s w format args = some (.returned (some r), s') ∧
      r.answer.reply = (execute serve w s.server argv).2 ∧
      s'.server = (execute serve w s.server argv).1 ∧ s'.RedisInfo = true ∧
      .interpret s.calls r.ctx r.answer ∈ s'.trace ∧ s'.Ready := by
  have hOutcome := exchange_outcome serve hReady w hFormat
  have hLog : s.logs w = true := by simp [State.logs, hLogger]
  generalize exchange serve s w format args = result at hOutcome ⊢
  cases hOutcome with
  | mute hDown hMute =>
      rw [hLog] at hMute
      cases hMute
  | crashed hDown hLogs hNull =>
      rw [hInfo] at hNull
      cases hNull
  | refused hDown hLogs hSet hNot => exact absurd hConnect hNot
  | lost hReaches hLogs hLost hc hErr hConn hServer =>
      rw [hAnswers] at hLost
      cases hLost
  | @answered c a hReaches hLogs _ hc hIdle hAnswer =>
      rw [hLog]
      refine ⟨_, ⟨s.calls, c.conn, a⟩, rfl, ?_, rfl, ?_, ?_, ?_⟩
      · rw [hAnswer]
      · show (s.linkedFor w).RedisInfo = true
        rw [linkedFor_info, hInfo]
      · simp [State.sent, commandEntries]
      · intro d hd _
        cases hd
        exact hIdle

end Weathers

/-! ## Runs that show what is lost -/

section Runs

variable {s : State Store}

/-- The states a run of this section goes through. -/
structure Going (s : State Store) (store : Store) : Prop where
  ready : s.Ready
  info : s.RedisInfo = true
  server : s.server = store

theorem setString_fair {store : Store} (hGoing : Going s store) (key value : Bytes) :
    ∃ s', setString mapServer s fair key value = some (.returned true, s') ∧
      Going s' (Function.update store (cstr key) (some (cstr value))) := by
  obtain ⟨s', r, hExchange, hReply, hServer, hInfo, -, hReady⟩ :=
    exchange_answered mapServer hGoing.ready hGoing.info (w := fair) rfl rfl rfl
      (format_set key value)
  have hServe : execute mapServer fair s.server [bytesOf "SET", cstr key, cstr value] =
      (Function.update store (cstr key) (some (cstr value)),
        .status (bytesOf "OK")) := by
    simp [execute, fair, mapServer, hGoing.server]
  rw [hServe] at hReply hServer
  have hOk : isOk ((parts mapServer).reply r) = true := by
    show isOk r.answer.reply = true
    rw [hReply]
    show isOk (.status (bytesOf "OK")) = true
    decide
  refine ⟨s', ?_, hReady, hInfo, hServer⟩
  rw [exchange] at hExchange
  simp [setString, Parts.setString, hExchange, Ended.map, hOk]

theorem getString_fair {store : Store} (hGoing : Going s store) {key value : Bytes}
    (hKey : store (cstr key) = some value) (prior : Bytes) :
    ∃ s' a ctx, getString mapServer s fair key prior =
        some (.returned (true, cstr value), s') ∧
      .interpret s.calls ctx a ∈ s'.trace ∧ a.reply = .string value := by
  obtain ⟨s', r, hExchange, hReply, -, -, hRead, -⟩ :=
    exchange_answered mapServer hGoing.ready hGoing.info (w := fair) rfl rfl rfl
      (format_get key)
  have hText : (parts mapServer).reply r = .string value := by
    show r.answer.reply = _
    rw [hReply]
    simp [execute, fair, mapServer, hGoing.server, hKey]
  refine ⟨s', r.answer, r.ctx, ?_, hRead, hText⟩
  rw [exchange] at hExchange
  simp [getString, Parts.getString, hExchange, Ended.map, hText, assignValue]

theorem step_refusing {store : Store} (hGoing : Going s store) (call : Call) :
    ∃ s', step mapServer s ⟨call, true, refusing⟩ = some s' ∧ Going s' store := by
  by_cases hCall : call = .init
  · obtain ⟨t, hStep, hReset⟩ :=
      step_init mapServer s ⟨call, true, refusing⟩ hCall
    have hReady := step_ready hGoing.ready (by rfl) hStep
    have hKept : t.RedisInfo = true ∧ t.server = store := by
      cases hReset with
      | unset hInfo => cases hInfo
      | mute hInfo hMute => exact ⟨rfl, hGoing.server⟩
      | relinked hInfo hKept => exact ⟨by simp, by simpa using hGoing.server⟩
    exact ⟨t, hStep, hReady, hKept.1, hKept.2⟩
  · obtain ⟨format, args, argv, hFormat, hEq⟩ :=
      step_exchange mapServer s ⟨call, true, refusing⟩ hCall
    obtain ⟨s', r, hExchange, -, hServer, hInfo, -, hReady⟩ :=
      exchange_answered mapServer hGoing.ready hGoing.info
        (w := refusing) rfl rfl rfl hFormat
    refine ⟨s', ?_, hReady, hInfo, hServer.trans hGoing.server⟩
    rw [hEq, hExchange]
    rfl

/-- Calls to a server that refuses, however many, change nothing on it. -/
theorem run_refusing {store : Store} (calls : List Call) :
    ∀ {s : State Store}, Going s store →
      ∃ s', run (step mapServer) s (calls.map fun c => ⟨c, true, refusing⟩) = some s' ∧
        Going s' store := by
  induction calls with
  | nil =>
      intro s hGoing
      exact ⟨s, rfl, hGoing⟩
  | cons call calls ih =>
      intro s hGoing
      obtain ⟨s₁, hStep, hGoing₁⟩ := step_refusing hGoing call
      obtain ⟨s', hRun, hGoing'⟩ := ih hGoing₁
      refine ⟨s', ?_, hGoing'⟩
      rw [List.map_cons, run_cons_eq_some]
      exact ⟨s₁, hStep, hRun⟩

end Runs

/-! ## When a value is read back -/

/-- After any run, a `SetString` of `value` that returned true, the calls
`between` with no `SetString` of the same key among them, and a `GetString` of
that key that is answered with a bulk string: whatever each of them meets, out
of the weathers admitted, `StrValue` is `value`. -/
def ReadsYourWrites (admits : Weather → Prop) (key value : Bytes)
    (between : List Call) : Prop :=
  (∀ v, .setString key v ∉ between) →
  ∀ (logger : Bool) (store : Store) (before ops : List Op) (s s₁ s₂ s₃ : State Store)
    (w w' : Weather) (prior : Bytes) (ended : Ended (Bool × Bytes)) (ctx : Nat)
    (a : Answer) (text : Bytes),
    (∀ op ∈ before, admits op.weather) → admits w → (∀ op ∈ ops, admits op.weather) →
    admits w' →
    run (step mapServer) (State.init logger store) before = some s →
    setString mapServer s w key value = some (.returned true, s₁) →
    ops.map Op.call = between →
    run (step mapServer) s₁ ops = some s₂ →
    getString mapServer s₂ w' key prior = some (ended, s₃) →
    .interpret s₂.calls ctx a ∈ s₃.trace → a.reply = .string text →
    ended = .returned (true, value)

/-- The condition is enough. -/
theorem readsYourWrites_of_cstr {key value : Bytes} {between : List Call}
    (hValue : 0 ∉ value)
    (hBetween : ∀ k v, .setString k v ∈ between → cstr k = cstr key →
      cstr v = value) : ReadsYourWrites (fun w => w.calm = true) key value between := by
  intro _ logger store before ops s s₁ s₂ s₃ w w' prior ended ctx a text
    hCalmBefore hCalm hCalmOps _ hBefore hSet hOps hRun hGet hRead hBulk
  have hPaired := run_paired (init_paired logger store) hCalmBefore hBefore
  have hStep : step mapServer s ⟨.setString key value, true, w⟩ = some s₁ := by
    rw [setString] at hSet
    simp [step, perform, Parts.perform, hSet]
  have hPaired₁ := step_paired hPaired hCalm hStep
  have hPaired₂ := run_paired hPaired₁ hCalmOps hRun
  obtain ⟨hStored, hLogger⟩ := setString_store hPaired.ready hSet
  rw [(cstr_eq_self_iff value).2 hValue] at hStored
  obtain ⟨hKept, hLogger₂⟩ := run_store key value hCalmOps
    (fun op hOp k v hCall hKey => hBetween k v
      (by rw [← hOps, ← hCall]; exact List.mem_map_of_mem hOp) hKey)
    hPaired₁.ready (by rw [hStored, Function.update_self]) hLogger hRun
  obtain ⟨hText, hEnded⟩ := getString_bulk hPaired₂ hLogger₂ hGet hRead hBulk
  have hEq : text = value := Option.some.inj (hText.symm.trans hKept)
  rw [hEnded, hEq, (cstr_eq_self_iff value).2 hValue]

theorem readsYourWrites_anti {admits admits' : Weather → Prop} {key value : Bytes}
    {between : List Call} (hAdmits : ∀ w, admits w → admits' w)
    (hReads : ReadsYourWrites admits' key value between) :
    ReadsYourWrites admits key value between := by
  intro hOnly logger store before ops s s₁ s₂ s₃ w w' prior ended ctx a
    text hBefore hw hOps hw'
  exact hReads hOnly logger store before ops s s₁ s₂ s₃ w w' prior ended ctx a text
    (fun op hOp => hAdmits _ (hBefore op hOp)) (hAdmits w hw)
    (fun op hOp => hAdmits _ (hOps op hOp)) (hAdmits w' hw')

/-- A handle just connected, and a server with nothing in it. -/
private theorem started :
    ∃ s, run (step mapServer) (State.init false fun _ => none) [⟨.init, true, fair⟩] =
        some s ∧ Going s fun _ => none := by
  obtain ⟨s, hRun⟩ : ∃ s, run (step mapServer) (State.init false fun _ => none)
      [⟨.init, true, fair⟩] = some s := ⟨_, rfl⟩
  refine ⟨s, hRun, run_ready (init_ready _ _) (by decide) hRun, ?_, ?_⟩
  · cases hRun
    rfl
  · cases hRun
    rfl

private theorem map_call_refusing (calls : List Call) :
    (calls.map fun c => (⟨c, true, refusing⟩ : Op)).map Op.call = calls := by
  simp [Function.comp_def]

private theorem calm_refusing (calls : List Call) :
    ∀ op ∈ calls.map fun c => (⟨c, true, refusing⟩ : Op), op.weather.calm = true := by
  intro op hOp
  obtain ⟨c, -, rfl⟩ := List.mem_map.1 hOp
  rfl

section Lost

variable {key value : Bytes} {between : List Call}
  (hReads : ReadsYourWrites (fun w => w.calm = true) key value between)
  (hOnly : ∀ v, .setString key v ∉ between)

include hReads hOnly

/-- What was set is stored without what follows its first NUL. -/
private theorem not_mem_of_readsYourWrites : 0 ∉ value := by
  obtain ⟨s, hStart, hGoing⟩ := started
  obtain ⟨s₁, hSet, hGoing₁⟩ := setString_fair hGoing key value
  obtain ⟨s₂, hRun, hGoing₂⟩ := run_refusing between hGoing₁
  obtain ⟨s₃, a, ctx, hGet, hRead, hBulk⟩ :=
    getString_fair hGoing₂ (Function.update_self ..) []
  have hOut := hReads hOnly _ _ _ _ _ _ _ _ _ _ _ _ _ _ _ (by decide) rfl
    (calm_refusing between) rfl hStart hSet
      (map_call_refusing between) hRun hGet hRead hBulk
  simp only [cstr_cstr, Ended.returned.injEq, Prod.mk.injEq, true_and] at hOut
  exact (cstr_eq_self_iff value).1 hOut

/-- A key that looks the same as a C string is the same key. -/
private theorem alias_of_readsYourWrites {k v : Bytes} (hMem : .setString k v ∈ between)
    (hKey : cstr k = cstr key) : cstr v = value := by
  obtain ⟨front, rest, rfl⟩ := List.append_of_mem hMem
  obtain ⟨s, hStart, hGoing⟩ := started
  obtain ⟨s₁, hSet, hGoing₁⟩ := setString_fair hGoing key value
  obtain ⟨t, hFront, hGoingT⟩ := run_refusing front hGoing₁
  obtain ⟨t', hOther, hGoingT'⟩ := setString_fair hGoingT k v
  obtain ⟨s₂, hRest, hGoing₂⟩ := run_refusing rest hGoingT'
  have hStored : Function.update (Function.update (fun _ => none) (cstr key)
      (some (cstr value))) (cstr k) (some (cstr v)) (cstr key) = some (cstr v) := by
    rw [hKey, Function.update_self]
  obtain ⟨s₃, a, ctx, hGet, hRead, hBulk⟩ := getString_fair hGoing₂ hStored []
  have hStep : step mapServer t ⟨.setString k v, true, fair⟩ = some t' := by
    rw [setString] at hOther
    simp [step, perform, Parts.perform, hOther]
  have hRun : run (step mapServer) s₁
      ((front.map fun c => ⟨c, true, refusing⟩) ++
        ⟨.setString k v, true, fair⟩ :: rest.map fun c => ⟨c, true, refusing⟩) =
          some s₂ := by
    rw [run_append, hFront, Option.bind_some, run_cons_eq_some]
    exact ⟨t', hStep, hRest⟩
  have hCalm : ∀ op ∈ (front.map fun c => (⟨c, true, refusing⟩ : Op)) ++
      ⟨.setString k v, true, fair⟩ :: rest.map fun c => ⟨c, true, refusing⟩,
      op.weather.calm = true := by
    intro op hOp
    rcases List.mem_append.1 hOp with hFirst | hLater
    · exact calm_refusing front op hFirst
    · rcases List.mem_cons.1 hLater with rfl | hLast
      · rfl
      · exact calm_refusing rest op hLast
  have hOut :=
    hReads hOnly _ _ _ _ _ _ _ _ _ _ _ _ _ _ _ (by decide) rfl hCalm rfl hStart
    hSet (by rw [List.map_append, List.map_cons, map_call_refusing, map_call_refusing])
    hRun hGet hRead hBulk
  simpa only [cstr_cstr, Ended.returned.injEq, Prod.mk.injEq, true_and] using hOut

end Lost

/-- **Read your writes.** In calm weather a value that was set is read back, in
every run, if and only if it has no NUL and every `SetString` called in between
with a key that agrees with this one before its first NUL sets, before its first
NUL, the same value; or there is one of this very key, and nothing was
promised. -/
theorem reads_your_writes_iff (key value : Bytes) (between : List Call) :
    ReadsYourWrites (fun w => w.calm = true) key value between ↔
      (∃ v, .setString key v ∈ between) ∨
      (0 ∉ value ∧ ∀ k v, .setString k v ∈ between → cstr k = cstr key →
        cstr v = value) := by
  constructor
  · intro hReads
    by_cases hLater : ∃ v, .setString key v ∈ between
    · exact Or.inl hLater
    · have hOnly : ∀ v, .setString key v ∉ between := not_exists.1 hLater
      refine Or.inr ⟨not_mem_of_readsYourWrites hReads hOnly, ?_⟩
      intro k v hMem hKey
      exact alias_of_readsYourWrites hReads hOnly hMem hKey
  · rintro (⟨v, hMem⟩ | ⟨hValue, hBetween⟩)
    · intro hOnly
      exact absurd hMem (hOnly v)
    · exact readsYourWrites_of_cstr hValue hBetween

/-- The `SET` of `j` and the `GET` of `j` are not written, nor is an error
reported. -/
def interruptedRun : List Op :=
  [⟨.init, true, fair⟩,
    ⟨.setString (bytesOf "j") (bytesOf "w"), true,
      { fair with sending := .interruptedAfter 0 }⟩,
    ⟨.getString (bytesOf "j") [], true, { fair with sending := .interruptedAfter 0 }⟩]

/-- `a NUL b` is set and `a` is read back; a `SetString` of the key `k NUL 1`
changes what is read under `k`; and behind two interrupted writes `SetString` of
`k` takes the reply to another `SET`, and `GetString` of `k` the value of `j`. -/
theorem reads_your_writes_nul :
    ¬ ReadsYourWrites (fun _ => True) (bytesOf "k") [97, 0, 98] [] ∧
    ¬ ReadsYourWrites (fun _ => True) (bytesOf "k") (bytesOf "v")
      [.setString [107, 0, 49] (bytesOf "w")] ∧
    ¬ ReadsYourWrites (fun _ => True) (bytesOf "k") (bytesOf "v") [] := by
  refine ⟨?_, ?_, ?_⟩
  · intro hReads
    exact not_mem_of_readsYourWrites (readsYourWrites_anti (fun _ _ => trivial) hReads)
      (by simp) (by decide)
  · intro hReads
    have hOnly : ∀ v, .setString (bytesOf "k") v ∉
        [Call.setString [107, 0, 49] (bytesOf "w")] := by
      intro v hMem
      have hKey := (Call.setString.inj (List.mem_singleton.1 hMem)).1
      revert hKey
      decide
    have hValue := alias_of_readsYourWrites
      (readsYourWrites_anti (fun _ _ => trivial) hReads) hOnly
      (List.mem_singleton.2 rfl) (by decide)
    revert hValue
    decide
  · intro hReads
    have hEval :
        ((run (step mapServer) (State.init false fun _ => none) interruptedRun).bind
          fun s => (setString mapServer s fair (bytesOf "k") (bytesOf "v")).bind
            fun set => (getString mapServer set.2 fair (bytesOf "k") []).map fun get =>
            decide (set.1 = .returned true ∧ set.2.calls = 3 ∧
              get.1 = .returned (true, bytesOf "w") ∧
              .interpret 3 0 ⟨0, ⟨1, [bytesOf "GET", bytesOf "j"]⟩,
                .string (bytesOf "w")⟩ ∈
                get.2.trace)) = some true := by decide +kernel
    obtain ⟨s, hRun, hRest⟩ := Option.bind_eq_some_iff.1 hEval
    obtain ⟨⟨set, s₁⟩, hSet, hRest⟩ := Option.bind_eq_some_iff.1 hRest
    obtain ⟨⟨got, s₃⟩, hGet, hEq⟩ := Option.map_eq_some_iff.1 hRest
    obtain ⟨hTrue, hCalls, hOther, hRead⟩ := of_decide_eq_true hEq
    dsimp only at hTrue hCalls hOther hRead
    subst hTrue hOther
    have hOut :=
      hReads (by simp) false _ interruptedRun [] s s₁ s₁ s₃ fair fair [] _ 0 _ _
      (fun _ _ => trivial) trivial (fun _ _ => trivial) trivial hRun hSet rfl rfl hGet
      (by rw [hCalls]; exact hRead) rfl
    revert hOut
    decide

end MGServer.Ports.RedisHandle
