import MGServer.Ports.RedisPairing

/-!
# What `GetString` reports

`GetString` is to return true, with the value in `StrValue`, when the server
sent a value.  Its last line returns true for a reply of any other type as
well, where `SetString` returns false; and each of its ways to the end goes
through a `LOG_*`, which may throw.  So its answer can be relied on exactly
when the log works and the reply, if there is one, is a bulk string.
-/

namespace MGServer.Ports.RedisHandle

open MGServer.Verified.ByteString
open MGServer.Verified.Transition
open MGServer.Ports.Hiredis

variable {σ : Type}

/-- The reply that came back between two states of the handle. -/
def replyBetween (s s' : State σ) : Option Reply :=
  (s'.trace.drop s.trace.length).findSome? fun
    | .redisCommand _ _ _ _ _ (some a) => some a.reply
    | _ => none

/-- True with the text of a bulk string, false with `StrValue` untouched
otherwise. -/
def Truthful (StrValue : Bytes) (got : Option Reply) (result : Bool × Bytes) : Prop :=
  match got with
  | some (.string str) => result = (true, cstr str)
  | _ => result = (false, StrValue)

/-- `GetString` returns, and what it returns is true of the server's reply. -/
def getStringTruthful (serve : σ → List Bytes → σ × Reply) (s : State σ) (w : Weather)
    (StrKey StrValue : Bytes) : Prop :=
  ∃ result s', getString serve s w StrKey StrValue = some (.returned result, s') ∧
    Truthful StrValue (replyBetween s s') result

/-- `reply->type == REDIS_REPLY_STRING`. -/
def isBulk : Reply → Bool
  | .string _ => true
  | _ => false

/-- What the server answers, if the command gets through, to this `GET`. -/
def getReply (serve : σ → List Bytes → σ × Reply) (s : State σ) (w : Weather)
    (StrKey : Bytes) : Reply :=
  (execute serve w s.server [bytesOf "GET", cstr StrKey]).2

/-! ## The reply in the trace -/

theorem findSome_connecting {es : List HiredisCall}
    (hEs : ∀ e ∈ es, HiredisCall.Connecting e) :
    (es.findSome? fun
      | .redisCommand _ _ _ _ _ (some a) => some a.reply
      | _ => none) = none := by
  apply List.findSome?_eq_none_iff.2
  intro e he
  rcases hEs e he with ⟨ctx, rfl⟩ | ⟨got, rfl⟩
  · rfl
  · rfl

theorem replyBetween_relinked (s : State σ) (answer : Connect) :
    replyBetween s (s.logging.relinked answer) = none := by
  obtain ⟨es, hTrace, hEs⟩ := relinked_trace s.logging answer
  rw [replyBetween, hTrace, logging_trace, List.drop_left]
  exact findSome_connecting hEs

theorem replyBetween_sent (s : State σ) (w : Weather) (logs : Bool) (server : σ)
    (c : Context) (ctx call : Nat) (format : String) (args : List Bytes)
    (reply : Option Answer) :
    replyBetween s ((s.linkedFor w).sent logs server c
      (commandEntries ctx call format args logs reply)) =
        reply.map fun a => a.reply := by
  obtain ⟨es, hTrace, hEs⟩ := linkedFor_trace s w
  have hSent : ((s.linkedFor w).sent logs server c
      (commandEntries ctx call format args logs reply)).trace =
      s.trace ++ (es ++ commandEntries ctx call format args logs reply) := by
    show (s.linkedFor w).trace ++ _ = _
    rw [hTrace, List.append_assoc]
  rw [replyBetween, hSent, List.drop_left, List.findSome?_append,
    findSome_connecting hEs]
  cases reply <;> cases logs <;> rfl

theorem reaches_linked {s : State σ} {w : Weather} (hReaches : s.reaches w = true) :
    s.connected = true ∨ s.RedisInfo = true := by
  simp only [State.reaches, Bool.or_eq_true, Bool.and_eq_true] at hReaches
  exact hReaches.imp_right And.left

/-- **Truthful answers.** In every state the handle can be in after calm
weather, whatever this call meets, `GetString` answers truthfully exactly when
its `LOG_*` return, it can return at all (it is connected, or `Init` has been
called) and the reply, if the command gets through, is a bulk string. -/
theorem getString_truthful_iff {serve : σ → List Bytes → σ × Reply} {logger : Bool}
    {server : σ} {ops : List Op} {s : State σ} (hCalm : Calm ops)
    (hRun : run (step serve) (State.init logger server) ops = some s) (w : Weather)
    (StrKey StrValue : Bytes) :
    getStringTruthful serve s w StrKey StrValue ↔
      s.logs w = true ∧ (s.connected = true ∨ s.RedisInfo = true) ∧
      (s.reaches w = true → w.answers = true →
        isBulk (getReply serve s w StrKey) = true) := by
  have hReady := run_ready (init_ready logger server) hCalm hRun
  have hOutcome := exchange_outcome serve hReady w (format_get StrKey)
  unfold exchange at hOutcome
  unfold getStringTruthful getString Parts.getString
  generalize (parts serve).exchange w "GET %s" [StrKey] s = result at hOutcome
  cases hOutcome with
  | mute hDown hMute => simp [hMute, Ended.map]
  | crashed hDown hLogs hInfo => simp [hDown, hInfo]
  | refused hDown hLogs hInfo hConnect =>
      have hNot : s.reaches w = false := by simp [State.reaches, hDown, hConnect]
      simp only [hNot, hInfo, hLogs, Option.map_some, Ended.map]
      simp [Truthful, replyBetween_relinked]
  | lost hReaches hLogs hAnswers hc hErr hConn hServer =>
      cases hLog : s.logs w with
      | false => simp [endedIf, Ended.map]
      | true =>
          simp only [hAnswers, reaches_linked hReaches, Option.map_some, Ended.map,
            endedIf, if_true]
          simp [Truthful, replyBetween_sent]
  | @answered c a hReaches hLogs hAnswers hc hIdle hAnswer =>
      have hReply : a.reply = getReply serve s w StrKey := by
        rw [hAnswer]
        rfl
      cases hLog : s.logs w with
      | false => simp [endedIf, Ended.map]
      | true =>
          simp only [hAnswers, hReaches, reaches_linked hReaches, Option.map_some,
            Option.some.injEq, Prod.mk.injEq, true_and, forall_const, ← hReply, endedIf,
            if_true, Ended.map, Ended.returned.injEq]
          constructor
          · rintro ⟨result, s', ⟨rfl, rfl⟩, hTruthful⟩
            rw [replyBetween_sent] at hTruthful
            cases hKind : a.reply <;>
              simp [Truthful, isBulk, hKind, parts, assignValue] at hTruthful ⊢
          · intro hBulk
            refine ⟨_, _, ⟨rfl, rfl⟩, ?_⟩
            rw [replyBetween_sent]
            cases hKind : a.reply <;>
              simp [Truthful, isBulk, hKind, parts, assignValue] at hBulk ⊢

/-- A server with one answer. -/
def fixedServer (answer : Reply) (_ : Unit) (_argv : List Bytes) :
    Unit × Reply := ((), answer)

def connectedRun : List Op := [⟨.init, true, fair⟩]

theorem getString_truthful_iff_found :
    ∃ s, run (step (fixedServer (.string (bytesOf "v")))) (State.init false ())
        connectedRun = some s ∧
      getStringTruthful (fixedServer (.string (bytesOf "v"))) s fair (bytesOf "k")
        (bytesOf "old") := by
  have hSome : (run (step (fixedServer (.string (bytesOf "v")))) (State.init false ())
      connectedRun).isSome = true := by decide +kernel
  obtain ⟨s, hRun⟩ := Option.isSome_iff_exists.1 hSome
  have hUp : (run (step (fixedServer (.string (bytesOf "v")))) (State.init false ())
      connectedRun).all (fun s => s.connected) = true := by decide +kernel
  rw [hRun] at hUp
  refine ⟨s, hRun,
    (getString_truthful_iff (by decide) hRun fair (bytesOf "k") (bytesOf "old")).2 ?_⟩
  exact ⟨Bool.or_true _, Or.inl hUp, fun _ _ => rfl⟩

/-- What `GetString` does on a fresh connection, and the reply it got. -/
private def firstGet (answer : Reply) (w : Weather) :
    Option (Ended (Bool × Bytes) × Option Reply) :=
  (run (step (fixedServer answer)) (State.init false ()) connectedRun).bind fun s =>
    (getString (fixedServer answer) s w (bytesOf "k") (bytesOf "old")).map fun got =>
      (got.1, replyBetween s got.2)

private theorem not_truthful_of_firstGet {answer : Reply} {w : Weather}
    {ended : Ended (Bool × Bytes)} {reply : Option Reply}
    (hGet : firstGet answer w = some (ended, reply))
    (hNot : ∀ result, ended = .returned result →
    ¬ Truthful (bytesOf "old") reply result) :
    ∃ s, run (step (fixedServer answer)) (State.init false ()) connectedRun = some s ∧
      ¬ getStringTruthful (fixedServer answer) s w (bytesOf "k") (bytesOf "old") := by
  obtain ⟨s, hRun, hRest⟩ := Option.bind_eq_some_iff.1 hGet
  refine ⟨s, hRun, ?_⟩
  rintro ⟨result, s', hReturns, hTruthful⟩
  rw [hReturns] at hRest
  simp only [Option.map_some, Option.some.injEq, Prod.mk.injEq] at hRest
  obtain ⟨rfl, rfl⟩ := hRest
  exact hNot result rfl hTruthful

/-- The key is missing, the server says so, and `GetString` returns true.  And
the server answers with a bulk string, but there is no logger. -/
theorem getString_untruthful_missing :
    (∃ s, run (step (fixedServer .nil)) (State.init false ()) connectedRun = some s ∧
      ¬ getStringTruthful (fixedServer .nil) s fair (bytesOf "k") (bytesOf "old")) ∧
    ∃ s, run (step (fixedServer (.string (bytesOf "v")))) (State.init false ())
        connectedRun = some s ∧
      ¬ getStringTruthful (fixedServer (.string (bytesOf "v"))) s
        { fair with logger := false }
        (bytesOf "k") (bytesOf "old") := by
  constructor
  · have hGet : firstGet .nil fair =
        some (.returned (true, bytesOf "old"), some .nil) := by decide +kernel
    refine not_truthful_of_firstGet hGet ?_
    rintro result ⟨⟩ hTruthful
    cases hTruthful
  · have hGet : firstGet (.string (bytesOf "v")) { fair with logger := false } =
        some (.threw, some (.string (bytesOf "v"))) := by decide +kernel
    refine not_truthful_of_firstGet hGet ?_
    intro result hReturns
    cases hReturns

end MGServer.Ports.RedisHandle
