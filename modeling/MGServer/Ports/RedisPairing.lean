import MGServer.Ports.RedisOutcome
import Mathlib.Data.List.Range

/-!
# Which reply a call reads

`redisCommand` hands out the next reply of its context, whatever that reply
answers.  The handle reads the right one because a context without an error
has nothing outstanding, and one with an error is freed before the next
command: a reply that arrives late arrives on a connection that is gone.  An
interrupted write would leave its command outstanding on a context without an
error, so the weather is to be calm.
-/

namespace MGServer.Ports.RedisHandle

open MGServer.Verified.ByteString
open MGServer.Verified.Transition
open MGServer.Ports.Hiredis

variable {σ : Type} {serve : σ → List Bytes → σ × Reply}

/-- The numbers of the `redisCommand` calls of a trace. -/
def callNumbers (trace : List HiredisCall) : List Nat :=
  trace.filterMap fun
    | .redisCommand _ _ call _ _ _ => some call
    | _ => none

/-- Every reply read so far answers the command of its own call, on the
connection that call used. -/
structure Paired (s : State σ) : Prop where
  ready : s.Ready
  numbers : callNumbers s.trace = List.range s.calls
  replies : ∀ call ctx a, .interpret call ctx a ∈ s.trace →
    ∃ format args argv, .redisCommand ctx false call format args (some a) ∈ s.trace ∧
      redisvFormatCommand format args = some argv ∧
      a.conn = ctx ∧ a.request = ⟨call, argv⟩

theorem init_paired (logger : Bool) (server : σ) :
    Paired (State.init logger server) where
  ready := init_ready logger server
  numbers := rfl
  replies := by intro call ctx a hMem; cases hMem

/-- A reply read earlier stays paired when the trace grows. -/
private theorem Paired.older {s : State σ} (hPaired : Paired s)
    {trace new : List HiredisCall} (hTrace : trace = s.trace ++ new) {call ctx : Nat}
    {a : Answer} (hOld : .interpret call ctx a ∈ s.trace) :
    ∃ format args argv, .redisCommand ctx false call format args (some a) ∈ trace ∧
      redisvFormatCommand format args = some argv ∧
      a.conn = ctx ∧ a.request = ⟨call, argv⟩ := by
  obtain ⟨format, args, argv, hSent, hRest⟩ := hPaired.replies call ctx a hOld
  refine ⟨format, args, argv, ?_, hRest⟩
  rw [hTrace]
  exact List.mem_append_left _ hSent

theorem callNumbers_append (pre post : List HiredisCall) :
    callNumbers (pre ++ post) = callNumbers pre ++ callNumbers post :=
  List.filterMap_append

theorem callNumbers_connecting {es : List HiredisCall}
    (hEs : ∀ e ∈ es, HiredisCall.Connecting e) : callNumbers es = [] := by
  apply List.filterMap_eq_nil_iff.2
  intro e he
  rcases hEs e he with ⟨ctx, rfl⟩ | ⟨got, rfl⟩
  · rfl
  · rfl

/-- Opening and freeing contexts reads no reply. -/
theorem Paired.connecting {s s' : State σ} {es : List HiredisCall} (hPaired : Paired s)
    (hTrace : s'.trace = s.trace ++ es) (hEs : ∀ e ∈ es, HiredisCall.Connecting e)
    (hCalls : s'.calls = s.calls) (hReady : s'.Ready) : Paired s' := by
  refine { ready := hReady, numbers := ?_, replies := ?_ }
  · rw [hTrace, callNumbers_append, callNumbers_connecting hEs, List.append_nil, hCalls,
      hPaired.numbers]
  · intro call ctx a hMem
    rw [hTrace, List.mem_append] at hMem
    rcases hMem with hOld | hNew
    · exact hPaired.older hTrace hOld
    · rcases hEs _ hNew with ⟨ctx', hEq⟩ | ⟨got, hEq⟩
      · cases hEq
      · cases hEq

theorem Paired.relinked {s : State σ} (hPaired : Paired s) (answer : Connect) :
    Paired (s.relinked answer) := by
  obtain ⟨es, hTrace, hEs⟩ := relinked_trace s answer
  exact hPaired.connecting hTrace hEs (relinked_calls s answer)
    (relinked_ready s answer)

theorem Paired.same {s : State σ} (hPaired : Paired s) (s' : State σ)
    (hTrace : s'.trace = s.trace)
    (hCalls : s'.calls = s.calls) (hContext : s'.RedisContext = s.RedisContext) :
    Paired s' := by
  have hNone : s'.trace = s.trace ++ [] := by rw [hTrace, List.append_nil]
  refine hPaired.connecting hNone (by simp) hCalls ?_
  intro c hc
  exact hPaired.ready c (hContext ▸ hc)

theorem Paired.linkedFor {s : State σ} (hPaired : Paired s) (w : Weather) :
    Paired (s.linkedFor w) := by
  unfold State.linkedFor
  split
  · exact hPaired
  · exact (hPaired.same s.logging rfl rfl rfl).relinked w.connect

/-- A command that is sent has the next number, and its reply is read by the
call that sent it. -/
theorem Paired.sent {s : State σ} (hPaired : Paired s) {logs : Bool} {server : σ}
    {ctx : Nat} {c : Context} {format : String} {args argv : List Bytes}
    {reply : Option Answer} (hFormat : redisvFormatCommand format args = some argv)
    (hAnswer : ∀ a, reply = some a → a.conn = ctx ∧ a.request = ⟨s.calls, argv⟩)
    (hReady : c.err = false → c.Idle) :
    Paired (s.sent logs server c
      (commandEntries ctx s.calls format args logs reply)) := by
  have hReads : ∀ call ctx' a, .interpret call ctx' a ∈
      commandEntries ctx s.calls format args logs reply →
      call = s.calls ∧ ctx' = ctx ∧ reply = some a := by
    intro call ctx' a hMem
    cases reply <;> cases logs <;> simp_all [commandEntries]
  refine { ready := ?_, numbers := ?_, replies := ?_ }
  · intro d hd hErr
    cases hd
    exact hReady hErr
  · show callNumbers (s.trace ++ _) = List.range (s.calls + 1)
    rw [callNumbers_append, hPaired.numbers, List.range_succ]
    congr 1
    cases reply <;> cases logs <;> rfl
  · intro call ctx' a hMem
    rcases List.mem_append.1 hMem with hOld | hNew
    · exact hPaired.older rfl hOld
    · -- the reply just read: it answers the command just sent
      obtain ⟨rfl, rfl, hReply⟩ := hReads _ _ _ hNew
      refine ⟨format, args, argv, ?_, hFormat, hAnswer a hReply⟩
      apply List.mem_append_right
      rw [hReply]
      exact List.mem_cons_self

/-- **Every call in calm weather keeps replies and commands paired.** -/
theorem step_paired {s s' : State σ} {op : Op} (hPaired : Paired s)
    (hCalm : op.weather.calm = true) (hStep : step serve s op = some s') :
    Paired s' := by
  rcases step_cases hPaired.ready hStep with
    ⟨_, hReset⟩ | ⟨_, format, args, argv, ended, hFormat, hOutcome⟩
  · cases hReset with
    | unset hInfo => exact hPaired.same _ rfl rfl rfl
    | mute hInfo hMute => exact hPaired.same _ rfl rfl rfl
    | @relinked _ logger hKept =>
        exact (hPaired.same
          { s with RedisInfo := true, RotatingLogger := logger } rfl rfl rfl).relinked _
  · have hLinked := hPaired.linkedFor op.weather
    cases hOutcome with
    | mute hDown hMute => exact hPaired
    | refused hDown hLogs hInfo hConnect =>
        exact (hPaired.same s.logging rfl rfl rfl).relinked _
    | lost hReaches hLogs hAnswers hc hErr hConn hServer =>
        rw [← linkedFor_calls s op.weather]
        refine hLinked.sent hFormat (by simp) ?_
        intro hOk
        rw [hErr hCalm] at hOk
        cases hOk
    | answered hReaches hLogs hAnswers hc hIdle hAnswer =>
        rw [← linkedFor_calls s op.weather]
        refine hLinked.sent hFormat ?_ (fun _ => hIdle)
        intro b hb
        cases hb
        rw [hAnswer, linkedFor_calls]
        exact ⟨rfl, rfl⟩

theorem run_paired {ops : List Op} {s s' : State σ}
    (hPaired : Paired s) (hCalm : Calm ops) (hRun : run (step serve) s ops = some s') :
    Paired s' :=
  run_preserves_on (step serve) (Q := fun op => op.weather.calm = true)
    (fun _ _ _ hOp hS hStep => step_paired hS hOp hStep) hCalm hPaired hRun

/-- **Reply pairing.** In every run whose weather is calm, whatever else each
call meets, a reply that a call reads answers the command that this call sent,
and arrived on the connection that the command went out on. -/
theorem replies_paired {ops : List Op} {logger : Bool} {server : σ} {s : State σ}
    (hCalm : Calm ops) (hRun : run (step serve) (State.init logger server) ops = some s)
    {call ctx : Nat} {a : Answer} (hRead : .interpret call ctx a ∈ s.trace) :
    (callNumbers s.trace).Nodup ∧
    ∃ format args argv, .redisCommand ctx false call format args (some a) ∈ s.trace ∧
      redisvFormatCommand format args = some argv ∧
      a.conn = ctx ∧ a.request = ⟨call, argv⟩ := by
  have hPaired := run_paired (init_paired logger server) hCalm hRun
  refine ⟨?_, hPaired.replies call ctx a hRead⟩
  rw [hPaired.numbers]
  exact List.nodup_range

/-- A server that answers its `n`-th command with `n`. -/
def countingServer (n : Nat) (_argv : List Bytes) : Nat × Reply := (n + 1, .integer n)

/-- Everything works. -/
def fair : Weather := ⟨.good, true, .sent, none, .received 0, true⟩

/-- The `SET` is executed and its reply never read; the `GET` that follows is
answered on a new connection. -/
def lateReplyRun : List Op :=
  [⟨.init, true, fair⟩,
    ⟨.setString (bytesOf "k") (bytesOf "v"), true, { fair with receiving := .broken }⟩,
    ⟨.getString (bytesOf "k") [], true, fair⟩]

theorem replies_paired_lateReplyRun :
    ∃ s : State Nat,
      run (step countingServer) (State.init false 0) lateReplyRun = some s ∧
      ∃ a, .interpret 1 1 a ∈ s.trace ∧ a.reply = .integer 1 ∧
        (callNumbers s.trace).Nodup ∧
        ∃ format args argv, .redisCommand 1 false 1 format args (some a) ∈ s.trace ∧
          redisvFormatCommand format args = some argv ∧
          a.conn = 1 ∧ a.request = ⟨1, argv⟩ := by
  have hSome :
      (run (step countingServer) (State.init false 0) lateReplyRun).isSome = true := by
    decide +kernel
  obtain ⟨s, hRun⟩ := Option.isSome_iff_exists.1 hSome
  have hTrace :
      (run (step countingServer) (State.init false 0) lateReplyRun).all (fun s =>
      decide (.interpret 1 1 ⟨1, ⟨1, [bytesOf "GET", bytesOf "k"]⟩,
        .integer 1⟩ ∈ s.trace)) =
      true := by decide +kernel
  rw [hRun] at hTrace
  have hRead := of_decide_eq_true hTrace
  exact ⟨s, hRun, _, hRead, rfl, replies_paired (by decide) hRun hRead⟩

end MGServer.Ports.RedisHandle
