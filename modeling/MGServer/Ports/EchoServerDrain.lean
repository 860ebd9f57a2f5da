import MGServer.Ports.EchoServerIntegrity

/-!
# The end of a client's stream

On `UV_EOF` the callback closes the handle at once.  The peer has only shut
down its sending side and may still be reading, but whatever its write queue
holds at that moment is cancelled.  Whether anything is lost is decided by the
socket alone: nothing is, exactly when the bytes it has taken by then are as
many as the bytes the client's reads delivered.
-/

namespace MGServer.Ports.EchoServer

open MGServer.Verified.BlockHeap
open MGServer.Verified.Transition

variable {β : Type}

/-- No request of the client is incomplete, and all it sent has been written
back. -/
def WrittenBack (evs : List (Event β)) (a : Nat) (c : Client β) : Prop :=
  c.writeQueue = [] ∧ c.wire = deliveredBy a evs

/-- A queued request has something left to send. -/
theorem writeQueue_eq_nil_of_backlog {h : Heap (Block β)} {c : Client β}
    (hOk : ClientOk h c) (hBacklog : backlog h c = []) : c.writeQueue = [] := by
  cases hQueue : c.writeQueue with
  | nil => rfl
  | cons r queue =>
      obtain ⟨w, b, bytes, off, hReq⟩ := hOk.queued r (by rw [hQueue]; simp)
      rw [backlog_cons hQueue, List.append_eq_nil_iff] at hBacklog
      have hLeft := hReq.left
      rw [← hReq.unsent_length, hBacklog.1] at hLeft
      exact absurd hLeft (Nat.lt_irrefl 0)

theorem readStop_opened {s s' : State β} {a : Nat} {c : Client β} {status : Int}
    {withBuf : Bool} (hClient : s.clients a = some c)
    (hStep : step s (.readStop a status withBuf) = some s') : c.phase = .opened := by
  rw [step_of_client rfl, hClient] at hStep
  simp only [Option.bind_some, stepClient] at hStep
  split at hStep
  · rename_i hEnabled
    exact hEnabled.1
  · cases hStep

/-- As long as the client is open, nothing is missing exactly when the count
of bytes agrees. -/
theorem ClientLog.written_back_iff {evs : List (Event β)} {a : Nat}
    {h : Heap (Block β)} {c : Client β} (hLog : ClientLog evs a h c)
    (hOk : ClientOk h c) (hPhase : c.phase = .opened) :
    WrittenBack evs a c ↔ acceptedBy a evs = (deliveredBy a evs).length := by
  have hFaith := hLog.faithful
  rw [← hLog.wire, ← hLog.delivered, WrittenBack, ← hLog.delivered]
  constructor
  · rintro ⟨-, hWire⟩
    rw [hWire]
  · intro hLen
    have hNone : c.failedAt = none := by
      cases hFail : c.failedAt with
      | none => rfl
      | some k =>
          have hLost := (hFaith.lost k hFail).2
          rw [List.length_append] at hLost
          omega
    have hIntact := hFaith.intact hNone (by rw [hPhase]; simp)
    have hBacklog : backlog h c = [] := by
      have hSum := congrArg List.length hIntact
      rw [List.length_append] at hSum
      exact List.length_eq_zero_iff.1 (by omega)
    rw [hBacklog, List.append_nil] at hIntact
    exact ⟨writeQueue_eq_nil_of_backlog hOk hBacklog, hIntact⟩

/-- **What an orderly end of stream drops.** In every run, at every `UV_EOF`
of every client: all bytes have been written back if and only if the socket
has taken as many bytes as the client's reads delivered. -/
theorem written_back_at_eof_iff {evs : List (Event β)} {s s' : State β} {a : Nat}
    {c : Client β} {withBuf : Bool} (hRun : run step State.init evs = some s)
    (hClient : s.clients a = some c)
    (hEof : step s (.readStop a uvEof withBuf) = some s') :
    WrittenBack evs a c ↔ acceptedBy a evs = (deliveredBy a evs).length := by
  have hLogged := run_logged hRun
  exact (hLogged.clients a c hClient).written_back_iff
    (hLogged.inv.clients a c hClient) (readStop_opened hClient hEof)

/-- A run, one of its clients and an event enabled after it. -/
private theorem exists_enabled {evs : List (Event β)} {a : Nat} {e : Event β}
    (hClient : ((run step State.init evs).bind fun s => s.clients a).isSome = true)
    (hEvent : ((run step State.init evs).bind fun s => step s e).isSome = true) :
    ∃ s c s', run step State.init evs = some s ∧ s.clients a = some c ∧
      step s e = some s' := by
  obtain ⟨c, hc⟩ := Option.isSome_iff_exists.1 hClient
  obtain ⟨s, hRun, hs⟩ := Option.bind_eq_some_iff.1 hc
  rw [hRun, Option.bind_some] at hEvent
  obtain ⟨s', hStep⟩ := Option.isSome_iff_exists.1 hEvent
  exact ⟨s, c, s', hRun, hs, hStep⟩

/-- One client sends three bytes; its socket takes `taken` of them before its
end of stream. -/
def eofRun (taken : Nat) : List (Event Nat) :=
  [.newConnection 0 1 true, .allocCb 1 10 [0, 0, 0, 0], .readData 1 [7, 8, 9] 11,
    .written 1 taken, .allocCb 1 12 [0, 0, 0, 0]]

theorem written_back_at_eof_iff_eofRun :
    ∃ s c s', run step State.init (eofRun 3) = some s ∧ s.clients 1 = some c ∧
      step s (.readStop 1 uvEof true) = some s' ∧
      (WrittenBack (eofRun 3) 1 c ↔
        acceptedBy 1 (eofRun 3) = (deliveredBy 1 (eofRun 3)).length) := by
  obtain ⟨s, c, s', hRun, hClient, hEof⟩ :
      ∃ s c s', run step State.init (eofRun 3) = some s ∧ s.clients 1 = some c ∧
        step s (.readStop 1 uvEof true) = some s' :=
    exists_enabled (by decide +kernel) (by decide +kernel)
  exact ⟨s, c, s', hRun, hClient, hEof, written_back_at_eof_iff hRun hClient hEof⟩

/-- The socket takes one byte of three before the end of stream: the other two
are still queued when the handle is closed. -/
theorem eof_with_queued_request :
    ¬ ∀ (evs : List (Event Nat)) (s s' : State Nat) (a : Nat) (c : Client Nat)
      (withBuf : Bool), run step State.init evs = some s → s.clients a = some c →
      step s (.readStop a uvEof withBuf) = some s' → WrittenBack evs a c := by
  intro hAll
  obtain ⟨s, c, s', hRun, hClient, hEof⟩ :
      ∃ s c s', run step State.init (eofRun 1) = some s ∧ s.clients 1 = some c ∧
        step s (.readStop 1 uvEof true) = some s' :=
    exists_enabled (by decide +kernel) (by decide +kernel)
  have hQueue : ((run step State.init (eofRun 1)).bind fun s => s.clients 1).map
      Client.writeQueue = some [11] := by decide +kernel
  rw [hRun, Option.bind_some, hClient, Option.map_some,
    (hAll _ s s' 1 c true hRun hClient hEof).1] at hQueue
  cases hQueue

end MGServer.Ports.EchoServer
