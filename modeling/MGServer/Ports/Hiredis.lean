import MGServer.Verified.ByteString

/-!
# The blocking side of hiredis

Port of the part of `hiredis/linux/hiredis.c` behind `redisCommand` on a
blocking context: formatting, the output buffer, the reader, and the two loops
of `redisGetReply`.  What the network and the server do during one call is a
`Weather`: memory may run out, the write may break off after some of the
buffered commands have reached the server, the server may refuse a command
with an error, the read may break off before a reply is complete.  A signal may
interrupt the write: then `redisCommand` returns null as well, but `err` is not
set and what was not written stays in the output buffer.  A weather without
that is `calm`.

A command carries the number of the call that issued it and a reply the
connection and the command it answers.  Redis answers the commands of one
connection in order, so the replies on their way form a queue; nothing in
`redisGetReply` looks at which command a reply belongs to.
-/

namespace MGServer.Ports.Hiredis

open MGServer.Verified.ByteString

/-- `redisReply`, by its `type`. -/
inductive Reply where
  | string (str : Bytes)
  | array (length : Nat)
  | integer (value : Int)
  | nil
  | status (str : Bytes)
  | error (str : Bytes)
  deriving Repr, DecidableEq

/-- A command in the output buffer, with the number of its call. -/
structure Request where
  call : Nat
  argv : List Bytes
  deriving Repr, DecidableEq

/-- A reply on its way, with what it answers. -/
structure Answer where
  conn : Nat
  request : Request
  reply : Reply
  deriving Repr, DecidableEq

/-- `redisContext`: the connection it is on, `err`, the commands in `obuf`,
the replies that the server has sent and the context has not read, and those
the reader has parsed and not handed out. -/
structure Context where
  conn : Nat
  err : Bool
  obuf : List Request
  wire : List Answer
  reader : List Answer
  deriving Repr, DecidableEq

def Context.fresh (conn : Nat) (err : Bool) : Context := ⟨conn, err, [], [], []⟩

/-- How the write loop ends. -/
inductive Sending where
  | sent
  | brokenAfter (reached : Nat)
  | interruptedAfter (reached : Nat)
  deriving Repr, DecidableEq

/-- How the read loop ends; a read may bring further replies along. -/
inductive Receiving where
  | received (more : Nat)
  | broken
  deriving Repr, DecidableEq

/-- What `redisConnectWithTimeout` answers. -/
inductive Connect where
  | null
  | errored
  | good
  deriving Repr, DecidableEq

structure Weather where
  connect : Connect
  memory : Bool
  sending : Sending
  /-- The error the server answers with instead of executing. -/
  refusal : Option Bytes
  receiving : Receiving
  /-- A logger can be built, if there is none yet. -/
  logger : Bool
  deriving Repr, DecidableEq

/-- No write is interrupted. -/
def Weather.calm (w : Weather) : Bool :=
  match w.sending with
  | .interruptedAfter _ => false
  | _ => true

/-! ## `redisvFormatCommand` -/

/-- The loop over the format: the arguments finished, the one being built,
and whether it has been touched.  `%s` is the only conversion in use here. -/
def formatLoop : Bytes → List Bytes → List Bytes → Bytes → Bool → Option (List Bytes)
  | [], _, done, cur, touched => some (if touched then done ++ [cur] else done)
  | c :: rest, args, done, cur, touched =>
      if c = 37 then
        match rest, args with
        | 115 :: rest, arg :: args => formatLoop rest args done (cur ++ cstr arg) true
        | [], args => formatLoop [] args done (cur ++ [c]) true
        | _, _ => none
      else if c = 32 then
        if touched then formatLoop rest args (done ++ [cur]) [] false
        else formatLoop rest args done cur false
      else formatLoop rest args done (cur ++ [c]) true

/-- The argument vector that goes to the server. -/
def redisvFormatCommand (format : String) (args : List Bytes) : Option (List Bytes) :=
  formatLoop (bytesOf format) args [] [] false

/-! ## `redisCommand` -/

section Command

variable {σ : Type} (serve : σ → List Bytes → σ × Reply)

/-- The server takes one command. -/
def execute (w : Weather) (server : σ) (argv : List Bytes) : σ × Reply :=
  match w.refusal with
  | some text => (server, .error text)
  | none => serve server argv

/-- The server takes the commands of a connection in order and answers each. -/
def executeAll (w : Weather) (conn : Nat) : List Request → σ → σ × List Answer
  | [], server => (server, [])
  | req :: rest, server =>
      let (server, reply) := execute serve w server req.argv
      let (server, answers) := executeAll w conn rest server
      (server, ⟨conn, req, reply⟩ :: answers)

/-- `redisGetReply`: a reply already parsed is returned at once; otherwise the
output buffer is flushed and the next reply read. -/
def redisGetReply (w : Weather) (server : σ) (c : Context) :
    σ × Context × Option Answer :=
  match c.reader with
  | a :: rest => (server, { c with reader := rest }, some a)
  | [] =>
      if c.err then (server, c, none)
      else
        match w.sending with
        | .brokenAfter reached =>
            let (server, answers) :=
              executeAll serve w c.conn (c.obuf.take reached) server
            (server,
              { c with
                err := true
                obuf := c.obuf.drop reached
                wire := c.wire ++ answers },
              none)
        | .interruptedAfter reached =>
            -- the last command was not written in full, or the loop would have ended
            let front := c.obuf.dropLast.take reached
            let (server, answers) := executeAll serve w c.conn front server
            (server,
              { c with obuf := c.obuf.drop front.length, wire := c.wire ++ answers },
              none)
        | .sent =>
            let (server, answers) := executeAll serve w c.conn c.obuf server
            let c := { c with obuf := [], wire := c.wire ++ answers }
            match w.receiving, c.wire with
            | .received more, a :: rest =>
                (server, { c with wire := rest.drop more, reader := rest.take more },
                  some a)
            | _, _ => (server, { c with err := true }, none)

/-- `redisCommand`: append the formatted command and wait for a reply. -/
def redisCommand (w : Weather) (server : σ) (c : Context) (call : Nat)
    (format : String) (args : List Bytes) : σ × Context × Option Answer :=
  match redisvFormatCommand format args, w.memory with
  | some argv, true =>
      redisGetReply serve w server { c with obuf := c.obuf ++ [⟨call, argv⟩] }
  | _, _ => (server, { c with err := true }, none)

end Command

/-! ## A context with nothing outstanding -/

structure Context.Idle (c : Context) : Prop where
  err : c.err = false
  obuf : c.obuf = []
  wire : c.wire = []
  reader : c.reader = []

theorem fresh_idle (conn : Nat) : (Context.fresh conn false).Idle :=
  ⟨rfl, rfl, rfl, rfl⟩

/-- The command reaches the server and its reply comes back. -/
def Weather.answers (w : Weather) : Bool :=
  w.memory && decide (w.sending = .sent) && decide (w.receiving ≠ .broken)

section Idle

variable {σ : Type} (serve : σ → List Bytes → σ × Reply) {c : Context} (hIdle : c.Idle)
  (w : Weather) (server : σ) (call : Nat) {format : String} {args argv : List Bytes}
  (hFormat : redisvFormatCommand format args = some argv)

include hIdle hFormat

/-- The reply answers this very command and leaves the context idle. -/
theorem redisCommand_answered (hAnswers : w.answers = true) :
    redisCommand serve w server c call format args =
      ((execute serve w server argv).1, c,
        some ⟨c.conn, ⟨call, argv⟩, (execute serve w server argv).2⟩) := by
  obtain ⟨conn, err, obuf, wire, reader⟩ := c
  obtain ⟨hErr, hObuf, hWire, hReader⟩ := hIdle
  simp only at hErr hObuf hWire hReader
  subst hErr hObuf hWire hReader
  simp only [Weather.answers, Bool.and_eq_true, decide_eq_true_eq] at hAnswers
  obtain ⟨⟨hMemory, hSending⟩, hReceiving⟩ := hAnswers
  cases hRecv : w.receiving with
  | broken => exact absurd hRecv hReceiving
  | received more =>
      simp [redisCommand, redisGetReply, hFormat, hMemory, hSending, hRecv, executeAll]

/-- Without a reply the context is errored, unless the write was interrupted,
and the server may or may not have executed the command. -/
theorem redisCommand_lost (hAnswers : w.answers = false) :
    ∃ server' c', redisCommand serve w server c call format args = (server', c', none) ∧
      (w.calm = true → c'.err = true) ∧ c'.conn = c.conn ∧
      (server' = server ∨ server' = (execute serve w server argv).1) := by
  obtain ⟨conn, err, obuf, wire, reader⟩ := c
  obtain ⟨hErr, hObuf, hWire, hReader⟩ := hIdle
  simp only at hErr hObuf hWire hReader
  subst hErr hObuf hWire hReader
  unfold redisCommand
  rw [hFormat]
  cases hMemory : w.memory with
  | false => exact ⟨server, _, rfl, fun _ => rfl, rfl, Or.inl rfl⟩
  | true =>
      simp only [redisGetReply, List.nil_append, Bool.false_eq_true, if_false]
      cases hSend : w.sending with
      | brokenAfter reached =>
          cases reached with
          | zero => exact ⟨server, _, rfl, fun _ => rfl, rfl, Or.inl rfl⟩
          | succ n =>
              simp only [List.take_succ_cons, List.take_nil, executeAll]
              exact ⟨_, _, rfl, fun _ => rfl, rfl, Or.inr rfl⟩
      | interruptedAfter reached =>
          simp only [List.dropLast_singleton, List.take_nil, executeAll]
          refine ⟨server, _, rfl, ?_, rfl, Or.inl rfl⟩
          intro hCalm
          simp [Weather.calm, hSend] at hCalm
      | sent =>
          simp only [executeAll]
          cases hRecv : w.receiving with
          | broken => exact ⟨_, _, rfl, fun _ => rfl, rfl, Or.inr rfl⟩
          | received more => simp [Weather.answers, hMemory, hSend, hRecv] at hAnswers

end Idle

end MGServer.Ports.Hiredis
