import MGServer.Ports.RedisMembers
import MGServer.Verified.Transition

/-!
# The Redis handle

The members of `RedisMembers.lean` over the hiredis of `Hiredis.lean`.  A step
is one call of a public member, with the `Weather` it meets; after a member
that threw the run goes on with what that left.  The handle keeps a trace of
what it asks of hiredis, with contexts named by their connection and replies by
what they answer.
-/

namespace MGServer.Ports.RedisHandle

open MGServer.Verified.ByteString
open MGServer.Verified.Transition
open MGServer.Ports.Hiredis

/-- What the handle asks of hiredis, in order.  `interpret` is the handle
reading `type` and `str` of the reply that call number `call` got. -/
inductive HiredisCall where
  | redisConnect (got : Option Nat)
  | redisFree (ctx : Option Nat)
  | redisCommand (ctx : Nat) (err : Bool) (call : Nat) (format : String)
      (args : List Bytes) (reply : Option Answer)
  | interpret (call : Nat) (ctx : Nat) (reply : Answer)
  | freeReplyObject (reply : Option Answer)
  deriving Repr, DecidableEq

/-- The handle, the server it talks to, and counters that name connections and
calls.  `RedisInfo` says whether the `shared_ptr` is set, `RotatingLogger`
whether the log has its logger; on MSVC, where the log needs none, it always
has. -/
structure State (σ : Type) where
  RedisInfo : Bool
  RotatingLogger : Bool
  RedisContext : Option Context
  server : σ
  connects : Nat
  calls : Nat
  trace : List HiredisCall

/-- A reply in the hands of the member that sent call number `call` on the
connection `ctx`. -/
structure Received where
  call : Nat
  ctx : Nat
  answer : Answer
  deriving Repr, DecidableEq

variable {σ : Type}

/-- The constructor; `logger` says whether the log has been in use before. -/
def State.init (logger : Bool) (server : σ) : State σ :=
  ⟨false, logger, none, server, 0, 0, []⟩

def State.log (s : State σ) (entry : HiredisCall) : State σ :=
  { s with trace := s.trace ++ [entry] }

/-- A context came back from `redisConnectWithTimeout`. -/
def State.attach (s : State σ) (err : Bool) : State σ :=
  State.log
    { s with
      RedisContext := some (Context.fresh s.connects err)
      connects := s.connects + 1 }
    (.redisConnect (some s.connects))

/-- A `LOG_*` in this weather returns. -/
def State.logs (s : State σ) (w : Weather) : Bool := s.RotatingLogger || w.logger

section Members

variable (serve : σ → List Bytes → σ × Reply)

/-- The call of `redisCommand` in the two members, and its reply. -/
def command (w : Weather) (format : String) (args : List Bytes) (s : State σ) :
    Option (Option Received × State σ) :=
  match s.RedisContext with
  | none => none
  | some c =>
      let (server, c', reply) := redisCommand serve w s.server c s.calls format args
      some (reply.map fun a => ⟨s.calls, c.conn, a⟩,
        State.log
          { s with server := server, RedisContext := some c', calls := s.calls + 1 }
          (.redisCommand c.conn c.err s.calls format args reply))

/-- The handle over this hiredis. -/
def parts : Parts (State σ) Weather Received where
  RedisInfo s := s.RedisInfo
  setRedisInfo info s := { s with RedisInfo := info }
  err s := s.RedisContext.map Context.err
  redisFree s := s.log (.redisFree (s.RedisContext.map Context.conn))
  redisConnectWithTimeout w s :=
    match w.connect with
    | .null => State.log { s with RedisContext := none } (.redisConnect none)
    | .errored => s.attach true
    | .good => s.attach false
  redisCommand := command serve
  interpret r s := s.log (.interpret r.call r.ctx r.answer)
  freeReplyObject r s := s.log (.freeReplyObject (r.map Received.answer))
  reply r := r.answer.reply
  LOG w s := if s.logs w then some { s with RotatingLogger := true } else none

def exchange (s : State σ) (w : Weather) (format : String) (args : List Bytes) :
    Option (Ended (Option Received) × State σ) :=
  (parts serve).exchange w format args s

def setString (s : State σ) (w : Weather) (StrKey StrValue : Bytes) :
    Option (Ended Bool × State σ) :=
  (parts serve).setString w StrKey StrValue s

def getString (s : State σ) (w : Weather) (StrKey StrValue : Bytes) :
    Option (Ended (Bool × Bytes) × State σ) :=
  (parts serve).getString w StrKey StrValue s

/-! ## Runs -/

/-- A call and what it meets. -/
structure Op where
  call : Call
  info : Bool
  weather : Weather
  deriving Repr, DecidableEq

/-- One call, with what it returns. -/
def perform (s : State σ) (op : Op) : Option (Ended (Bool × Bytes) × State σ) :=
  (parts serve).perform op.call op.info op.weather s

def step (s : State σ) (op : Op) : Option (State σ) := (perform serve s op).map Prod.snd

end Members

/-- The handle's destructor. -/
def destroy (s : State σ) : State σ :=
  State.log { s with RedisContext := none }
    (.redisFree (s.RedisContext.map Context.conn))

/-- Construction, the given calls, destruction. -/
def lifetime (serve : σ → List Bytes → σ × Reply) (logger : Bool) (server : σ)
    (ops : List Op) : Option (State σ) :=
  (run (step serve) (State.init logger server) ops).map destroy

/-- No write is interrupted in these calls. -/
def Calm (ops : List Op) : Prop := ∀ op ∈ ops, op.weather.calm = true

instance (ops : List Op) : Decidable (Calm ops) :=
  inferInstanceAs (Decidable (∀ op ∈ ops, op.weather.calm = true))

/-! ## What a context is between calls -/

/-- `RedisContext == nullptr || RedisContext->err != 0` does not hold. -/
def State.connected (s : State σ) : Bool :=
  match s.RedisContext with
  | some c => !c.err
  | none => false

/-- The handle's context is idle unless it has an error. -/
def State.Ready (s : State σ) : Prop :=
  ∀ c, s.RedisContext = some c → c.err = false → c.Idle

theorem init_ready (logger : Bool) (server : σ) : (State.init logger server).Ready := by
  intro c hc
  cases hc

theorem parts_connected (serve : σ → List Bytes → σ × Reply) (s : State σ) :
    (parts serve).connected s = s.connected := by
  unfold Parts.connected State.connected
  cases hc : s.RedisContext with
  | none => simp [parts, hc]
  | some c => cases hErr : c.err <;> simp [parts, hc, hErr]

end MGServer.Ports.RedisHandle
