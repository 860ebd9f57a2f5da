import MGServer.Ports.Hiredis

/-!
# The members of the Redis handle

Port of `server/source/RedisHandle.cpp` over whatever stands for the object,
for hiredis and for the log: these are the `Parts`.  A member that uses a null
`RedisInfo`, or sends a command on a null context, has no result.  It may also
end in an exception: off MSVC a `LOG_*` asks `GetRotatingLogger()`, which
throws while no logger can be built, and then the rest of the member is not
done.

Where the server is and on which port is left out: what connecting gives is
part of what a call meets.
-/

namespace MGServer.Ports.RedisHandle

open MGServer.Verified.ByteString
open MGServer.Ports.Hiredis

/-- How a member ends. -/
inductive Ended (α : Type) where
  | returned (value : α)
  | threw
  deriving Repr, DecidableEq

def Ended.map {α β : Type} (f : α → β) : Ended α → Ended β
  | .returned value => .returned (f value)
  | .threw => .threw

/-- What the members are made of: `S` is the object, `ω` what a call meets,
`ρ` a reply that is not null. -/
structure Parts (S ω ρ : Type) where
  /-- `RedisInfo` is set. -/
  RedisInfo : S → Bool
  setRedisInfo : Bool → S → S
  /-- `RedisContext->err != 0`, if `RedisContext` is not null. -/
  err : S → Option Bool
  redisFree : S → S
  redisConnectWithTimeout : ω → S → S
  redisCommand : ω → String → List Bytes → S → Option (Option ρ × S)
  /-- The member reads `type` and `str`. -/
  interpret : ρ → S → S
  freeReplyObject : Option ρ → S → S
  reply : ρ → Reply
  /-- A `LOG_*`, unless it throws. -/
  LOG : ω → S → Option S

/-- `reply->type == REDIS_REPLY_STATUS && replyStr.compare(reply->str) == 0`. -/
def isOk : Reply → Bool
  | .status str => decide (cstr str = bytesOf "OK")
  | _ => false

/-- What `StrValue` holds after the reply: `StrValue = reply->str` for a bulk
string. -/
def assignValue (StrValue : Bytes) : Reply → Bytes
  | .string str => cstr str
  | _ => StrValue

namespace Parts

section Members

variable {S ω ρ α : Type} (p : Parts S ω ρ)

/-- `RedisContext == nullptr || RedisContext->err != 0` does not hold. -/
def connected (s : S) : Bool := decide (p.err s = some false)

/-- A `LOG_*`, and what the member does behind it. -/
def logged (w : ω) (s : S) (rest : S → Option (Ended α × S)) : Option (Ended α × S) :=
  match p.LOG w s with
  | none => some (.threw, s)
  | some s => rest s

/-- `ConnectRedis` from the call of hiredis on. -/
def connect (w : ω) (s : S) : Option (Ended Bool × S) :=
  if p.RedisInfo s then
    let s := p.redisConnectWithTimeout w s
    if p.connected s then some (.returned true, s)
    else p.logged w s fun s => some (.returned false, s)
  else none

/-- `ConnectRedis`: free what is there, then connect. -/
def connectRedis (w : ω) (s : S) : Option (Ended Bool × S) :=
  if (p.err s).isSome then p.logged w s fun s => p.connect w (p.redisFree s)
  else p.connect w s

/-- `Init`; `info` says whether `GetRedisInfo()` gave a pointer. -/
def init (info : Bool) (w : ω) (s : S) : Option (Ended Bool × S) :=
  let s := p.setRedisInfo info s
  if info then p.connectRedis w s
  else p.logged w s fun s => some (.returned false, s)

/-- The first lines of `SetString` and `GetString`. -/
def ensureConnected (w : ω) (s : S) : Option (Ended Bool × S) :=
  if p.connected s then some (.returned true, s)
  else
    p.logged w s fun s => (p.connectRedis w s).bind fun
      | (.returned false, s) => p.logged w s fun s => some (.returned false, s)
      | ended => some ended

/-- What `SetString` and `GetString` do with what `redisCommand` returned: log
it and free it. -/
def consume (w : ω) : Option ρ → S → Option (Ended (Option ρ) × S)
  | none, s => p.logged w s fun s => some (.returned none, p.freeReplyObject none s)
  | some r, s =>
      p.logged w (p.interpret r s) fun s =>
        some (.returned (some r), p.freeReplyObject (some r) s)

/-- The body `SetString` and `GetString` share: connect if need be, send the
command, read its reply and free it.  No reply is either a connection that
could not be made or a null from `redisCommand`. -/
def exchange (w : ω) (format : String) (args : List Bytes) (s : S) :
    Option (Ended (Option ρ) × S) :=
  (p.ensureConnected w s).bind fun
    | (.returned true, s) =>
        (p.redisCommand w format args s).bind fun got => p.consume w got.1 got.2
    | (.returned false, s) => some (.returned none, s)
    | (.threw, s) => some (.threw, s)

def setString (w : ω) (StrKey StrValue : Bytes) (s : S) : Option (Ended Bool × S) :=
  (p.exchange w "SET %s %s" [StrKey, StrValue] s).map fun (ended, s) =>
    (ended.map fun reply => reply.any fun r => isOk (p.reply r), s)

/-- `GetString`: what it returns and `StrValue` after it.  A reply of any type
makes it return true. -/
def getString (w : ω) (StrKey StrValue : Bytes) (s : S) :
    Option (Ended (Bool × Bytes) × S) :=
  (p.exchange w "GET %s" [StrKey] s).map fun (ended, s) =>
    (ended.map fun
      | none => (false, StrValue)
      | some r => (true, assignValue StrValue (p.reply r)), s)

end Members

end Parts

/-- A call of a member, as its caller writes it. -/
inductive Call where
  | init
  | setString (StrKey StrValue : Bytes)
  | getString (StrKey StrValue : Bytes)
  deriving Repr, DecidableEq

section Perform

variable {S ω ρ : Type} (p : Parts S ω ρ)

/-- What a member returns, and `StrValue` behind it. -/
def Parts.perform (call : Call) (info : Bool) (w : ω) (s : S) :
    Option (Ended (Bool × Bytes) × S) :=
  match call with
  | .init => (p.init info w s).map fun (ended, s) => (ended.map fun ok => (ok, []), s)
  | .setString StrKey StrValue =>
      (p.setString w StrKey StrValue s).map fun (ended, s) =>
        (ended.map fun ok => (ok, StrValue), s)
  | .getString StrKey StrValue => p.getString w StrKey StrValue s

end Perform

/-! ## What the members keep -/

section Preserving

variable {S ω ρ α : Type} {p : Parts S ω ρ} {P : S → Prop}

/-- Each part keeps `P`. -/
structure Parts.Preserves (p : Parts S ω ρ) (P : S → Prop) : Prop where
  setRedisInfo : ∀ info s, P s → P (p.setRedisInfo info s)
  redisFree : ∀ s, P s → P (p.redisFree s)
  redisConnectWithTimeout : ∀ w s, P s → P (p.redisConnectWithTimeout w s)
  redisCommand : ∀ {w format args s reply s'}, P s →
    p.redisCommand w format args s = some (reply, s') → P s'
  interpret : ∀ r s, P s → P (p.interpret r s)
  freeReplyObject : ∀ reply s, P s → P (p.freeReplyObject reply s)
  LOG : ∀ {w s s'}, P s → p.LOG w s = some s' → P s'

namespace Parts.Preserves

variable (hKeeps : p.Preserves P) {w : ω} {s s' : S}

include hKeeps

theorem logged {rest : S → Option (Ended α × S)} {ended : Ended α} (hs : P s)
    (hRest : ∀ t, P t → rest t = some (ended, s') → P s')
    (hLogged : p.logged w s rest = some (ended, s')) : P s' := by
  unfold Parts.logged at hLogged
  cases hLog : p.LOG w s with
  | none =>
      rw [hLog] at hLogged
      cases hLogged
      exact hs
  | some t =>
      rw [hLog] at hLogged
      exact hRest t (hKeeps.LOG hs hLog) hLogged

/-- A member that logs and returns. -/
theorem logged_return {ended ended' : Ended α} (hs : P s)
    (hLogged : p.logged w s (fun t => some (ended', t)) = some (ended, s')) : P s' := by
  refine hKeeps.logged hs ?_ hLogged
  intro t ht hEnd
  cases hEnd
  exact ht

theorem connect {ended : Ended Bool} (hs : P s)
    (hConnect : p.connect w s = some (ended, s')) : P s' := by
  unfold Parts.connect at hConnect
  have hNext := hKeeps.redisConnectWithTimeout w s hs
  split at hConnect
  · dsimp only at hConnect
    split at hConnect
    · cases hConnect
      exact hNext
    · exact hKeeps.logged_return hNext hConnect
  · cases hConnect

theorem connectRedis {ended : Ended Bool} (hs : P s)
    (hConnect : p.connectRedis w s = some (ended, s')) : P s' := by
  unfold Parts.connectRedis at hConnect
  split at hConnect
  · exact hKeeps.logged hs
      (fun t ht hNext => hKeeps.connect (hKeeps.redisFree t ht) hNext)
      hConnect
  · exact hKeeps.connect hs hConnect

theorem init {info : Bool} {ended : Ended Bool} (hs : P s)
    (hInit : p.init info w s = some (ended, s')) : P s' := by
  unfold Parts.init at hInit
  have hSet := hKeeps.setRedisInfo info s hs
  dsimp only at hInit
  split at hInit
  · exact hKeeps.connectRedis hSet hInit
  · exact hKeeps.logged_return hSet hInit

theorem ensureConnected {ended : Ended Bool} (hs : P s)
    (hEnsure : p.ensureConnected w s = some (ended, s')) : P s' := by
  unfold Parts.ensureConnected at hEnsure
  split at hEnsure
  · cases hEnsure
    exact hs
  · refine hKeeps.logged hs ?_ hEnsure
    intro t ht hNext
    obtain ⟨⟨first, u⟩, hConnect, hRest⟩ := Option.bind_eq_some_iff.1 hNext
    have hu := hKeeps.connectRedis ht hConnect
    rcases first with (_ | _) | _
    · exact hKeeps.logged_return hu hRest
    · cases hRest
      exact hu
    · cases hRest
      exact hu

theorem consume {reply : Option ρ} {ended : Ended (Option ρ)} (hs : P s)
    (hConsume : p.consume w reply s = some (ended, s')) : P s' := by
  cases reply with
  | none =>
      refine hKeeps.logged hs ?_ hConsume
      intro t ht hEnd
      cases hEnd
      exact hKeeps.freeReplyObject none t ht
  | some r =>
      refine hKeeps.logged (hKeeps.interpret r s hs) ?_ hConsume
      intro t ht hEnd
      cases hEnd
      exact hKeeps.freeReplyObject (some r) t ht

theorem exchange {format : String} {args : List Bytes}
    {ended : Ended (Option ρ)} (hs : P s)
    (hExchange : p.exchange w format args s = some (ended, s')) : P s' := by
  obtain ⟨⟨first, t⟩, hEnsure, hRest⟩ := Option.bind_eq_some_iff.1 hExchange
  have ht := hKeeps.ensureConnected hs hEnsure
  rcases first with (_ | _) | _
  · cases hRest
    exact ht
  · obtain ⟨⟨reply, u⟩, hCommand, hConsume⟩ := Option.bind_eq_some_iff.1 hRest
    exact hKeeps.consume (hKeeps.redisCommand ht hCommand) hConsume
  · cases hRest
    exact ht

/-- **What every part keeps, every call keeps.** -/
theorem perform {call : Call} {info : Bool} {ended : Ended (Bool × Bytes)} (hs : P s)
    (hPerform : p.perform call info w s = some (ended, s')) : P s' := by
  cases call with
  | init =>
      obtain ⟨got, hInit, hEq⟩ := Option.map_eq_some_iff.1 hPerform
      cases hEq
      exact hKeeps.init hs hInit
  | setString StrKey StrValue =>
      obtain ⟨got, hSet, hEq⟩ := Option.map_eq_some_iff.1 hPerform
      obtain ⟨got', hExchange, hEq'⟩ := Option.map_eq_some_iff.1 hSet
      cases hEq
      cases hEq'
      exact hKeeps.exchange hs hExchange
  | getString StrKey StrValue =>
      obtain ⟨got, hExchange, hEq⟩ := Option.map_eq_some_iff.1 hPerform
      cases hEq
      exact hKeeps.exchange hs hExchange

end Parts.Preserves

end Preserving

/-! ## What the commands look like to the server -/

theorem format_set (k v : Bytes) :
    redisvFormatCommand "SET %s %s" [k, v] = some [bytesOf "SET", cstr k, cstr v] := by
  have hFormat : bytesOf "SET %s %s" = [83, 69, 84, 32, 37, 115, 32, 37, 115] := by
    decide
  have hName : bytesOf "SET" = [83, 69, 84] := by decide
  simp [redisvFormatCommand, hFormat, hName, formatLoop]

theorem format_get (k : Bytes) :
    redisvFormatCommand "GET %s" [k] = some [bytesOf "GET", cstr k] := by
  have hFormat : bytesOf "GET %s" = [71, 69, 84, 32, 37, 115] := by decide
  have hName : bytesOf "GET" = [71, 69, 84] := by decide
  simp [redisvFormatCommand, hFormat, hName, formatLoop]

/-! ## Two handles side by side -/

section Simulating

variable {S ω ρ S' ω' ρ' α β : Type} {p : Parts S ω ρ} {p' : Parts S' ω' ρ'}
  {R : S → S' → Prop} {W : ω → ω' → Prop} {Q : ω → Prop}

/-- The parts of one handle do what the parts of another do, in states related by
`R` and over what is related by `W`; for a command that `Q` allows there is
something to meet in the other handle that makes it end alike. -/
structure Parts.Simulates (p : Parts S ω ρ) (p' : Parts S' ω' ρ') (R : S → S' → Prop)
    (W : ω → ω' → Prop) (Q : ω → Prop) : Prop where
  meets : ∀ w, ∃ w', W w w'
  /-- What connecting and logging come to is fixed. -/
  agree : ∀ {w w₁ w₂}, W w w₁ → W w w₂ →
    p'.redisConnectWithTimeout w₁ = p'.redisConnectWithTimeout w₂ ∧
      p'.LOG w₁ = p'.LOG w₂
  RedisInfo : ∀ {s s'}, R s s' → p'.RedisInfo s' = p.RedisInfo s
  setRedisInfo : ∀ info {s s'}, R s s' →
  R (p.setRedisInfo info s) (p'.setRedisInfo info s')
  err : ∀ {s s'}, R s s' → p'.err s' = p.err s
  redisFree : ∀ {s s'}, R s s' → R (p.redisFree s) (p'.redisFree s')
  redisConnectWithTimeout : ∀ {w w' s s'}, W w w' → R s s' →
    R (p.redisConnectWithTimeout w s) (p'.redisConnectWithTimeout w' s')
  redisCommand : ∀ {w format args argv reply s s' t},
    redisvFormatCommand format args = some argv → Q w → R s s' → p.connected s = true →
    p.redisCommand w format args s = some (reply, t) →
    ∃ w' reply' t', W w w' ∧ p'.redisCommand w' format args s' = some (reply', t') ∧
      reply'.map p'.reply = reply.map p.reply ∧ R t t'
  interpret : ∀ r r' {s s'}, R s s' → R (p.interpret r s) (p'.interpret r' s')
  freeReplyObject : ∀ reply reply' {s s'}, R s s' →
    R (p.freeReplyObject reply s) (p'.freeReplyObject reply' s')
  LOG : ∀ {w w' s s'}, W w w' → R s s' → Option.Rel R (p.LOG w s) (p'.LOG w' s')

/-- Two ends, of which the second is `f` of the first, and related states. -/
def EndsAlike (R : S → S' → Prop) (f : α → β → Prop) (x : Option (Ended α × S))
    (x' : Option (Ended β × S')) : Prop :=
  ∀ ended s, x = some (ended, s) →
    ∃ ended' s', x' = some (ended', s') ∧ R s s' ∧
      match ended, ended' with
      | .returned a, .returned b => f a b
      | .threw, .threw => True
      | _, _ => False

namespace Parts.Simulates

variable (hSim : p.Simulates p' R W Q) {w : ω} {w' : ω'} {s : S} {s' : S'}

include hSim

theorem connected (hR : R s s') : p'.connected s' = p.connected s := by
  rw [Parts.connected, Parts.connected, hSim.err hR]

theorem logged {f : α → β → Prop} (hW : W w w') (hR : R s s')
    {rest : S → Option (Ended α × S)} {rest' : S' → Option (Ended β × S')}
    (hRest : ∀ t t', R t t' → EndsAlike R f (rest t) (rest' t')) :
    EndsAlike R f (p.logged w s rest) (p'.logged w' s' rest') := by
  have hLog := hSim.LOG hW hR
  unfold Parts.logged
  generalize p.LOG w s = log at hLog
  generalize p'.LOG w' s' = log' at hLog
  cases hLog with
  | none =>
      rintro ended t ⟨⟩
      exact ⟨.threw, s', rfl, hR, trivial⟩
  | some hNext => exact hRest _ _ hNext

omit hSim in
theorem endsAlike_return {f : α → β → Prop} {a : α} {b : β} (hf : f a b) (hR : R s s') :
    EndsAlike R f (some (.returned a, s)) (some (.returned b, s')) := by
  rintro ended t ⟨⟩
  exact ⟨.returned b, s', rfl, hR, hf⟩

theorem connect (hW : W w w') (hR : R s s') :
    EndsAlike R Eq (p.connect w s) (p'.connect w' s') := by
  unfold Parts.connect
  rw [hSim.RedisInfo hR]
  split
  · have hNext := hSim.redisConnectWithTimeout hW hR
    dsimp only
    rw [hSim.connected hNext]
    split
    · exact endsAlike_return rfl hNext
    · exact hSim.logged hW hNext fun t t' ht => endsAlike_return rfl ht
  · intro ended t hNone
    cases hNone

theorem connectRedis (hW : W w w') (hR : R s s') :
    EndsAlike R Eq (p.connectRedis w s) (p'.connectRedis w' s') := by
  unfold Parts.connectRedis
  rw [hSim.err hR]
  split
  · exact hSim.logged hW hR fun t t' ht => hSim.connect hW (hSim.redisFree ht)
  · exact hSim.connect hW hR

theorem init (info : Bool) (hW : W w w') (hR : R s s') :
    EndsAlike R Eq (p.init info w s) (p'.init info w' s') := by
  unfold Parts.init
  have hSet := hSim.setRedisInfo info hR
  dsimp only
  split
  · exact hSim.connectRedis hW hSet
  · exact hSim.logged hW hSet fun t t' ht => endsAlike_return rfl ht

theorem ensureConnected (hW : W w w') (hR : R s s') :
    EndsAlike R Eq (p.ensureConnected w s) (p'.ensureConnected w' s') := by
  unfold Parts.ensureConnected
  rw [hSim.connected hR]
  split
  · exact endsAlike_return rfl hR
  · refine hSim.logged hW hR fun t t' ht => ?_
    intro ended u hRun
    obtain ⟨⟨first, v⟩, hConnect, hRest⟩ := Option.bind_eq_some_iff.1 hRun
    obtain ⟨first', v', hConnect', hv, hSame⟩ :=
      hSim.connectRedis hW ht first v hConnect
    rw [hConnect', Option.bind_some]
    rcases first with (_ | _) | _
    · rcases first' with _ | _
      · cases hSame
        exact hSim.logged hW hv
          (fun _ _ hEnd => endsAlike_return rfl hEnd) ended u hRest
      · cases hSame
    · rcases first' with _ | _
      · cases hSame
        cases hRest
        exact ⟨_, v', rfl, hv, rfl⟩
      · cases hSame
    · rcases first' with _ | _
      · cases hSame
      · cases hRest
        exact ⟨_, v', rfl, hv, trivial⟩

theorem consume {reply : Option ρ} {reply' : Option ρ'} (hW : W w w') (hR : R s s')
    (hReply : reply'.map p'.reply = reply.map p.reply) :
    EndsAlike R (fun x x' => x'.map p'.reply = x.map p.reply) (p.consume w reply s)
      (p'.consume w' reply' s') := by
  cases reply with
  | none =>
      rw [Option.map_eq_none_iff.1 hReply]
      exact hSim.logged hW hR fun t t' ht =>
        endsAlike_return rfl (hSim.freeReplyObject none none ht)
  | some r =>
      obtain ⟨r', rfl, -⟩ := Option.map_eq_some_iff.1 hReply
      exact hSim.logged hW (hSim.interpret r r' hR) fun t t' ht =>
        endsAlike_return hReply (hSim.freeReplyObject (some r) (some r') ht)

omit hSim in
/-- Getting connected looks at nothing but connecting and logging. -/
theorem ensureConnected_agree {w₁ w₂ : ω'}
    (hConnect : p'.redisConnectWithTimeout w₁ = p'.redisConnectWithTimeout w₂)
    (hLog : p'.LOG w₁ = p'.LOG w₂) (t : S') :
    p'.ensureConnected w₁ t = p'.ensureConnected w₂ t := by
  simp only [Parts.ensureConnected, Parts.logged, Parts.connectRedis,
    Parts.connect, hConnect, hLog]

omit hSim in
/-- A connection that was got stands. -/
theorem ensureConnected_connected {t : S}
    (hEnsure : p.ensureConnected w s = some (.returned true, t)) :
    p.connected t = true := by
  have hConnect : ∀ u, p.connectRedis w u = some (.returned true, t) →
      p.connected t = true := by
    have hOpen : ∀ u, p.connect w u = some (.returned true, t) →
      p.connected t = true := by
      intro u hRun
      unfold Parts.connect at hRun
      split at hRun
      · dsimp only at hRun
        split at hRun
        · rename_i hUp
          cases hRun
          exact hUp
        · unfold Parts.logged at hRun
          split at hRun <;> cases hRun
      · cases hRun
    intro u hRun
    unfold Parts.connectRedis at hRun
    split at hRun
    · unfold Parts.logged at hRun
      split at hRun
      · cases hRun
      · exact hOpen _ hRun
    · exact hOpen _ hRun
  unfold Parts.ensureConnected at hEnsure
  split at hEnsure
  · rename_i hUp
    cases hEnsure
    exact hUp
  · unfold Parts.logged at hEnsure
    split at hEnsure
    · cases hEnsure
    · obtain ⟨⟨first, v⟩, hRun, hRest⟩ := Option.bind_eq_some_iff.1 hEnsure
      rcases first with (_ | _) | _
      · dsimp only at hRest
        split at hRest <;> cases hRest
      · cases hRest
        exact hConnect _ hRun
      · cases hRest

/-- **An exchange in both handles.** -/
theorem exchange {format : String} {args argv : List Bytes}
    (hFormat : redisvFormatCommand format args = some argv) (hQ : Q w) (hR : R s s') :
    ∃ w', EndsAlike R (fun x x' => x'.map p'.reply = x.map p.reply)
      (p.exchange w format args s) (p'.exchange w' format args s') := by
  obtain ⟨w₀, hW₀⟩ := hSim.meets w
  have hEnsure := hSim.ensureConnected hW₀ hR
  cases hFirst : p.ensureConnected w s with
  | none =>
      refine ⟨w₀, ?_⟩
      intro ended t hRun
      rw [Parts.exchange, hFirst] at hRun
      cases hRun
  | some got =>
      obtain ⟨first, u⟩ := got
      obtain ⟨first', u', hFirst', hu, hSame⟩ := hEnsure first u hFirst
      rcases first with (_ | _) | _
      · rcases first' with _ | _
        · cases hSame
          refine ⟨w₀, ?_⟩
          rw [Parts.exchange, Parts.exchange, hFirst, hFirst']
          exact endsAlike_return rfl hu
        · cases hSame
      · rcases first' with _ | _
        · cases hSame
          have hUp := ensureConnected_connected hFirst
          cases hSent : p.redisCommand w format args u with
          | none =>
              refine ⟨w₀, ?_⟩
              intro ended t hRun
              rw [Parts.exchange, hFirst, Option.bind_some] at hRun
              simp only [hSent, Option.bind_none] at hRun
              cases hRun
          | some got =>
              obtain ⟨reply, t⟩ := got
              obtain ⟨w', reply', t', hW, hSent', hReply, ht⟩ :=
                hSim.redisCommand hFormat hQ hu hUp hSent
              obtain ⟨hConnect, hLog⟩ := hSim.agree hW hW₀
              refine ⟨w', ?_⟩
              rw [Parts.exchange, Parts.exchange, hFirst,
                ensureConnected_agree hConnect hLog, hFirst', Option.bind_some,
                Option.bind_some]
              simp only [hSent, hSent', Option.bind_some]
              exact hSim.consume hW ht hReply
        · cases hSame
      · rcases first' with _ | _
        · cases hSame
        · refine ⟨w₀, ?_⟩
          rw [Parts.exchange, Parts.exchange, hFirst, hFirst']
          rintro ended t ⟨⟩
          exact ⟨.threw, u', rfl, hu, trivial⟩

/-- **A call in both handles** ends with the same result. -/
theorem perform {call : Call} {info : Bool} (hQ : Q w) (hR : R s s')
    {ended : Ended (Bool × Bytes)} {t : S}
    (hPerform : p.perform call info w s = some (ended, t)) :
    ∃ w' t', p'.perform call info w' s' = some (ended, t') ∧ R t t' := by
  cases call with
  | init =>
      obtain ⟨w', hW⟩ := hSim.meets w
      obtain ⟨⟨first, u⟩, hInit, hEq⟩ := Option.map_eq_some_iff.1 hPerform
      obtain ⟨first', u', hInit', hu, hSame⟩ := hSim.init info hW hR first u hInit
      cases hEq
      refine ⟨w', u', ?_, hu⟩
      simp only [Parts.perform, hInit', Option.map_some]
      rcases first with _ | _ <;> rcases first' with _ | _ <;> cases hSame <;> rfl
  | setString StrKey StrValue =>
      obtain ⟨⟨second, v⟩, hSet, hEq⟩ := Option.map_eq_some_iff.1 hPerform
      obtain ⟨⟨first, u⟩, hExchange, hEq'⟩ := Option.map_eq_some_iff.1 hSet
      obtain ⟨w', hAlike⟩ := hSim.exchange (format_set StrKey StrValue) hQ hR
      obtain ⟨first', u', hExchange', hu, hSame⟩ := hAlike first u hExchange
      cases hEq
      cases hEq'
      refine ⟨w', u', ?_, hu⟩
      simp only [Parts.perform, Parts.setString, hExchange', Option.map_some]
      rcases first with reply | _ <;> rcases first' with reply' | _ <;>
        simp only at hSame
      · cases reply <;> cases reply' <;> simp_all [Ended.map]
      · rfl
  | getString StrKey StrValue =>
      obtain ⟨⟨first, u⟩, hExchange, hEq⟩ := Option.map_eq_some_iff.1 hPerform
      obtain ⟨w', hAlike⟩ := hSim.exchange (format_get StrKey) hQ hR
      obtain ⟨first', u', hExchange', hu, hSame⟩ := hAlike first u hExchange
      cases hEq
      refine ⟨w', u', ?_, hu⟩
      simp only [Parts.perform, Parts.getString, hExchange', Option.map_some]
      rcases first with reply | _ <;> rcases first' with reply' | _ <;>
        simp only at hSame
      · cases reply <;> cases reply' <;> simp_all [Ended.map]
      · rfl

end Parts.Simulates

end Simulating

end MGServer.Ports.RedisHandle
