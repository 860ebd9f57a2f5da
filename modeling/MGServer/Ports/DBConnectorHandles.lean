import MGServer.Ports.DBConnector
import MGServer.Verified.Lifetimes

/-!
# `DBConnector`: who closes the handle

`Connect` overwrites `Conn` with a new handle, also when the connection then
fails; only `Close` gives a handle back, and neither `Close` nor the
destructor looks at whether there is one.  So the handles are kept in order
exactly by the callers that call `Connect` and `Close` in turn.
-/

namespace MGServer.Ports.DBConnector

open MGServer.Verified.ByteString
open MGServer.Verified.Transition
open MGServer.Verified.Lifetimes

/-! ## The life of an object -/

/-- A call of a member, with what the client library answers. -/
inductive Op where
  | connect (connected logs : Bool) (Server User Password Database : Bytes) (Port : Int)
  | close
  | searchAccount (a : Answers) (Id Password : Bytes)
  | signUpAccount (a : Answers) (Id Password : Bytes)
  deriving Repr, DecidableEq

/-- One call on an object; `handles` counts the handles `mysql_init` has given
out and names the next one. -/
def callOf (c : Connector) (handles : Nat) : Op → Connector × Nat × List MysqlCall
  | .connect connected logs Server User Password Database Port =>
      let (c, _, calls) :=
        connect c handles connected logs Server User Password Database Port
      (c, handles + 1, calls)
  | .close => (c, handles, close c)
  | .searchAccount a Id Password => (c, handles, (searchAccount c a Id Password).2)
  | .signUpAccount a Id Password => (c, handles, (signUpAccount c a Id Password).2)

/-- The destructor has an empty body. -/
def destroy (_c : Connector) : List MysqlCall := []

/-- The calls into the client library from here to the end of the object. -/
def callsFrom (c : Connector) (handles : Nat) : List Op → List MysqlCall
  | [] => destroy c
  | op :: ops =>
      let (c, handles, calls) := callOf c handles op
      calls ++ callsFrom c handles ops

/-- Construction, the given calls, destruction. -/
def lifetime (ops : List Op) : List MysqlCall := callsFrom construct 0 ops

/-- `MYSQL*` handles.  `mysql_real_connect` does not free the handle it is
given, whether or not it connects. -/
def handleProtocol : Protocol MysqlCall Nat where
  obtains
    | .mysql_init handle => some handle
    | _ => none
  passes
    | .mysql_real_connect handle _ _ _ _ _ => [some handle]
    | .mysql_close handle => [handle]
    | .mysql_query handle _ => [handle]
    | .mysql_use_result handle _ => [handle]
    | _ => []
  releases
    | .mysql_close handle => handle
    | _ => none
  releases_passes := by
    intro e k hReleases
    cases e with
    | mysql_close handle =>
        have hHandle : handle = some k := hReleases
        simp [hHandle]
    | _ => cases hReleases

/-- `Connect` and `Close` in turn, the account operations between them, and a
`Close` last; `opened` says whether a `Connect` is pending. -/
def balanced : Bool → List Op → Bool
  | opened, [] => !opened
  | opened, .connect _ _ _ _ _ _ _ :: ops => !opened && balanced true ops
  | opened, .close :: ops => opened && balanced false ops
  | opened, .searchAccount _ _ _ :: ops => opened && balanced opened ops
  | opened, .signUpAccount _ _ _ :: ops => opened && balanced opened ops

/-! ## What each member does to the handles -/

/-- A call that is only given `Conn`. -/
structure UsesConn (c : Connector) (e : MysqlCall) : Prop where
  obtains : handleProtocol.obtains e = none
  releases : handleProtocol.releases e = none
  passes : ∀ ptr ∈ handleProtocol.passes e, ptr = c.Conn

/-- An account operation starts with `mysql_query` and only uses `Conn`. -/
structure Accounted (c : Connector) (calls : List MysqlCall) : Prop where
  starts : ∃ text rest, calls = .mysql_query c.Conn text :: rest
  uses : ∀ e ∈ calls, UsesConn c e

theorem searchAccount_accounted (c : Connector) (a : Answers) (Id Password : Bytes) :
    Accounted c (searchAccount c a Id Password).2 := by
  have hQuery : ∀ text, UsesConn c (.mysql_query c.Conn text) := fun _ =>
    ⟨rfl, rfl, by simp [handleProtocol]⟩
  unfold searchAccount
  dsimp only
  split
  · refine ⟨⟨_, [], rfl⟩, ?_⟩
    intro e he
    rw [List.mem_singleton.1 he]
    exact hQuery _
  -- with and without the result being freed
  · have hUse : UsesConn c (.mysql_use_result c.Conn a.result) :=
      ⟨rfl, rfl, by simp [handleProtocol]⟩
    have hFetch : UsesConn c (.mysql_fetch_row a.result) :=
      ⟨rfl, rfl, by simp [handleProtocol]⟩
    split
    · refine ⟨⟨_, _, rfl⟩, ?_⟩
      intro e he
      simp only [List.mem_cons, List.not_mem_nil, or_false] at he
      rcases he with rfl | rfl | rfl | rfl
      · exact hQuery _
      · exact hUse
      · exact hFetch
      · exact ⟨rfl, rfl, by simp [handleProtocol]⟩
    · refine ⟨⟨_, _, rfl⟩, ?_⟩
      intro e he
      simp only [List.mem_cons, List.not_mem_nil, or_false] at he
      rcases he with rfl | rfl | rfl
      · exact hQuery _
      · exact hUse
      · exact hFetch

theorem signUpAccount_accounted (c : Connector) (a : Answers) (Id Password : Bytes) :
    Accounted c (signUpAccount c a Id Password).2 := by
  refine ⟨⟨_, [], rfl⟩, ?_⟩
  intro e he
  rw [List.mem_singleton.1 he]
  exact ⟨rfl, rfl, by simp [handleProtocol]⟩

/-- With the handle open an account operation changes nothing. -/
theorem run_accounted {c : Connector} {calls : List MysqlCall} {h : Nat}
    (hUses : ∀ e ∈ calls, UsesConn c e) (hConn : c.Conn = some h) :
    run handleProtocol.audit [h] calls = some [h] := by
  apply Protocol.run_borrowed
  intro e he
  have hUse := hUses e he
  refine ⟨hUse.obtains, hUse.releases, ?_⟩
  intro ptr hPtr
  exact ⟨h, List.mem_singleton_self h, (hUse.passes ptr hPtr).trans hConn⟩

/-- A call given `Conn` while nothing is open is one too many. -/
theorem run_unopened {c : Connector} {e : MysqlCall} (rest : List MysqlCall)
    (hPasses : c.Conn ∈ handleProtocol.passes e) :
    run handleProtocol.audit [] (e :: rest) = none := by
  have hNone : handleProtocol.audit [] e = none := by
    unfold Protocol.audit
    apply if_neg
    intro hAll
    obtain ⟨k, hk, -⟩ := hAll _ hPasses
    cases hk
  simp [run, hNone]

theorem run_connect {handles : Nat} {live : List Nat}
    {Server User Password Database : Bytes} {Port : Int} (rest : List MysqlCall) :
    run handleProtocol.audit live
        (.mysql_init handles ::
          .mysql_real_connect handles Server User Password Database Port :: rest) =
      run handleProtocol.audit (handles :: live) rest := by
  simp [run, Protocol.audit, Protocol.remaining, handleProtocol]

theorem run_close {h : Nat} (rest : List MysqlCall) :
    run handleProtocol.audit [h] (.mysql_close (some h) :: rest) =
      run handleProtocol.audit [] rest := by
  simp [run, Protocol.audit, Protocol.remaining, handleProtocol]

/-! ## Names -/

/-- Every handle has a name of its own. -/
theorem obtains_callsFrom (c : Connector) (handles : Nat) (ops : List Op) :
    ∃ n, (callsFrom c handles ops).filterMap handleProtocol.obtains =
      List.range' handles n := by
  induction ops generalizing c handles with
  | nil => exact ⟨0, rfl⟩
  | cons op ops ih =>
      have hAccount : ∀ calls, Accounted c calls →
          ∃ n, (calls ++ callsFrom c handles ops).filterMap handleProtocol.obtains =
            List.range' handles n := by
        intro calls hCalls
        obtain ⟨n, hRest⟩ := ih c handles
        refine ⟨n, ?_⟩
        rw [List.filterMap_append, hRest,
          List.filterMap_eq_nil_iff.2 fun e he => (hCalls.uses e he).obtains]
        rfl
      cases op with
      | connect connected logs Server User Password Database Port =>
          obtain ⟨n, hRest⟩ := ih ⟨some handles⟩ (handles + 1)
          refine ⟨n + 1, ?_⟩
          rw [List.range'_succ, ← hRest]
          rfl
      | close =>
          obtain ⟨n, hRest⟩ := ih c handles
          exact ⟨n, hRest⟩
      | searchAccount a Id Password =>
          exact hAccount _ (searchAccount_accounted c a Id Password)
      | signUpAccount a Id Password =>
          exact hAccount _ (signUpAccount_accounted c a Id Password)

theorem lifetime_fresh (ops : List Op) : handleProtocol.Fresh (lifetime ops) := by
  obtain ⟨n, hNames⟩ := obtains_callsFrom construct 0 ops
  unfold Protocol.Fresh lifetime
  rw [hNames]
  exact List.nodup_range'

/-- A handle that `Conn` no longer points to is never given back. -/
theorem releases_callsFrom {c : Connector} {handles h : Nat} (hOld : h < handles)
    (hLost : c.Conn ≠ some h) (ops : List Op) :
    ∀ e ∈ callsFrom c handles ops, handleProtocol.releases e ≠ some h := by
  induction ops generalizing c handles with
  | nil => intro e he; cases he
  | cons op ops ih =>
      have hAccount : ∀ calls, Accounted c calls →
          ∀ e ∈ calls ++ callsFrom c handles ops,
            handleProtocol.releases e ≠ some h := by
        intro calls hCalls e he
        rcases List.mem_append.1 he with hFirst | hRest
        · rw [(hCalls.uses e hFirst).releases]
          simp
        · exact ih hOld hLost e hRest
      cases op with
      | connect connected logs Server User Password Database Port =>
          have hNe : (⟨some handles⟩ : Connector).Conn ≠ some h := by
            simp only [ne_eq, Option.some.injEq]
            omega
          intro e he
          simp only [callsFrom, callOf, connect, List.cons_append, List.nil_append,
            List.mem_cons] at he
          rcases he with rfl | rfl | hRest
          · simp [handleProtocol]
          · simp [handleProtocol]
          · exact ih (Nat.lt_succ_of_lt hOld) hNe e hRest
      | close =>
          intro e he
          rcases List.mem_cons.1 he with rfl | hRest
          · exact hLost
          · exact ih hOld hLost e hRest
      | searchAccount a Id Password =>
          exact hAccount _ (searchAccount_accounted c a Id Password)
      | signUpAccount a Id Password =>
          exact hAccount _ (signUpAccount_accounted c a Id Password)

/-! ## Whole lives -/

theorem run_accounted_unopened {c : Connector} {calls : List MysqlCall}
    (hCalls : Accounted c calls) (rest : List MysqlCall) :
    run handleProtocol.audit [] (calls ++ rest) ≠ some [] := by
  obtain ⟨text, more, rfl⟩ := hCalls.starts
  rw [List.cons_append, run_unopened (c := c) _ (by simp [handleProtocol])]
  simp

/-- A `Connect` on top of a handle that is open loses that handle. -/
theorem run_reconnect {handles h : Nat} (hOld : h < handles)
    {Server User Password Database : Bytes} {Port : Int} (ops : List Op) :
    run handleProtocol.audit [h]
        (.mysql_init handles ::
          .mysql_real_connect handles Server User Password Database Port ::
          callsFrom ⟨some handles⟩ (handles + 1) ops) ≠ some [] := by
  intro hRun
  rw [run_connect] at hRun
  have hLost : (⟨some handles⟩ : Connector).Conn ≠ some h := by
    simp only [ne_eq, Option.some.injEq]
    omega
  have hKept := releases_callsFrom (Nat.lt_succ_of_lt hOld) hLost ops
  have hMem := Protocol.mem_of_run (List.mem_cons_of_mem _ (List.mem_singleton_self h))
    hKept hRun
  cases hMem

/-- From an object with a handle open, or with none, the audit ends with
nothing live exactly when the calls are balanced. -/
theorem run_callsFrom (ops : List Op) :
    (∀ c handles h, c.Conn = some h → h < handles →
      (run handleProtocol.audit [h] (callsFrom c handles ops) = some [] ↔
        balanced true ops = true)) ∧
    (∀ c handles,
      (run handleProtocol.audit [] (callsFrom c handles ops) = some [] ↔
        balanced false ops = true)) := by
  induction ops with
  | nil => simp [callsFrom, destroy, run, balanced]
  | cons op ops ih =>
      obtain ⟨ihOpen, ihClosed⟩ := ih
      have hAccountOpen : ∀ c handles h calls, Accounted c calls → c.Conn = some h →
          h < handles →
          (run handleProtocol.audit [h] (calls ++ callsFrom c handles ops) = some [] ↔
            balanced true ops = true) := by
        intro c handles h calls hCalls hConn hOld
        rw [run_append, run_accounted hCalls.uses hConn]
        exact ihOpen c handles h hConn hOld
      cases op with
      | connect connected logs Server User Password Database Port =>
          constructor
          · intro c handles h hConn hOld
            simp only [balanced, Bool.not_true, Bool.false_and,
              Bool.false_eq_true, iff_false]
            exact run_reconnect hOld ops
          · intro c handles
            simp only [balanced, Bool.not_false, Bool.true_and]
            rw [← ihOpen ⟨some handles⟩ (handles + 1) handles rfl (Nat.lt_succ_self _)]
            rw [← run_connect]
            exact Iff.rfl
      | close =>
          constructor
          · intro c handles h hConn hOld
            simp only [balanced, Bool.true_and]
            rw [← ihClosed c handles]
            simp only [callsFrom, callOf, close, hConn,
              List.cons_append, List.nil_append]
            rw [run_close]
          · intro c handles
            simp only [balanced, Bool.false_and, Bool.false_eq_true, iff_false]
            simp only [callsFrom, callOf, close, List.cons_append, List.nil_append]
            rw [run_unopened (c := c) _ (by simp [handleProtocol])]
            simp
      | searchAccount a Id Password =>
          constructor
          · intro c handles h hConn hOld
            simp only [balanced, Bool.true_and]
            exact hAccountOpen c handles h _
              (searchAccount_accounted c a Id Password) hConn hOld
          · intro c handles
            simp only [balanced, Bool.false_and, Bool.false_eq_true, iff_false]
            exact run_accounted_unopened (searchAccount_accounted c a Id Password) _
      | signUpAccount a Id Password =>
          constructor
          · intro c handles h hConn hOld
            simp only [balanced, Bool.true_and]
            exact hAccountOpen c handles h _
              (signUpAccount_accounted c a Id Password) hConn hOld
          · intro c handles
            simp only [balanced, Bool.false_and, Bool.false_eq_true, iff_false]
            exact run_accounted_unopened (signUpAccount_accounted c a Id Password) _

/-- **Handle ownership.** Over the whole life of an object every handle is
closed exactly once and only open handles are used, exactly when `Connect`
and `Close` are called in turn, the account operations between them, and a
`Close` comes last. -/
theorem handles_disciplined_iff (ops : List Op) :
    handleProtocol.Disciplined (lifetime ops) ↔ balanced false ops = true := by
  rw [Protocol.disciplined_iff (lifetime_fresh ops)]
  exact (run_callsFrom ops).2 construct 0

/-- A `Connect` that fails, and the object is gone: nobody closes the
handle. -/
theorem handles_undisciplined_failedConnect :
    ¬ handleProtocol.Disciplined (lifetime
      [.connect false true (bytesOf "127.0.0.1") (bytesOf "root") (bytesOf "pw")
        (bytesOf "sungminworld") 3306]) := by
  intro hDisciplined
  have hOne := hDisciplined.returned 0 (by decide)
  revert hOne
  decide

end MGServer.Ports.DBConnector
