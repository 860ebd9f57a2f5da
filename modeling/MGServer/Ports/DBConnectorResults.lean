import MGServer.Ports.DBConnector
import MGServer.Verified.Lifetimes

/-!
# `DBConnector`: who frees the result

`SearchAccount` checks what `mysql_query` returns and whether there is a row,
but hands what `mysql_use_result` returns to `mysql_fetch_row` unseen: a result
that is not there is used all the same.  A result that is there is freed before
the call returns, so every query finds the connection idle, unless there is no
row and the `LOG_ERROR` about it throws: then the result stays behind.
-/

namespace MGServer.Ports.DBConnector

open MGServer.Verified.ByteString
open MGServer.Verified.Transition
open MGServer.Verified.Lifetimes

/-! ## The account operations of a session -/

/-- How the client library's calls of one account operation turn out. -/
structure Outcome where
  /-- `mysql_query` returned non-zero. -/
  queryFails : Bool
  /-- `mysql_use_result` returned a result, not null. -/
  hasResult : Bool
  /-- `mysql_fetch_row` returned a row. -/
  hasRow : Bool
  /-- A `LOG_ERROR`, where one is reached, does not throw. -/
  logs : Bool
  deriving Repr, DecidableEq

/-- The answers, with `res` for the name of a result. -/
def Outcome.answers (o : Outcome) (res : Nat) : Answers :=
  ⟨o.queryFails, if o.hasResult then some res else none, o.hasRow, o.logs⟩

inductive AccountOp where
  | searchAccount (o : Outcome) (Id Password : Bytes)
  | signUpAccount (o : Outcome) (Id Password : Bytes)
  deriving Repr, DecidableEq

def operationCalls (c : Connector) (res : Nat) : AccountOp → List MysqlCall
  | .searchAccount o Id Password => (searchAccount c (o.answers res) Id Password).2
  | .signUpAccount o Id Password => (signUpAccount c (o.answers res) Id Password).2

/-- The calls into the client library that a sequence of account operations
makes; the operations number their results. -/
def sessionCalls (c : Connector) (res : Nat) : List AccountOp → List MysqlCall
  | [] => []
  | op :: ops => operationCalls c res op ++ sessionCalls c (res + 1) ops

/-- `MYSQL_RES*` results.  `mysql_free_result` takes a null pointer and does
nothing; `mysql_fetch_row` reads the structure it is given. -/
def resultProtocol : Protocol MysqlCall Nat where
  obtains
    | .mysql_use_result _ res => res
    | _ => none
  passes
    | .mysql_fetch_row res => [res]
    | .mysql_free_result (some res) => [some res]
    | _ => []
  releases
    | .mysql_free_result res => res
    | _ => none
  releases_passes := by
    intro e k hReleases
    cases e with
    | mysql_free_result res =>
        have hRes : res = some k := hReleases
        simp [hRes]
    | _ => cases hReleases

/-- The results are handled in order, and no query is issued while one of
them is unreleased. -/
structure ResultDiscipline (calls : List MysqlCall) : Prop where
  disciplined : resultProtocol.Disciplined calls
  idle : ∀ pre handle text post, calls = pre ++ .mysql_query handle text :: post →
    ∀ res, ¬ resultProtocol.Live pre res

/-- Where the query succeeds, a search gets a result, and finds a row or can
log that there is none. -/
def AccountOp.freesResult : AccountOp → Bool
  | .searchAccount o _ _ => o.queryFails || (o.hasResult && (o.hasRow || o.logs))
  | .signUpAccount _ _ _ => true

/-! ## One operation -/

section Operation

variable (c : Connector) (res : Nat)

/-- The calls of a search whose query succeeded. -/
theorem searchCalls (o : Outcome) (hQuery : o.queryFails = false)
    (Id Password : Bytes) :
    ∃ text, operationCalls c res (.searchAccount o Id Password) =
      .mysql_query c.Conn text :: .mysql_use_result c.Conn (o.answers res).result ::
        .mysql_fetch_row (o.answers res).result ::
          if o.hasRow || o.logs then [.mysql_free_result (o.answers res).result]
          else [] := by
  obtain ⟨queryFails, hasResult, hasRow, logs⟩ := o
  cases hQuery
  refine ⟨cstr (searchSql Id Password), ?_⟩
  cases hEnd : hasRow || logs <;>
    simp [operationCalls, searchAccount, Outcome.answers, hEnd]

/-- An operation starts with its query and issues no other. -/
theorem operationCalls_query (op : AccountOp) :
    ∃ text rest, operationCalls c res op = .mysql_query c.Conn text :: rest ∧
      ∀ handle text', .mysql_query handle text' ∉ rest := by
  cases op with
  | searchAccount o Id Password =>
      cases hQuery : o.queryFails with
      | true =>
          refine ⟨cstr (searchSql Id Password), [], ?_, by simp⟩
          simp [operationCalls, searchAccount, Outcome.answers, hQuery]
      | false =>
          obtain ⟨text, hCalls⟩ := searchCalls c res o hQuery Id Password
          refine ⟨text, _, hCalls, ?_⟩
          intro handle text'
          split <;> simp
  | signUpAccount o Id Password => exact ⟨_, [], rfl, by simp⟩

/-- A result is named by the operation's number. -/
theorem operationCalls_obtains (op : AccountOp) :
    (operationCalls c res op).filterMap resultProtocol.obtains = [] ∨
      (operationCalls c res op).filterMap resultProtocol.obtains = [res] := by
  cases op with
  | searchAccount o Id Password =>
      obtain ⟨queryFails, hasResult, hasRow, logs⟩ := o
      cases queryFails with
      | true => exact Or.inl rfl
      | false =>
          obtain ⟨text, hCalls⟩ :=
            searchCalls c res ⟨false, hasResult, hasRow, logs⟩ rfl Id Password
          rw [hCalls]
          cases hasResult with
          | true => cases hasRow <;> cases logs <;> exact Or.inr rfl
          | false => cases hasRow <;> cases logs <;> exact Or.inl rfl
  | signUpAccount o Id Password => exact Or.inl rfl

/-- An operation frees no result but its own. -/
theorem operationCalls_releases (op : AccountOp) {k : Nat} (hk : k ≠ res) :
    ∀ e ∈ operationCalls c res op, resultProtocol.releases e ≠ some k := by
  cases op with
  | searchAccount o Id Password =>
      cases hQuery : o.queryFails with
      | true =>
          simp [operationCalls, searchAccount, Outcome.answers, hQuery, resultProtocol]
      | false =>
          obtain ⟨text, hCalls⟩ := searchCalls c res o hQuery Id Password
          rw [hCalls]
          cases hResult : o.hasResult <;> cases hEnd : o.hasRow || o.logs <;>
            simp [Outcome.answers, hResult, resultProtocol, Ne.symm hk]
  | signUpAccount o Id Password =>
      simp [operationCalls, signUpAccount, resultProtocol]

/-- With nothing live before it, an operation leaves nothing live, or else it
uses a null result or leaves its own behind. -/
theorem run_operationCalls (op : AccountOp) :
    run resultProtocol.audit [] (operationCalls c res op) =
        (if op.freesResult = true then some [] else none) ∨
      (op.freesResult = false ∧
        run resultProtocol.audit [] (operationCalls c res op) = some [res]) := by
  cases op with
  | searchAccount o Id Password =>
      obtain ⟨queryFails, hasResult, hasRow, logs⟩ := o
      cases queryFails with
      | true => exact Or.inl rfl
      | false =>
          obtain ⟨text, hCalls⟩ :=
            searchCalls c res ⟨false, hasResult, hasRow, logs⟩ rfl Id Password
          rw [hCalls]
          cases hasResult with
          | false =>
              refine Or.inl ?_
              simp [Outcome.answers, AccountOp.freesResult, run, Protocol.audit,
                Protocol.remaining, resultProtocol]
          | true =>
              cases hEnd : hasRow || logs with
              | true =>
                  refine Or.inl ?_
                  simp [Outcome.answers, AccountOp.freesResult, run, Protocol.audit,
                    Protocol.remaining, resultProtocol, hEnd]
              | false =>
                  refine Or.inr ?_
                  simp [Outcome.answers, AccountOp.freesResult, run, Protocol.audit,
                    Protocol.remaining, resultProtocol, hEnd]
  | signUpAccount o Id Password => exact Or.inl rfl

end Operation

/-! ## Whole sessions -/

theorem obtains_sessionCalls_ge (c : Connector) (res : Nat) (ops : List AccountOp) :
    ∀ k ∈ (sessionCalls c res ops).filterMap resultProtocol.obtains, res ≤ k := by
  induction ops generalizing res with
  | nil =>
      intro k hk
      cases hk
  | cons op ops ih =>
      intro k hk
      rw [sessionCalls, List.filterMap_append, List.mem_append] at hk
      rcases hk with hFirst | hRest
      · rcases operationCalls_obtains c res op with hNone | hOne
        · rw [hNone] at hFirst
          cases hFirst
        · rw [hOne] at hFirst
          exact Nat.le_of_eq (List.mem_singleton.1 hFirst).symm
      · have hLater := ih (res + 1) k hRest
        omega

theorem sessionCalls_fresh (c : Connector) (res : Nat) (ops : List AccountOp) :
    resultProtocol.Fresh (sessionCalls c res ops) := by
  unfold Protocol.Fresh
  induction ops generalizing res with
  | nil => exact List.nodup_nil
  | cons op ops ih =>
      rw [sessionCalls, List.filterMap_append]
      have hRest := ih (res + 1)
      rcases operationCalls_obtains c res op with hNone | hOne
      · rw [hNone]
        exact hRest
      · rw [hOne]
        apply List.nodup_cons.2
        refine ⟨?_, hRest⟩
        intro hMem
        have hLater := obtains_sessionCalls_ge c (res + 1) ops res hMem
        omega

theorem releases_sessionCalls (c : Connector) {res k : Nat} (hk : k < res)
    (ops : List AccountOp) :
    ∀ e ∈ sessionCalls c res ops, resultProtocol.releases e ≠ some k := by
  induction ops generalizing res with
  | nil =>
      intro e he
      cases he
  | cons op ops ih =>
      intro e he
      rw [sessionCalls, List.mem_append] at he
      rcases he with hFirst | hRest
      · exact operationCalls_releases c res op (by omega) e hFirst
      · exact ih (by omega) e hRest

theorem run_sessionCalls (c : Connector) (res : Nat) (ops : List AccountOp) :
    run resultProtocol.audit [] (sessionCalls c res ops) = some [] ↔
      ∀ op ∈ ops, op.freesResult = true := by
  induction ops generalizing res with
  | nil => simp [sessionCalls, run]
  | cons op ops ih =>
      rw [sessionCalls, run_append, List.forall_mem_cons]
      rcases run_operationCalls c res op with hRun | ⟨hLeft, hRun⟩
      · rw [hRun]
        by_cases hOp : op.freesResult = true
        · rw [if_pos hOp, Option.bind_some, ih]
          simp [hOp]
        · rw [if_neg hOp]
          simp [hOp]
      · -- nobody frees the result that was left behind
        rw [hRun, Option.bind_some, hLeft]
        simp only [Bool.false_eq_true, false_and, iff_false]
        intro hRest
        have hKept := releases_sessionCalls c (Nat.lt_succ_self res) ops
        cases Protocol.mem_of_run (List.mem_singleton_self res) hKept hRest

theorem disciplined_sessionCalls_iff (c : Connector) (res : Nat)
    (ops : List AccountOp) :
    resultProtocol.Disciplined (sessionCalls c res ops) ↔
      ∀ op ∈ ops, op.freesResult = true := by
  rw [Protocol.disciplined_iff (sessionCalls_fresh c res ops), run_sessionCalls]

/-- What stands before a query is whole operations. -/
theorem sessionCalls_before_query (c : Connector) (res : Nat) (ops : List AccountOp)
    {pre post : List MysqlCall} {handle : Option Nat} {text : Bytes}
    (hSplit : sessionCalls c res ops = pre ++ .mysql_query handle text :: post) :
    ∃ done rest, ops = done ++ rest ∧ pre = sessionCalls c res done := by
  induction ops generalizing res pre with
  | nil => simp [sessionCalls] at hSplit
  | cons op ops ih =>
      obtain ⟨text', more, hCalls, hNoQuery⟩ := operationCalls_query c res op
      rw [sessionCalls, List.append_eq_append_iff] at hSplit
      rcases hSplit with ⟨pre', rfl, hRest⟩ | ⟨tail, hFirst, hTail⟩
      · -- the query belongs to a later operation
        obtain ⟨done, rest, rfl, rfl⟩ := ih (res + 1) hRest
        exact ⟨op :: done, rest, rfl, rfl⟩
      · cases tail with
        | nil =>
            refine ⟨[op], ops, rfl, ?_⟩
            simpa [sessionCalls] using hFirst.symm
        | cons e tail =>
            -- the query is this operation's own, which it starts with
            obtain ⟨rfl, -⟩ := List.cons.inj hTail
            cases pre with
            | nil => exact ⟨[], op :: ops, rfl, rfl⟩
            | cons first pre =>
                rw [hCalls] at hFirst
                obtain ⟨-, hMore⟩ := List.cons.inj hFirst
                exact absurd (by rw [hMore]; simp) (hNoQuery handle text)

/-- **Result discipline.** Over every sequence of account operations on a
connected object and every outcome of the library's calls: only results that
are there are read, each is freed exactly once, and no query is issued while
one is unreleased, exactly when every search whose query succeeded got a
result, and found a row or could log that there was none. -/
theorem results_disciplined_iff (handle : Nat) (ops : List AccountOp) :
    ResultDiscipline (sessionCalls ⟨some handle⟩ 0 ops) ↔
      ∀ op ∈ ops, op.freesResult = true := by
  constructor
  · intro hResults
    exact (disciplined_sessionCalls_iff _ 0 ops).1 hResults.disciplined
  · intro hOps
    refine ⟨(disciplined_sessionCalls_iff _ 0 ops).2 hOps, ?_⟩
    intro pre handle' text post hSplit res hLive
    obtain ⟨done, rest, rfl, rfl⟩ := sessionCalls_before_query _ 0 ops hSplit
    have hDone := (disciplined_sessionCalls_iff ⟨some handle⟩ 0 done).2
      fun op hOp => hOps op (List.mem_append_left _ hOp)
    have hReleased := hDone.returned res hLive.1
    rw [hLive.2] at hReleased
    omega

/-- The result of a search cannot be fetched, and `mysql_fetch_row` is given
a null pointer.  Or there is no row and no logger, and the result of the search
is still there when the next query goes out. -/
theorem results_undisciplined_nullResult :
    ¬ ResultDiscipline (sessionCalls ⟨some 1⟩ 0
        [.searchAccount ⟨false, false, false, true⟩
          (bytesOf "player") (bytesOf "secret")]) ∧
      ¬ ResultDiscipline (sessionCalls ⟨some 1⟩ 0
        [.searchAccount ⟨false, true, false, false⟩
          (bytesOf "player") (bytesOf "secret"),
          .searchAccount ⟨false, true, true, true⟩ (bytesOf "player")
            (bytesOf "secret")]) := by
  constructor
  · intro hResults
    obtain ⟨res, hNull, -⟩ := hResults.disciplined.sound
      [.mysql_query (some 1) (cstr (searchSql (bytesOf "player") (bytesOf "secret"))),
        .mysql_use_result (some 1) none]
      (.mysql_fetch_row none)
        [.mysql_free_result none] rfl none (by simp [resultProtocol])
    cases hNull
  · intro hResults
    refine hResults.idle
      [.mysql_query (some 1) (cstr (searchSql (bytesOf "player") (bytesOf "secret"))),
        .mysql_use_result (some 1) (some 0), .mysql_fetch_row (some 0)]
      (some 1) (cstr (searchSql (bytesOf "player") (bytesOf "secret")))
      [.mysql_use_result (some 1) (some 1), .mysql_fetch_row (some 1),
        .mysql_free_result (some 1)] rfl 0 ⟨?_, ?_⟩
    · simp [Protocol.Obtained, resultProtocol]
    · simp [Protocol.releaseCount, resultProtocol]

end MGServer.Ports.DBConnector
