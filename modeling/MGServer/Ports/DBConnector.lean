import MGServer.Verified.SqlText

/-!
# `DBConnector`: the account queries

Port of `server/source/DBConnector.cpp`.  Every call into the MySQL client
library is recorded in the order it is made, with the pointers and the C
strings it is given; the library's answers are inputs.  So is whether the
`LOG_ERROR` on an exit returns: off MSVC it asks `GetRotatingLogger()`, which
throws while no logger can be built.

Both account operations build their statement by concatenating `Id` and
`Password`, unescaped, between the quotes of a fixed text.  The result below
says exactly which pairs survive that: the statement handed to `mysql_query`
has the intended tokens, with these two literals and no others, if and only
if both strings are `Plain`.
-/

namespace MGServer.Ports.DBConnector

open MGServer.Verified.ByteString
open MGServer.Verified.SqlText

/-- A call into the client library.  A handle or result argument is `none`
when the pointer was never assigned (`Conn`) or is null (`Res`). -/
inductive MysqlCall where
  | mysql_init (handle : Nat)
  | mysql_real_connect (handle : Nat) (server user password database : Bytes)
      (port : Int)
  | mysql_close (handle : Option Nat)
  | mysql_query (handle : Option Nat) (text : Bytes)
  | mysql_use_result (handle : Option Nat) (res : Option Nat)
  | mysql_fetch_row (res : Option Nat)
  | mysql_free_result (res : Option Nat)
  deriving Repr, DecidableEq

/-- The object: `Conn` is assigned by `Connect` only.  `Res` and `Row` are
members in the source too, but every use follows an assignment in the same
call, so they are locals here. -/
structure Connector where
  Conn : Option Nat
  deriving Repr, DecidableEq

/-- What the client library answers during one account operation. -/
structure Answers where
  /-- `mysql_query` returned non-zero. -/
  queryFails : Bool
  /-- What `mysql_use_result` returned. -/
  result : Option Nat
  /-- `mysql_fetch_row` returned a row. -/
  hasRow : Bool
  /-- A `LOG_ERROR`, where one is reached, does not throw. -/
  logs : Bool
  deriving Repr, DecidableEq

/-- Behind a `LOG_ERROR` a member returns false, or it has thrown. -/
def loggedFalse (logs : Bool) : Option Bool := if logs then some false else none

/-- The constructor leaves `Conn` unassigned. -/
def construct : Connector := ⟨none⟩

/-- `Connect`; no result stands for a throw. -/
def connect (_c : Connector) (freshHandle : Nat) (connected logs : Bool)
    (Server User Password Database : Bytes) (Port : Int) :
    Connector × Option Bool × List MysqlCall :=
  (⟨some freshHandle⟩, if connected then some true else loggedFalse logs,
    [.mysql_init freshHandle,
     .mysql_real_connect freshHandle (cstr Server) (cstr User) (cstr Password)
       (cstr Database) Port])

def close (c : Connector) : List MysqlCall := [.mysql_close c.Conn]

/-- The `std::string` that `SearchAccount` builds. -/
def searchSql (Id Password : Bytes) : Bytes :=
  bytesOf "SELECT * FROM sungminworld.playeraccount WHERE id = '" ++
    (Id ++ bytesOf "' and pw = '" ++ Password ++ bytesOf "'")

/-- `SearchAccount`.  Without a row it logs before it frees the result. -/
def searchAccount (c : Connector) (a : Answers) (Id Password : Bytes) :
    Option Bool × List MysqlCall :=
  let sql := searchSql Id Password
  if a.queryFails then (loggedFalse a.logs, [.mysql_query c.Conn (cstr sql)])
  else if a.hasRow || a.logs then
    (some a.hasRow,
      [.mysql_query c.Conn (cstr sql),
       .mysql_use_result c.Conn a.result,
       .mysql_fetch_row a.result,
       .mysql_free_result a.result])
  else
    (none,
      [.mysql_query c.Conn (cstr sql),
       .mysql_use_result c.Conn a.result,
       .mysql_fetch_row a.result])

/-- The `std::string` that `SignUpAccount` builds. -/
def signUpSql (Id Password : Bytes) : Bytes :=
  bytesOf "INSERT INTO sungminworld.playeraccount (id, pw) VALUES" ++
    (bytesOf " ('" ++ Id ++ bytesOf "', '" ++ Password ++ bytesOf "')")

def signUpAccount (c : Connector) (a : Answers) (Id Password : Bytes) :
    Option Bool × List MysqlCall :=
  let sql := signUpSql Id Password
  (if a.queryFails then loggedFalse a.logs else some true,
    [.mysql_query c.Conn (cstr sql)])

/-- The statement texts the server is asked to run. -/
def queryTexts (calls : List MysqlCall) : List Bytes :=
  calls.filterMap fun
    | .mysql_query _ text => some text
    | _ => none

/-! ## The two statements as templates -/

private def wordTok (s : String) : Token := .word (bytesOf s)

private def punctTok (c : Char) : Token := .punct (UInt8.ofNat c.toNat)

/-- `SELECT * FROM sungminworld.playeraccount WHERE id = <Id> and pw =
<Password>`. -/
def searchTokens (Id Password : Bytes) : List Token :=
  [wordTok "SELECT", punctTok '*', wordTok "FROM", wordTok "sungminworld",
   punctTok '.', wordTok "playeraccount", wordTok "WHERE", wordTok "id",
   punctTok '=', .text Id, wordTok "and", wordTok "pw", punctTok '=',
   .text Password]

/-- `INSERT INTO sungminworld.playeraccount (id, pw) VALUES (<Id>,
<Password>)`. -/
def signUpTokens (Id Password : Bytes) : List Token :=
  [wordTok "INSERT", wordTok "INTO", wordTok "sungminworld", punctTok '.',
   wordTok "playeraccount", punctTok '(', wordTok "id", punctTok ',',
   wordTok "pw", punctTok ')', wordTok "VALUES", punctTok '(', .text Id,
   punctTok ',', .text Password, punctTok ')']

def searchTemplate : Template where
  head := bytesOf "SELECT * FROM sungminworld.playeraccount WHERE id = "
  sep := bytesOf " and pw = "
  tail := []
  headOuter := by decide +kernel
  sepOuter := by decide
  tailOuter := by decide
  sepNonempty := by decide
  tailTight := by decide

def signUpTemplate : Template where
  head := bytesOf "INSERT INTO sungminworld.playeraccount (id, pw) VALUES ("
  sep := bytesOf ", "
  tail := bytesOf ")"
  headOuter := by decide +kernel
  sepOuter := by decide
  tailOuter := by decide
  sepNonempty := by decide
  tailTight := by decide

theorem searchSql_eq_fill (Id Password : Bytes) :
    searchSql Id Password = searchTemplate.fill Id Password := by
  have hHead : bytesOf "SELECT * FROM sungminworld.playeraccount WHERE id = '" =
      searchTemplate.head ++ [quote] := by decide +kernel
  have hSep : bytesOf "' and pw = '" = quote :: (searchTemplate.sep ++ [quote]) := by
    decide
  have hTail : bytesOf "'" = quote :: searchTemplate.tail := by decide
  simp only [searchSql, Template.fill, hHead, hSep, hTail, List.append_assoc,
    List.cons_append, List.nil_append]

theorem signUpSql_eq_fill (Id Password : Bytes) :
    signUpSql Id Password = signUpTemplate.fill Id Password := by
  have hHead : bytesOf "INSERT INTO sungminworld.playeraccount (id, pw) VALUES" ++
      bytesOf " ('" = signUpTemplate.head ++ [quote] := by decide +kernel
  have hSep : bytesOf "', '" = quote :: (signUpTemplate.sep ++ [quote]) := by
    decide
  have hTail : bytesOf "')" = quote :: signUpTemplate.tail := by decide
  simp only [signUpSql, Template.fill, hSep, hTail, ← List.append_assoc, hHead]
  simp only [List.append_assoc, List.cons_append, List.nil_append]

theorem search_skeleton (Id Password : Bytes) :
    searchTemplate.skeleton Id Password = searchTokens Id Password := by
  have hHead : outerTokens searchTemplate.head =
      [wordTok "SELECT", punctTok '*', wordTok "FROM", wordTok "sungminworld",
       punctTok '.', wordTok "playeraccount", wordTok "WHERE", wordTok "id",
       punctTok '='] := by decide +kernel
  have hSep : outerTokens searchTemplate.sep =
      [wordTok "and", wordTok "pw", punctTok '='] := by decide
  have hTail : outerTokens searchTemplate.tail = [] := by decide
  simp [Template.skeleton, hHead, hSep, hTail, searchTokens]

theorem signUp_skeleton (Id Password : Bytes) :
    signUpTemplate.skeleton Id Password = signUpTokens Id Password := by
  have hHead : outerTokens signUpTemplate.head =
      [wordTok "INSERT", wordTok "INTO", wordTok "sungminworld", punctTok '.',
       wordTok "playeraccount", punctTok '(', wordTok "id", punctTok ',',
       wordTok "pw", punctTok ')', wordTok "VALUES", punctTok '('] := by decide +kernel
  have hSep : outerTokens signUpTemplate.sep = [punctTok ','] := by decide
  have hTail : outerTokens signUpTemplate.tail = [punctTok ')'] := by decide
  simp [Template.skeleton, hHead, hSep, hTail, signUpTokens]

/-! ## Which pairs the statements carry -/

/-- Whatever the library answers, one statement text is handed over. -/
theorem queryTexts_search (c : Connector) (a : Answers) (Id Password : Bytes) :
    queryTexts (searchAccount c a Id Password).2 =
      [cstr (searchSql Id Password)] := by
  unfold searchAccount
  dsimp only
  split
  · rfl
  · split <;> rfl

theorem queryTexts_signUp (c : Connector) (a : Answers) (Id Password : Bytes) :
    queryTexts (signUpAccount c a Id Password).2 =
      [cstr (signUpSql Id Password)] := rfl

/-- **Account statements.** The text that `SearchAccount` hands to
`mysql_query` is the intended statement about `Id` and `Password`, and the
text that `SignUpAccount` hands over is the intended insertion of that pair,
exactly when both strings are plain: no quote, no NUL, and no backslash that
is not in front of `%` or `_`. -/
theorem account_statements_iff_plain (c : Connector) (a : Answers)
    (Id Password : Bytes) :
    ((∀ text ∈ queryTexts (searchAccount c a Id Password).2,
        lex text = some (searchTokens Id Password)) ↔
      Plain Id = true ∧ Plain Password = true) ∧
    ((∀ text ∈ queryTexts (signUpAccount c a Id Password).2,
        lex text = some (signUpTokens Id Password)) ↔
      Plain Id = true ∧ Plain Password = true) := by
  constructor
  · rw [queryTexts_search, searchSql_eq_fill, ← search_skeleton]
    simpa using searchTemplate.lex_fill_iff Id Password
  · rw [queryTexts_signUp, signUpSql_eq_fill, ← signUp_skeleton]
    simpa using signUpTemplate.lex_fill_iff Id Password

/-- The classic tautology as `Id` turns the search into a condition that is
true of every row, and its own quotes break the insertion. -/
theorem account_statements_tautology :
    ¬ ((∀ text ∈ queryTexts (searchAccount ⟨some 1⟩ ⟨false, some 2, true, true⟩
          (bytesOf "' or '1'='1") (bytesOf "x")).2,
        lex text = some (searchTokens (bytesOf "' or '1'='1") (bytesOf "x"))) ∧
      (∀ text ∈ queryTexts (signUpAccount ⟨some 1⟩ ⟨false, some 2, true, true⟩
          (bytesOf "' or '1'='1") (bytesOf "x")).2,
        lex text = some (signUpTokens (bytesOf "' or '1'='1") (bytesOf "x")))) := by
  decide +kernel

end MGServer.Ports.DBConnector
