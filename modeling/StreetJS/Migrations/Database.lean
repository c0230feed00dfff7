/-
The database the migration runner talks to: the tracking table `street_migrations`, what one SQL
statement does to it, transactions, and a process that may crash between two statements.
A program here is what a call of the runner does to its session, with the outcome of the call.
-/
import Mathlib.Data.List.Sort
import Mathlib.Data.List.Lex
import Mathlib.Data.Char

namespace StreetJS.Migrations

/-- A file name, as its characters. -/
abbrev FileName := List Char

/-- The one proof that every test for a name in a list goes by. -/
scoped instance : LawfulBEq FileName := inferInstance

/-- A row of `street_migrations`. -/
structure Row where
  name : FileName
  appliedAt : Nat
  deriving DecidableEq

/-- What a script was sent for: a migration's own SQL, or its rollback file's. -/
inductive Script
  | apply (file : FileName)
  | undo (name : FileName)
  deriving DecidableEq

/-- A database: the application's tables, the tracking table (`none` before it is created), and the
scripts executed so far (a record of what took effect, which no statement reads). -/
structure Db (σ : Type) where
  data : σ
  tracking : Option (List Row)
  history : List Script
  deriving DecidableEq

/-- What the runner relies on of the server: what a script does (`none` where the server refuses it),
and the order of `ORDER BY applied_at ASC`, which leaves rows of one instant in any order. -/
structure Server (σ : Type) where
  execute : String → σ → Option σ
  orderBy : List Row → List Row
  orderBy_perm : ∀ rows, (orderBy rows).Perm rows
  orderBy_sorted : ∀ rows, (orderBy rows).Pairwise (fun a b => a.appliedAt ≤ b.appliedAt)

namespace Db

variable {σ : Type}

/-- The rows of the tracking table. -/
def rows (db : Db σ) : List Row := db.tracking.getD []

/-- The tracked names, in the order of their rows. -/
def names (db : Db σ) : List FileName := db.rows.map Row.name

end Db

/-- The statements the runner sends. -/
inductive Stmt
  | begin
  | commit
  | rollback
  | createTable
  | selectApplied
  | script (s : Script) (sql : String)
  | insertName (name : FileName)
  | deleteName (name : FileName)

/-- Statements that open or close a transaction. -/
def Stmt.isControl : Stmt → Bool
  | .begin | .commit | .rollback => true
  | _ => false

/-- What a statement other than `BEGIN`, `COMMIT` and `ROLLBACK` returns and does, in a transaction
started at `now`; `none` where the server reports an error. -/
def effect {σ : Type} (server : Server σ) (now : Nat) : Stmt → Db σ → Option (List FileName × Db σ)
  | .createTable, db => some ([], { db with tracking := some db.rows })
  | .selectApplied, db => db.tracking.map fun rows => ((server.orderBy rows).map Row.name, db)
  | .script s sql, db =>
    (server.execute sql db.data).map fun data => ([], { db with data := data, history := db.history ++ [s] })
  | .insertName name, db =>
    -- `name VARCHAR(255) NOT NULL UNIQUE`
    match db.tracking with
    | none => none
    | some rows =>
      if name.length > 255 then none
      else if name ∈ rows.map Row.name then none
      else some ([], { db with tracking := some (rows ++ [⟨name, now⟩]) })
  | .deleteName name, db =>
    db.tracking.map fun rows => ([], { db with tracking := some (rows.filter fun row => row.name ≠ name) })
  | _, db => some ([], db)

/-- A connection's transaction: its own copy of the database and when it started, or aborted. -/
inductive Txn (σ : Type)
  | idle
  | live (db : Db σ) (startedAt : Nat)
  | failed

/-- What the surroundings of one call decide: after how many statements the process crashes, if it
does, and the server's clock at each statement. -/
structure Env where
  crashAt : Option Nat
  clock : Nat → Nat

/-- The session of one call. -/
structure Session (σ : Type) where
  committed : Db σ
  txn : Txn σ
  issued : Nat

/-- How a call ends. -/
inductive Outcome (α : Type)
  | done (value : α)
  | threw (message : String)
  | crashed
  deriving DecidableEq

/-- What a call does to its session. -/
def Program (σ α : Type) : Type := Session σ → Outcome α × Session σ

namespace Program

variable {σ α β : Type}

instance : Monad (Program σ) where
  pure a := fun s => (.done a, s)
  bind p f := fun s =>
    match p s with
    | (.done a, s') => f a s'
    | (.threw message, s') => (.threw message, s')
    | (.crashed, s') => (.crashed, s')

/-- `throw new Error(message)`. -/
def raise (message : String) : Program σ α := fun s => (.threw message, s)

theorem pure_apply (a : α) (s : Session σ) : (pure a : Program σ α) s = (.done a, s) := rfl

theorem bind_apply (p : Program σ α) (f : α → Program σ β) (s : Session σ) : (p >>= f) s = match p s with
    | (.done a, s') => f a s'
    | (.threw message, s') => (.threw message, s')
    | (.crashed, s') => (.crashed, s') := rfl

theorem bind_of_done {p : Program σ α} {f : α → Program σ β} {s s' : Session σ} {a : α} (h : p s = (.done a, s')) : (p >>= f) s = f a s' := by
  rw [bind_apply, h]

theorem bind_of_threw {p : Program σ α} {f : α → Program σ β} {s s' : Session σ} {m : String}
    (h : p s = (.threw m, s')) : (p >>= f) s = (.threw m, s') := by
  rw [bind_apply, h]

theorem bind_of_crashed {p : Program σ α} {f : α → Program σ β} {s s' : Session σ}
    (h : p s = (.crashed, s')) : (p >>= f) s = (.crashed, s') := by
  rw [bind_apply, h]

end Program

section

variable {σ : Type} (server : Server σ) (env : Env)

/-- `conn.query(sql)`. A crash between two statements closes the connection, and the server gives up
its transaction. -/
def query (st : Stmt) : Program σ (List FileName) := fun s =>
  if env.crashAt = some s.issued then (.crashed, { s with txn := .idle })
  else
    let s' := { s with issued := s.issued + 1 }
    match st, s.txn with
    | .begin, .idle => (.done [], { s' with txn := .live s.committed (env.clock s.issued) })
    | .begin, _ => (.done [], s')
    | .commit, .live db _ => (.done [], { s' with committed := db, txn := .idle })
    | .commit, _ => (.done [], { s' with txn := .idle })
    | .rollback, _ => (.done [], { s' with txn := .idle })
    | st, .idle =>
      match effect server (env.clock s.issued) st s.committed with
      | some (found, db) => (.done found, { s' with committed := db })
      | none => (.threw "database error", s')
    | st, .live db startedAt =>
      match effect server startedAt st db with
      | some (found, db') => (.done found, { s' with txn := .live db' startedAt })
      | none => (.threw "database error", { s' with txn := .failed })
    | _, .failed => (.threw "current transaction is aborted", s')

/-- The `try` block of `PgPool.transaction`. -/
def attempt {α : Type} (fn : Program σ α) : Program σ α := do
  let _ ← query server env .begin
  let result ← fn
  let _ ← query server env .commit
  pure result

/-- `PgPool.transaction`. -/
def transaction {α : Type} (fn : Program σ α) : Program σ α := fun s =>
  match attempt server env fn s with
  | (.threw message, s') =>
    -- an error of the `ROLLBACK` itself is ignored
    match query server env .rollback s' with
    | (.crashed, s'') => (.crashed, s'')
    | (_, s'') => (.threw message, s'')
  | ended => ended

end

end StreetJS.Migrations
