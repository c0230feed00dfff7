/-
`StreetMigrationRunner`: `run` applies the pending files of a directory, `rollback` undoes the last
ones, each file in a transaction of its own together with its row of the tracking table.
-/
import StreetJS.Migrations.Database
import StreetJS.Lib.Runs

namespace StreetJS.Migrations

/-- A migrations directory: its resolved path, and its entries with the content of those that can be
read as files (`none` for the whole where the directory cannot be read). A file system holds each name
once, and none longer than 255 characters. -/
structure Directory where
  path : List Char
  entries : Option (List (FileName × Option String))
  nodup : ((entries.getD []).map Prod.fst).Nodup
  short : ∀ e ∈ entries.getD [], e.1.length ≤ 255

/-- The content of a file of the directory, where it can be read. -/
def Directory.readFile (d : Directory) (file : FileName) : Option String :=
  ((d.entries.getD []).lookup file).join

def isAlphanumeric (c : Char) : Bool :=
  ('a' ≤ c && c ≤ 'z') || ('A' ≤ c && c ≤ 'Z') || ('0' ≤ c && c ≤ '9')

def dotSql : List Char := ['.', 's', 'q', 'l']

def dotRollbackSql : List Char := ['.', 'r', 'o', 'l', 'l', 'b', 'a', 'c', 'k', '.', 's', 'q', 'l']

/-- `SAFE_MIGRATION_FILENAME`, `/^[a-zA-Z0-9][a-zA-Z0-9_\-.]*\.sql$/`. -/
def safeMigrationFilename (file : FileName) : Bool :=
  match file with
  | [] => false
  | c :: rest =>
    isAlphanumeric c && dotSql.isSuffixOf rest && rest.all fun c => isAlphanumeric c || c = '_' || c = '-' || c = '.'

/-- `resolve(join(dir, file))`, for a resolved `dir` and a name without separators that is neither
`.` nor `..`. -/
def resolvedPath (dir : List Char) (file : FileName) : List Char :=
  if dir = ['/'] then '/' :: file else dir ++ '/' :: file

section

variable {σ : Type}

/-- `assertFileWithinDir`. -/
def assertFileWithinDir (dir : List Char) (file : FileName) : Program σ (List Char) :=
  if !safeMigrationFilename file then
    Program.raise ("Unsafe migration filename rejected: " ++ String.ofList file)
  else if !(dir ++ ['/']).isPrefixOf (resolvedPath dir file) && resolvedPath dir file ≠ dir then
    Program.raise ("Migration file escapes migrations directory: " ++ String.ofList file)
  else pure (resolvedPath dir file)

/-- `readFile(fullPath, 'utf8')`, with the error of a file that cannot be read. -/
def readFile (d : Directory) (file : FileName) (message : String) : Program σ String :=
  match d.readFile file with
  | some sql => pure sql
  | none => Program.raise message

/-- `_getMigrationFiles`. -/
def getMigrationFiles (d : Directory) : List FileName :=
  (((d.entries.getD []).map Prod.fst).filter fun file =>
    dotSql.isSuffixOf file && !dotRollbackSql.isSuffixOf file && safeMigrationFilename file).insertionSort (· ≤ ·)

/-- `name.replace(/\.sql$/, '.rollback.sql')`. -/
def rollbackFileOf (name : FileName) : FileName :=
  if dotSql.isSuffixOf name then name.take (name.length - 4) ++ dotRollbackSql else name

/-- `xs.slice(-steps)`: for `steps = 0` this is `xs.slice(0)`, the whole list. -/
def sliceLast {α : Type} (steps : Nat) (xs : List α) : List α :=
  if steps = 0 then xs else xs.drop (xs.length - steps)

variable (server : Server σ) (env : Env)

/-- `_ensureTable`. -/
def ensureTable : Program σ Unit := do
  let _ ← query server env .createTable
  pure ()

/-- `_getApplied` and `_getAppliedOrdered`: the same query, read as a set and as a list. -/
def getApplied : Program σ (List FileName) := do
  let found ← query server env .selectApplied
  pure (found.filter fun name => name ≠ [])

/-- The transaction of one migration. -/
def applyMigration (file : FileName) (sql : String) : Program σ Unit :=
  transaction server env do
    let _ ← query server env (.script (.apply file) sql)
    let _ ← query server env (.insertName file)
    pure ()

/-- The loop of `run` over the files. -/
def applyFiles (d : Directory) (appliedSet : List FileName) : List FileName → Program σ Unit
  | [] => pure ()
  | file :: files =>
    if file ∈ appliedSet then applyFiles d appliedSet files
    else do
      let _ ← assertFileWithinDir d.path file
      let sql ← readFile d file "the file cannot be read"
      applyMigration server env file sql
      applyFiles d appliedSet files

/-- `StreetMigrationRunner.run`. -/
def run (d : Directory) : Program σ Unit := do
  ensureTable server env
  let appliedSet ← getApplied server env
  applyFiles server env d appliedSet (getMigrationFiles d)

/-- The transaction of one rollback. -/
def undoMigration (name : FileName) (sql : String) : Program σ Unit :=
  transaction server env do
    let _ ← query server env (.script (.undo name) sql)
    let _ ← query server env (.deleteName name)
    pure ()

/-- The loop of `rollback` over the names. -/
def undoAll (d : Directory) : List FileName → Program σ Unit
  | [] => pure ()
  | name :: names => do
    let _ ← assertFileWithinDir d.path (rollbackFileOf name)
    let sql ← readFile d (rollbackFileOf name) ("Rollback file not found: " ++ String.ofList (rollbackFileOf name))
    undoMigration server env name sql
    undoAll d names

/-- `StreetMigrationRunner.rollback`. -/
def rollback (d : Directory) (steps : Nat) : Program σ Unit := do
  let applied ← getApplied server env
  undoAll server env d (sliceLast steps applied).reverse

end

/-! ## Histories of calls -/

/-- A call of the runner, with the directory as it is then. -/
inductive Event
  | run (d : Directory) (env : Env)
  | rollback (d : Directory) (steps : Nat) (env : Env)

section

variable {σ : Type} (server : Server σ)

/-- A call on a session of its own. -/
def call (db : Db σ) : Event → Outcome Unit × Session σ
  | .run d env => run server env d ⟨db, .idle, 0⟩
  | .rollback d steps env => rollback server env d steps ⟨db, .idle, 0⟩

/-- The database after a call. -/
def step (db : Db σ) (e : Event) : Db σ := (call server db e).2.committed

/-- A database no migration has touched. -/
def fresh (data : σ) : Db σ := ⟨data, none, []⟩

end

end StreetJS.Migrations
