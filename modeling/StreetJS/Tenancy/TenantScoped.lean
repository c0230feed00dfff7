/-
Tenant-scoped repositories (`core/src/tenancy/tenant-scoped.ts`) over one database: the statement that every
operation sends, with the names of the caller's objects as they stand in its text, and what PostgreSQL does with it.
What a name is in the text (a column, an unknown column, or SQL of its own) and what injected SQL does are
parameters of the database, and so are its defaults and constraints.
-/
import StreetJS.Lib.OrderedMap
import StreetJS.Lib.Runs

namespace StreetJS.Tenancy

open StreetJS.Lib List OrderedMap
open Prod (fst)

/-! ## Statements -/

/-- A parameter or the value of a column, as its text; `none` is NULL. -/
abbrev Value := Option String

/-- A row by its columns. -/
abbrev Row := OrderedMap String Value

/-- An object of a caller, in the order of its keys. -/
abbrev Fields := OrderedMap String Value

/-- A statement, with the names in its text and their parameters; conditions are joined by AND. -/
inductive Statement where
  | select (conditions : List (String × Value)) (limit : Option Nat)
  | insert (columns : List (String × Value))
  | update (assignments conditions : List (String × Value))
  | delete (conditions : List (String × Value))

/-- What the text of a name is to the database. -/
inductive Reading where
  | column (name : String)
  | unknown
  | sql
deriving DecidableEq

/-- What a statement did: the table behind it, the rows it returned, and what was written or removed, before and
after. -/
structure Outcome where
  table : List Row
  rows : List Row
  changes : List (Option Row × Option Row)

structure Database where
  reads : String → Reading
  defaults : List Row → Row
  accepts : List Row → Bool
  /-- A statement with SQL in the place of a name. -/
  injected : Statement → List Row → Option Outcome

namespace Statement

def names : Statement → List String
  | .select conditions _ => conditions.map fst
  | .insert columns => columns.map fst
  | .update assignments conditions => (assignments ++ conditions).map fst
  | .delete conditions => conditions.map fst

end Statement

namespace Database

variable (db : Database)

/-- The column of a name. -/
def column (name : String) : String :=
  match db.reads name with
  | .column c => c
  | _ => name

/-- `c₁ = $1 AND c₂ = $2 …`: NULL equals nothing. -/
def holds (conditions : List (String × Value)) (row : Row) : Bool :=
  conditions.all fun (name, value) => value.isSome && decide (row.get (db.column name) = some value)

/-- `SET c₁ = $1, c₂ = $2 …`. -/
def assign (assignments : List (String × Value)) (row : Row) : Row :=
  assignments.foldl (fun row (name, value) => row.set (db.column name) value) row

/-- The row of an INSERT: what is not given has its default. -/
def inserted (columns : List (String × Value)) (rows : List Row) : Row :=
  let given := columns.map fun (name, value) => (db.column name, value)
  given ++ (db.defaults rows).filter fun d => d.1 ∉ given.map fst

/-- What a statement does to the rows of its table; an error leaves them as they are. -/
def execute (st : Statement) (rows : List Row) : Option Outcome :=
  if st.names.any (db.reads · = .sql) then db.injected st rows
  else if st.names.any (db.reads · = .unknown) then none
  else match st with
    | .select conditions limit =>
      let found := rows.filter (db.holds conditions)
      some { table := rows, rows := limit.elim found found.take, changes := [] }
    | .insert columns =>
      let row := db.inserted columns rows
      if (columns.map fun c => db.column c.1).Nodup ∧ db.accepts (rows ++ [row]) then
        some { table := rows ++ [row], rows := [row], changes := [(none, some row)] }
      else none
    | .update assignments conditions =>
      let table := rows.map fun row => if db.holds conditions row then db.assign assignments row else row
      let found := rows.filter (db.holds conditions)
      if (assignments.map fun a => db.column a.1).Nodup ∧ db.accepts table then
        some {
          table := table
          rows := found.map (db.assign assignments)
          changes := found.map fun row => (some row, some (db.assign assignments row)) }
      else none
    | .delete conditions =>
      some {
        table := rows.filter fun row => !db.holds conditions row
        rows := []
        changes := (rows.filter (db.holds conditions)).map fun row => (some row, none) }

end Database

/-! ## The repository -/

inductive Operation where
  | findById (id : String)
  | findAll (filter : Option Fields)
  | create (data : Fields)
  | update (id : String) (data : Fields)
  | delete (id : String)

def findById (tenantId id : String) : Statement :=
  .select [("id", some id), ("tenant_id", some tenantId)] (some 1)

def findAll (tenantId : String) : Option Fields → Statement
  | none => .select [("tenant_id", some tenantId)] none
  | some [] => .select [("tenant_id", some tenantId)] none
  | some filter => .select (("tenant_id", some tenantId) :: filter) none

/-- `{ ...data, tenant_id: this.tenantId }`. -/
def create (tenantId : String) (data : Fields) : Statement :=
  .insert (data.set "tenant_id" (some tenantId))

def update (tenantId id : String) (data : Fields) : Statement :=
  if data = [] then findById tenantId id
  else .update data [("id", some id), ("tenant_id", some tenantId)]

def delete (tenantId id : String) : Statement := .delete [("id", some id), ("tenant_id", some tenantId)]

/-- The statement of an operation. -/
def statementOf (tenantId : String) : Operation → Statement
  | .findById id => findById tenantId id
  | .findAll filter => findAll tenantId filter
  | .create data => create tenantId data
  | .update id data => update tenantId id data
  | .delete id => delete tenantId id

/-- A repository that requests share; its tenant is the one set last. -/
structure TenantScopedRepository where
  tableName : String
  tenant : Option String := none

/-- A statement on its way to the database. -/
structure Sent where
  request : Nat
  tableName : String
  statement : Statement

/-- The repositories, the tables, the statements on their way, and what was done for whom. -/
structure Repositories where
  shared : List TenantScopedRepository
  tables : OrderedMap String (List Row)
  sent : List Sent := []
  done : List (Nat × Outcome) := []

inductive RepositoryEvent where
  /-- A request sets its tenant. -/
  | setTenant (request repository : Nat)
  | call (request repository : Nat) (operation : Operation)
  /-- A statement reaches the database. -/
  | execute (i : Nat)

/-- The tenants of the requests, and the database as its tables have it. -/
structure TenancyConfig where
  tenantOf : Nat → String
  database : String → Database

variable (cfg : TenancyConfig)

/-- The rows of a table. -/
def Repositories.rows (s : Repositories) (tableName : String) : List Row :=
  (s.tables.get tableName).getD []

def Repositories.step (s : Repositories) : RepositoryEvent → Repositories
  | .setTenant request k =>
    { s with shared := s.shared.modify k fun repo => { repo with tenant := some (cfg.tenantOf request) } }
  | .call request k operation =>
    match s.shared[k]? with
    | none => s
    | some repo =>
      match repo.tenant with
      | none => s
      | some tenantId =>
        { s with sent := s.sent ++ [⟨request, repo.tableName, statementOf tenantId operation⟩] }
  | .execute i =>
    match s.sent[i]? with
    | none => s
    | some q =>
      match (cfg.database q.tableName).execute q.statement (s.rows q.tableName) with
      | none => { s with sent := s.sent.eraseIdx i }
      | some outcome =>
        { s with
          tables := s.tables.set q.tableName outcome.table
          sent := s.sent.eraseIdx i
          done := s.done ++ [(q.request, outcome)] }

/-! ## Isolation -/

def Row.belongs (tenantId : String) (row : Row) : Prop := row.get "tenant_id" = some (some tenantId)

/-- All rows that are returned, written or removed are the tenant's, before and after. -/
structure Outcome.Isolated (tenantId : String) (o : Outcome) : Prop where
  rows : ∀ row ∈ o.rows, row.belongs tenantId
  before : ∀ change ∈ o.changes, ∀ row, change.1 = some row → row.belongs tenantId
  after : ∀ change ∈ o.changes, ∀ row, change.2 = some row → row.belongs tenantId

/-- The names are columns, and an update that names the column of the tenant sets this tenant. -/
def Operation.Proper (db : Database) (tenantId : String) : Operation → Prop
  | .findById _ => True
  | .findAll filter => ∀ field ∈ filter.getD [], db.reads field.1 ≠ .sql
  | .create data => ∀ field ∈ data, db.reads field.1 ≠ .sql
  | .update _ data => ∀ field ∈ data, db.reads field.1 ≠ .sql ∧ (db.reads field.1 = .column "tenant_id" → field.2 = some tenantId)
  | .delete _ => True

/-- The database knows the two columns that a repository names itself. -/
structure Database.Scoped (db : Database) : Prop where
  id : db.reads "id" = .column "id"
  tenant : db.reads "tenant_id" = .column "tenant_id"

/-- A statement that is bound to a tenant. -/
def Statement.Confined (db : Database) (tenantId : String) : Statement → Prop
  | .select conditions _ => ("tenant_id", some tenantId) ∈ conditions
  | .insert columns => ("tenant_id", some tenantId) ∈ columns
  | .update assignments conditions => ("tenant_id", some tenantId) ∈ conditions ∧
    ∀ a ∈ assignments, db.column a.1 = "tenant_id" → a.2 = some tenantId
  | .delete conditions => ("tenant_id", some tenantId) ∈ conditions

variable {db : Database} {tenantId : String}

theorem Database.Scoped.column_tenant (h : db.Scoped) : db.column "tenant_id" = "tenant_id" := by
  rw [Database.column, h.tenant]

theorem Database.holds_tenant (h : db.Scoped) {conditions : List (String × Value)} {row : Row}
    (hmem : ("tenant_id", some tenantId) ∈ conditions) (hrow : db.holds conditions row = true) :
    row.belongs tenantId := by
  have htenant := all_eq_true.1 hrow _ hmem
  rw [Bool.and_eq_true, decide_eq_true_iff, h.column_tenant] at htenant
  exact htenant.2

theorem Database.assign_belongs {assignments : List (String × Value)} {row : Row}
    (h : ∀ a ∈ assignments, db.column a.1 = "tenant_id" → a.2 = some tenantId) (hrow : row.belongs tenantId) :
    (db.assign assignments row).belongs tenantId := by
  induction assignments generalizing row with
  | nil => exact hrow
  | cons a assignments ih =>
    refine ih (fun a' ha' => h a' (mem_cons_of_mem _ ha')) ?_
    unfold Row.belongs
    rw [get_set]
    split
    · rename_i hname
      exact congrArg some (h a mem_cons_self hname.symm)
    · exact hrow

theorem Database.inserted_belongs (h : db.Scoped) {columns : List (String × Value)} (rows : List Row)
    (hnodup : (columns.map fun c => db.column c.1).Nodup) (hmem : ("tenant_id", some tenantId) ∈ columns) :
    (db.inserted columns rows).belongs tenantId := by
  have hgiven : OrderedMap.get (columns.map fun c => (db.column c.1, c.2)) "tenant_id" = some (some tenantId) := by
    refine get_of_mem (by rwa [map_map]) (mem_map.2 ⟨_, hmem, ?_⟩)
    rw [h.column_tenant]
  exact get_append_of_get hgiven _

theorem Database.execute_isolated (h : db.Scoped) {st : Statement} {rows : List Row} {o : Outcome}
    (hst : st.Confined db tenantId) (hnames : ∀ name ∈ st.names, db.reads name ≠ .sql)
    (ho : db.execute st rows = some o) : o.Isolated tenantId := by
  have hsql : st.names.any (db.reads · = .sql) = false := by
    rw [any_eq_false]
    intro name hname
    simpa using hnames name hname
  unfold Database.execute at ho
  rw [hsql, if_neg (by decide)] at ho
  split at ho
  · cases ho
  · cases st with
    | select conditions limit =>
      cases ho
      refine ⟨fun row hrow => ?_, fun change hc => (by cases hc), fun change hc => (by cases hc)⟩
      have hfound : row ∈ rows.filter (db.holds conditions) := by
        cases limit with
        | none => exact hrow
        | some n => exact mem_of_mem_take hrow
      exact Database.holds_tenant h hst (mem_filter.1 hfound).2
    | insert columns =>
      dsimp only at ho
      split at ho
      · rename_i hok
        cases ho
        have hrow := Database.inserted_belongs h rows hok.1 hst
        refine ⟨fun row hr => ?_, fun change hc row hr => ?_, fun change hc row hr => ?_⟩
        · rw [mem_singleton.1 hr]
          exact hrow
        · rw [mem_singleton.1 hc] at hr
          cases hr
        · rw [mem_singleton.1 hc] at hr
          cases hr
          exact hrow
      · cases ho
    | update assignments conditions =>
      dsimp only at ho
      split at ho
      · cases ho
        have hbefore : ∀ row ∈ rows.filter (db.holds conditions), row.belongs tenantId := fun row hr =>
          Database.holds_tenant h hst.1 (mem_filter.1 hr).2
        have hafter : ∀ row ∈ rows.filter (db.holds conditions), (db.assign assignments row).belongs tenantId :=
          fun row hr => Database.assign_belongs hst.2 (hbefore row hr)
        refine ⟨fun row hr => ?_, fun change hc row hr => ?_, fun change hc row hr => ?_⟩
        · obtain ⟨old, hold, rfl⟩ := mem_map.1 hr
          exact hafter old hold
        · obtain ⟨old, hold, rfl⟩ := mem_map.1 hc
          cases hr
          exact hbefore row hold
        · obtain ⟨old, hold, rfl⟩ := mem_map.1 hc
          cases hr
          exact hafter old hold
      · cases ho
    | delete conditions =>
      cases ho
      refine ⟨fun row hr => (by cases hr), fun change hc row hr => ?_, fun change hc row hr => ?_⟩
      · obtain ⟨_, hold, rfl⟩ := mem_map.1 hc
        cases hr
        exact Database.holds_tenant h hst (mem_filter.1 hold).2
      · obtain ⟨old, hold, rfl⟩ := mem_map.1 hc
        cases hr

theorem statementOf_confined (h : db.Scoped) {operation : Operation} (hop : operation.Proper db tenantId) :
    (statementOf tenantId operation).Confined db tenantId ∧ ∀ name ∈ (statementOf tenantId operation).names, db.reads name ≠ .sql := by
  have hid : db.reads "id" ≠ .sql := by simp [h.id]
  have htenant : db.reads "tenant_id" ≠ .sql := by simp [h.tenant]
  have hfind : ∀ id, (findById tenantId id).Confined db tenantId ∧ ∀ name ∈ (findById tenantId id).names, db.reads name ≠ .sql := fun id => by
    refine ⟨by simp [findById, Statement.Confined], fun name hname => ?_⟩
    simp only [findById, Statement.names, map_cons, map_nil, mem_cons, not_mem_nil, or_false] at hname
    rcases hname with rfl | rfl
    · exact hid
    · exact htenant
  cases operation with
  | findById id => exact hfind id
  | findAll filter =>
    have hnone : (findAll tenantId none).Confined db tenantId ∧ ∀ name ∈ (findAll tenantId none).names, db.reads name ≠ .sql := by
      refine ⟨mem_singleton.2 rfl, fun name hname => ?_⟩
      rw [mem_singleton.1 (show name ∈ ["tenant_id"] from hname)]
      exact htenant
    match filter with
    | none => exact hnone
    | some [] => exact hnone
    | some (field :: fields) =>
      refine ⟨mem_cons_self, fun name hname => ?_⟩
      rcases mem_cons.1 (show name ∈ "tenant_id" :: (field :: fields).map fst from hname) with rfl | hname
      · exact htenant
      · obtain ⟨f, hf, rfl⟩ := mem_map.1 hname
        exact hop f hf
  | create data =>
    refine ⟨get_mem (by rw [get_set, if_pos rfl]), fun name hname => ?_⟩
    obtain ⟨f, hf, rfl⟩ := mem_map.1 (show name ∈ (data.set "tenant_id" (some tenantId)).map fst from hname)
    rcases mem_set hf with hf | rfl
    · exact hop f hf
    · exact htenant
  | update id data =>
    have hsame : statementOf tenantId (.update id data) = update tenantId id data := rfl
    rw [hsame]
    unfold update
    split
    · exact hfind id
    · refine ⟨⟨by simp, fun a ha hcolumn => (hop a ha).2 ?_⟩, fun name hname => ?_⟩
      · -- a name that is no column keeps its text
        cases hreads : db.reads a.1 with
        | column c =>
          simp only [Database.column, hreads] at hcolumn
          rw [hcolumn]
        | unknown =>
          simp only [Database.column, hreads] at hcolumn
          rw [hcolumn, h.tenant] at hreads
          cases hreads
        | sql => exact absurd hreads (hop a ha).1
      · rw [Statement.names, map_append, mem_append] at hname
        rcases hname with hname | hname
        · obtain ⟨a, ha, rfl⟩ := mem_map.1 hname
          exact (hop a ha).1
        · simp only [map_cons, map_nil, mem_cons, not_mem_nil, or_false] at hname
          rcases hname with rfl | rfl
          · exact hid
          · exact htenant
  | delete id =>
    refine ⟨by simp [statementOf, delete, Statement.Confined], fun name hname => ?_⟩
    simp only [statementOf, delete, Statement.names, map_cons, map_nil, mem_cons, not_mem_nil, or_false] at hname
    rcases hname with rfl | rfl
    · exact hid
    · exact htenant

/-! ## Runs -/

/-- A repository is used while its tenant is the request's (or none, and it throws), with proper operations. -/
def RepositoryGuard (s : Repositories) : RepositoryEvent → Prop
  | .setTenant _ _ => True
  | .call request k operation => ∀ repo, s.shared[k]? = some repo → ∀ tenantId, repo.tenant = some tenantId →
    tenantId = cfg.tenantOf request ∧ operation.Proper (cfg.database repo.tableName) tenantId
  | .execute _ => True

structure RepositoriesSound (s : Repositories) : Prop where
  sent : ∀ q ∈ s.sent, q.statement.Confined (cfg.database q.tableName) (cfg.tenantOf q.request) ∧
    ∀ name ∈ q.statement.names, (cfg.database q.tableName).reads name ≠ .sql
  done : ∀ d ∈ s.done, d.2.Isolated (cfg.tenantOf d.1)

variable {cfg}

theorem RepositoriesSound.step (hdb : ∀ tableName, (cfg.database tableName).Scoped) (s : Repositories)
    (ev : RepositoryEvent) (h : RepositoriesSound cfg s) (hg : RepositoryGuard cfg s ev) :
    RepositoriesSound cfg (s.step cfg ev) := by
  cases ev with
  | setTenant request k => exact ⟨h.sent, h.done⟩
  | call request k operation =>
    simp only [Repositories.step]
    cases hrepo : s.shared[k]? with
    | none => exact h
    | some repo =>
      cases htenant : repo.tenant with
      | none =>
        simp only [htenant]
        exact h
      | some tenantId =>
        simp only [htenant]
        obtain ⟨rfl, hop⟩ := hg repo hrepo tenantId htenant
        refine ⟨fun q hq => ?_, h.done⟩
        rcases mem_append.1 hq with hq | hq
        · exact h.sent q hq
        · rw [mem_singleton.1 hq]
          exact statementOf_confined (hdb _) hop
  | execute i =>
    simp only [Repositories.step]
    cases hq : s.sent[i]? with
    | none => exact h
    | some q =>
      have hsent := h.sent q (mem_of_getElem? hq)
      have hrest : ∀ q' ∈ s.sent.eraseIdx i, q' ∈ s.sent := fun q' hq' => mem_of_mem_eraseIdx hq'
      dsimp only
      cases ho : (cfg.database q.tableName).execute q.statement (s.rows q.tableName) with
      | none => exact ⟨fun q' hq' => h.sent q' (hrest q' hq'), h.done⟩
      | some outcome =>
        refine ⟨fun q' hq' => h.sent q' (hrest q' hq'), fun d hd => ?_⟩
        rcases mem_append.1 hd with hd | hd
        · exact h.done d hd
        · rw [mem_singleton.1 hd]
          exact Database.execute_isolated (hdb _) hsent.1 hsent.2 ho

end StreetJS.Tenancy
