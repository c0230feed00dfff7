/-
The SQL query builder (`core/src/database/query-builder.ts`): fragments with a `?` for each slot, which are
expanded as the query is built. `where` is one function for a column with an operator and a value and for a raw
condition with values, and tells them apart by the type and the number of its arguments.
-/
import StreetJS.Lib.Placeholder

namespace StreetJS.Database

open StreetJS.Lib List

/-! ## Values and fragments -/

abbrev Text := List Char

/-- A JavaScript value; `other` is anything that is neither a string nor `null` or `undefined`. -/
inductive Value (X : Type) where
  | undefined
  | null
  | string (s : Text)
  | other (x : X)

inductive SqlDialect where
  | postgres
  | mysql
  | sqlite
deriving DecidableEq

/-- A text with a `?` for each slot, and the values for them. -/
structure Fragment (X : Type) where
  sql : Text
  params : List (Value X)

inductive JoinType where
  | inner
  | left

structure JoinClause (F : Type) where
  type : JoinType
  table : F
  condition : Option Text

inductive Direction where
  | asc
  | desc

/-- The state of a builder, over its fragments; a number by its text. -/
structure QueryBuilder (F : Type) where
  selects : List Text := []
  wheres : List F := []
  joins : List (JoinClause F) := []
  orderBys : List (Text × Direction) := []
  groupBys : List Text := []
  havings : List F := []
  source : Option F := none
  limit : Option Text := none
  offset : Option Text := none

/-! ## Calls -/

/-- The calls of a builder; `where` in the three ways it is meant. -/
inductive Call (X : Type) where
  | select (cols : List Text)
  | source (table : Text)
  | whereValue (col op : Text) (value : Value X)
  | whereOp (col op : Text)
  | whereRaw (condition : Text) (values : List (Value X))
  | join (type : JoinType) (table condition : Text)
  | orderBy (col : Text) (dir : Direction)
  | groupBy (cols : List Text)
  | having (condition : Text) (values : List (Value X))
  | limit (n : Text)
  | offset (n : Text)
  | subquery (calls : List (Call X)) (name : Text)

section

variable {X : Type}

/-- `where(colOrRaw, opOrFirstVal?, ...rest)` -/
def jsWhere (colOrRaw : Text) (args : List (Value X)) : Fragment X :=
  match args with
  | [.string op, value] => { sql := colOrRaw ++ ' ' :: op ++ [' ', '?'], params := [value] }
  | [.string op] => { sql := colOrRaw ++ ' ' :: op, params := [] }
  | [] | [.undefined] => { sql := colOrRaw, params := [] }
  | .undefined :: rest => { sql := colOrRaw, params := rest }
  | args => { sql := colOrRaw, params := args }

/-- The derived table is the source of a builder that has none, else it is joined. -/
def QueryBuilder.subquery {F : Type} (q : QueryBuilder F) (derived : F) : QueryBuilder F :=
  match q.source with
  | none => { q with source := some derived }
  | some _ => { q with joins := q.joins ++ [{ type := .inner, table := derived, condition := none }] }

/-! ## Building -/

/-- The placeholder of the `i`-th value. -/
def SqlDialect.placeholder : SqlDialect → Nat → Text
  | .postgres, i => '$' :: (toString i).toList
  | _, _ => ['?']

structure BuildState (X : Type) where
  allParams : List (Value X) := []
  paramIdx : Nat := 1

/-- `consume`: the number is used, and counted, by one dialect only. -/
def consume (d : SqlDialect) (v : Value X) (s : BuildState X) : Text × BuildState X :=
  (d.placeholder s.paramIdx,
    { allParams := s.allParams ++ [v], paramIdx := if d = .postgres then s.paramIdx + 1 else s.paramIdx })

/-- `expand`: behind the last value a slot takes `undefined`. -/
def expand (d : SqlDialect) : Text → List (Value X) → BuildState X → Text × BuildState X
  | [], _, s => ([], s)
  | c :: sql, params, s =>
    if c = '?' then
      let (placeholder, s') := consume d (params.headD .undefined) s
      let (text, s'') := expand d sql params.tail s'
      (placeholder ++ text, s'')
    else
      let (text, s') := expand d sql params s
      (c :: text, s')

def expandAll (d : SqlDialect) : List (Fragment X) → BuildState X → List Text × BuildState X
  | [], s => ([], s)
  | f :: fs, s =>
    let (text, s') := expand d f.sql f.params s
    let (texts, s'') := expandAll d fs s'
    (text :: texts, s'')

def JoinType.text : JoinType → Text
  | .inner => "INNER".toList
  | .left => "LEFT".toList

def joinText {F : Type} (j : JoinClause F) (table : Text) : Text :=
  j.type.text ++ " JOIN ".toList ++ table ++ j.condition.elim [] (" ON ".toList ++ ·)

def commas : List Text → Text := (", ".toList).intercalate

/-- `WHERE` and `HAVING`: nothing without conditions. -/
def clause (keyword : Text) (conditions : List Text) : List Text :=
  if conditions = [] then [] else [keyword ++ (" AND ".toList).intercalate conditions]

def Direction.text : Direction → Text
  | .asc => " ASC".toList
  | .desc => " DESC".toList

def listing (keyword : Text) (items : List Text) : List Text := if items = [] then [] else [keyword ++ commas items]

def QueryBuilder.selectPart {F : Type} (q : QueryBuilder F) : Text :=
  "SELECT ".toList ++ if q.selects = [] then ['*'] else commas q.selects

/-- `ORDER BY`, `LIMIT` and `OFFSET` -/
def QueryBuilder.endParts {F : Type} (q : QueryBuilder F) : List Text :=
  listing "ORDER BY ".toList (q.orderBys.map fun o => o.1 ++ o.2.text) ++
    q.limit.toList.map ("LIMIT ".toList ++ ·) ++ q.offset.toList.map ("OFFSET ".toList ++ ·)

/-- The parts of a query, with the texts of its fragments. -/
def QueryBuilder.parts {F : Type} (q : QueryBuilder F) (source joins wheres havings : List Text) : List Text :=
  q.selectPart :: (source.map ("FROM ".toList ++ ·) ++ joins ++ clause "WHERE ".toList wheres ++
    listing "GROUP BY ".toList q.groupBys ++ clause "HAVING ".toList havings ++ q.endParts)

/-- `_buildInternal`: the fragments are expanded in the order of the text. -/
def QueryBuilder.buildInternal (d : SqlDialect) (q : QueryBuilder (Fragment X)) : Text × List (Value X) :=
  let (source, s) := expandAll d q.source.toList {}
  let (tables, s) := expandAll d (q.joins.map (·.table)) s
  let (wheres, s) := expandAll d q.wheres s
  let (havings, s) := expandAll d q.havings s
  ([' '].intercalate (q.parts source (List.zipWith joinText q.joins tables) wheres havings), s.allParams)

mutual

/-- A call of a builder; a subquery is built with `?` as its placeholders. -/
def perform : Call X → QueryBuilder (Fragment X) → QueryBuilder (Fragment X)
  | .select cols, q => { q with selects := q.selects ++ cols }
  | .source table, q => { q with source := some { sql := table, params := [] } }
  | .whereValue col op value, q => { q with wheres := q.wheres ++ [jsWhere col [.string op, value]] }
  | .whereOp col op, q => { q with wheres := q.wheres ++ [jsWhere col [.string op]] }
  | .whereRaw condition values, q => { q with wheres := q.wheres ++ [jsWhere condition values] }
  | .join type table condition, q =>
    { q with joins := q.joins ++ [{ type, table := { sql := table, params := [] }, condition := some condition }] }
  | .orderBy col dir, q => { q with orderBys := q.orderBys ++ [(col, dir)] }
  | .groupBy cols, q => { q with groupBys := q.groupBys ++ cols }
  | .having condition values, q => { q with havings := q.havings ++ [{ sql := condition, params := values }] }
  | .limit n, q => { q with limit := some n }
  | .offset n, q => { q with offset := some n }
  | .subquery calls name, q =>
    let inner := (performAll calls {}).buildInternal .mysql
    q.subquery { sql := '(' :: inner.1 ++ ") AS ".toList ++ name, params := inner.2 }

def performAll : List (Call X) → QueryBuilder (Fragment X) → QueryBuilder (Fragment X)
  | [], q => q
  | call :: calls, q => performAll calls (perform call q)

end

/-- A builder of the dialect, after the calls. -/
def build (d : SqlDialect) (calls : List (Call X)) : Text × List (Value X) := (performAll calls {}).buildInternal d

end

/-! ## What is built -/

/-- The fragments of a query in the order of the text. -/
def QueryBuilder.fragments {F : Type} (q : QueryBuilder F) : List F :=
  q.source.toList ++ q.joins.map (·.table) ++ q.wheres ++ q.havings

/-- The text of a query with the marks of its fragments. -/
def QueryBuilder.text {F : Type} (sql : F → Text) (q : QueryBuilder F) : Text :=
  [' '].intercalate (q.parts (q.source.toList.map sql)
    (List.zipWith joinText q.joins (q.joins.map fun j => sql j.table)) (q.wheres.map sql) (q.havings.map sql))

/-- The other texts of a query have no marks. -/
structure QueryBuilder.Unmarked {F : Type} (q : QueryBuilder F) : Prop where
  selects : ∀ col ∈ q.selects, '?' ∉ col
  conditions : ∀ j ∈ q.joins, ∀ condition, j.condition = some condition → '?' ∉ condition
  groupBys : ∀ col ∈ q.groupBys, '?' ∉ col
  orderBys : ∀ o ∈ q.orderBys, '?' ∉ o.1
  limit : ∀ n, q.limit = some n → '?' ∉ n
  offset : ∀ n, q.offset = some n → '?' ∉ n

section

variable {X : Type}

/-- The values that the slots of a fragment take. -/
def Fragment.slots (f : Fragment X) : List (Value X) := fill .undefined (f.sql.count '?') f.params

/-- The number behind `n` more values. -/
def SqlDialect.advance (d : SqlDialect) (i n : Nat) : Nat := if d = .postgres then i + n else i

variable (d : SqlDialect)

theorem placeholder_self (h : d ≠ .postgres) (i : Nat) : d.placeholder i = ['?'] := by
  cases d with
  | postgres => exact absurd rfl h
  | mysql => rfl
  | sqlite => rfl

theorem numberAll_advance (i n : Nat) (ss : List Text) :
    numberAll '?' d.placeholder (d.advance i n) ss = numberAll '?' d.placeholder (i + n) ss := by
  unfold SqlDialect.advance
  split
  · rfl
  · rename_i h
    rw [numberAll_self (placeholder_self d h), numberAll_self (placeholder_self d h)]

theorem expand_eq (sql : Text) (params : List (Value X)) (s : BuildState X) :
    expand d sql params s = (number '?' d.placeholder s.paramIdx sql,
      { allParams := s.allParams ++ fill .undefined (sql.count '?') params,
        paramIdx := d.advance s.paramIdx (sql.count '?') }) := by
  induction sql generalizing params s with
  | nil =>
    have hadvance : d.advance s.paramIdx 0 = s.paramIdx := by simp [SqlDialect.advance]
    simp [expand, fill_zero, hadvance]
  | cons c sql ih =>
    by_cases hc : c = '?'
    · subst hc
      have hnumber : number '?' d.placeholder (d.advance s.paramIdx 1) sql = number '?' d.placeholder (s.paramIdx + 1) sql := by
        have := numberAll_advance d s.paramIdx 1 [sql]
        simpa [numberAll] using this
      have hadvance : d.advance (d.advance s.paramIdx 1) (sql.count '?') = d.advance s.paramIdx (sql.count '?' + 1) := by
        unfold SqlDialect.advance
        split <;> omega
      simp only [expand, if_true, consume, ih, number, count_cons_self, fill_succ]
      rw [show (if d = .postgres then s.paramIdx + 1 else s.paramIdx) = d.advance s.paramIdx 1 from rfl, hnumber, hadvance]
      simp
    · simp [expand, hc, ih, number]

theorem expandAll_eq (fs : List (Fragment X)) (s : BuildState X) :
    expandAll d fs s = (numberAll '?' d.placeholder s.paramIdx (fs.map (·.sql)),
      { allParams := s.allParams ++ fs.flatMap (·.slots),
        paramIdx := d.advance s.paramIdx ((fs.map (·.sql)).map (List.count '?')).sum }) := by
  induction fs generalizing s with
  | nil =>
    have hadvance : d.advance s.paramIdx 0 = s.paramIdx := by simp [SqlDialect.advance]
    simp [expandAll, numberAll, hadvance]
  | cons f fs ih =>
    have hadvance (m n : Nat) : d.advance (d.advance s.paramIdx m) n = d.advance s.paramIdx (m + n) := by
      unfold SqlDialect.advance
      split <;> omega
    simp only [expandAll, expand_eq, ih, numberAll_advance, hadvance]
    simp [numberAll, Fragment.slots]

theorem numberAll_clause {keyword : Text} (hkeyword : '?' ∉ keyword) (i : Nat) (conditions : List Text) :
    numberAll '?' d.placeholder i (clause keyword conditions) = clause keyword (numberAll '?' d.placeholder i conditions) := by
  cases conditions with
  | nil => rfl
  | cons c conditions =>
    have hand : '?' ∉ " AND ".toList := by decide
    simp only [clause, numberAll, reduceCtorEq, if_false]
    rw [number_append, number_of_not_mem hkeyword, count_eq_zero_of_not_mem hkeyword, Nat.add_zero, number_intercalate hand]
    rfl

theorem count_clause {keyword : Text} (hkeyword : '?' ∉ keyword) (conditions : List Text) :
    ((clause keyword conditions).map (List.count '?')).sum = (conditions.map (List.count '?')).sum := by
  cases conditions with
  | nil => rfl
  | cons c conditions =>
    have hand : '?' ∉ " AND ".toList := by decide
    simp only [clause, reduceCtorEq, if_false]
    simp only [map_cons, map_nil, sum_singleton, count_append, count_eq_zero_of_not_mem hkeyword, Nat.zero_add, count_intercalate hand]

theorem not_mem_joinText {F : Type} {j : JoinClause F} (hj : ∀ condition, j.condition = some condition → '?' ∉ condition) :
    '?' ∉ j.type.text ++ " JOIN ".toList ∧ '?' ∉ j.condition.elim [] (" ON ".toList ++ ·) := by
  have hon : '?' ∉ " ON ".toList := by decide
  constructor
  · cases j.type <;> decide
  · cases hc : j.condition with
    | none => exact not_mem_nil
    | some condition =>
      rw [Option.elim_some, mem_append, not_or]
      exact ⟨hon, hj condition hc⟩

theorem numberAll_joinText {F : Type} {joins : List (JoinClause F)}
    (hjoins : ∀ j ∈ joins, ∀ condition, j.condition = some condition → '?' ∉ condition) (i : Nat)
    {tables : List Text} (hlength : tables.length = joins.length) :
    numberAll '?' d.placeholder i (List.zipWith joinText joins tables) = List.zipWith joinText joins (numberAll '?' d.placeholder i tables) ∧
      ((List.zipWith joinText joins tables).map (List.count '?')).sum = (tables.map (List.count '?')).sum := by
  induction joins generalizing i tables with
  | nil =>
    obtain rfl := length_eq_zero_iff.1 hlength
    exact ⟨rfl, rfl⟩
  | cons j joins ih =>
    obtain _ | ⟨table, tables⟩ := tables
    · cases hlength
    rw [forall_mem_cons] at hjoins
    obtain ⟨hlead, htail⟩ := not_mem_joinText hjoins.1
    have hcount : (joinText j table).count '?' = table.count '?' := count_between hlead htail table
    have hnumber : number '?' d.placeholder i (joinText j table) = joinText j (number '?' d.placeholder i table) :=
      number_between hlead htail i table
    obtain ⟨hrest, hsum⟩ := ih hjoins.2 (i + table.count '?') (Nat.succ.inj hlength)
    simp only [zipWith_cons_cons, numberAll, map_cons, sum_cons, hcount, hnumber, hrest, hsum, and_self]

theorem mem_commas {cols : List Text} (hcols : ∀ col ∈ cols, '?' ∉ col) : '?' ∉ commas cols := by
  have hcomma : '?' ∉ ", ".toList := by decide
  rw [← count_eq_zero, commas, count_intercalate hcomma, sum_count_of_not_mem hcols]

theorem mem_listing {keyword : Text} (hkeyword : '?' ∉ keyword) {items : List Text}
    (hitems : ∀ item ∈ items, '?' ∉ item) : ∀ part ∈ listing keyword items, '?' ∉ part := by
  intro part hpart
  unfold listing at hpart
  split at hpart
  · cases hpart
  · rw [mem_singleton] at hpart
    rw [hpart, mem_append, not_or]
    exact ⟨hkeyword, mem_commas hitems⟩

theorem QueryBuilder.Unmarked.selectPart {F : Type} {q : QueryBuilder F} (hq : q.Unmarked) : '?' ∉ q.selectPart := by
  unfold QueryBuilder.selectPart
  rw [mem_append, not_or]
  refine ⟨by decide, ?_⟩
  split
  · decide
  · exact mem_commas hq.selects

theorem QueryBuilder.Unmarked.groupPart {F : Type} {q : QueryBuilder F} (hq : q.Unmarked) :
    ∀ part ∈ listing "GROUP BY ".toList q.groupBys, '?' ∉ part :=
  mem_listing (by decide) hq.groupBys

theorem QueryBuilder.Unmarked.endParts {F : Type} {q : QueryBuilder F} (hq : q.Unmarked) : ∀ part ∈ q.endParts, '?' ∉ part := by
  intro part hpart
  rcases mem_append.1 hpart with hpart | hpart
  · rcases mem_append.1 hpart with hpart | hpart
    · refine mem_listing (by decide) ?_ part hpart
      intro item hitem
      obtain ⟨o, ho, rfl⟩ := mem_map.1 hitem
      rw [mem_append, not_or]
      refine ⟨hq.orderBys o ho, ?_⟩
      cases o.2 <;> decide
    · obtain ⟨n, hn, rfl⟩ := mem_map.1 hpart
      rw [mem_append, not_or]
      exact ⟨by decide, hq.limit n (Option.mem_toList.1 hn)⟩
  · obtain ⟨n, hn, rfl⟩ := mem_map.1 hpart
    rw [mem_append, not_or]
    exact ⟨by decide, hq.offset n (Option.mem_toList.1 hn)⟩

theorem numberAll_parts {F : Type} {q : QueryBuilder F} (hq : q.Unmarked) (i : Nat) (source wheres havings : List Text)
    {tables : List Text} (hlength : tables.length = q.joins.length) :
    numberAll '?' d.placeholder i (q.parts source (List.zipWith joinText q.joins tables) wheres havings) =
      let i₁ := i + (source.map (List.count '?')).sum
      let i₂ := i₁ + (tables.map (List.count '?')).sum
      let i₃ := i₂ + (wheres.map (List.count '?')).sum
      q.parts (numberAll '?' d.placeholder i source) (List.zipWith joinText q.joins (numberAll '?' d.placeholder i₁ tables))
        (numberAll '?' d.placeholder i₂ wheres) (numberAll '?' d.placeholder i₃ havings) := by
  have hfrom : '?' ∉ "FROM ".toList := by decide
  have hwhere : '?' ∉ "WHERE ".toList := by decide
  have hhaving : '?' ∉ "HAVING ".toList := by decide
  have hselect := hq.selectPart
  unfold QueryBuilder.parts
  simp only [numberAll, numberAll_append, number_of_not_mem hselect, count_eq_zero_of_not_mem hselect,
    numberAll_map_append hfrom, numberAll_clause d hwhere, numberAll_clause d hhaving,
    numberAll_of_not_mem hq.groupPart, numberAll_of_not_mem hq.endParts,
    (numberAll_joinText d hq.conditions _ hlength).1, (numberAll_joinText d hq.conditions 0 hlength).2,
    map_append, sum_append, sum_count_map_append hfrom, count_clause hwhere,
    sum_count_of_not_mem hq.groupPart, Nat.add_zero, Nat.add_assoc]

theorem buildInternal_eq {q : QueryBuilder (Fragment X)} (hq : q.Unmarked) :
    q.buildInternal d = (number '?' d.placeholder 1 (q.text (·.sql)), q.fragments.flatMap (·.slots)) := by
  have hspace : '?' ∉ [' '] := by decide
  have hlength : ((q.joins.map (·.table)).map (·.sql)).length = q.joins.length := by simp
  have htables : (q.joins.map fun j => j.table.sql) = (q.joins.map (·.table)).map (·.sql) := by simp
  unfold QueryBuilder.buildInternal QueryBuilder.text QueryBuilder.fragments
  rw [number_intercalate hspace, htables, numberAll_parts d hq 1 _ _ _ hlength]
  have hadvance (m n : Nat) : d.advance (d.advance 1 m) n = d.advance 1 (m + n) := by
    unfold SqlDialect.advance
    split <;> omega
  simp only [expandAll_eq, numberAll_advance, hadvance, flatMap_append, nil_append, Nat.add_assoc]

theorem count_text {F : Type} {q : QueryBuilder F} (hq : q.Unmarked) (sql : F → Text) :
    (q.text sql).count '?' = (q.fragments.map fun f => (sql f).count '?').sum := by
  have hspace : '?' ∉ [' '] := by decide
  have hwhere : '?' ∉ "WHERE ".toList := by decide
  have hhaving : '?' ∉ "HAVING ".toList := by decide
  have hlength : (q.joins.map fun j => sql j.table).length = q.joins.length := by simp
  unfold QueryBuilder.text QueryBuilder.parts QueryBuilder.fragments
  rw [count_intercalate hspace]
  simp only [map_cons, sum_cons, map_append, sum_append, count_eq_zero_of_not_mem hq.selectPart, count_clause hwhere, count_clause hhaving,
    (numberAll_joinText .mysql hq.conditions 0 hlength).2, sum_count_of_not_mem hq.groupPart,
    sum_count_of_not_mem hq.endParts, map_map, Nat.zero_add, Nat.add_zero]
  rfl

end

end StreetJS.Database
