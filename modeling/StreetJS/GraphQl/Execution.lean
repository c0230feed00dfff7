/-
The execution of GraphQL operations (`executeSelectionSet` and `GraphQlEngine.execute` of
`core/src/graphql/engine.ts`) and the schema as the boundary of what it reads: a field is taken from its
resolver, else from the parent object, and the schema is asked only for the types of nested selections.
-/
import StreetJS.GraphQl.Document
import StreetJS.Lib.OrderedMap
import Mathlib.Data.Fintype.EquivFin

namespace StreetJS.GraphQl

open StreetJS.Lib List

/-! ## Values, resolvers and results -/

/-- What the engine asks of a value: `null` and `undefined`, an array, another object, or anything else
(a scalar, a function). -/
inductive View (V : Type) where
  | nullish
  | list (items : List V)
  | object
  | other

/-- The values that resolvers return: a property is own or inherited, an own key is sent to the client with a
value (or with the items of an array). -/
structure Host (V : Type) where
  view : V → View V
  property : V → String → V
  ownKeys : V → List String

/-- A resolver, bound to the context: `path` is the place of the call in the execution, since a resolver may
answer differently each time; the parent of a root field is `null`. -/
abbrev Resolver (V : Type) := List Nat → Option V → List (String × ArgValue) → Except String V

abbrev Resolvers (V : Type) := String → String → Option (Resolver V)

structure GraphQlEngine (V : Type) extends GraphQlEngineOptions where
  host : Host V
  resolvers : Resolvers V

inductive Data (V : Type) where
  | null
  | typeName (name : String)
  | value (v : V)
  | list (items : List (Data V))
  | record (entries : List (String × Data V))

/-- Where the value of a field comes from. -/
inductive Source where
  | resolver
  | parent
  | missing
deriving DecidableEq

/-- What the execution does with a field: a value is taken for it, or the value of a field without a
selection set is handed out as a whole, with its own keys. -/
inductive Visit where
  | field (typeName name : String) (source : Source)
  | whole (typeName : String) (keys : List String)
deriving DecidableEq

structure Outcome (X : Type) where
  result : Except String X
  visits : List Visit

namespace Outcome

variable {X Y : Type}

def ok (x : X) : Outcome X := { result := .ok x, visits := [] }

def visited (visit : Visit) (o : Outcome X) : Outcome X := { o with visits := visit :: o.visits }

/-- Behind an error nothing more is executed. -/
def bind (o : Outcome X) (f : X → Outcome Y) : Outcome Y :=
  match o.result with
  | .error message => { result := .error message, visits := o.visits }
  | .ok x => { f x with visits := o.visits ++ (f x).visits }

def map (f : X → Y) (o : Outcome X) : Outcome Y := { result := o.result.map f, visits := o.visits }

/-- `Promise.all`: every item is executed; an error of one is the error of all. -/
def all : List (Outcome X) → Outcome (List X)
  | [] => ok []
  | o :: os => { result := o.result.bind fun x => (all os).result.map (x :: ·), visits := o.visits ++ (all os).visits }

end Outcome

/-! ## Execution -/

/-- `result[key] = value`; a key `__proto__` is no entry of the result. -/
def assign {V : Type} (result : OrderedMap String (Data V)) (key : String) (value : Data V) : OrderedMap String (Data V) :=
  if key = "__proto__" then result else OrderedMap.set result key value

section

variable {V : Type} (e : GraphQlEngine V)

/-- The value of a field: of its resolver, else the property of a parent that is an object, else `null`. -/
def GraphQlEngine.valueOf (typeName : String) (parent : Option V) (path : List Nat) (name : String)
    (args : List (String × ArgValue)) : Source × Except String (Option V) :=
  match e.resolvers typeName name with
  | some resolver => (.resolver, (resolver path parent args).map some)
  | none =>
    match parent with
    | none => (.missing, .ok none)
    | some p =>
      match e.host.view p with
      | .list _ | .object => (.parent, .ok (some (e.host.property p name)))
      | .nullish | .other => (.missing, .ok none)

mutual

def GraphQlEngine.executeField (typeName : String) (parent : Option V) (path : List Nat) : FieldNode → Outcome (Data V)
  | .mk name _ args selectionSet =>
    if name = "__typename" then .ok (.typeName typeName)
    else match e.valueOf typeName parent path name args with
      | (source, .error message) => { result := .error message, visits := [.field typeName name source] }
      | (source, .ok value) =>
        (GraphQlEngine.executeNested (e.schema.nestedTypeName typeName name) value path selectionSet).visited (.field typeName name source)

/-- The nested selections of a value, and of each item of an array. -/
def GraphQlEngine.executeNested (typeName : String) (value : Option V) (path : List Nat) : Option (List FieldNode) → Outcome (Data V)
  | none =>
    match value with
    | none => .ok .null
    | some v =>
      match e.host.view v with
      | .nullish => .ok .null
      | _ => (Outcome.ok (.value v)).visited (.whole typeName (e.host.ownKeys v))
  | some fields =>
    match value with
    | none => .ok .null
    | some v =>
      match e.host.view v with
      | .nullish => .ok .null
      | .list items =>
        (Outcome.all (items.mapIdx fun j item =>
          (GraphQlEngine.executeSelectionSet typeName (some item) (j :: path) [] fields).map Data.record)).map .list
      | .object | .other => (GraphQlEngine.executeSelectionSet typeName (some v) path [] fields).map .record

def GraphQlEngine.executeSelectionSet (typeName : String) (parent : Option V) (path : List Nat)
    (result : OrderedMap String (Data V)) : List FieldNode → Outcome (OrderedMap String (Data V))
  | [] => .ok result
  | field :: rest =>
    (GraphQlEngine.executeField typeName parent (rest.length :: path) field).bind fun value =>
      GraphQlEngine.executeSelectionSet typeName parent path (assign result field.key value) rest

end

inductive ExecutionResult (V : Type) where
  | data (entries : OrderedMap String (Data V))
  | errors (messages : List String)

/-- A run of `execute`: what it answers and what it did on the way. -/
structure Execution (V : Type) where
  result : ExecutionResult V
  visits : List Visit

def ExecutionResult.of : Except String (OrderedMap String (Data V)) → ExecutionResult V
  | .ok entries => .data entries
  | .error message => .errors [message]

/-- `execute`, for a document as it is parsed. -/
def GraphQlEngine.execute (ops : List OperationDef) : Execution V :=
  match e.prepare ops with
  | .error message => { result := .errors [message], visits := [] }
  | .ok op =>
    if op.operation = .subscription then { result := .errors ["Subscriptions not supported"], visits := [] }
    else
      let outcome := e.executeSelectionSet (e.schema.rootTypeName op.operation) none [] [] op.selectionSet
      { result := .of outcome.result, visits := outcome.visits }

end

/-! ## What an execution visits -/

def Visit.selected : Visit → Selected
  | .field typeName name _ => .field typeName name
  | .whole typeName _ => .whole typeName

namespace Outcome

variable {X Y : Type}

theorem mem_visits_visited {o : Outcome X} {visit v : Visit} : v ∈ (o.visited visit).visits ↔ v = visit ∨ v ∈ o.visits := by
  simp [visited]

theorem mem_visits_bind {o : Outcome X} {f : X → Outcome Y} {v : Visit} (h : v ∈ (o.bind f).visits) :
    v ∈ o.visits ∨ ∃ x, v ∈ (f x).visits := by
  unfold bind at h
  split at h
  · exact .inl h
  · rcases mem_append.1 h with h | h
    · exact .inl h
    · exact .inr ⟨_, h⟩

theorem mem_visits_all {os : List (Outcome X)} {v : Visit} : v ∈ (all os).visits ↔ ∃ o ∈ os, v ∈ o.visits := by
  induction os with
  | nil => simp [all, ok]
  | cons o os ih => simp [all, ih]

theorem bind_ok {o : Outcome X} {f : X → Outcome Y} {x : X} (h : o.result = .ok x) :
    o.bind f = { f x with visits := o.visits ++ (f x).visits } := by
  simp only [bind, h]

theorem all_ok {os : List (Outcome X)} (h : ∀ o ∈ os, ∃ x, o.result = .ok x) : ∃ xs, (all os).result = .ok xs := by
  induction os with
  | nil => exact ⟨[], rfl⟩
  | cons o os ih =>
    obtain ⟨x, hx⟩ := h o mem_cons_self
    obtain ⟨xs, hxs⟩ := ih fun o' ho' => h o' (mem_cons_of_mem _ ho')
    exact ⟨x :: xs, by simp [all, hx, hxs, Except.bind, Except.map]⟩

end Outcome

section

variable {V : Type} (e : GraphQlEngine V)

mutual

theorem executeField_selected (typeName : String) (parent : Option V) (path : List Nat) :
    ∀ (field : FieldNode), ∀ visit ∈ (e.executeField typeName parent path field).visits, visit.selected ∈ fieldSelects e.schema typeName field
  | .mk name _ args selectionSet, visit, h => by
    unfold GraphQlEngine.executeField at h
    unfold fieldSelects
    split at h
    · simp [Outcome.ok] at h
    · rename_i hname
      rw [if_neg hname]
      split at h
      · rw [mem_singleton] at h
        rw [h]
        exact mem_cons_self
      · rcases Outcome.mem_visits_visited.1 h with rfl | h
        · exact mem_cons_self
        · exact mem_cons_of_mem _ (executeNested_selected _ _ path selectionSet visit h)

theorem executeNested_selected (typeName : String) (value : Option V) (path : List Nat) :
    ∀ (selectionSet : Option (List FieldNode)), ∀ visit ∈ (e.executeNested typeName value path selectionSet).visits,
        visit.selected ∈ nestedSelects e.schema typeName selectionSet
  | none, visit, h => by
    unfold GraphQlEngine.executeNested at h
    split at h
    · simp [Outcome.ok] at h
    · split at h
      · simp [Outcome.ok] at h
      · rcases Outcome.mem_visits_visited.1 h with rfl | h
        · simp [nestedSelects, Visit.selected]
        · simp [Outcome.ok] at h
  | some fields, visit, h => by
    unfold GraphQlEngine.executeNested at h
    split at h
    · simp [Outcome.ok] at h
    · split at h
      · simp [Outcome.ok] at h
      · obtain ⟨o, ho, hv⟩ := Outcome.mem_visits_all.1 h
        obtain ⟨j, hj, rfl⟩ := mem_mapIdx.1 ho
        exact executeSelectionSet_selected typeName _ _ [] fields visit hv
      · exact executeSelectionSet_selected typeName _ path [] fields visit h
      · exact executeSelectionSet_selected typeName _ path [] fields visit h

theorem executeSelectionSet_selected (typeName : String) (parent : Option V) (path : List Nat) (result : OrderedMap String (Data V)) :
    ∀ (fields : List FieldNode), ∀ visit ∈ (e.executeSelectionSet typeName parent path result fields).visits,
      visit.selected ∈ selects e.schema typeName fields
  | [], visit, h => by simp [GraphQlEngine.executeSelectionSet, Outcome.ok] at h
  | field :: rest, visit, h => by
    rcases Outcome.mem_visits_bind h with h | ⟨value, h⟩
    · exact mem_append_left _ (executeField_selected typeName parent _ field visit h)
    · exact mem_append_right _ (executeSelectionSet_selected typeName parent path _ rest visit h)

end

/-- Resolvers that never throw. -/
def Resolvers.Total (resolvers : Resolvers V) : Prop :=
  ∀ typeName name resolver, resolvers typeName name = some resolver → ∀ path parent args, ∃ v, resolver path parent args = .ok v

variable {e}

theorem valueOf_ok (htotal : Resolvers.Total e.resolvers) (typeName : String) (parent : Option V) (path : List Nat)
    (name : String) (args : List (String × ArgValue)) :
    ∃ source value, e.valueOf typeName parent path name args = (source, .ok value) := by
  unfold GraphQlEngine.valueOf
  split
  · rename_i resolver hr
    obtain ⟨v, hv⟩ := htotal typeName name resolver hr path parent args
    exact ⟨.resolver, some v, by rw [hv]; rfl⟩
  · split
    · exact ⟨_, _, rfl⟩
    · split <;> exact ⟨_, _, rfl⟩

mutual

theorem executeField_ok (htotal : Resolvers.Total e.resolvers) (typeName : String) (parent : Option V) (path : List Nat) :
    ∀ (field : FieldNode), ∃ data, (e.executeField typeName parent path field).result = .ok data
  | .mk name _ args selectionSet => by
    unfold GraphQlEngine.executeField
    split
    · exact ⟨_, rfl⟩
    · obtain ⟨source, value, hv⟩ := valueOf_ok htotal typeName parent path name args
      rw [hv]
      exact executeNested_ok htotal _ value path selectionSet

theorem executeNested_ok (htotal : Resolvers.Total e.resolvers) (typeName : String) (value : Option V) (path : List Nat) :
    ∀ (selectionSet : Option (List FieldNode)), ∃ data, (e.executeNested typeName value path selectionSet).result = .ok data
  | none => by
    unfold GraphQlEngine.executeNested
    split
    · exact ⟨_, rfl⟩
    · split <;> exact ⟨_, rfl⟩
  | some fields => by
    unfold GraphQlEngine.executeNested
    split
    · exact ⟨_, rfl⟩
    · rename_i v
      split
      · exact ⟨_, rfl⟩
      · rename_i items _
        have hall : ∃ xs, (Outcome.all (items.mapIdx fun j item =>
            (e.executeSelectionSet typeName (some item) (j :: path) [] fields).map Data.record)).result = .ok xs := by
          apply Outcome.all_ok
          intro o ho
          obtain ⟨j, hj, rfl⟩ := mem_mapIdx.1 ho
          obtain ⟨data, hdata⟩ := executeSelectionSet_ok htotal typeName (some items[j]) (j :: path) [] fields
          exact ⟨_, by simp only [Outcome.map, hdata]; rfl⟩
        obtain ⟨xs, hxs⟩ := hall
        exact ⟨_, by simp only [Outcome.map] at hxs ⊢; rw [hxs]; rfl⟩
      · obtain ⟨data, hdata⟩ := executeSelectionSet_ok htotal typeName (some v) path [] fields
        exact ⟨_, by simp only [Outcome.map, hdata]; rfl⟩
      · obtain ⟨data, hdata⟩ := executeSelectionSet_ok htotal typeName (some v) path [] fields
        exact ⟨_, by simp only [Outcome.map, hdata]; rfl⟩

theorem executeSelectionSet_ok (htotal : Resolvers.Total e.resolvers) (typeName : String) (parent : Option V)
    (path : List Nat) (result : OrderedMap String (Data V)) :
    ∀ (fields : List FieldNode), ∃ data, (e.executeSelectionSet typeName parent path result fields).result = .ok data
  | [] => ⟨result, rfl⟩
  | field :: rest => by
    unfold GraphQlEngine.executeSelectionSet
    obtain ⟨data, hdata⟩ := executeField_ok htotal typeName parent (rest.length :: path) field
    rw [Outcome.bind_ok hdata]
    exact executeSelectionSet_ok htotal typeName parent path _ rest

end

end

/-! ## A host that reaches every selection -/

/-- Every value is one object, with one own key. -/
def reachingHost (key : String) : Host Unit where
  view _ := .object
  property _ _ := ()
  ownKeys _ := [key]

/-- Every resolver answers with the object. -/
def reaching (opts : GraphQlEngineOptions) (key : String) : GraphQlEngine Unit :=
  { toGraphQlEngineOptions := opts, host := reachingHost key, resolvers := fun _ _ => some fun _ _ _ => .ok () }

def Selected.reached (key : String) : Selected → Visit
  | .field typeName name => .field typeName name .resolver
  | .whole typeName => .whole typeName [key]

section

variable (opts : GraphQlEngineOptions) (key : String)

theorem reaching_total : Resolvers.Total (reaching opts key).resolvers := by
  intro typeName name resolver hr path parent args
  cases hr
  exact ⟨(), rfl⟩

mutual

theorem executeField_reaches (typeName : String) (parent : Option Unit) (path : List Nat) :
    ∀ (field : FieldNode), ∀ s ∈ fieldSelects opts.schema typeName field,
      s.reached key ∈ ((reaching opts key).executeField typeName parent path field).visits
  | .mk name _ args selectionSet, s, h => by
    unfold fieldSelects at h
    unfold GraphQlEngine.executeField
    split
    · rename_i hname
      simp [hname] at h
    · rename_i hname
      rw [if_neg hname] at h
      have hvalue : (reaching opts key).valueOf typeName parent path name args = (.resolver, .ok (some ())) := rfl
      rw [hvalue]
      apply Outcome.mem_visits_visited.2
      rcases mem_cons.1 h with rfl | h
      · exact .inl rfl
      · exact .inr (executeNested_reaches _ path selectionSet s h)

theorem executeNested_reaches (typeName : String) (path : List Nat) :
    ∀ (selectionSet : Option (List FieldNode)), ∀ s ∈ nestedSelects opts.schema typeName selectionSet,
      s.reached key ∈ ((reaching opts key).executeNested typeName (some ()) path selectionSet).visits
  | none, s, h => by
    simp only [nestedSelects, mem_singleton] at h
    subst h
    simp [GraphQlEngine.executeNested, reaching, reachingHost, Outcome.visited, Outcome.ok, Selected.reached]
  | some fields, s, h => by
    simp only [GraphQlEngine.executeNested]
    exact executeSelectionSet_reaches typeName (some ()) path [] fields s h

theorem executeSelectionSet_reaches (typeName : String) (parent : Option Unit) (path : List Nat) (result : OrderedMap String (Data Unit)) :
    ∀ (fields : List FieldNode), ∀ s ∈ selects opts.schema typeName fields,
      s.reached key ∈ ((reaching opts key).executeSelectionSet typeName parent path result fields).visits
  | [], s, h => by simp [selects] at h
  | field :: rest, s, h => by
    unfold selects at h
    unfold GraphQlEngine.executeSelectionSet
    obtain ⟨data, hdata⟩ := executeField_ok (reaching_total opts key) typeName parent (rest.length :: path) field
    rw [Outcome.bind_ok hdata]
    apply mem_append.2
    rcases mem_append.1 h with h | h
    · exact .inl (executeField_reaches typeName parent _ field s h)
    · exact .inr (executeSelectionSet_reaches typeName parent path _ rest s h)

end

end

/-! ## The boundary -/

/-- A visit inside the schema: the field is defined on the type, and so is each key of a value that is handed
out where the type has fields. -/
def Visit.Allowed (schema : ServiceDefinition) : Visit → Prop
  | .field typeName name _ => schema.Defines typeName name
  | .whole typeName keys => schema.Composite typeName → ∀ key ∈ keys, schema.Defines typeName key

/-- A field that the operation selects and the type does not define. -/
def ServiceDefinition.SelectsUndefined (schema : ServiceDefinition) (op : OperationDef) : Prop :=
  ∃ typeName name, Selected.field typeName name ∈ selects schema (schema.rootTypeName op.operation) op.selectionSet ∧
    ¬ schema.Defines typeName name

/-- The schema is the boundary of an execution: only its fields are resolved, read and sent, and an operation
that selects another one is answered with errors. -/
structure ExposureBoundary {V : Type} (schema : ServiceDefinition) (ops : List OperationDef) (x : Execution V) : Prop where
  visits : ∀ visit ∈ x.visits, visit.Allowed schema
  reported : ∀ op, ops.head? = some op → schema.SelectsUndefined op → ∃ messages, x.result = .errors messages

/-- The operation that is executed. -/
def GraphQlEngineOptions.Executes (opts : GraphQlEngineOptions) (ops : List OperationDef) (op : OperationDef) : Prop :=
  opts.prepare ops = .ok op ∧ op.operation ≠ .subscription

section

variable {opts : GraphQlEngineOptions} {ops : List OperationDef} {op : OperationDef}

variable {V : Type} {e : GraphQlEngine V}

theorem execute_executes (h : e.Executes ops op) : (e.execute ops).visits =
        (e.executeSelectionSet (e.schema.rootTypeName op.operation) none [] [] op.selectionSet).visits ∧
      (e.execute ops).result = .of (e.executeSelectionSet (e.schema.rootTypeName op.operation) none [] [] op.selectionSet).result := by
  unfold GraphQlEngine.execute
  rw [h.1]
  simp only [if_neg h.2, and_self]

theorem execute_refused (h : ∀ op, ¬ e.Executes ops op) :
    (e.execute ops).visits = [] ∧ ∃ messages, (e.execute ops).result = .errors messages := by
  unfold GraphQlEngine.execute
  cases hp : e.prepare ops with
  | error message => exact ⟨rfl, _, rfl⟩
  | ok op =>
    have hsub : op.operation = .subscription := by
      by_contra hne
      exact h op ⟨hp, hne⟩
    simp only [if_pos hsub, true_and]
    exact ⟨_, rfl⟩

theorem Visit.allowed_of_selected {schema : ServiceDefinition} {visit : Visit}
    (h : visit.selected.Allowed schema) : visit.Allowed schema := by
  cases visit with
  | field typeName name source => exact h
  | whole typeName keys => exact fun hc => absurd hc h

theorem boundary_of_validates (h : ∀ op, e.Executes ops op → e.schema.Validates op) : ExposureBoundary e.schema ops (e.execute ops) := by
  by_cases hx : ∃ op, e.Executes ops op
  · obtain ⟨op, hop⟩ := hx
    constructor
    · intro visit hv
      rw [(execute_executes hop).1] at hv
      exact Visit.allowed_of_selected (h op hop _ (executeSelectionSet_selected e _ _ _ _ _ visit hv))
    · rintro op' hhead ⟨typeName, name, hsel, hundef⟩
      rw [prepare_head hop.1] at hhead
      cases hhead
      exact absurd (h op hop _ hsel) hundef
  · have hrefused := execute_refused fun op hop => hx ⟨op, hop⟩
    constructor
    · rw [hrefused.1]
      simp
    · intro op _ _
      exact hrefused.2

theorem not_boundary_of_undefined (htotal : Resolvers.Total e.resolvers) (hop : e.Executes ops op)
    (hundef : e.schema.SelectsUndefined op) : ¬ ExposureBoundary e.schema ops (e.execute ops) := by
  intro h
  obtain ⟨messages, hm⟩ := h.reported op (prepare_head hop.1) hundef
  obtain ⟨data, hdata⟩ := executeSelectionSet_ok htotal (e.schema.rootTypeName op.operation) none [] [] op.selectionSet
  rw [(execute_executes hop).2, hdata] at hm
  cases hm

theorem exists_undefined_key (schema : ServiceDefinition) : ∃ key, ∀ typeName, ¬ schema.Defines typeName key := by
  obtain ⟨key, hkey⟩ := Infinite.exists_notMem_finset (schema.types.flatMap fun t => t.fields.map (·.name)).toFinset
  refine ⟨key, fun typeName h => hkey ?_⟩
  obtain ⟨fieldDef, hf⟩ := Option.isSome_iff_exists.1 h
  obtain ⟨t, ht, hfield⟩ := Option.bind_eq_some_iff.1 hf
  have hname := find?_some hfield
  simp only [decide_eq_true_eq] at hname
  simp only [mem_toFinset, mem_flatMap, mem_map]
  exact ⟨t, mem_of_find?_eq_some ht, fieldDef, mem_of_find?_eq_some hfield, hname⟩

end

/-- For every schema and document: whatever the resolvers and the values are, the schema is the boundary of the
execution if and only if it validates the operation that is executed (nothing in the engine asks for it);
and an undefined field is answered with data by all resolvers that do not throw. -/
theorem exposureBoundary_iff_validates (opts : GraphQlEngineOptions) (ops : List OperationDef) :
    ((∀ (V : Type) (e : GraphQlEngine V), e.toGraphQlEngineOptions = opts → ExposureBoundary opts.schema ops (e.execute ops)) ↔
      ∀ op, opts.Executes ops op → opts.schema.Validates op) ∧
      ∀ (V : Type) (e : GraphQlEngine V), e.toGraphQlEngineOptions = opts → Resolvers.Total e.resolvers →
        (∃ op, opts.Executes ops op ∧ opts.schema.SelectsUndefined op) → ¬ ExposureBoundary opts.schema ops (e.execute ops) := by
  refine ⟨⟨?_, ?_⟩, ?_⟩
  · intro h op hop s hs
    obtain ⟨key, hkey⟩ := exists_undefined_key opts.schema
    have hb := h Unit (reaching opts key) rfl
    have hvisit : s.reached key ∈ ((reaching opts key).execute ops).visits := by
      rw [(execute_executes (e := reaching opts key) hop).1]
      exact executeSelectionSet_reaches opts key _ none [] [] _ s hs
    have hallowed := hb.visits _ hvisit
    cases s with
    | field typeName name => exact hallowed
    | whole typeName => exact fun hc => hkey typeName (hallowed hc key (mem_singleton_self key))
  · rintro h V e rfl
    exact boundary_of_validates h
  · rintro V e rfl htotal ⟨op, hop, hundef⟩
    exact not_boundary_of_undefined htotal hop hundef

/-- A schema of users with names. -/
def userSchema : ServiceDefinition where
  types := [{ name := "Query", fields := [{ name := "user", type := "User" }] },
    { name := "User", fields := [{ name := "name", type := "String!" }] }]

/-- The resolver of `user` answers with a row that has a password hash. -/
def userEngine : GraphQlEngine String where
  schema := userSchema
  host := {
    view := fun v => if v = "row" then .object else .other
    property := fun v name => v ++ "." ++ name
    ownKeys := fun v => if v = "row" then ["name", "passwordHash"] else [] }
  resolvers typeName name := if typeName = "Query" ∧ name = "user" then some fun _ _ _ => .ok "row" else none

/-- The document `{ user { passwordHash } }`. -/
def userDocument : List OperationDef :=
  [{ selectionSet := [.mk "user" none [] (some [.mk "passwordHash" none [] none])] }]

/-- The password hash is read from the parent and sent. -/
theorem exposure_counterexample : (∃ v, (userEngine.execute userDocument).result = .data [("user", .record [("passwordHash", .value v)])]) ∧
      ¬ ExposureBoundary userSchema userDocument (userEngine.execute userDocument) := by
  refine ⟨⟨"row.passwordHash", rfl⟩, fun h => ?_⟩
  have hvisit := h.visits (.field "User" "passwordHash" .parent) (by decide +kernel)
  simp [Visit.Allowed, ServiceDefinition.Defines, ServiceDefinition.fieldDef, ServiceDefinition.typeDef, userSchema] at hvisit

end StreetJS.GraphQl
