/-
GraphQL documents and the schema (`core/src/graphql/engine.ts`, `schema.ts`): the selection sets of a parsed
document, the guards that `prepare` runs on its first operation, and what a selection asks of the schema.
-/
import Mathlib.Data.List.Basic

namespace StreetJS.GraphQl

/-! ## Documents -/

/-- A parsed argument; a number by its text. -/
inductive ArgValue where
  | bool (b : Bool)
  | null
  | number (text : String)
  | string (text : String)

inductive FieldNode where
  | mk (name : String) (fieldAlias : Option String) (args : List (String × ArgValue)) (selectionSet : Option (List FieldNode))

/-- The key of the field in the result: `field.alias ?? field.name`. -/
def FieldNode.key : FieldNode → String
  | .mk name fieldAlias _ _ => fieldAlias.getD name

inductive Operation where
  | query
  | mutation
  | subscription
deriving DecidableEq

structure OperationDef where
  operation : Operation := .query
  name : Option String := none
  selectionSet : List FieldNode

/-! ## Depth and complexity -/

mutual

/-- The depth below a field: none without a selection set. -/
def fieldDepth : FieldNode → Nat
  | .mk _ _ _ selectionSet => nestedDepth selectionSet

def nestedDepth : Option (List FieldNode) → Nat
  | none => 0
  | some fields => maxDepth fields + 1

def maxDepth : List FieldNode → Nat
  | [] => 0
  | field :: rest => max (fieldDepth field) (maxDepth rest)

end

def getDepth (fields : List FieldNode) : Nat := maxDepth fields + 1

mutual

def fieldComplexity : FieldNode → Nat
  | .mk _ _ _ selectionSet => nestedComplexity selectionSet + 1

def nestedComplexity : Option (List FieldNode) → Nat
  | none => 0
  | some fields => getComplexity fields

def getComplexity : List FieldNode → Nat
  | [] => 0
  | field :: rest => fieldComplexity field + getComplexity rest

end

/-! ## Introspection -/

/-- `__typename` is not among them. -/
def introspectionFields : List String := ["__schema", "__type"]

mutual

def fieldIntrospects : FieldNode → Bool
  | .mk name _ _ selectionSet => introspectionFields.contains name || nestedIntrospects selectionSet

def nestedIntrospects : Option (List FieldNode) → Bool
  | none => false
  | some fields => usesIntrospection fields

def usesIntrospection : List FieldNode → Bool
  | [] => false
  | field :: rest => fieldIntrospects field || usesIntrospection rest

end

/-! ## The schema -/

structure FieldDef where
  name : String
  type : String

inductive TypeDefKind where
  | type
  | input
  | enum
  | scalar
  | interface
  | union

structure TypeDef where
  name : String
  kind : TypeDefKind := .type
  fields : List FieldDef

structure ServiceDefinition where
  types : List TypeDef
  queryType : Option String := none
  mutationType : Option String := none

variable (schema : ServiceDefinition)

def ServiceDefinition.typeDef (typeName : String) : Option TypeDef :=
  schema.types.find? (·.name = typeName)

def ServiceDefinition.fieldDef (typeName name : String) : Option FieldDef :=
  (schema.typeDef typeName).bind fun t => t.fields.find? (·.name = name)

/-- A field that the schema defines on the type. -/
def ServiceDefinition.Defines (typeName name : String) : Prop :=
  (schema.fieldDef typeName name).isSome = true

/-- A type whose values have fields: an object, an interface or a union, in the schema. -/
def ServiceDefinition.Composite (typeName : String) : Prop :=
  ∃ t, schema.typeDef typeName = some t ∧ (t.kind = .type ∨ t.kind = .interface ∨ t.kind = .union)

/-- `stripModifiers`: without the non-null `!` and the list `[]`. -/
def stripModifiers (type : String) : String :=
  String.ofList (type.toList.filter fun c => !(c == '[' || c == ']' || c == '!'))

/-- The type that the selections below a field are run against. -/
def ServiceDefinition.nestedTypeName (typeName name : String) : String :=
  match schema.fieldDef typeName name with
  | some fieldDef => stripModifiers fieldDef.type
  | none => "Unknown"

def ServiceDefinition.rootTypeName : Operation → String
  | .mutation => schema.mutationType.getD "Mutation"
  | _ => schema.queryType.getD "Query"

/-! ## Preparing an operation -/

structure GraphQlEngineOptions where
  schema : ServiceDefinition
  maxDepth : Nat := 10
  maxComplexity : Nat := 1000
  introspection : Bool := true

/-- `prepare`, after the document is parsed: its first operation, if the guards let it pass. -/
def GraphQlEngineOptions.prepare (opts : GraphQlEngineOptions) (ops : List OperationDef) : Except String OperationDef :=
  match ops with
  | [] => .error "No operations found in query document"
  | op :: _ =>
    if !opts.introspection && usesIntrospection op.selectionSet then .error "Introspection is disabled"
    else if getDepth op.selectionSet > opts.maxDepth then
      .error s!"Query depth {getDepth op.selectionSet} exceeds maximum allowed depth {opts.maxDepth}"
    else if getComplexity op.selectionSet > opts.maxComplexity then
      .error s!"Query complexity {getComplexity op.selectionSet} exceeds maximum allowed complexity {opts.maxComplexity}"
    else .ok op

theorem prepare_head {opts : GraphQlEngineOptions} {ops : List OperationDef} {op : OperationDef}
    (h : opts.prepare ops = .ok op) : ops.head? = some op := by
  unfold GraphQlEngineOptions.prepare at h
  split at h
  · cases h
  · split at h
    · cases h
    · split at h
      · cases h
      · split at h
        · cases h
        · cases h
          rfl

/-! ## What a selection asks of the schema -/

/-- A field of a type, or a value of a type as a whole, where the field has no selection set. -/
inductive Selected where
  | field (typeName name : String)
  | whole (typeName : String)

mutual

/-- The selections of a field on a type; `__typename` is on every type. -/
def fieldSelects (schema : ServiceDefinition) (typeName : String) : FieldNode → List Selected
  | .mk name _ _ selectionSet =>
    if name = "__typename" then []
    else .field typeName name :: nestedSelects schema (schema.nestedTypeName typeName name) selectionSet

def nestedSelects (schema : ServiceDefinition) (typeName : String) : Option (List FieldNode) → List Selected
  | none => [.whole typeName]
  | some fields => selects schema typeName fields

def selects (schema : ServiceDefinition) (typeName : String) : List FieldNode → List Selected
  | [] => []
  | field :: rest => fieldSelects schema typeName field ++ selects schema typeName rest

end

/-- The field is in the schema; a value that is handed out as a whole is of a type without fields. -/
def Selected.Allowed : Selected → Prop
  | .field typeName name => schema.Defines typeName name
  | .whole typeName => ¬ schema.Composite typeName

/-- An operation that the schema validates: every field is defined on the type it is selected on, and a field
of a type with fields has a selection set. -/
def ServiceDefinition.Validates (op : OperationDef) : Prop :=
  ∀ s ∈ selects schema (schema.rootTypeName op.operation) op.selectionSet, s.Allowed schema

end StreetJS.GraphQl
