/-
What the stores do to one value. The memory store keeps a structured clone; the Redis store keeps
`JSON.stringify(…, replacer)` and loads `JSON.parse(…, reviver)`, with bytes as tagged base64 objects
(`workflow/src/store.ts`, `workflow/src/redis/index.ts`). A JSON text stands for its tree.
-/
import StreetJS.Workflow.Value
import StreetJS.Lib.Base64

namespace StreetJS.Workflow

open StreetJS.Lib

/-! ## The codecs -/

inductive Json where
  | null
  | bool (b : Bool)
  | num (n : Int)
  | str (s : String)
  | arr (items : List Json)
  | obj (fields : List (String × Json))
deriving Repr

/-- The key that marks a base64-encoded `Uint8Array`. -/
def u8Tag : String := "__u8b64__"

mutual

/-- `JSON.stringify` of a property, `none` when the property is left out. `Buffer.toJSON` runs before
the replacer, which then sees no `Uint8Array`. -/
def Value.stringify : Value → Option Json
  | .undefined => none
  | .null => some .null
  | .bool b => some (.bool b)
  | .num n => some (.num n)
  | .str s => some (.str s)
  | .arr items => some (.arr (stringifyItems items))
  | .obj fields => some (.obj (stringifyFields fields))
  | .bytes content => some (.obj [(u8Tag, .str (Base64.encode content))])
  | .buffer content =>
    some (.obj [("type", .str "Buffer"), ("data", .arr (content.map fun byte => .num byte.toNat))])

def stringifyItems : List Value → List Json
  | [] => []
  | item :: items => item.stringify.getD .null :: stringifyItems items

def stringifyFields : List (String × Value) → List (String × Json)
  | [] => []
  | (key, value) :: fields =>
    match value.stringify with
    | none => stringifyFields fields
    | some json => (key, json) :: stringifyFields fields

end

/-- The bytes that the reviver makes of an object with the tag. -/
def taggedBytes (fields : List (String × Value)) : Option (List UInt8) :=
  match OrderedMap.get fields u8Tag with
  | some (.str text) => some (Base64.decode text)
  | _ => none

def revived (fields : List (String × Value)) : Value :=
  match taggedBytes fields with
  | some content => .bytes content
  | none => .obj fields

mutual

/-- `JSON.parse` with the reviver, which sees a value after its parts. -/
def Json.revive : Json → Value
  | .null => .null
  | .bool b => .bool b
  | .num n => .num n
  | .str s => .str s
  | .arr items => .arr (reviveItems items)
  | .obj fields => revived (reviveFields fields)

def reviveItems : List Json → List Value
  | [] => []
  | item :: items => item.revive :: reviveItems items

def reviveFields : List (String × Json) → List (String × Value)
  | [] => []
  | (key, json) :: fields => (key, json.revive) :: reviveFields fields

end

mutual

/-- `structuredClone`: a `Buffer` becomes a plain `Uint8Array`. -/
def Value.clone : Value → Value
  | .arr items => .arr (cloneItems items)
  | .obj fields => .obj (cloneFields fields)
  | .buffer content => .bytes content
  | value => value

def cloneItems : List Value → List Value
  | [] => []
  | item :: items => item.clone :: cloneItems items

def cloneFields : List (String × Value) → List (String × Value)
  | [] => []
  | (key, value) :: fields => (key, value.clone) :: cloneFields fields

end

/-- What a property is after a save and a load of the Redis store. -/
def throughJson (value : Value) : Option Value := value.stringify.map Json.revive

/-! ## JSON-safe values -/

mutual

/-- No `undefined`, no `Buffer` and no tagged object at any depth. -/
def Value.jsonSafe : Value → Bool
  | .undefined => false
  | .buffer _ => false
  | .arr items => itemsSafe items
  | .obj fields => fieldsSafe fields && (taggedBytes fields).isNone
  | _ => true

def itemsSafe : List Value → Bool
  | [] => true
  | item :: items => item.jsonSafe && itemsSafe items

def fieldsSafe : List (String × Value) → Bool
  | [] => true
  | (_, value) :: fields => value.jsonSafe && fieldsSafe fields

end

theorem stringify_eq_none {value : Value} : value.stringify = none ↔ value = .undefined := by
  cases value <;> simp [Value.stringify]

theorem length_stringifyFields_le : ∀ fields : List (String × Value), (reviveFields (stringifyFields fields)).length ≤ fields.length
  | [] => Nat.le_refl 0
  | (key, value) :: fields => by
    have ih := length_stringifyFields_le fields
    unfold stringifyFields
    split
    · rw [List.length_cons]; omega
    · rw [reviveFields, List.length_cons, List.length_cons]; omega

theorem length_cloneFields : ∀ fields : List (String × Value), (cloneFields fields).length = fields.length
  | [] => rfl
  | _ :: fields => congrArg (· + 1) (length_cloneFields fields)

theorem taggedBytes_cloneFields : ∀ fields : List (String × Value), taggedBytes (cloneFields fields) = taggedBytes fields
  | [] => rfl
  | (key, value) :: fields => by
    have ih := taggedBytes_cloneFields fields
    unfold taggedBytes at ih ⊢
    rw [cloneFields, OrderedMap.get, OrderedMap.get]
    by_cases hk : key = u8Tag
    · simp only [hk, if_true]
      cases value <;> rfl
    · simp only [hk, if_false]
      exact ih

theorem revived_eq_obj_iff {fields fields' : List (String × Value)} :
    revived fields = .obj fields' ↔ taggedBytes fields = none ∧ fields = fields' := by
  unfold revived
  cases taggedBytes fields <;> simp

mutual

theorem throughJson_eq_clone_iff : ∀ value : Value, throughJson value = some value.clone ↔ value.jsonSafe = true
  | .undefined => by simp [throughJson, Value.stringify, Value.jsonSafe]
  | .null => by simp [throughJson, Value.stringify, Value.jsonSafe, Value.clone, Json.revive]
  | .bool b => by simp [throughJson, Value.stringify, Value.jsonSafe, Value.clone, Json.revive]
  | .num n => by simp [throughJson, Value.stringify, Value.jsonSafe, Value.clone, Json.revive]
  | .str s => by simp [throughJson, Value.stringify, Value.jsonSafe, Value.clone, Json.revive]
  | .arr items => by
    have ih := items_eq_clone_iff items
    simp only [throughJson, Value.stringify, Option.map_some, Json.revive, Value.clone, Value.jsonSafe, Option.some.injEq, Value.arr.injEq]
    exact ih
  | .obj fields => by
    have ih := fields_eq_clone_iff fields
    simp only [throughJson, Value.stringify, Option.map_some, Json.revive, Value.clone, Value.jsonSafe,
      Option.some.injEq, revived_eq_obj_iff, Bool.and_eq_true, Option.isNone_iff_eq_none]
    rw [ih, and_comm]
    refine and_congr_right fun hsafe => ?_
    rw [ih.2 hsafe, taggedBytes_cloneFields]
  | .bytes content => by
    have htag : taggedBytes [(u8Tag, .str (Base64.encode content))] = some (Base64.decode (Base64.encode content)) := rfl
    simp only [throughJson, Value.stringify, Option.map_some, Json.revive, reviveFields, Value.clone, Value.jsonSafe,
      revived, htag, Base64.decode_encode]
  | .buffer content => by
    have htag : taggedBytes [("type", .str "Buffer"), ("data", .arr (reviveItems (content.map fun byte => .num byte.toNat)))] = none := rfl
    simp [throughJson, Value.stringify, Json.revive, reviveFields, Value.clone, Value.jsonSafe, revived, htag]

theorem items_eq_clone_iff : ∀ items : List Value, reviveItems (stringifyItems items) = cloneItems items ↔ itemsSafe items = true
  | [] => by simp [stringifyItems, reviveItems, cloneItems, itemsSafe]
  | item :: items => by
    have hitem := throughJson_eq_clone_iff item
    have ih := items_eq_clone_iff items
    rw [stringifyItems, reviveItems, cloneItems, itemsSafe, List.cons.injEq, Bool.and_eq_true, ih]
    refine and_congr_left fun _ => ?_
    rw [← hitem]
    unfold throughJson
    cases h : item.stringify with
    | none =>
      rw [stringify_eq_none.1 h]
      simp [Json.revive, Value.clone]
    | some json => simp

theorem fields_eq_clone_iff : ∀ fields : List (String × Value),
    reviveFields (stringifyFields fields) = cloneFields fields ↔ fieldsSafe fields = true
  | [] => by simp [stringifyFields, reviveFields, cloneFields, fieldsSafe]
  | (key, value) :: fields => by
    have hvalue := throughJson_eq_clone_iff value
    have ih := fields_eq_clone_iff fields
    rw [cloneFields, fieldsSafe, Bool.and_eq_true, ← hvalue, ← ih, stringifyFields, throughJson]
    cases h : value.stringify with
    | none =>
      simp only [Option.map_none]
      -- the field is left out, and there is one field less
      have hlen := length_stringifyFields_le fields
      have hclone : (cloneFields fields).length = fields.length := length_cloneFields fields
      constructor
      · intro he
        have := congrArg List.length he
        rw [List.length_cons] at this
        omega
      · rintro ⟨he, -⟩
        cases he
    | some json => simp [reviveFields]

end

/-- What a property is read as that may be missing. -/
theorem throughJson_getD_iff {value : Value} :
    (throughJson value).getD .undefined = value.clone ↔ value = .undefined ∨ value.jsonSafe = true := by
  rw [← throughJson_eq_clone_iff]
  cases h : throughJson value with
  | none =>
    have hu : value = .undefined := by
      exact stringify_eq_none.1 (Option.map_eq_none_iff.1 h)
    simp [hu, Value.clone]
  | some w =>
    have hne : value ≠ .undefined := by
      rintro rfl
      cases h
    simp [hne]

/-! ## Values that have been stored -/

mutual

theorem clone_of_jsonSafe : ∀ value : Value, value.jsonSafe = true → value.clone = value
  | .undefined, _ | .null, _ | .bool _, _ | .num _, _ | .str _, _ | .bytes _, _ => rfl
  | .buffer _, h => by cases h
  | .arr items, h => by
    rw [Value.clone, clone_of_itemsSafe items h]
  | .obj fields, h => by
    rw [Value.jsonSafe, Bool.and_eq_true] at h
    rw [Value.clone, clone_of_fieldsSafe fields h.1]

theorem clone_of_itemsSafe : ∀ items : List Value, itemsSafe items = true → cloneItems items = items
  | [], _ => rfl
  | item :: items, h => by
    rw [itemsSafe, Bool.and_eq_true] at h
    rw [cloneItems, clone_of_jsonSafe item h.1, clone_of_itemsSafe items h.2]

theorem clone_of_fieldsSafe : ∀ fields : List (String × Value), fieldsSafe fields = true → cloneFields fields = fields
  | [], _ => rfl
  | (key, value) :: fields, h => by
    rw [fieldsSafe, Bool.and_eq_true] at h
    rw [cloneFields, clone_of_jsonSafe value h.1, clone_of_fieldsSafe fields h.2]

end

mutual

theorem clone_clone : ∀ value : Value, value.clone.clone = value.clone
  | .undefined | .null | .bool _ | .num _ | .str _ | .bytes _ | .buffer _ => rfl
  | .arr items => congrArg Value.arr (clone_cloneItems items)
  | .obj fields => congrArg Value.obj (clone_cloneFields fields)

theorem clone_cloneItems : ∀ items : List Value, cloneItems (cloneItems items) = cloneItems items
  | [] => rfl
  | item :: items => by
    rw [cloneItems, cloneItems, clone_clone item, clone_cloneItems items]

theorem clone_cloneFields : ∀ fields : List (String × Value), cloneFields (cloneFields fields) = cloneFields fields
  | [] => rfl
  | (key, value) :: fields => by
    rw [cloneFields, cloneFields, clone_clone value, clone_cloneFields fields]

end

mutual

theorem revive_jsonSafe : ∀ json : Json, json.revive.jsonSafe = true
  | .null | .bool _ | .num _ | .str _ => rfl
  | .arr items => revive_itemsSafe items
  | .obj fields => by
    rw [Json.revive, revived]
    cases h : taggedBytes (reviveFields fields) with
    | none => simp [Value.jsonSafe, revive_fieldsSafe fields, h]
    | some content => rfl

theorem revive_itemsSafe : ∀ items : List Json, itemsSafe (reviveItems items) = true
  | [] => rfl
  | item :: items => by
    rw [reviveItems, itemsSafe, revive_jsonSafe item, revive_itemsSafe items]
    rfl

theorem revive_fieldsSafe : ∀ fields : List (String × Json), fieldsSafe (reviveFields fields) = true
  | [] => rfl
  | (key, json) :: fields => by
    rw [reviveFields, fieldsSafe, revive_jsonSafe json, revive_fieldsSafe fields]
    rfl

end

/-- A second round trip changes nothing. -/
theorem throughJson_throughJson {value w : Value} (h : throughJson value = some w) : throughJson w = some w := by
  obtain ⟨json, -, rfl⟩ := Option.map_eq_some_iff.1 h
  rw [(throughJson_eq_clone_iff _).2 (revive_jsonSafe json), clone_of_jsonSafe _ (revive_jsonSafe json)]

example : (Value.arr [.undefined]).stringify = some (.arr [.null]) := rfl

example : throughJson (.buffer [1]) = some (.obj [("type", .str "Buffer"), ("data", .arr [.num 1])]) := rfl

end StreetJS.Workflow
