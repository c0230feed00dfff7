/-
Body parsing and request validation (`parseBody` of `core/src/http/server.ts`, `createValidationMiddleware` and
`validateObject` of `router/src/router.ts`): what the handler of a validated route is given.
-/
import StreetJS.Lib.SequencePattern
import Mathlib

namespace StreetJS.Http

open StreetJS.Lib

/-! ## Values -/

/-- A string by its UTF-16 code units, which is what `length` counts. -/
abbrev JsString := List UInt16

def units (s : String) : JsString := s.toList.map fun c => c.toNat.toUInt16

/-- A parsed body, over the numbers `N` other than `NaN`; `builtin` is a function by its text. -/
inductive JsValue (N : Type) where
  | null
  | bool (b : Bool)
  | number (n : N)
  | string (s : JsString)
  | array (items : List (JsValue N))
  | object (props : List (JsString × JsValue N))
  | builtin (text : JsString)

/-- The library functions of the runtime: UTF-8 decoding, `JSON.parse` (`none` where it throws), `Number` of a
string (`none` for `NaN`), `String` of a number, the comparison, and the fields of a multipart body. -/
structure Runtime (N : Type) where
  toUtf8 : List UInt8 → JsString
  jsonParse : JsString → Option (JsValue N)
  toNumber : JsString → Option N
  numberText : N → JsString
  ofNat : Nat → N
  lt : N → N → Bool
  multipart : List Char → List (List UInt8) → Except String (List (JsString × JsString))

section

variable {N : Type} (rt : Runtime N)

mutual

/-- `String(value)`; none where it throws, as for an object with a key `toString` (no parsed value is a
function). -/
def JsValue.text : JsValue N → Option JsString
  | .null => some (units "null")
  | .bool b => some (units (if b then "true" else "false"))
  | .number n => some (rt.numberText n)
  | .string s => some s
  | .array items => (JsValue.texts items).map (units ",").intercalate
  | .object props => if (props.lookup (units "toString")).isSome then none else some (units "[object Object]")
  | .builtin text => some text

/-- The items as `Array.prototype.join` writes them. -/
def JsValue.texts : List (JsValue N) → Option (List JsString)
  | [] => some []
  | .null :: items => (JsValue.texts items).map ([] :: ·)
  | item :: items => do return (← JsValue.text item) :: (← JsValue.texts items)

end

/-- `Number(value)`: none where it throws, `some none` for `NaN`. -/
def JsValue.toNumber : JsValue N → Option (Option N)
  | .null => some (some (rt.ofNat 0))
  | .bool b => some (some (rt.ofNat b.toNat))
  | .number n => some (some n)
  | .string s => some (rt.toNumber s)
  | value => (value.text rt).map rt.toNumber

/-- The methods of `Object.prototype`. -/
def objectMethods : List String :=
  ["__defineGetter__", "__defineSetter__", "hasOwnProperty", "__lookupGetter__", "__lookupSetter__", "isPrototypeOf",
    "propertyIsEnumerable", "toString", "valueOf", "toLocaleString"]

/-- The methods of `Array.prototype`. -/
def arrayMethods : List String :=
  ["at", "concat", "copyWithin", "fill", "find", "findIndex", "findLast", "findLastIndex", "lastIndexOf", "pop", "push",
    "reverse", "shift", "unshift", "slice", "sort", "splice", "includes", "indexOf", "join", "keys", "entries", "values",
    "forEach", "filter", "flat", "flatMap", "map", "every", "some", "reduce", "reduceRight", "toReversed", "toSorted",
    "toSpliced", "with"]

/-- The text of a native function. -/
def nativeText (name : JsString) : JsString := units "function " ++ name ++ units "() { [native code] }"

/-- What an object inherits. -/
def objectMember (field : JsString) : Option (JsValue N) :=
  if field ∈ objectMethods.map units then some (.builtin (nativeText field))
  else if field = units "constructor" then some (.builtin (nativeText (units "Object")))
  else if field = units "__proto__" then some (.object [])
  else none

def arrayMember (field : JsString) : Option (JsValue N) :=
  if field ∈ arrayMethods.map units then some (.builtin (nativeText field))
  else if field = units "constructor" then some (.builtin (nativeText (units "Array")))
  else if field = units "__proto__" then some (.array [])
  else objectMember field

/-- `data[field]` of an object or an array: its own, else inherited; none for `undefined`. -/
def JsValue.property (data : JsValue N) (field : JsString) : Option (JsValue N) :=
  match data with
  | .object props => (props.lookup field).or (objectMember field)
  | .array items =>
    if field = units "length" then some (.number (rt.ofNat items.length))
    else ((items.mapIdx fun i item => (units (toString i), item)).lookup field).or (arrayMember field)
  | _ => none

/-- `value !== null && typeof value === 'object'` -/
def JsValue.isObject : JsValue N → Bool
  | .array _ | .object _ => true
  | _ => false

end

/-! ## Rules -/

inductive RuleType where
  | string
  | number
  | boolean
  | email
  | uuid

/-- A field rule; the pattern is its `test`. -/
structure FieldRule (N : Type) where
  type : RuleType
  required : Bool := false
  min : Option N := none
  max : Option N := none
  pattern : Option (JsString → Bool) := none

abbrev Rules (N : Type) := List (JsString × FieldRule N)

structure ValidationSchema (N : Type) where
  body : Option (Rules N) := none
  query : Option (Rules N) := none
  params : Option (Rules N) := none

/-- `\s` -/
def isSpace (c : UInt16) : Bool :=
  (9 ≤ c && c ≤ 13) || c == 32 || c == 0xA0 || c == 0x1680 || (0x2000 ≤ c && c ≤ 0x200A) || c == 0x2028 ||
    c == 0x2029 || c == 0x202F || c == 0x205F || c == 0x3000 || c == 0xFEFF

def literal (c : Char) : PatternItem UInt16 := .one (· == c.toNat.toUInt16)

/-- `[^\s@]+` -/
def addressPart : PatternItem UInt16 := .run 1 fun c => !isSpace c && c != '@'.toNat.toUInt16

/-- `/^[^\s@]+@[^\s@]+\.[^\s@]+$/` -/
def emailPattern : SequencePattern UInt16 := [addressPart, literal '@', addressPart, literal '.', addressPart]

/-- `[0-9a-f]`, in either case. -/
def isHex (c : UInt16) : Bool := (48 ≤ c && c ≤ 57) || (97 ≤ c && c ≤ 102) || (65 ≤ c && c ≤ 70)

def hexGroup (n : Nat) : SequencePattern UInt16 := List.replicate n (.one isHex)

/-- `/^[0-9a-f]{8}-[0-9a-f]{4}-[0-9a-f]{4}-[0-9a-f]{4}-[0-9a-f]{12}$/i` -/
def uuidPattern : SequencePattern UInt16 :=
  hexGroup 8 ++ literal '-' :: hexGroup 4 ++ literal '-' :: hexGroup 4 ++ literal '-' :: hexGroup 4 ++ literal '-' :: hexGroup 12

section

variable {N : Type} (rt : Runtime N)

/-- The errors of a bound or a pattern of a string rule. -/
def stringErrors (path : JsString) (rule : FieldRule N) (str : JsString) : List JsString :=
  (match rule.min with
    | some least =>
      if rt.lt (rt.ofNat str.length) least then
        [path ++ units " must be at least " ++ rt.numberText least ++ units " chars"]
      else []
    | none => []) ++
  (match rule.max with
    | some most =>
      if rt.lt most (rt.ofNat str.length) then
        [path ++ units " must be at most " ++ rt.numberText most ++ units " chars"]
      else []
    | none => []) ++
  match rule.pattern with
    | some test => if test str then [] else [path ++ units " has invalid format"]
    | none => []

/-- The `switch` of `validateObject` over the type of the rule, for a value and its text; none where `Number`
throws. The bounds are those of the text, and of string rules only. -/
def typeErrors (path : JsString) (rule : FieldRule N) (value : JsValue N) (str : JsString) : Option (List JsString) :=
  match rule.type with
  | .string =>
    some ((match value with
      | .string _ => []
      | _ => [path ++ units " must be a string"]) ++ stringErrors rt path rule str)
  | .number => do
    match ← value.toNumber rt with
      | some _ => some []
      | none => some [path ++ units " must be a number"]
  | .boolean =>
    match value with
    | .bool _ => some []
    | .string s =>
      some (if s = units "true" ∨ s = units "false" then [] else [path ++ units " must be a boolean"])
    | _ => some [path ++ units " must be a boolean"]
  | .email => some (if emailPattern.test str then [] else [path ++ units " must be a valid email"])
  | .uuid => some (if uuidPattern.test str then [] else [path ++ units " must be a valid UUID"])

/-- `value === undefined || value === null || value === ''` -/
def isBlank : Option (JsValue N) → Bool
  | none | some .null | some (.string []) => true
  | _ => false

/-- The errors of one rule; none where the check throws. -/
def fieldErrors (location field : JsString) (rule : FieldRule N) (value : Option (JsValue N)) : Option (List JsString) :=
  let path := location ++ units "." ++ field
  if rule.required && isBlank value then some [path ++ units " is required"]
  else match value with
    | none | some .null => some []
    | some value => do typeErrors rt path rule value (← value.text rt)

def validateObject (location : JsString) (data : JsValue N) : Rules N → Option (List JsString)
  | [] => some []
  | (field, rule) :: rules => do
    return (← fieldErrors rt location field rule (data.property rt field)) ++ (← validateObject location data rules)

/-! ## Requests -/

/-- A request: its method in upper case, the header `content-type` (empty without one), its chunks, and its query and
path parameters. -/
structure Request where
  method : String
  contentType : List Char := []
  chunks : List (List UInt8) := []
  query : List (JsString × JsString) := []
  params : List (JsString × JsString) := []

def includes (text : List Char) (part : String) : Bool := text.tails.any (part.toList.isPrefixOf ·)

/-- `/boundary=([^\s;]+)/i`, the first match. -/
def extractBoundary : List Char → Option (List Char)
  | [] => none
  | c :: cs =>
    let value := ((c :: cs).drop 9).takeWhile fun c => !isSpace c.toNat.toUInt16 && c != ';'
    if ((c :: cs).take 9).map Char.toLower = "boundary=".toList ∧ value ≠ [] then some value else extractBoundary cs

def ofFields (fields : List (JsString × JsString)) : JsValue N := .object (fields.map fun f => (f.1, .string f.2))

/-- `parseBody`: `ctx.body`, which is `null` at first. -/
def parseBody (maxBytes : Nat) (req : Request) : Except String (JsValue N) :=
  if req.method = "GET" ∨ req.method = "HEAD" ∨ req.method = "DELETE" then .ok .null
  else if includes req.contentType "multipart/form-data" then
    match extractBoundary req.contentType with
    | none => .ok .null
    | some boundary => (rt.multipart boundary req.chunks).map ofFields
  else if includes req.contentType "application/json" || includes req.contentType "text/" then
    if maxBytes < (req.chunks.map List.length).sum then .error "Request body exceeds limit"
    else if req.chunks = [] then .ok .null
    else
      let raw := rt.toUtf8 req.chunks.flatten
      .ok (if includes req.contentType "application/json" then (rt.jsonParse raw).getD .null else .string raw)
  else .ok .null

/-- The errors of one part of a request, if its part of the schema is there. -/
def partErrors (location : JsString) (data : JsValue N) (rules : Option (Rules N)) : Option (List JsString) :=
  rules.elim (some []) (validateObject rt location data)

/-- The errors that `createValidationMiddleware` collects: the body rules are for objects. -/
def validationErrors (schema : ValidationSchema N) (body : JsValue N) (req : Request) : Option (List JsString) := do
  let ofBody ← bif body.isObject then partErrors rt (units "body") body schema.body else some []
  let ofQuery ← partErrors rt (units "query") (ofFields req.query) schema.query
  let ofParams ← partErrors rt (units "params") (ofFields req.params) schema.params
  return ofBody ++ ofQuery ++ ofParams

/-- What comes of a request to a validated route: the handler runs with a body, or it does not. -/
inductive Response (N : Type) where
  | handler (body : JsValue N)
  | badRequest (errors : List JsString)
  | failed (message : String)

def handle (maxBytes : Nat) (schema : ValidationSchema N) (req : Request) : Response N :=
  match parseBody rt maxBytes req with
  | .error message => .failed message
  | .ok body =>
    match validationErrors rt schema body req with
    | none => .failed "Cannot convert object to primitive value"
    | some [] => .handler body
    | some errors => .badRequest errors

end

/-! ## What a rule asks -/

section

variable {N : Type} (rt : Runtime N)

/-- A value of the type of a rule, within its bounds, as `validateObject` defines them. -/
def FieldRule.Fits (rule : FieldRule N) (value : JsValue N) : Prop :=
  match rule.type with
  | .string => ∃ s, value = .string s ∧ (∀ least, rule.min = some least → rt.lt (rt.ofNat s.length) least = false) ∧
      (∀ most, rule.max = some most → rt.lt most (rt.ofNat s.length) = false) ∧
      ∀ test, rule.pattern = some test → test s = true
  | .number => ∃ n, value.toNumber rt = some (some n)
  | .boolean => (∃ b, value = .bool b) ∨ value = .string (units "true") ∨ value = .string (units "false")
  | .email => ∃ s caps, value.text rt = some s ∧ SequencePattern.Matches emailPattern s caps
  | .uuid => ∃ s caps, value.text rt = some s ∧ SequencePattern.Matches uuidPattern s caps

/-- A field is there where it has to be, and fits its rule where it is. -/
structure FieldRule.Satisfied (rule : FieldRule N) (value : Option (JsValue N)) : Prop where
  present : rule.required = true → value ≠ none ∧ value ≠ some .null ∧ value ≠ some (.string [])
  fits : ∀ v, value = some v → v ≠ .null → rule.Fits rt v

def Satisfied (rules : Rules N) (data : JsValue N) : Prop :=
  ∀ f ∈ rules, f.2.Satisfied rt (data.property rt f.1)

theorem stringErrors_eq_nil {path str : JsString} {rule : FieldRule N} :
    stringErrors rt path rule str = [] ↔ (∀ least, rule.min = some least → rt.lt (rt.ofNat str.length) least = false) ∧
      (∀ most, rule.max = some most → rt.lt most (rt.ofNat str.length) = false) ∧
      ∀ test, rule.pattern = some test → test str = true := by
  unfold stringErrors
  rw [List.append_eq_nil_iff, List.append_eq_nil_iff, and_assoc]
  refine and_congr ?_ (and_congr ?_ ?_)
  · cases rule.min <;> simp
  · cases rule.max <;> simp
  · cases rule.pattern <;> simp

theorem patternErrors_eq_nil {items : SequencePattern UInt16} {message str : JsString} {value : JsValue N} (hstr : value.text rt = some str) :
    some (if items.test str then [] else [message]) = some [] ↔ ∃ s caps, value.text rt = some s ∧ SequencePattern.Matches items s caps := by
  rw [hstr, Option.some.injEq]
  by_cases ht : items.test str = true
  · simp only [ht, if_true, true_iff]
    obtain ⟨caps, h⟩ := SequencePattern.test_iff.1 ht
    exact ⟨str, caps, rfl, h⟩
  · rw [if_neg ht]
    constructor
    · intro h
      cases h
    · rintro ⟨s, caps, hs, h⟩
      cases hs
      exact absurd (SequencePattern.test_iff.2 ⟨caps, h⟩) ht

theorem typeErrors_eq_nil {path str : JsString} {rule : FieldRule N} {value : JsValue N}
    (hstr : value.text rt = some str) : typeErrors rt path rule value str = some [] ↔ rule.Fits rt value := by
  unfold typeErrors FieldRule.Fits
  cases rule.type with
  | string =>
    cases value with
    | string s =>
      simp only [JsValue.text, Option.some.injEq] at hstr
      subst hstr
      simp only [List.nil_append, Option.some.injEq, stringErrors_eq_nil, JsValue.string.injEq]
      constructor
      · intro h
        exact ⟨s, rfl, h⟩
      · rintro ⟨s', rfl, h⟩
        exact h
    | _ => simp
  | number =>
    cases hn : value.toNumber rt with
    | none => simp
    | some n => cases n <;> simp
  | boolean =>
    cases value with
    | string s => by_cases ht : s = units "true" <;> simp [ht]
    | _ => simp
  | email => exact patternErrors_eq_nil rt hstr
  | uuid => exact patternErrors_eq_nil rt hstr

theorem text_of_fits {rule : FieldRule N} {value : JsValue N} (h : rule.Fits rt value) : ∃ str, value.text rt = some str := by
  unfold FieldRule.Fits at h
  split at h
  · obtain ⟨s, rfl, -⟩ := h
    exact ⟨s, rfl⟩
  · obtain ⟨n, hn⟩ := h
    cases value with
    | array items =>
      obtain ⟨str, hstr, -⟩ := Option.map_eq_some_iff.1 hn
      exact ⟨str, hstr⟩
    | object props =>
      obtain ⟨str, hstr, -⟩ := Option.map_eq_some_iff.1 hn
      exact ⟨str, hstr⟩
    | _ => exact ⟨_, rfl⟩
  · rcases h with ⟨b, rfl⟩ | rfl | rfl <;> exact ⟨_, rfl⟩
  · obtain ⟨s, _, hs, -⟩ := h
    exact ⟨s, hs⟩
  · obtain ⟨s, _, hs, -⟩ := h
    exact ⟨s, hs⟩

theorem isBlank_iff {value : Option (JsValue N)} : isBlank value = true ↔ value = none ∨ value = some .null ∨ value = some (.string []) := by
  rcases value with _ | value
  · simp [isBlank]
  · cases value with
    | string s => cases s <;> simp [isBlank]
    | _ => simp [isBlank]

theorem fieldErrors_eq_nil (location field : JsString) {rule : FieldRule N} {value : Option (JsValue N)} :
    fieldErrors rt location field rule value = some [] ↔ rule.Satisfied rt value := by
  unfold fieldErrors
  split
  · rename_i hblank
    rw [Bool.and_eq_true, isBlank_iff] at hblank
    constructor
    · intro h
      cases h
    · intro h
      obtain ⟨hnone, hnull, hempty⟩ := h.present hblank.1
      rcases hblank.2 with h | h | h
      · exact absurd h hnone
      · exact absurd h hnull
      · exact absurd h hempty
  · rename_i hblank
    rw [Bool.and_eq_true, isBlank_iff] at hblank
    have hpresent : rule.required = true → value ≠ none ∧ value ≠ some .null ∧ value ≠ some (.string []) := by
      intro hr
      refine ⟨?_, ?_, ?_⟩ <;> intro h <;> exact hblank ⟨hr, by simp [h]⟩
    split
    · exact ⟨fun _ => ⟨hpresent, fun v hv => by cases hv⟩, fun _ => rfl⟩
    · refine ⟨fun _ => ⟨hpresent, fun v hv hne => ?_⟩, fun _ => rfl⟩
      cases hv
      exact absurd rfl hne
    · rename_i v hne
      have hnull : v ≠ .null := by
        rintro rfl
        exact hne rfl
      constructor
      · intro h
        obtain ⟨str, hstr, herr⟩ := Option.bind_eq_some_iff.1 h
        refine ⟨hpresent, fun v' hv' _ => ?_⟩
        cases hv'
        exact (typeErrors_eq_nil rt hstr).1 herr
      · intro h
        have hfits := h.fits v rfl hnull
        obtain ⟨str, hstr⟩ := text_of_fits rt hfits
        rw [hstr]
        exact (typeErrors_eq_nil rt hstr).2 hfits

theorem validateObject_eq_nil (location : JsString) (data : JsValue N) (rules : Rules N) :
    validateObject rt location data rules = some [] ↔ Satisfied rt rules data := by
  induction rules with
  | nil => simp [validateObject, Satisfied]
  | cons f rules ih =>
    obtain ⟨field, rule⟩ := f
    unfold Satisfied at ih ⊢
    rw [List.forall_mem_cons, ← ih, ← fieldErrors_eq_nil rt location field]
    simp only [validateObject]
    cases fieldErrors rt location field rule (data.property rt field) with
    | none => simp
    | some errors => cases validateObject rt location data rules <;> simp

theorem partErrors_eq_nil (location : JsString) (data : JsValue N) (rules : Option (Rules N)) :
    partErrors rt location data rules = some [] ↔ ∀ rs, rules = some rs → Satisfied rt rs data := by
  cases rules with
  | none => simp [partErrors]
  | some rs => simp [partErrors, validateObject_eq_nil]

theorem validationErrors_eq_nil {schema : ValidationSchema N} {body : JsValue N} {req : Request} :
    validationErrors rt schema body req = some [] ↔ (body.isObject = true → ∀ rules, schema.body = some rules → Satisfied rt rules body) ∧
      (∀ rules, schema.query = some rules → Satisfied rt rules (ofFields req.query)) ∧
      ∀ rules, schema.params = some rules → Satisfied rt rules (ofFields req.params) := by
  have hbody : (bif body.isObject then partErrors rt (units "body") body schema.body else some []) = some [] ↔
      (body.isObject = true → ∀ rules, schema.body = some rules → Satisfied rt rules body) := by
    cases body.isObject <;> simp [partErrors_eq_nil]
  have hquery := partErrors_eq_nil rt (units "query") (ofFields req.query) schema.query
  have hparams := partErrors_eq_nil rt (units "params") (ofFields req.params) schema.params
  rw [← hbody, ← hquery, ← hparams]
  unfold validationErrors
  constructor
  · intro h
    obtain ⟨ofBody, hb, h⟩ := Option.bind_eq_some_iff.1 h
    obtain ⟨ofQuery, hq, h⟩ := Option.bind_eq_some_iff.1 h
    obtain ⟨ofParams, hp, h⟩ := Option.bind_eq_some_iff.1 h
    simp only [pure, Option.some.injEq, List.append_eq_nil_iff] at h
    obtain ⟨⟨rfl, rfl⟩, rfl⟩ := h
    exact ⟨hb, hq, hp⟩
  · rintro ⟨hb, hq, hp⟩
    rw [hb, hq, hp]
    rfl

end

/-! ## What the handler is given -/

section

variable {N : Type} (rt : Runtime N)

theorem handle_handler {maxBytes : Nat} {schema : ValidationSchema N} {req : Request} {body : JsValue N} :
    handle rt maxBytes schema req = .handler body ↔ parseBody rt maxBytes req = .ok body ∧ validationErrors rt schema body req = some [] := by
  unfold handle
  cases parseBody rt maxBytes req with
  | error message => simp
  | ok body' =>
    simp only [Except.ok.injEq]
    constructor
    · intro h
      split at h
      · cases h
      · rename_i herrors
        cases h
        exact ⟨rfl, herrors⟩
      · cases h
    · rintro ⟨rfl, herrors⟩
      rw [herrors]

/-- A body that is an object whose fields satisfy the rules. -/
def BodyValidated (rules : Rules N) (body : JsValue N) : Prop :=
  (∃ props, body = .object props) ∧ Satisfied rt rules body

/-- For every validated route and every request: the handler runs exactly where the body is parsed, satisfies
the body rules if it is an object (or an array), and the query and the parameters satisfy theirs. A body of any
other kind is not checked. -/
theorem handler_runs_iff (maxBytes : Nat) (schema : ValidationSchema N) (req : Request) (body : JsValue N) :
    handle rt maxBytes schema req = .handler body ↔ parseBody rt maxBytes req = .ok body ∧
        (body.isObject = true → ∀ rules, schema.body = some rules → Satisfied rt rules body) ∧
        (∀ rules, schema.query = some rules → Satisfied rt rules (ofFields req.query)) ∧
        ∀ rules, schema.params = some rules → Satisfied rt rules (ofFields req.params) := by
  rw [handle_handler, validationErrors_eq_nil]

end

/-- A runtime for ASCII texts and natural numbers; a text is no number and no JSON. -/
def plainRuntime : Runtime Nat where
  toUtf8 bytes := bytes.map (·.toUInt16)
  jsonParse _ := none
  toNumber _ := none
  numberText n := units (toString n)
  ofNat n := n
  lt m n := decide (m < n)
  multipart _ _ := .error "Upload too large"

/-- A route that requires a field `name`. -/
def namedSchema : ValidationSchema Nat :=
  { body := some [(units "name", { type := .string, required := true })] }

/-- A text as the body. -/
def rawRequest : Request :=
  { method := "POST", contentType := "text/plain".toList, chunks := [[114, 97, 119]] }

/-- A body without the field reaches the handler. -/
theorem unchecked_body_counterexample : ∃ body, handle plainRuntime 1000 namedSchema rawRequest = .handler body ∧
      ∀ rules, namedSchema.body = some rules → ¬ BodyValidated plainRuntime rules body := by
  refine ⟨.string (units "raw"), (handler_runs_iff ..).2 ⟨by rfl, ?_, ?_, ?_⟩, ?_⟩
  · intro h
    cases h
  · intro rules h
    cases h
  · intro rules h
    cases h
  · rintro rules - ⟨⟨props, h⟩, -⟩
    cases h

end StreetJS.Http
