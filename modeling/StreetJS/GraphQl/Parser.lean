/-
The text of a GraphQL document (`core/src/graphql/engine.ts`): the variables are written into it as JSON, and
the text that comes out is stripped of its comments, searched for operations and cut at braces and parentheses.
-/
import StreetJS.GraphQl.Document
import StreetJS.Lib.OrderedMap
import StreetJS.Lib.Scan

namespace StreetJS.GraphQl

open StreetJS.Lib

/-! ## Texts -/

abbrev QueryText := List Char

/-- `\s` -/
def isSpace (c : Char) : Bool :=
  [' ', '\t', '\n', '\u000b', '\u000c', '\r', '\u00a0', '\u1680', '\u2028', '\u2029', '\u202f', '\u205f', '\u3000',
    '\ufeff'].contains c || ('\u2000' ≤ c && c ≤ '\u200a')

/-- `\w` -/
def isWord (c : Char) : Bool := c.isAlphanum || c == '_'

/-- `[a-zA-Z_]` -/
def isNameStart (c : Char) : Bool := c.isAlpha || c == '_'

/-- What `.` does not take. -/
def isLineTerminator (c : Char) : Bool := c == '\n' || c == '\r' || c == '\u2028' || c == '\u2029'

variable (s : QueryText)

/-- A name as GraphQL has it. -/
def isName : Bool := s.head?.any isNameStart && s.all isWord

/-! ## Variables -/

/-- A number by the text that `JSON.stringify` gives it. -/
structure JsonNumber where
  text : QueryText
  numeric : text.all (fun c => c.isDigit || c == '-' || c == '+' || c == '.' || c == 'e') = true

inductive Json where
  | null
  | bool (b : Bool)
  | number (n : JsonNumber)
  | string (s : QueryText)
  | array (items : List Json)
  | object (fields : List (QueryText × Json))

/-- A character of a string in JSON. -/
def escapeChar (c : Char) : QueryText :=
  if c = '"' then ['\\', '"']
  else if c = '\\' then ['\\', '\\']
  else if c = '\u0008' then ['\\', 'b']
  else if c = '\t' then ['\\', 't']
  else if c = '\n' then ['\\', 'n']
  else if c = '\u000c' then ['\\', 'f']
  else if c = '\r' then ['\\', 'r']
  else if c.toNat < 32 then ['\\', 'u', '0', '0', Nat.digitChar (c.toNat / 16), Nat.digitChar (c.toNat % 16)]
  else [c]

def quote : QueryText := '"' :: s.flatMap escapeChar ++ ['"']

mutual

/-- `JSON.stringify` -/
def Json.stringify : Json → QueryText
  | .null => ['n', 'u', 'l', 'l']
  | .bool true => ['t', 'r', 'u', 'e']
  | .bool false => ['f', 'a', 'l', 's', 'e']
  | .number n => n.text
  | .string s => quote s
  | .array items => '[' :: [','].intercalate (stringifyItems items) ++ [']']
  | .object fields => '{' :: [','].intercalate (stringifyFields fields) ++ ['}']

def stringifyItems : List Json → List QueryText
  | [] => []
  | item :: items => item.stringify :: stringifyItems items

def stringifyFields : List (QueryText × Json) → List QueryText
  | [] => []
  | (key, value) :: fields => (quote key ++ ':' :: value.stringify) :: stringifyFields fields

end

/-- `Object.entries(variables)`: names with their values. -/
structure Variables where
  entries : OrderedMap QueryText Json
  names : ∀ name ∈ entries.map Prod.fst, isName name = true
  nodup : (entries.map Prod.fst).Nodup

/-- A replacement text with its patterns: `$$`, `$&`, what is before the match and what is behind it. -/
def expand (before matched after : QueryText) : QueryText → QueryText
  | '$' :: '$' :: s => '$' :: expand before matched after s
  | '$' :: '&' :: s => matched ++ expand before matched after s
  | '$' :: '`' :: s => before ++ expand before matched after s
  | '$' :: '\'' :: s => after ++ expand before matched after s
  | c :: s => c :: expand before matched after s
  | [] => []

/-- `queryStr.replace(new RegExp('\\$' + key, 'g'), text)`, with what is before and how much of a match is still to be
passed over. -/
def replaceVariable (key text : QueryText) : QueryText → Nat → QueryText → QueryText
  | _, _, [] => []
  | before, n + 1, c :: s => replaceVariable key text (before ++ [c]) n s
  | before, 0, c :: s =>
    if ('$' :: key).isPrefixOf (c :: s) then
      expand before ('$' :: key) (s.drop key.length) text ++ replaceVariable key text (before ++ [c]) key.length s
    else c :: replaceVariable key text (before ++ [c]) 0 s

/-- The variables are replaced one after the other. -/
def substitute : OrderedMap QueryText Json → QueryText → QueryText
  | [], query => query
  | (key, value) :: entries, query => substitute entries (replaceVariable key value.stringify [] 0 query)

/-! ## Comments and blocks -/

/-- `query.replace(/#[^\n]*/g, '')`; the flag says that a comment is being passed over. -/
def stripComments : Bool → QueryText → QueryText
  | _, [] => []
  | true, c :: s => if c = '\n' then '\n' :: stripComments false s else stripComments true s
  | false, c :: s => if c = '#' then stripComments true s else c :: stripComments false s

/-- What stands before the brace that closes, with `depth` more braces to close first, and what stands behind. -/
def block : Nat → QueryText → Option (QueryText × QueryText)
  | _, [] => none
  | depth, '{' :: s => (block (depth + 1) s).map fun r => ('{' :: r.1, r.2)
  | 0, '}' :: s => some ([], s)
  | depth + 1, '}' :: s => (block depth s).map fun r => ('}' :: r.1, r.2)
  | depth, c :: s => (block depth s).map fun r => (c :: r.1, r.2)

/-! ## Arguments -/

/-- `(?:[^"\\]|\\.)*"`: up to the quote that closes. -/
def stringEnd : QueryText → Option QueryText
  | [] => none
  | '"' :: _ => some ['"']
  | '\\' :: c :: s => if isLineTerminator c then none else (stringEnd s).map fun r => '\\' :: c :: r
  | '\\' :: [] => none
  | c :: s => (stringEnd s).map (c :: ·)

/-- `\d+(?:\.\d+)?` -/
def digitsAt : Option QueryText :=
  let whole := s.takeWhile Char.isDigit
  if whole = [] then none
  else
    match s.dropWhile Char.isDigit with
    | '.' :: r =>
      let fraction := r.takeWhile Char.isDigit
      if fraction = [] then some whole else some (whole ++ '.' :: fraction)
    | _ => some whole

/-- `-?\d+(?:\.\d+)?` -/
def numberAt : QueryText → Option QueryText
  | '-' :: s => (digitsAt s).map ('-' :: ·)
  | s => digitsAt s

/-- `true|false|null` -/
def constantAt : Option QueryText :=
  [['t', 'r', 'u', 'e'], ['f', 'a', 'l', 's', 'e'], ['n', 'u', 'l', 'l']].find? (·.isPrefixOf s)

/-- `\$?\w+` -/
def wordAt : QueryText → Option QueryText
  | '$' :: s => if s.takeWhile isWord = [] then none else some ('$' :: s.takeWhile isWord)
  | s => if s.takeWhile isWord = [] then none else some (s.takeWhile isWord)

/-- The value at the head of a text. -/
def valueAt : QueryText → Option QueryText
  | '"' :: s => (stringEnd s).map ('"' :: ·)
  | s => ((numberAt s).or (constantAt s)).or (wordAt s)

/-- A match of `argRe` at the head of a text: `(\w+)\s*:\s*(value)`. -/
def argAt : Option ((QueryText × QueryText) × Nat) :=
  let key := s.takeWhile isWord
  if key = [] then none
  else
    match (s.dropWhile isWord).dropWhile isSpace with
    | ':' :: r =>
      let value := r.dropWhile isSpace
      (valueAt value).map fun raw => ((key, raw), s.length - value.length + raw.length - 1)
    | _ => none

def protoName : QueryText := ['_', '_', 'p', 'r', 'o', 't', 'o', '_', '_']

/-- `args[am[1]] = …`: an object has no property of its own for the name of the prototype. -/
def collectArgs (found : List (QueryText × QueryText)) : OrderedMap QueryText QueryText :=
  found.foldl (fun args arg => if arg.1 = protoName then args else args.set arg.1 arg.2) []

/-- `raw.slice(1, -1).replace(/\\"/g, '"')` -/
def unescapeQuotes : QueryText → QueryText
  | '\\' :: '"' :: s => '"' :: unescapeQuotes s
  | c :: s => c :: unescapeQuotes s
  | [] => []

def parseArgValue (raw : QueryText) : ArgValue :=
  if raw = ['t', 'r', 'u', 'e'] then .bool true
  else if raw = ['f', 'a', 'l', 's', 'e'] then .bool false
  else if raw = ['n', 'u', 'l', 'l'] then .null
  else if raw.head? = some '"' then .string (String.ofList (unescapeQuotes raw.tail.dropLast))
  else if numberAt raw = some raw ∨ raw = ['I', 'n', 'f', 'i', 'n', 'i', 't', 'y'] then .number (String.ofList raw)
  else .string (String.ofList raw)

/-! ## Selection sets -/

/-- A field with its arguments as they are written. -/
inductive ParsedField where
  | mk (name : QueryText) (fieldAlias : Option QueryText) (args : OrderedMap QueryText QueryText) (selectionSet : Option (List ParsedField))

/-- An identifier, or the name of a field behind its alias. -/
def readName : Option (QueryText × QueryText) :=
  if s.head?.any isNameStart then some (s.takeWhile isWord, s.dropWhile isWord) else none

/-- The alias, where a colon is behind the first name, and the name. -/
def readAlias (name s : QueryText) : QueryText × Option QueryText × QueryText :=
  match s.dropWhile (· == ' ') with
  | ':' :: r =>
    match readName (r.dropWhile isSpace) with
    | some (fieldName, r) => (fieldName, some name, r)
    | none => (name, some name, r.dropWhile isSpace)
  | r => (name, none, r)

/-- The arguments, where a parenthesis is there and closed. -/
def readArgs : OrderedMap QueryText QueryText × QueryText :=
  match s with
  | '(' :: r =>
    if ')' ∈ r then (collectArgs (found argAt (r.takeWhile (· != ')'))), (r.dropWhile (· != ')')).tail) else ([], s)
  | _ => ([], s)

/-- `parseSelectionSet`, with a bound on its steps. -/
def parseFields : Nat → QueryText → List ParsedField
  | 0, _ => []
  | n + 1, s =>
    let body := s.dropWhile isSpace
    match readName body with
    | none => if body = [] then [] else parseFields n body.tail
    | some (first, r) =>
      let (name, fieldAlias, r) := readAlias first r
      let (args, r) := readArgs (r.dropWhile isSpace)
      match r.dropWhile isSpace with
      | '{' :: r =>
        let (inner, rest) := (block 0 r).getD ([], [])
        .mk name fieldAlias args (some (parseFields n inner)) :: parseFields n rest
      | r => .mk name fieldAlias args none :: parseFields n r

def parseSelectionSet (body : QueryText) : List ParsedField := parseFields body.length body

/-! ## Operations -/

def keywords : List (QueryText × Operation) :=
  [(['q', 'u', 'e', 'r', 'y'], .query), (['m', 'u', 't', 'a', 't', 'i', 'o', 'n'], .mutation),
    (['s', 'u', 'b', 's', 'c', 'r', 'i', 'p', 't', 'i', 'o', 'n'], .subscription)]

/-- `query|mutation|subscription`, without regard to case, with its length. -/
def keywordAt : Option (Operation × Nat) :=
  (keywords.find? fun k => k.1.isPrefixOf (s.map Char.toLower)).map fun k => (k.2, k.1.length)

/-- `(?:\([^)]*\))?` -/
def passParens : QueryText :=
  match s with
  | '(' :: r => if ')' ∈ r then (r.dropWhile (· != ')')).tail else s
  | _ => s

/-- `opRe` at the head of a text: the operation, its name and the text behind the brace. -/
def opAt : Option (Operation × QueryText × QueryText) :=
  match keywordAt s with
  | none => none
  | some (operation, n) =>
    let r := (s.drop n).dropWhile isSpace
    match (passParens ((r.dropWhile isWord).dropWhile isSpace)).dropWhile isSpace with
    | '{' :: rest => some (operation, r.takeWhile isWord, rest)
    | _ => none

/-- The matches of `opRe`: `before` says that a word character is before, the number how much of a match is still to
be passed over. -/
def operations : Bool → Nat → QueryText → List (Operation × QueryText × QueryText)
  | _, _, [] => []
  | _, n + 1, c :: s => operations (isWord c) n s
  | before, 0, c :: s =>
    match (if before then none else opAt (c :: s)) with
    | some m => m :: operations (isWord c) (s.length - m.2.2.length) s
    | none => operations (isWord c) 0 s

structure ParsedOperation where
  operation : Operation
  name : Option QueryText
  fields : List ParsedField

/-- The operation whose selection set starts behind a brace. -/
def parsedOperation (operation : Operation) (name rest : QueryText) : ParsedOperation :=
  { operation, name := if name = [] then none else some name,
    fields := parseSelectionSet ((block 0 rest).elim [] (·.1)) }

def parseDocument (query : QueryText) : List ParsedOperation :=
  let src := stripComments false query
  match operations false 0 src with
  | [] =>
    match src.dropWhile isSpace with
    | '{' :: rest => [parsedOperation .query [] rest]
    | _ => []
  | ms => ms.map fun m => parsedOperation m.1 m.2.1 m.2.2

/-! ## Preparing a query -/

mutual

/-- The field with the values of its arguments. -/
def ParsedField.node : ParsedField → FieldNode
  | .mk name fieldAlias args selectionSet =>
    .mk (String.ofList name) (fieldAlias.map String.ofList)
      (args.map fun arg => (String.ofList arg.1, parseArgValue arg.2)) (nestedNodes selectionSet)

def nestedNodes : Option (List ParsedField) → Option (List FieldNode)
  | none => none
  | some fields => some (nodes fields)

def nodes : List ParsedField → List FieldNode
  | [] => []
  | field :: fields => field.node :: nodes fields

end

def ParsedOperation.operationDef (op : ParsedOperation) : OperationDef :=
  { operation := op.operation, name := op.name.map String.ofList, selectionSet := nodes op.fields }

/-- `prepare` -/
def GraphQlEngineOptions.prepareQuery (opts : GraphQlEngineOptions) (query : QueryText) (vars : Variables) : Except String OperationDef :=
  opts.prepare ((parseDocument (substitute vars.entries query)).map (·.operationDef))

end StreetJS.GraphQl
