/-
The replies of Redis (`core/src/transports/resp.ts`, `RespParser`) and what the cluster client makes of them
(`core/src/transports/cluster.ts`): errors and data become strings of one type, and a string is parsed as a redirect.
-/
import Mathlib.Data.List.Basic
import Mathlib.Data.List.TakeWhile
import Mathlib.Tactic.Ring

namespace StreetJS.Redis

/-- A string, by its code points; on the wire it is UTF-8. -/
abbrev Text := List Char

/-! ## Characters -/

/-- `\s`, which is also what `trim` takes. -/
def isSpace (c : Char) : Bool :=
  (9 ≤ c.toNat && c.toNat ≤ 13) || (0x2000 ≤ c.toNat && c.toNat ≤ 0x200a) ||
    [0x20, 0xa0, 0x1680, 0x2028, 0x2029, 0x202f, 0x205f, 0x3000, 0xfeff].contains c.toNat

/-- What `.` does not match. -/
def isLineTerminator (c : Char) : Bool := [0xa, 0xd, 0x2028, 0x2029].contains c.toNat

def trim (s : Text) : Text := ((s.dropWhile isSpace).reverse.dropWhile isSpace).reverse

/-! ## `Number` -/

/-- The value of a digit, in hexadecimal. -/
def digitValue (c : Char) : Option Nat :=
  if c.isDigit then some (c.toNat - 48)
  else if 'a' ≤ c ∧ c ≤ 'f' then some (c.toNat - 87)
  else if 'A' ≤ c ∧ c ≤ 'F' then some (c.toNat - 55)
  else none

def radixLiteral (base : Nat) (ds : Text) : Option Int :=
  if ds = [] then none
  else ds.foldl (fun v c => do
    let v ← v
    let d ← digitValue c
    if d < base then some (v * base + (d : Int)) else none) (some 0)

/-- The exponent of a decimal literal. -/
def exponent : Text → Option Int
  | [] => some 0
  | e :: s =>
    let ds := if s.head? = some '-' ∨ s.head? = some '+' then s.drop 1 else s
    if (e = 'e' ∨ e = 'E') ∧ ds ≠ [] ∧ ds.all Char.isDigit then
      some (if s.head? = some '-' then -(Nat.ofDigitChars 10 ds 0 : Int) else Nat.ofDigitChars 10 ds 0)
    else none

/-- A decimal literal without a sign, where its value is an integer. -/
def decimalLiteral (s : Text) : Option Int :=
  let whole := s.takeWhile Char.isDigit
  let rest := s.dropWhile Char.isDigit
  let fraction := if rest.head? = some '.' then (rest.drop 1).takeWhile Char.isDigit else []
  let rest := if rest.head? = some '.' then (rest.drop 1).dropWhile Char.isDigit else rest
  if whole ++ fraction = [] then none
  else
    (exponent rest).bind fun e =>
      let mantissa := Nat.ofDigitChars 10 (whole ++ fraction) 0
      let scale := e - fraction.length
      if 0 ≤ scale then some (mantissa * 10 ^ scale.toNat)
      else if mantissa % 10 ^ (-scale).toNat = 0 then some (mantissa / 10 ^ (-scale).toNat : Nat)
      else none

/-- `Number`, where it is an integer; integers are exact here. -/
def number (s : Text) : Option Int :=
  match trim s with
  | [] => some 0
  | '-' :: ds => (decimalLiteral ds).map Int.neg
  | '+' :: ds => decimalLiteral ds
  | '0' :: 'x' :: ds | '0' :: 'X' :: ds => radixLiteral 16 ds
  | '0' :: 'o' :: ds | '0' :: 'O' :: ds => radixLiteral 8 ds
  | '0' :: 'b' :: ds | '0' :: 'B' :: ds => radixLiteral 2 ds
  | ds => decimalLiteral ds

/-! ## `RespParser` -/

inductive RespValue where
  | text (s : Text)
  | number (n : Int)
  | null
  | array (vs : List RespValue)

/-! ## Redirects -/

structure ClusterNode where
  host : Text
  port : Int
deriving DecidableEq

inductive RedirectKind where
  | moved
  | ask
deriving DecidableEq

structure Redirect where
  kind : RedirectKind
  slot : Int
  node : ClusterNode

/-- The host and the port, which is behind the last colon. -/
def parseEndpoint (kind : RedirectKind) (slot : Int) (endpoint : Text) : Option Redirect :=
  let port := (endpoint.reverse.takeWhile (· ≠ ':')).reverse
  let host := ((endpoint.reverse.dropWhile (· ≠ ':')).drop 1).reverse
  if endpoint.contains ':' ∧ host ≠ [] then (number port).map fun port => { kind, slot, node := { host, port } } else none

/-- `\s+(\d+)\s+(.+)$` -/
def parseTarget (kind : RedirectKind) (s : Text) : Option Redirect :=
  let digits := (s.dropWhile isSpace).takeWhile Char.isDigit
  let rest := (s.dropWhile isSpace).dropWhile Char.isDigit
  let endpoint := rest.dropWhile isSpace
  if s.takeWhile isSpace ≠ [] ∧ digits ≠ [] ∧ rest.takeWhile isSpace ≠ [] ∧ endpoint ≠ [] ∧ !endpoint.any isLineTerminator then
    (number digits).bind fun slot => parseEndpoint kind slot endpoint
  else none

/-- `parseRedirect` -/
def parseRedirect (message : Text) : Option Redirect :=
  match trim message with
  | 'M' :: 'O' :: 'V' :: 'E' :: 'D' :: s => parseTarget .moved s
  | 'A' :: 'S' :: 'K' :: s => parseTarget .ask s
  | _ => none

/-- `isErr` -/
def isErr : Text → Bool
  | 'E' :: 'R' :: 'R' :: ':' :: _ => true
  | _ => false

/-- `redirectOf`: a string that begins with `ERR:` is parsed behind it. -/
def redirectOf : RespValue → Option Redirect
  | .text ('E' :: 'R' :: 'R' :: ':' :: message) => parseRedirect message
  | .text message => parseRedirect message
  | _ => none

end StreetJS.Redis
