/-
The retry engine (`queue/src/retry.ts`), with the durations it reads through `parseWindow`
(`ratelimit/src/ratelimit.ts`): whether a failed envelope is tried again, and when.
-/
import StreetJS.Queue.Job
import Mathlib.Algebra.Order.Floor.Ring
import Mathlib.Data.Rat.Floor

namespace StreetJS.Queue

/-! ## Durations -/

/-- What `String.prototype.trim` removes. -/
def isTrimmed (c : Char) : Bool :=
  c.val ∈ [0x9, 0xa, 0xb, 0xc, 0xd, 0x20, 0xa0, 0x1680, 0x2028, 0x2029, 0x202f, 0x205f, 0x3000, 0xfeff] ∨ (0x2000 ≤ c.val ∧ c.val ≤ 0x200a)

def trim (s : List Char) : List Char := ((s.dropWhile isTrimmed).reverse.dropWhile isTrimmed).reverse

/-- `WINDOW_UNIT_MS`; without a unit the number is in milliseconds. -/
def windowUnitMs (unit : List Char) : Option ℚ :=
  match String.ofList (unit.map Char.toLower) with
  | "" => some 1
  | "ms" => some 1
  | "s" => some 1000
  | "m" => some 60000
  | "h" => some 3600000
  | "d" => some 86400000
  | _ => none

/-- The number and the unit that `WINDOW_RE` captures. -/
def windowParts (s : List Char) : Option (ℚ × ℚ) :=
  let whole := s.takeWhile Char.isDigit
  if whole = [] then none
  else
    let (fraction, unit) : List Char × List Char :=
      match s.dropWhile Char.isDigit with
      | '.' :: rest =>
        if rest.takeWhile Char.isDigit = [] then ([], '.' :: rest)
        else (rest.takeWhile Char.isDigit, rest.dropWhile Char.isDigit)
      | rest => ([], rest)
    (windowUnitMs unit).map fun ms =>
      ((Nat.ofDigitChars 10 (whole ++ fraction) 0 : ℚ) / 10 ^ fraction.length, ms)

/-- `parseWindow` of a string; what is not a finite double is refused. -/
def parseWindow (window : String) : Except SerializedError ℚ :=
  let invalid : SerializedError := { name := "Error", message := "Invalid rate-limit window: \"" ++ window ++ "\"" }
  match windowParts (trim window.toList) with
  | none => .error invalid
  | some (value, unit) =>
    let ms := value * unit
    if ms ≤ 0 ∨ 2 ^ 1024 ≤ ms then .error invalid else .ok (⌊ms⌋ : ℚ)

def parseDuration : Duration → Except SerializedError ℚ
  | .ms n => .ok n
  | .text s => parseWindow s

/-! ## The engine -/

inductive RetryDecision where
  | retry (runAt : ℚ)
  | deadLetter

/-- `DEFAULT_BACKOFF`. -/
def defaultBackoff : BackoffPolicy :=
  { strategy := .exponential, delay := .ms 1000, multiplier := some 2, maxDelay := some (.ms 30000) }

def applyJitter (capped : ℚ) (jitter : Option ℚ) (rng : ℚ) : ℚ :=
  let fraction := jitter.getD 0
  let factor := 1 + (2 * rng - 1) * fraction
  capped * factor

def computeBackoffDelay (attempts : Nat) (backoff : BackoffPolicy) (rng : ℚ) : Except SerializedError ℚ := do
  let base ← parseDuration backoff.delay
  let raw := match backoff.strategy with
    | .exponential => base * (backoff.multiplier.getD 2) ^ ((attempts : Int) - 1)
    | .fixed => base
  match backoff.maxDelay with
  | none => return applyJitter raw backoff.jitter rng
  | some maxDelay => return applyJitter (min raw (← parseDuration maxDelay)) backoff.jitter rng

/-- The backoff of the dispatch, of the envelope, of the engine, or the built-in one. -/
def resolveBackoff (options envelope engine : Option BackoffPolicy) : BackoffPolicy :=
  ((options.orElse fun _ => envelope).orElse fun _ => engine).getD defaultBackoff

/-- `onFailure`, at the clock reading `now`. -/
def onFailure {P : Type} (envelope : JobEnvelope P) (attempts : Nat) (options engine : Option BackoffPolicy)
    (now : Int) (rng : ℚ) : Except SerializedError RetryDecision :=
  if envelope.maxAttempts ≤ attempts then .ok .deadLetter
  else do
    let delay ← computeBackoffDelay attempts (resolveBackoff options envelope.backoff engine) rng
    return .retry (now + delay)

end StreetJS.Queue
