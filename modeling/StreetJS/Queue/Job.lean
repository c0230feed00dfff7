/-
The data a queue driver stores and returns (`queue/src/job.ts`, `queue/src/drivers/driver.ts`): job
envelopes, reservations and dead-letter records, generic in the payload.
-/
import Mathlib.Data.Rat.Init

namespace StreetJS.Queue

/-- Milliseconds, or a human string such as "5s". -/
inductive Duration where
  | ms (n : ℚ)
  | text (s : String)

inductive BackoffStrategy where
  | fixed
  | exponential

structure BackoffPolicy where
  strategy : BackoffStrategy
  delay : Duration
  multiplier : Option ℚ := none
  maxDelay : Option Duration := none
  jitter : Option ℚ := none

structure SerializedError where
  name : String
  message : String
  stack : Option String := none
deriving DecidableEq

/-- The unit a driver stores and reserves. The consumed attempts are kept by the driver: the object
is shared by reference, so every reservation of a job sees the count of the latest one. -/
structure JobEnvelope (P : Type) where
  id : String
  type : String
  payload : P
  priority : Int := 0
  maxAttempts : Nat := 1
  backoff : Option BackoffPolicy := none
  enqueuedAt : Int := 0
  seq : Nat := 0

/-- A leased reservation; `token` validates its ownership. -/
structure Reservation (P : Type) where
  envelope : JobEnvelope P
  token : Nat
  queue : String
  leaseExpiresAt : Int

structure DeadLetterRecord (P : Type) where
  id : String
  type : String
  queue : String
  payload : P
  attempts : Nat
  maxAttempts : Nat
  backoff : Option BackoffPolicy
  error : SerializedError
  enqueuedAt : Int
  failedAt : Int

end StreetJS.Queue
