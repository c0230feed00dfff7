/-
The event store (`core/src/microservices/event-store.ts`): appends that share a table, statement by
statement. A statement either takes effect alone or fails without one.
-/
import StreetJS.Lib.Runs
import StreetJS.Lib.ListSet
import Mathlib.Tactic

namespace StreetJS.Microservices

variable {J : Type}

/-! ## The table -/

structure DomainEvent (J : Type) where
  aggregateId : String
  version : Int
  type : String
  payload : J

/-- An event as it is handed to `append`; one that has no version gets the next number. -/
structure NewEvent (J : Type) where
  version : Option Int := none
  type : String
  payload : J

/-- The rows of `street_events`, each with the append that has inserted it, oldest first. -/
abbrev EventTable (J : Type) := List (Nat × DomainEvent J)

variable (table : EventTable J)

variable (aggregateId : String)

def EventTable.versions : List Int :=
  (table.filter fun row => row.2.aggregateId = aggregateId).map (·.2.version)

/-- `COALESCE(MAX(version), -1)`. -/
def EventTable.currentVersion : Int :=
  (table.versions aggregateId).max?.getD (-1)

/-- `UNIQUE (aggregate_id, version)` refuses a second row. -/
def EventTable.taken (version : Int) : Bool :=
  decide (version ∈ table.versions aggregateId)

/-- What an append has stored. -/
def EventTable.writtenBy (i : Nat) : List (DomainEvent J) :=
  (table.filter fun row => row.1 = i).map (·.2)

/-- The events of an aggregate from a version on, by version. -/
def EventTable.load (fromVersion : Int := 0) : List (DomainEvent J) :=
  ((table.map (·.2)).filter fun e => e.aggregateId = aggregateId ∧ fromVersion ≤ e.version).mergeSort fun a b => a.version ≤ b.version

/-! ## Appends -/

def conflictMessage (expectedVersion currentVersion : Int) : String :=
  "EventStore: optimistic concurrency conflict for aggregate \"" ++ aggregateId ++ "\". Expected version " ++
    toString expectedVersion ++ " but found " ++ toString currentVersion ++ "."

inductive AppendError where
  | conflict (message : String)
  /-- The error of a statement. -/
  | query

/-- Where an append stands. -/
inductive AppendState (J : Type) where
  | checking
  | inserting (nextVersion : Int) (left : List (NewEvent J))
  | resolved
  | rejected (error : AppendError)

/-- A call of `append`, with the current version its check has found and the one its first event has
come on. -/
structure Append (J : Type) where
  aggregateId : String
  events : List (NewEvent J)
  expectedVersion : Option Int
  state : AppendState J
  found : Option Int := none
  arrived : Option Int := none

structure EventStore (J : Type) where
  table : EventTable J := []
  appends : List (Append J) := []

inductive AppendEvent (J : Type) where
  | append (aggregateId : String) (events : List (NewEvent J)) (expectedVersion : Option Int)
  | check (i : Nat) (fails : Bool)
  | insert (i : Nat) (fails : Bool)

namespace EventStore

variable (s : EventStore J)

def put (i : Nat) (a : Append J) : EventStore J := { s with appends := s.appends.set i a }

def append (aggregateId : String) (events : List (NewEvent J)) (expectedVersion : Option Int) : EventStore J :=
  let state := if events.isEmpty then .resolved else .checking
  { s with appends := s.appends ++ [{ aggregateId, events, expectedVersion, state }] }

def check (i : Nat) (a : Append J) : EventStore J :=
  let currentVersion := s.table.currentVersion a.aggregateId
  match a.expectedVersion with
  | some expected =>
    if currentVersion ≠ expected then
      s.put i { a with
        state := .rejected (.conflict (conflictMessage a.aggregateId expected currentVersion))
        found := some currentVersion }
    else s.put i { a with state := .inserting (currentVersion + 1) a.events, found := some currentVersion }
  | none => s.put i { a with state := .inserting (currentVersion + 1) a.events, found := some currentVersion }

def insert (i : Nat) (a : Append J) (nextVersion : Int) (event : NewEvent J) (left : List (NewEvent J)) : EventStore J :=
  let version := event.version.getD nextVersion
  if s.table.taken a.aggregateId version then s.put i { a with state := .rejected .query }
  else
    let a := { a with
      state := if left.isEmpty then .resolved else .inserting (nextVersion + 1) left
      arrived := some (a.arrived.getD (s.table.currentVersion a.aggregateId)) }
    { s.put i a with
      table := s.table ++ [(i, { aggregateId := a.aggregateId, version, type := event.type, payload := event.payload })] }

/-- A statement that is not the next one of its append does not come. -/
def step (s : EventStore J) : AppendEvent J → EventStore J
  | .append aggregateId events expectedVersion => s.append aggregateId events expectedVersion
  | .check i fails =>
    match s.appends[i]? with
    | some a => match a.state with
      | .checking => if fails then s.put i { a with state := .rejected .query } else s.check i a
      | _ => s
    | none => s
  | .insert i fails =>
    match s.appends[i]? with
    | some a => match a.state with
      | .inserting nextVersion (event :: left) =>
        if fails then s.put i { a with state := .rejected .query } else s.insert i a nextVersion event left
      | _ => s
    | none => s

end EventStore

/-! ## What a step does -/

/-- The events of an append under the versions they get from `start` on. -/
def numbered (aggregateId : String) (start : Int) : List (NewEvent J) → List (DomainEvent J)
  | [] => []
  | e :: events =>
    { aggregateId, version := e.version.getD start, type := e.type, payload := e.payload } :: numbered aggregateId (start + 1) events

/-- The step of an append that is there: it ends, it has found the version, or it stores its next event. -/
inductive StepCase (s : EventStore J) : AppendEvent J → EventStore J → Prop where
  | same (ev : AppendEvent J) : StepCase s ev s
  | called (aggregateId : String) (events : List (NewEvent J)) (expectedVersion : Option Int) (state : AppendState J)
      (hs : events = [] ∧ state = .resolved ∨ events ≠ [] ∧ state = .checking) :
      StepCase s (.append aggregateId events expectedVersion)
        { s with appends := s.appends ++ [{ aggregateId, events, expectedVersion, state }] }
  | rejected (ev : AppendEvent J) (i : Nat) (a : Append J) (error : AppendError) (found : Option Int)
      (hi : s.appends[i]? = some a) (hf : found = a.found ∨ a.state = .checking) :
      StepCase s ev (s.put i { a with state := .rejected error, found })
  | checked (i : Nat) (a : Append J) (hi : s.appends[i]? = some a) (hs : a.state = .checking)
      (hv : ∀ v, a.expectedVersion = some v → s.table.currentVersion a.aggregateId = v) :
      StepCase s (.check i false) (s.put i { a with
          state := .inserting (s.table.currentVersion a.aggregateId + 1) a.events
          found := some (s.table.currentVersion a.aggregateId) })
  | stored (i : Nat) (a : Append J) (nextVersion : Int) (event : NewEvent J) (left : List (NewEvent J))
      (hi : s.appends[i]? = some a) (hs : a.state = .inserting nextVersion (event :: left))
      (hfree : event.version.getD nextVersion ∉ s.table.versions a.aggregateId) :
      StepCase s (.insert i false) (s.insert i a nextVersion event left)

theorem step_cases (s : EventStore J) (ev : AppendEvent J) : StepCase s ev (s.step ev) := by
  cases ev with
  | append aggregateId events expectedVersion =>
    cases events with
    | nil => exact .called _ _ _ _ (.inl ⟨rfl, rfl⟩)
    | cons e events => exact .called _ _ _ _ (.inr ⟨List.cons_ne_nil e events, rfl⟩)
  | check i fails =>
    simp only [EventStore.step]
    cases hi : s.appends[i]? with
    | none => exact .same _
    | some a =>
      dsimp only
      cases hs : a.state with
      | checking =>
        cases fails with
        | true => exact .rejected _ i a _ a.found hi (.inl rfl)
        | false =>
          simp only [Bool.false_eq_true, if_false, EventStore.check]
          split
          · rename_i expected hv
            split
            · exact .rejected _ i a _ _ hi (.inr hs)
            · rename_i heq
              refine .checked i a hi hs fun v hv' => ?_
              rw [hv] at hv'
              cases hv'
              exact not_not.1 heq
          · rename_i hv
            refine .checked i a hi hs fun v hv' => ?_
            rw [hv] at hv'
            cases hv'
      | _ => exact .same _
  | insert i fails =>
    simp only [EventStore.step]
    cases hi : s.appends[i]? with
    | none => exact .same _
    | some a =>
      dsimp only
      cases hs : a.state with
      | inserting nextVersion left =>
        cases left with
        | nil => exact .same _
        | cons event left =>
          cases fails with
          | true => exact .rejected _ i a _ a.found hi (.inl rfl)
          | false =>
            simp only [Bool.false_eq_true, if_false]
            by_cases ht : s.table.taken a.aggregateId (event.version.getD nextVersion) = true
            · have he : s.insert i a nextVersion event left = s.put i { a with state := .rejected .query } := by
                simp [EventStore.insert, ht]
              rw [he]
              exact .rejected _ i a _ a.found hi (.inl rfl)
            · exact .stored i a nextVersion event left hi hs (by simpa [EventTable.taken] using ht)
      | _ => exact .same _

end StreetJS.Microservices
