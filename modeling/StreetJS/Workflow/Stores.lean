/-
The two workflow stores: `MemoryWorkflowStore` (`workflow/src/store.ts`) keeps structured clones of
the runs in a map, `RedisWorkflowStore` (`workflow/src/redis/index.ts`) keeps their JSON texts in the
strings of a Redis client and their ids in two of its sets. The keys of a run, of its records and of
its events are fixed and none is the tag, so that `JSON.stringify` and the reviver go property by
property there; of the parts of a run the tag can only be a key of the state.
-/
import StreetJS.Workflow.Observation
import StreetJS.Workflow.Json

namespace StreetJS.Workflow

open StreetJS.Lib List OrderedMap

/-! ## Snapshots of other values -/

section

variable {V W : Type} (value : V → W) (property : Option V → Option W)

def HistoryEvent.mapValues : HistoryEvent V → HistoryEvent W
  | .runStarted at_ input => .runStarted at_ (value input)
  | .runStatus at_ from_ to_ => .runStatus at_ from_ to_
  | .activityStarted at_ seq attempt metadata => .activityStarted at_ seq attempt (property metadata)
  | .activityCompleted at_ seq result => .activityCompleted at_ seq (value result)
  | .activityFailed at_ seq attempt error => .activityFailed at_ seq attempt error
  | .retryScheduled at_ seq attempt delayMs nextAttemptAt => .retryScheduled at_ seq attempt delayMs nextAttemptAt
  | .compensationStarted at_ seq => .compensationStarted at_ seq
  | .compensationCompleted at_ seq => .compensationCompleted at_ seq
  | .compensationFailed at_ seq error => .compensationFailed at_ seq error
  | .signalReceived at_ name payload => .signalReceived at_ name (value payload)
  | .timerSet at_ seq expiresAt => .timerSet at_ seq expiresAt
  | .timerFired at_ seq => .timerFired at_ seq
  | .publishFailed at_ event error => .publishFailed at_ event error

def CommandRecord.mapValues (r : CommandRecord V) : CommandRecord W :=
  { seq := r.seq, kind := r.kind, status := r.status, attempts := r.attempts, result := property r.result,
    error := r.error, metadata := property r.metadata, compensated := r.compensated,
    timerExpiresAt := r.timerExpiresAt, waitingFor := r.waitingFor, startedAt := r.startedAt,
    completedAt := r.completedAt }

def RecordedSignal.mapValues (s : RecordedSignal V) : RecordedSignal W :=
  { name := s.name, payload := value s.payload, receivedAt := s.receivedAt, consumed := s.consumed }

/-- A run with its values changed by `value`, and its optional properties by `property`. -/
def WorkflowRun.mapValues (run : WorkflowRun V) : WorkflowRun W :=
  { runId := run.runId, definition := run.definition, status := run.status, input := value run.input,
    output := property run.output, commands := run.commands.map (·.mapValues property), nextSeq := run.nextSeq,
    state := run.state.map fun e => (e.1, value e.2), pendingSignals := run.pendingSignals.map (·.mapValues value),
    history := run.history.map (·.mapValues value property), createdAt := run.createdAt, updatedAt := run.updatedAt }

end

/-- `structuredClone` of a run. -/
def cloneRun (run : WorkflowRun Value) : WorkflowRun Value := run.mapValues Value.clone (Option.map Value.clone)

/-- `JSON.stringify` of a run; a property without a text is left out. -/
def serializeRun (run : WorkflowRun Value) : WorkflowRun (Option Json) :=
  run.mapValues Value.stringify (Option.map Value.stringify)

/-- What is read of a property that may have been left out. -/
def parsed (json : Option Json) : Value := (json.map Json.revive).getD .undefined

/-- The own properties of a byte array. -/
def bytesState (content : List UInt8) : OrderedMap String Value :=
  mergeState [] (content.zipIdx.map fun e => (toString e.2, .num e.1.toNat))

/-- The reviver on the state record: with the tag among its keys it becomes a byte array. -/
def reviveState (fields : OrderedMap String (Option Json)) : OrderedMap String Value :=
  let entries := fields.filterMap fun e => e.2.map fun json => (e.1, json.revive)
  match taggedBytes entries with
  | some content => bytesState content
  | none => entries

/-- `JSON.parse` of a run. -/
def deserializeRun (json : WorkflowRun (Option Json)) : WorkflowRun Value :=
  { json.mapValues parsed (fun p => p.join.map Json.revive) with state := reviveState json.state }

/-! ## The memory store -/

/-- The `PersistenceError` of an operation. -/
structure PersistenceError where
  message : String
  operation : String
  runId : String

/-- The rejection of an append to a run that is not there. -/
def noSuchRun (runId : String) : PersistenceError :=
  { message := "Cannot append history to workflow run \"" ++ runId ++ "\": no such run is persisted."
    operation := "append", runId }

structure MemoryWorkflowStore where
  runs : OrderedMap String (WorkflowRun Value) := []

namespace MemoryWorkflowStore

def save (s : MemoryWorkflowStore) (run : WorkflowRun Value) : MemoryWorkflowStore :=
  let snapshot := cloneRun run
  { runs := s.runs.set snapshot.runId snapshot }

def load (s : MemoryWorkflowStore) (runId : String) : Option (WorkflowRun Value) :=
  (s.runs.get runId).map cloneRun

def append (s : MemoryWorkflowStore) (runId : String) (event : HistoryEvent Value) : Except PersistenceError MemoryWorkflowStore :=
  match s.runs.get runId with
  | none => .error (noSuchRun runId)
  | some stored =>
    .ok { runs := s.runs.set runId (cloneRun { stored with history := stored.history ++ [event] }) }

def listIncomplete (s : MemoryWorkflowStore) : List (WorkflowRun Value) :=
  ((s.runs.map Prod.snd).filter fun run => run.status.terminal = false).map cloneRun

end MemoryWorkflowStore

/-! ## The Redis store -/

/-- The strings and the sets of a Redis client. -/
structure RedisLike where
  strings : OrderedMap String (WorkflowRun (Option Json)) := []
  sets : OrderedMap String (List String) := []

namespace RedisLike

def get (client : RedisLike) (key : String) : Option (WorkflowRun (Option Json)) := client.strings.get key

def set (client : RedisLike) (key : String) (value : WorkflowRun (Option Json)) : RedisLike :=
  { client with strings := client.strings.set key value }

def sMembers (client : RedisLike) (key : String) : List String := (client.sets.get key).getD []

def sAdd (client : RedisLike) (key member : String) : RedisLike :=
  if member ∈ client.sMembers key then client
  else { client with sets := client.sets.set key (client.sMembers key ++ [member]) }

def sRem (client : RedisLike) (key member : String) : RedisLike :=
  { client with sets := client.sets.set key ((client.sMembers key).filter (· ≠ member)) }

end RedisLike

structure RedisWorkflowStore where
  client : RedisLike := {}
  keyPrefix : String := "workflow:"

namespace RedisWorkflowStore

def runKey (s : RedisWorkflowStore) (runId : String) : String := s.keyPrefix ++ ("run:" ++ runId)

def indexKey (s : RedisWorkflowStore) : String := s.keyPrefix ++ "index"

def incompleteKey (s : RedisWorkflowStore) : String := s.keyPrefix ++ "incomplete"

def save (s : RedisWorkflowStore) (run : WorkflowRun Value) : RedisWorkflowStore :=
  let client := (s.client.set (s.runKey run.runId) (serializeRun run)).sAdd s.indexKey run.runId
  { s with
    client := if run.status.terminal then client.sRem s.incompleteKey run.runId
      else client.sAdd s.incompleteKey run.runId }

def load (s : RedisWorkflowStore) (runId : String) : Option (WorkflowRun Value) :=
  (s.client.get (s.runKey runId)).map deserializeRun

def append (s : RedisWorkflowStore) (runId : String) (event : HistoryEvent Value) : Except PersistenceError RedisWorkflowStore :=
  match s.load runId with
  | none => .error (noSuchRun runId)
  | some existing =>
    .ok { s with
      client := s.client.set (s.runKey runId) (serializeRun { existing with history := existing.history ++ [event] }) }

def listIncomplete (s : RedisWorkflowStore) : List (WorkflowRun Value) :=
  (s.client.sMembers s.incompleteKey).filterMap fun id => (s.load id).filter fun run => run.status.terminal = false

end RedisWorkflowStore

/-! ## Calls -/

/-- A call of the engine to its store. -/
inductive StoreCall where
  | save (run : WorkflowRun Value)
  | append (runId : String) (event : HistoryEvent Value)
  | load (runId : String)
  | listIncomplete

/-- A memory store and a Redis store that get the same calls. -/
structure Stores where
  memory : MemoryWorkflowStore := {}
  redis : RedisWorkflowStore := {}

/-- The stores after a call; a rejected one leaves them alone. -/
def Stores.call (s : Stores) : StoreCall → Stores
  | .save run => { memory := s.memory.save run, redis := s.redis.save run }
  | .append runId event =>
    { memory := (s.memory.append runId event).toOption.getD s.memory
      redis := (s.redis.append runId event).toOption.getD s.redis }
  | .load _ => s
  | .listIncomplete => s

/-- The stores after calls, from empty ones. -/
def Stores.after (keyPrefix : String) (calls : List StoreCall) : Stores :=
  Lib.run Stores.call { redis := { keyPrefix } } calls

/-- The snapshot of a run that was saved last. -/
def lastSaved (calls : List StoreCall) (runId : String) : Option (WorkflowRun Value) :=
  calls.reverse.findSome? fun
    | .save run => if run.runId = runId then some run else none
    | _ => none

/-! ## Loading what was saved -/

theorem mapValues_mapValues {U V W : Type} (f : U → V) (p : Option U → Option V) (g : V → W) (q : Option V → Option W) (run : WorkflowRun U) :
    (run.mapValues f p).mapValues g q = run.mapValues (g ∘ f) (q ∘ p) := by
  have hevent : ∀ e : HistoryEvent U, (e.mapValues f p).mapValues g q = e.mapValues (g ∘ f) (q ∘ p) := by
    intro e
    cases e <;> rfl
  unfold WorkflowRun.mapValues
  simp only [map_map]
  have hhistory : (HistoryEvent.mapValues g q ∘ HistoryEvent.mapValues f p) = HistoryEvent.mapValues (g ∘ f) (q ∘ p) :=
    funext hevent
  rw [hhistory]
  rfl

theorem cloneRun_cloneRun (run : WorkflowRun Value) : cloneRun (cloneRun run) = cloneRun run := by
  unfold cloneRun
  rw [mapValues_mapValues]
  have hvalue : Value.clone ∘ Value.clone = Value.clone := funext clone_clone
  have hproperty : Option.map Value.clone ∘ Option.map Value.clone = Option.map Value.clone := by
    rw [Option.map_comp_map, hvalue]
  rw [hvalue, hproperty]

/-- What is loaded of the state of a saved run. -/
def stateThroughJson (state : OrderedMap String Value) : OrderedMap String Value :=
  reviveState (state.map fun e => (e.1, e.2.stringify))

/-- A run after a save and a load of the Redis store. -/
def throughRedis (run : WorkflowRun Value) : WorkflowRun Value :=
  { run.mapValues (fun v => (throughJson v).getD .undefined) (·.bind throughJson) with
    state := stateThroughJson run.state }

theorem deserialize_serialize (run : WorkflowRun Value) : deserializeRun (serializeRun run) = throughRedis run := by
  have hproperty : (fun p : Option (Option Json) => p.join.map Json.revive) ∘ Option.map Value.stringify = (·.bind throughJson) := by
    funext p
    cases p <;> rfl
  show ({ (run.mapValues Value.stringify (Option.map Value.stringify)).mapValues parsed
      (fun p => p.join.map Json.revive) with state := stateThroughJson run.state } : WorkflowRun Value) = _
  rw [mapValues_mapValues, hproperty]
  rfl

theorem mem_mergeState {state patch : OrderedMap String Value} {e : String × Value} (h : e ∈ mergeState state patch) :
    e ∈ state ∨ e ∈ patch := by
  induction patch generalizing state with
  | nil => exact .inl h
  | cons p patch ih =>
    rcases ih h with h | h
    · rcases mem_set h with h | h
      · exact .inl h
      · exact .inr (h ▸ mem_cons_self)
    · exact .inr (mem_cons_of_mem _ h)

theorem mem_bytesState {content : List UInt8} {e : String × Value} (h : e ∈ bytesState content) : ∃ n, e.2 = .num n := by
  rcases mem_mergeState h with h | h
  · cases h
  · obtain ⟨x, -, rfl⟩ := mem_map.1 h
    exact ⟨_, rfl⟩

theorem taggedBytes_eq_some {fields : List (String × Value)} {content : List UInt8}
    (h : taggedBytes fields = some content) : ∃ text, OrderedMap.get fields u8Tag = some (.str text) := by
  unfold taggedBytes at h
  split at h
  · rename_i text ht
    exact ⟨text, ht⟩
  · cases h

theorem taggedBytes_bytesState (content : List UInt8) : taggedBytes (bytesState content) = none := by
  cases h : taggedBytes (bytesState content) with
  | none => rfl
  | some content' =>
    obtain ⟨text, ht⟩ := taggedBytes_eq_some h
    obtain ⟨n, hn⟩ := mem_bytesState (get_mem ht)
    cases hn

/-- The entries that the reviver sees of a state. -/
def stateEntries (state : OrderedMap String Value) : OrderedMap String Value :=
  state.filterMap fun e => (throughJson e.2).map fun v => (e.1, v)

theorem stateThroughJson_eq (state : OrderedMap String Value) : stateThroughJson state = match taggedBytes (stateEntries state) with
      | some content => bytesState content
      | none => stateEntries state := by
  have hentries : (state.map fun e => (e.1, e.2.stringify)).filterMap
      (fun e : String × Option Json => e.2.map fun json => (e.1, json.revive)) = stateEntries state := by
    unfold stateEntries throughJson
    rw [filterMap_map]
    simp only [Option.map_map]
    rfl
  unfold stateThroughJson reviveState
  rw [hentries]

theorem throughJson_of_jsonSafe {value : Value} (h : value.jsonSafe = true) : throughJson value = some value := by
  rw [(throughJson_eq_clone_iff value).2 h, clone_of_jsonSafe value h]

theorem jsonSafe_of_throughJson {value w : Value} (h : throughJson value = some w) : w.jsonSafe = true := by
  obtain ⟨json, -, rfl⟩ := Option.map_eq_some_iff.1 h
  exact revive_jsonSafe json

theorem stateThroughJson_idem (state : OrderedMap String Value) : stateThroughJson (stateThroughJson state) = stateThroughJson state := by
  have hkept : ∀ s : OrderedMap String Value, (∀ e ∈ s, e.2.jsonSafe = true) → taggedBytes s = none → stateThroughJson s = s := by
    intro s hsafe htag
    have hentries : stateEntries s = s := by
      refine (filterMap_congr fun e he => ?_).trans filterMap_some
      rw [throughJson_of_jsonSafe (hsafe e he)]
      rfl
    rw [stateThroughJson_eq, hentries, htag]
  rw [stateThroughJson_eq state]
  cases htag : taggedBytes (stateEntries state) with
  | none =>
    refine hkept _ (fun e he => ?_) htag
    obtain ⟨x, -, hx⟩ := mem_filterMap.1 he
    obtain ⟨w, hw, rfl⟩ := Option.map_eq_some_iff.1 hx
    exact jsonSafe_of_throughJson hw
  | some content =>
    refine hkept _ (fun e he => ?_) (taggedBytes_bytesState content)
    obtain ⟨n, hn⟩ := mem_bytesState he
    rw [hn]
    rfl

theorem throughRedis_throughRedis (run : WorkflowRun Value) : throughRedis (throughRedis run) = throughRedis run := by
  have hproperty : (·.bind throughJson) ∘ (·.bind throughJson) = fun p : Option Value => p.bind throughJson := by
    funext p
    cases p with
    | none => rfl
    | some v =>
      cases hv : throughJson v with
      | none => simp [hv]
      | some w => simp [hv, throughJson_throughJson hv]
  have hvalue : ((fun v => (throughJson v).getD .undefined) ∘ fun v => (throughJson v).getD .undefined) =
      fun v : Value => (throughJson v).getD .undefined := by
    funext v
    cases hv : throughJson v with
    | none =>
      simp only [Function.comp, hv, Option.getD_none]
      rfl
    | some w => simp [hv, throughJson_throughJson hv]
  show ({ (run.mapValues (fun v => (throughJson v).getD .undefined) (·.bind throughJson)).mapValues
      (fun v => (throughJson v).getD .undefined) (·.bind throughJson) with
      state := stateThroughJson (stateThroughJson run.state) } : WorkflowRun Value) = _
  rw [mapValues_mapValues, hproperty, hvalue, stateThroughJson_idem]
  rfl

/-! ## The stores after calls -/

theorem lastSaved_concat (calls : List StoreCall) (call : StoreCall) (runId : String) : lastSaved (calls ++ [call]) runId = match call with
      | .save run => if run.runId = runId then some run else lastSaved calls runId
      | _ => lastSaved calls runId := by
  unfold lastSaved
  rw [reverse_append, reverse_singleton, singleton_append, findSome?_cons]
  cases call with
  | save run => by_cases hid : run.runId = runId <;> simp [hid]
  | _ => rfl

theorem lastSaved_runId {calls : List StoreCall} {runId : String} {run : WorkflowRun Value}
    (h : lastSaved calls runId = some run) : run.runId = runId := by
  obtain ⟨call, -, hcall⟩ := exists_of_findSome?_eq_some h
  cases call with
  | save run' =>
    simp only at hcall
    split at hcall
    · cases hcall
      assumption
    · cases hcall
  | _ => cases hcall

theorem lastSaved_mem {calls : List StoreCall} {runId : String} {run : WorkflowRun Value}
    (h : lastSaved calls runId = some run) : .save run ∈ calls := by
  obtain ⟨call, hmem, hcall⟩ := exists_of_findSome?_eq_some h
  cases call with
  | save run' =>
    simp only at hcall
    split at hcall
    · cases hcall
      exact mem_reverse.1 hmem
    · cases hcall
  | _ => cases hcall

theorem after_concat (keyPrefix : String) (calls : List StoreCall) (call : StoreCall) :
    Stores.after keyPrefix (calls ++ [call]) = (Stores.after keyPrefix calls).call call :=
  run_concat _ _ _ _

/-- A store loads of a run what `image` makes of the snapshot saved last, with a history of its own. -/
def Loads (image : WorkflowRun Value → WorkflowRun Value) (loaded saved : Option (WorkflowRun Value)) : Prop :=
  ∃ history, loaded = saved.map fun run => { image run with history }

theorem memory_loads (keyPrefix : String) (calls : List StoreCall) (runId : String) :
    Loads cloneRun ((Stores.after keyPrefix calls).memory.load runId) (lastSaved calls runId) := by
  induction calls using List.reverseRecOn with
  | nil => exact ⟨[], rfl⟩
  | append_singleton calls call ih =>
    rw [after_concat, lastSaved_concat]
    generalize Stores.after keyPrefix calls = s at ih
    cases call with
    | load _ => exact ih
    | listIncomplete => exact ih
    | save run =>
      show Loads cloneRun ((OrderedMap.get (s.memory.runs.set run.runId (cloneRun run)) runId).map cloneRun) _
      rw [get_set]
      by_cases hid : run.runId = runId
      · simp only [hid, if_true, Option.map_some, cloneRun_cloneRun]
        exact ⟨_, rfl⟩
      · simp only [hid, Ne.symm hid, if_false]
        exact ih
    | append id event =>
      show Loads cloneRun (((s.memory.append id event).toOption.getD s.memory).load runId) _
      obtain ⟨history, hload⟩ := ih
      unfold MemoryWorkflowStore.append
      cases hg : s.memory.runs.get id with
      | none => exact ⟨history, hload⟩
      | some stored =>
        show Loads cloneRun ((OrderedMap.get (s.memory.runs.set id
          (cloneRun { stored with history := stored.history ++ [event] })) runId).map cloneRun) _
        rw [get_set]
        by_cases hid : runId = id
        · subst hid
          unfold MemoryWorkflowStore.load at hload
          rw [hg, Option.map_some] at hload
          obtain ⟨run, hrun, himage⟩ := Option.map_eq_some_iff.1 hload.symm
          simp only [if_true, Option.map_some, cloneRun_cloneRun, hrun]
          refine ⟨(stored.history ++ [event]).map (·.mapValues Value.clone (Option.map Value.clone)), congrArg some ?_⟩
          show ({ cloneRun stored with
            history := (stored.history ++ [event]).map (·.mapValues Value.clone (Option.map Value.clone)) } : WorkflowRun Value) = _
          rw [← himage]
        · simp only [hid, if_false]
          exact ⟨history, hload⟩

/-! ## The Redis client -/

section

variable (client : RedisLike)
include client

@[simp] theorem get_sAdd (set member key : String) : (client.sAdd set member).get key = client.get key := by
  unfold RedisLike.sAdd
  split <;> rfl

@[simp] theorem get_sRem (client : RedisLike) (set member key : String) : (client.sRem set member).get key = client.get key := rfl

@[simp] theorem sMembers_set (client : RedisLike) (key set : String) (value : WorkflowRun (Option Json)) :
    (client.set key value).sMembers set = client.sMembers set := rfl

@[simp] theorem get_set_client (key key' : String) (value : WorkflowRun (Option Json)) :
    (client.set key value).get key' = if key' = key then some value else client.get key' :=
  get_set _ _ _ _

theorem mem_sAdd (set set' member id : String) :
    id ∈ (client.sAdd set member).sMembers set' ↔ id ∈ client.sMembers set' ∨ set' = set ∧ id = member := by
  unfold RedisLike.sAdd
  split
  · rename_i hmem
    refine ⟨.inl, ?_⟩
    rintro (h | ⟨rfl, rfl⟩)
    · exact h
    · exact hmem
  · show id ∈ (OrderedMap.get (OrderedMap.set _ _ _) _).getD [] ↔ _
    by_cases hs : set' = set
    · simp [hs, RedisLike.sMembers]
    · simp [hs, RedisLike.sMembers]

theorem mem_sRem (set set' member id : String) :
    id ∈ (client.sRem set member).sMembers set' ↔ id ∈ client.sMembers set' ∧ ¬ (set' = set ∧ id = member) := by
  show id ∈ (OrderedMap.get (OrderedMap.set _ _ _) _).getD [] ↔ _
  by_cases hs : set' = set
  · simp [hs, RedisLike.sMembers]
  · simp [hs, RedisLike.sMembers]

end

theorem runKey_inj {s : RedisWorkflowStore} {id id' : String} : s.runKey id = s.runKey id' ↔ id = id' := by
  unfold RedisWorkflowStore.runKey
  rw [String.append_right_inj, String.append_right_inj]

theorem incompleteKey_ne_indexKey (s : RedisWorkflowStore) : s.incompleteKey ≠ s.indexKey := by
  unfold RedisWorkflowStore.incompleteKey RedisWorkflowStore.indexKey
  rw [Ne, String.append_right_inj]
  decide

theorem redis_load_save (s : RedisWorkflowStore) (run : WorkflowRun Value) (runId : String) :
    (s.save run).load runId = if runId = run.runId then some (throughRedis run) else s.load runId := by
  unfold RedisWorkflowStore.load
  have hget : (s.save run).client.get ((s.save run).runKey runId) =
      if runId = run.runId then some (serializeRun run) else s.client.get (s.runKey runId) := by
    show (if run.status.terminal then _ else _ : RedisLike).get (s.runKey runId) = _
    split <;> simp only [get_sRem, get_sAdd, get_set_client, runKey_inj]
  rw [hget]
  split
  · rw [Option.map_some, deserialize_serialize]
  · rfl

theorem redis_loads (keyPrefix : String) (calls : List StoreCall) (runId : String) :
    Loads throughRedis ((Stores.after keyPrefix calls).redis.load runId) (lastSaved calls runId) := by
  induction calls using List.reverseRecOn with
  | nil => exact ⟨[], rfl⟩
  | append_singleton calls call ih =>
    rw [after_concat, lastSaved_concat]
    generalize Stores.after keyPrefix calls = s at ih
    cases call with
    | load _ => exact ih
    | listIncomplete => exact ih
    | save run =>
      show Loads throughRedis ((s.redis.save run).load runId) _
      rw [redis_load_save]
      by_cases hid : run.runId = runId
      · simp only [hid, if_true]
        exact ⟨_, rfl⟩
      · simp only [hid, Ne.symm hid, if_false]
        exact ih
    | append id event =>
      show Loads throughRedis (((s.redis.append id event).toOption.getD s.redis).load runId) _
      obtain ⟨history, hload⟩ := ih
      unfold RedisWorkflowStore.append
      cases hg : s.redis.load id with
      | none => exact ⟨history, hload⟩
      | some existing =>
        show Loads throughRedis (((s.redis.client.set (s.redis.runKey id)
          (serializeRun { existing with history := existing.history ++ [event] })).get (s.redis.runKey runId)).map deserializeRun) _
        simp only [get_set_client, runKey_inj]
        by_cases hid : runId = id
        · subst hid
          rw [hg] at hload
          obtain ⟨run, hrun, himage⟩ := Option.map_eq_some_iff.1 hload.symm
          simp only [if_true, Option.map_some, deserialize_serialize, hrun]
          refine ⟨(throughRedis { existing with history := existing.history ++ [event] }).history, congrArg some ?_⟩
          rw [← himage]
          show ({ throughRedis (throughRedis run) with history := _ } : WorkflowRun Value) = _
          rw [throughRedis_throughRedis]
          rfl
        · simp only [hid, if_false]
          exact ⟨history, hload⟩

/-! ## Incomplete runs -/

theorem mem_incomplete_save (s : RedisWorkflowStore) (run : WorkflowRun Value) (runId : String) :
    runId ∈ (s.save run).client.sMembers (s.save run).incompleteKey ↔
      if runId = run.runId then run.status.terminal = false else runId ∈ s.client.sMembers s.incompleteKey := by
  have hkey := incompleteKey_ne_indexKey s
  show runId ∈ (if run.status.terminal then _ else _ : RedisLike).sMembers s.incompleteKey ↔ _
  by_cases hid : runId = run.runId <;> cases ht : run.status.terminal <;> simp [mem_sRem, mem_sAdd, hid, hkey]

theorem append_sets (s : RedisWorkflowStore) (id : String) (event : HistoryEvent Value) :
    ((s.append id event).toOption.getD s).client.sets = s.client.sets ∧ ((s.append id event).toOption.getD s).keyPrefix = s.keyPrefix := by
  unfold RedisWorkflowStore.append
  cases s.load id <;> exact ⟨rfl, rfl⟩

theorem mem_incomplete (keyPrefix : String) (calls : List StoreCall) (runId : String) :
    runId ∈ (Stores.after keyPrefix calls).redis.client.sMembers (Stores.after keyPrefix calls).redis.incompleteKey ↔
      ∃ run, lastSaved calls runId = some run ∧ run.status.terminal = false := by
  induction calls using List.reverseRecOn with
  | nil => exact ⟨nofun, nofun⟩
  | append_singleton calls call ih =>
    rw [after_concat, lastSaved_concat]
    generalize Stores.after keyPrefix calls = s at ih
    cases call with
    | load _ => exact ih
    | listIncomplete => exact ih
    | append id event =>
      obtain ⟨hsets, hprefix⟩ := append_sets s.redis id event
      show runId ∈ (OrderedMap.get ((s.redis.append id event).toOption.getD s.redis).client.sets
        (((s.redis.append id event).toOption.getD s.redis).keyPrefix ++ "incomplete")).getD [] ↔ _
      rw [hsets, hprefix]
      exact ih
    | save run =>
      refine (mem_incomplete_save s.redis run runId).trans ?_
      by_cases hid : run.runId = runId
      · simp [hid]
      · simp only [hid, Ne.symm hid, if_false]
        exact ih

theorem redis_listed (keyPrefix : String) (calls : List StoreCall) (runId : String) :
    (∃ run ∈ (Stores.after keyPrefix calls).redis.listIncomplete, run.runId = runId) ↔
      ∃ run, lastSaved calls runId = some run ∧ run.status.terminal = false := by
  have hload := redis_loads keyPrefix calls
  have hmem := mem_incomplete keyPrefix calls
  generalize (Stores.after keyPrefix calls).redis = s at hload hmem
  constructor
  · rintro ⟨run, hrun, rfl⟩
    obtain ⟨id, hid, hrun⟩ := mem_filterMap.1 hrun
    obtain ⟨hrun, hterminal⟩ := Option.filter_eq_some_iff.1 hrun
    obtain ⟨history, hl⟩ := hload id
    rw [hrun] at hl
    obtain ⟨saved, hsaved, rfl⟩ := Option.map_eq_some_iff.1 hl.symm
    have := lastSaved_runId hsaved
    subst this
    exact ⟨saved, hsaved, of_decide_eq_true hterminal⟩
  · rintro ⟨saved, hsaved, hterminal⟩
    obtain ⟨history, hl⟩ := hload runId
    rw [hsaved, Option.map_some] at hl
    have hid : saved.runId = runId := lastSaved_runId hsaved
    exact ⟨_, mem_filterMap.2 ⟨runId, (hmem runId).2 ⟨saved, hsaved, hterminal⟩,
      Option.filter_eq_some_iff.2 ⟨hl, decide_eq_true hterminal⟩⟩, hid⟩

/-- The entries of the memory store are clones under the ids of their runs. -/
structure Filed (s : MemoryWorkflowStore) : Prop where
  keys : (s.runs.map Prod.fst).Nodup
  runId : ∀ e ∈ s.runs, e.2.runId = e.1

theorem filed_set {s : MemoryWorkflowStore} (h : Filed s) {id : String} {run : WorkflowRun Value} (hid : run.runId = id) :
    Filed { runs := s.runs.set id run } := by
  refine ⟨keys_set_nodup h.keys _ _, fun e he => ?_⟩
  rcases mem_set he with he | rfl
  · exact h.runId e he
  · exact hid

theorem filed_after (keyPrefix : String) (calls : List StoreCall) : Filed (Stores.after keyPrefix calls).memory := by
  refine run_invariant Stores.call (P := fun s => Filed s.memory) (fun s call h => ?_) calls ⟨nodup_nil, fun _ he => absurd he not_mem_nil⟩
  cases call with
  | load _ => exact h
  | listIncomplete => exact h
  | save run => exact filed_set h rfl
  | append id event =>
    show Filed ((s.memory.append id event).toOption.getD s.memory)
    unfold MemoryWorkflowStore.append
    cases hg : s.memory.runs.get id with
    | none => exact h
    | some stored =>
      have hid : stored.runId = id := h.runId _ (get_mem hg)
      exact filed_set h hid

theorem memory_listed (keyPrefix : String) (calls : List StoreCall) (runId : String) :
    (∃ run ∈ (Stores.after keyPrefix calls).memory.listIncomplete, run.runId = runId) ↔
      ∃ run, lastSaved calls runId = some run ∧ run.status.terminal = false := by
  have hload := memory_loads keyPrefix calls
  have hfiled := filed_after keyPrefix calls
  generalize (Stores.after keyPrefix calls).memory = s at hload hfiled
  constructor
  · rintro ⟨run, hrun, rfl⟩
    obtain ⟨stored, hstored, rfl⟩ := mem_map.1 hrun
    obtain ⟨hstored, hterminal⟩ := mem_filter.1 hstored
    obtain ⟨⟨id, _⟩, he, rfl⟩ := mem_map.1 hstored
    obtain ⟨history, hl⟩ := hload id
    unfold MemoryWorkflowStore.load at hl
    rw [get_of_mem hfiled.keys he] at hl
    obtain ⟨saved, hsaved, himage⟩ := Option.map_eq_some_iff.1 hl.symm
    have hrunId : saved.runId = _ := congrArg (·.runId) himage
    have hstatus : saved.status = _ := congrArg (·.status) himage
    have hid := (lastSaved_runId hsaved).symm.trans hrunId
    subst hid
    exact ⟨saved, hsaved, (congrArg RunStatus.terminal hstatus).trans (of_decide_eq_true hterminal)⟩
  · rintro ⟨saved, hsaved, hterminal⟩
    obtain ⟨history, hl⟩ := hload runId
    rw [hsaved, Option.map_some] at hl
    obtain ⟨stored, hg, himage⟩ := Option.map_eq_some_iff.1 hl
    refine ⟨cloneRun stored, mem_map_of_mem (mem_filter.2 ⟨mem_map.2 ⟨_, get_mem hg, rfl⟩, ?_⟩), ?_⟩
    · have hstatus : stored.status = saved.status := congrArg (·.status) himage
      exact decide_eq_true ((congrArg RunStatus.terminal hstatus).trans hterminal)
    · exact (congrArg (·.runId) himage).trans (lastSaved_runId hsaved)

/-- **Each store loads what was saved last, and lists the runs that are not over**, after any calls. -/
theorem stores_keep (keyPrefix : String) (calls : List StoreCall) (runId : String) : let s := Stores.after keyPrefix calls
    let open_ := ∃ run, lastSaved calls runId = some run ∧ run.status.terminal = false
    (Loads cloneRun (s.memory.load runId) (lastSaved calls runId) ∧ ((∃ run ∈ s.memory.listIncomplete, run.runId = runId) ↔ open_)) ∧
      Loads throughRedis (s.redis.load runId) (lastSaved calls runId) ∧ ((∃ run ∈ s.redis.listIncomplete, run.runId = runId) ↔ open_) :=
  ⟨⟨memory_loads keyPrefix calls runId, memory_listed keyPrefix calls runId⟩, redis_loads keyPrefix calls runId,
    redis_listed keyPrefix calls runId⟩

end StreetJS.Workflow
