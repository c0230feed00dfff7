/-
Whether the Redis store can stand in for the memory store. Both are given the calls of an engine, and
the snapshots that they load of a run are driven again: the condition under which no workflow function
and no outside tells the two apart.
-/
import StreetJS.Workflow.Stores

namespace StreetJS.Workflow

open StreetJS.Lib List
open Prod (fst)
open CommandRecord (mapValues view)

/-! ## Substitutable stores -/

/-- What is seen of a drive that the engine starts over a loaded run. -/
def resumedBehaviour (fn : WorkflowFunction Value) (run : WorkflowRun Value) (ts : List (Tick Value)) :
    Option (Action Value × List (Reply Value) × RunStatus) :=
  (driveExisting run ts).map fun r => (Drive.exec fn r.1 r.2).behaviour fn

/-- A run is loaded in the same status and listed as incomplete by both stores or by neither, and a
drive over what one of them loads goes as over what the other does. -/
structure Substitutable (s : Stores) (runId : String) : Prop where
  status : (s.redis.load runId).map (·.status) = (s.memory.load runId).map (·.status)
  listed : (∃ run ∈ s.redis.listIncomplete, run.runId = runId) ↔ ∃ run ∈ s.memory.listIncomplete, run.runId = runId
  resumed : ∀ a b, s.memory.load runId = some a → s.redis.load runId = some b →
    ∀ (fn : WorkflowFunction Value) (ts : List (Tick Value)), resumedBehaviour fn b ts = resumedBehaviour fn a ts

/-- The snapshots that an engine saves: it launches a run, accepts operations on it, drives it, and
goes on from what either store loads of it. -/
inductive EngineSnapshot : WorkflowRun Value → Prop
  | launched (runId definition : String) (input : Value) (now : Int) : EngineSnapshot (initialRun runId definition input now)
  | accepted {s : Engine Value} (h : EngineSnapshot s.run) (op : Op Value) : EngineSnapshot (s.accept op).1.run
  | driven {run : WorkflowRun Value} (h : EngineSnapshot run) (fn : WorkflowFunction Value) (ts : List (Tick Value)) :
    EngineSnapshot (Drive.exec fn run ts).run
  | appended {run : WorkflowRun Value} (h : EngineSnapshot run) (event : HistoryEvent Value) :
    EngineSnapshot { run with history := run.history ++ [event] }
  | cloned {run : WorkflowRun Value} (h : EngineSnapshot run) : EngineSnapshot (cloneRun run)
  | parsed {run : WorkflowRun Value} (h : EngineSnapshot run) : EngineSnapshot (throughRedis run)

/-- A snapshot whose values survive the JSON text: the input, every entry of the state and the next
payload of every signal are missing or JSON-safe, and every recorded result is JSON-safe. -/
structure StoreSafe (run : WorkflowRun Value) : Prop where
  input : run.input = .undefined ∨ run.input.jsonSafe = true
  results : ∀ r ∈ run.commands, r.status = .completed → ∀ result, r.result = some result → result.jsonSafe = true
  untagged : taggedBytes run.state = none
  state : ∀ key value, run.state.get key = some value → value = .undefined ∨ value.jsonSafe = true
  payloads : ∀ name signal, findPending run.pendingSignals name = some signal → signal.payload = .undefined ∨ signal.payload.jsonSafe = true

/-! ## What the two stores load -/

theorem throughJson_eq_str {value : Value} {text : String} : throughJson value = some (.str text) ↔ value = .str text := by
  cases value with
  | obj fields =>
    simp only [throughJson, Value.stringify, Option.map_some, Json.revive, revived]
    cases taggedBytes (reviveFields (stringifyFields fields)) <;> simp
  | bytes content => simp [throughJson, Value.stringify, Json.revive, revived, reviveFields, taggedBytes, OrderedMap.get]
  | buffer content => simp [throughJson, Value.stringify, Json.revive, revived, reviveFields, taggedBytes, OrderedMap.get, u8Tag]
  | _ => simp [throughJson, Value.stringify, Json.revive]

section State

variable {state : OrderedMap String Value}

theorem readKey_clone (key : String) :
    readKey (state.map fun e => (e.1, e.2.clone)) key = ((state.get key).map Value.clone).getD .undefined := by
  unfold readKey
  rw [OrderedMap.get_map]
  rfl

theorem get_stateEntries (hn : (state.map fst).Nodup) (key : String) :
    OrderedMap.get (stateEntries state) key = (state.get key).bind throughJson :=
  OrderedMap.get_filterMap throughJson hn key

theorem taggedBytes_stateEntries (hn : (state.map fst).Nodup) : taggedBytes (stateEntries state) = taggedBytes state := by
  unfold taggedBytes
  rw [get_stateEntries hn]
  cases hg : state.get u8Tag with
  | none => rfl
  | some value =>
    by_cases hs : ∃ text, value = .str text
    · obtain ⟨text, rfl⟩ := hs
      rfl
    · have hs' : ∀ text, throughJson value ≠ some (.str text) := fun text h => hs ⟨text, throughJson_eq_str.1 h⟩
      split
      · rename_i text ht
        exact absurd ht (hs' text)
      · split
        · rename_i text ht
          cases ht
          exact absurd ⟨text, rfl⟩ hs
        · rfl

theorem state_reads_iff (hn : (state.map fst).Nodup) :
    (∀ key, readKey (stateThroughJson state) key = readKey (state.map fun e => (e.1, e.2.clone)) key) ↔
      taggedBytes state = none ∧ ∀ key value, state.get key = some value → value = .undefined ∨ value.jsonSafe = true := by
  rw [stateThroughJson_eq, taggedBytes_stateEntries hn]
  cases htag : taggedBytes state with
  | some content =>
    -- under the tag one store has the text, the other at most a byte
    refine ⟨fun h => ?_, fun h => by cases h.1⟩
    obtain ⟨text, ht⟩ := taggedBytes_eq_some htag
    have hread := h u8Tag
    rw [readKey_clone, ht] at hread
    unfold readKey at hread
    cases hg : OrderedMap.get (bytesState content) u8Tag with
    | none => rw [hg] at hread; cases hread
    | some value =>
      obtain ⟨n, hv⟩ := mem_bytesState (OrderedMap.get_mem hg)
      rw [hg, Option.getD_some, show value = .num n from hv] at hread
      cases hread
  | none =>
    simp only [true_and]
    refine forall_congr' fun key => ?_
    rw [readKey_clone]
    unfold readKey
    rw [get_stateEntries hn]
    cases hg : state.get key with
    | none => exact ⟨by simp, fun _ => rfl⟩
    | some value =>
      refine Iff.trans throughJson_getD_iff ⟨fun h v hv => ?_, fun h => h value rfl⟩
      cases hv
      exact h

end State

theorem property_iff {property : Option Value} :
    property.bind throughJson = property.map Value.clone ↔ ∀ value, property = some value → value.jsonSafe = true := by
  cases property with
  | none => simp
  | some value =>
    rw [Option.bind_some, Option.map_some, throughJson_eq_clone_iff]
    exact ⟨fun h v hv => by cases hv; exact h, fun h => h value rfl⟩

theorem record_view_iff (r : CommandRecord Value) : (r.mapValues (·.bind throughJson)).view = (r.mapValues (Option.map Value.clone)).view ↔
      (r.status = .completed → ∀ result, r.result = some result → result.jsonSafe = true) := by
  have hview : (r.mapValues (·.bind throughJson)).view = (r.mapValues (Option.map Value.clone)).view ↔
      (r.status = .completed → r.result.bind throughJson = r.result.map Value.clone) := by
    unfold mapValues view
    by_cases hs : r.status = .completed <;> simp [hs]
  rw [hview]
  exact imp_congr_right fun _ => property_iff

theorem findPending_mapValues (value : Value → Value) (signals : List (RecordedSignal Value)) (name : String) :
    (findPending (signals.map (·.mapValues value)) name).map (·.payload) =
      (findPending signals name).map fun signal => value signal.payload := by
  unfold findPending
  rw [find?_map, Option.map_map]
  rfl

theorem sameView_iff_storeSafe {run : WorkflowRun Value} (hn : (run.state.map fst).Nodup) (history history' : List (HistoryEvent Value)) :
    SameView { cloneRun run with history } { throughRedis run with history := history' } ↔ StoreSafe run := by
  have hinput : (throughRedis run).input = (cloneRun run).input ↔ run.input = .undefined ∨ run.input.jsonSafe = true :=
    throughJson_getD_iff
  have hcommands : (throughRedis run).commands.map view = (cloneRun run).commands.map view ↔
      ∀ r ∈ run.commands, r.status = .completed → ∀ result, r.result = some result → result.jsonSafe = true := by
    show (run.commands.map _).map _ = (run.commands.map _).map _ ↔ _
    rw [map_map, map_map, map_inj_left]
    exact forall₂_congr fun r _ => record_view_iff r
  have hstate := state_reads_iff hn
  have hpayloads : ∀ name, (findPending (throughRedis run).pendingSignals name).map (·.payload) =
      (findPending (cloneRun run).pendingSignals name).map (·.payload) ↔ ∀ signal, findPending run.pendingSignals name = some signal →
          signal.payload = .undefined ∨ signal.payload.jsonSafe = true := by
    intro name
    have hredis : (findPending (throughRedis run).pendingSignals name).map (·.payload) = _ :=
      findPending_mapValues (fun v => (throughJson v).getD .undefined) run.pendingSignals name
    have hmemory : (findPending (cloneRun run).pendingSignals name).map (·.payload) = _ :=
      findPending_mapValues Value.clone run.pendingSignals name
    rw [hredis, hmemory]
    cases findPending run.pendingSignals name with
    | none => exact ⟨nofun, fun _ => rfl⟩
    | some signal =>
      rw [Option.map_some, Option.map_some, Option.some.injEq]
      refine throughJson_getD_iff.trans ⟨fun h s hs => ?_, fun h => h signal rfl⟩
      cases hs
      exact h
  constructor
  · intro h
    obtain ⟨huntagged, hvalues⟩ := hstate.1 h.state
    exact ⟨hinput.1 h.input, hcommands.1 h.commands, huntagged, hvalues, fun name => (hpayloads name).1 (h.payload name)⟩
  · intro h
    exact ⟨rfl, hinput.2 h.input, rfl, rfl, hcommands.2 h.results, hstate.2 ⟨h.untagged, h.state⟩,
      fun name => (hpayloads name).2 (h.payloads name)⟩

theorem loaded_sameShape (run : WorkflowRun Value) (history history' : List (HistoryEvent Value)) :
    SameShape { cloneRun run with history } { throughRedis run with history := history' } := by
  refine ⟨rfl, rfl, rfl, ?_⟩
  show (run.commands.map _).map _ = (run.commands.map _).map _
  rw [map_map, map_map]
  rfl

/-! ## What an engine saves -/

theorem mapValues_samePlaces (value : Value → Value) (property : Option Value → Option Value) (run : WorkflowRun Value) :
    SamePlaces run (run.mapValues value property) := by
  refine ⟨?_, rfl, fun hn => ?_⟩
  · show (run.commands.map _).map _ = _
    rw [map_map]
    rfl
  · show ((run.state.map _).map fst).Nodup
    rw [map_map]
    exact hn

theorem keys_stateEntries : ∀ state : OrderedMap String Value, ((stateEntries state).map fst).Sublist (state.map fst)
  | [] => List.Sublist.refl _
  | (key, value) :: state => by
    have hrest := keys_stateEntries state
    unfold stateEntries at hrest ⊢
    cases hv : throughJson value with
    | none =>
      rw [filterMap_cons_none (by rw [hv]; rfl)]
      exact hrest.cons _
    | some v =>
      rw [filterMap_cons_some (b := (key, v)) (by rw [hv]; rfl)]
      exact hrest.cons_cons _

theorem keys_stateThroughJson {state : OrderedMap String Value} (hn : (state.map fst).Nodup) : ((stateThroughJson state).map fst).Nodup := by
  have hnil : (([] : OrderedMap String Value).map fst).Nodup := nodup_nil
  rw [stateThroughJson_eq]
  split
  · exact mergeState_keys hnil _
  · exact hn.sublist (keys_stateEntries state)

theorem throughRedis_samePlaces (run : WorkflowRun Value) : SamePlaces run (throughRedis run) := by
  have h := mapValues_samePlaces (fun v => (throughJson v).getD .undefined) (·.bind throughJson) run
  exact ⟨h.places, h.nextSeq, keys_stateThroughJson⟩

theorem EngineSnapshot.journaled {run : WorkflowRun Value} (h : EngineSnapshot run) : Journaled run := by
  induction h with
  | launched =>
    exact ⟨⟨fun i r hr => (by cases hr), rfl⟩, fun r hr => absurd hr not_mem_nil, fun i r hr => (by cases hr), nodup_nil⟩
  | accepted h op ih => exact ih.of_sameJournal (accept_sameJournal _ op)
  | driven h fn ts ih => exact (JournaledDrive.exec ih fn ts).run
  | appended h event ih => exact ih.congr ⟨rfl, rfl, id⟩
  | cloned h ih => exact ih.congr (mapValues_samePlaces _ _ _)
  | parsed h ih => exact ih.congr (throughRedis_samePlaces _)

/-! ## The condition -/

theorem resumedBehaviour_iff {a b : WorkflowRun Value} (hs : b.status = a.status) :
    (∀ fn ts, resumedBehaviour fn b ts = resumedBehaviour fn a ts) ↔
      (a.status.terminal = false → a.status ≠ .paused → SameBehaviour a b) := by
  have hdriven : ∀ run : WorkflowRun Value, run.status.terminal = false → run.status ≠ .paused → ∀ fn ts,
      resumedBehaviour fn run ts = some ((Drive.exec fn run ts).behaviour fn) := by
    intro run ht hp fn ts
    unfold resumedBehaviour driveExisting
    rw [if_neg (by simp [ht, hp])]
    rfl
  have hskipped : ∀ run : WorkflowRun Value, ¬ (run.status.terminal = false ∧ run.status ≠ .paused) → ∀ fn ts,
      resumedBehaviour fn run ts = none := by
    intro run h fn ts
    unfold resumedBehaviour driveExisting
    rw [if_pos (by simpa [Decidable.or_iff_not_imp_left] using h)]
    rfl
  by_cases hd : a.status.terminal = false ∧ a.status ≠ .paused
  · obtain ⟨ht, hp⟩ := hd
    have hb := hdriven b (hs ▸ ht) (hs ▸ hp)
    have ha := hdriven a ht hp
    simp only [ha, hb, Option.some.injEq]
    exact ⟨fun h _ _ => h, fun h => h ht hp⟩
  · have hb := hskipped b (hs ▸ hd)
    have ha := hskipped a hd
    exact ⟨fun _ ht hp => absurd ⟨ht, hp⟩ hd, fun _ fn ts => (hb fn ts).trans (ha fn ts).symm⟩

/-- The two stores can stand in for each other exactly for runs whose last snapshot, when the engine can
drive it, is safe to store. -/
theorem substitutable_iff (keyPrefix : String) {calls : List StoreCall}
    (hcalls : ∀ run, .save run ∈ calls → EngineSnapshot run) (runId : String) :
    Substitutable (Stores.after keyPrefix calls) runId ↔
      ∀ run, lastSaved calls runId = some run → run.status.terminal = false → run.status ≠ .paused → StoreSafe run := by
  obtain ⟨history, hmemory⟩ := memory_loads keyPrefix calls runId
  obtain ⟨history', hredis⟩ := redis_loads keyPrefix calls runId
  have hlisted := (redis_listed keyPrefix calls runId).trans (memory_listed keyPrefix calls runId).symm
  generalize Stores.after keyPrefix calls = s at hmemory hredis hlisted
  cases hsaved : lastSaved calls runId with
  | none =>
    rw [hsaved] at hmemory hredis
    refine ⟨nofun, fun _ => ⟨by rw [hmemory, hredis]; rfl, hlisted, fun a b ha => ?_⟩⟩
    rw [hmemory] at ha
    cases ha
  | some run =>
    rw [hsaved, Option.map_some] at hmemory hredis
    have hjournaled := (hcalls run (lastSaved_mem hsaved)).journaled
    have hshape := loaded_sameShape run history history'
    have hview := sameView_iff_storeSafe hjournaled.keys history history'
    have hplaces := mapValues_samePlaces Value.clone (Option.map Value.clone) run
    have hclone : Journaled { cloneRun run with history } :=
      hjournaled.congr ⟨hplaces.places, hplaces.nextSeq, hplaces.keys⟩
    have hsame := (resumedBehaviour_iff hshape.status).trans
      (imp_congr_right fun _ => imp_congr_right fun _ => (sameBehaviour_iff hclone hshape).trans hview)
    constructor
    · rintro h run' hrun'
      cases hrun'
      exact hsame.1 (h.resumed _ _ hmemory hredis)
    · intro h
      refine ⟨by rw [hmemory, hredis]; rfl, hlisted, fun a b ha hb => ?_⟩
      rw [hmemory] at ha
      rw [hredis] at hb
      cases ha
      cases hb
      exact hsame.2 (h run rfl)

/-- Issues `c` and then sleeps. -/
def thenSleeps (c : Command Value) : WorkflowFunction Value
  | _, [] => .command c
  | _, [.settled (.ok _)] => .command (.sleep 1000)
  | _, [.settled (.error thrown)] => .throws thrown
  | _, [_, .settled (.error thrown)] => .throws thrown
  | _, _ => .returns .undefined

/-- The snapshot of a run that sleeps after `c`, whose effects return 7. -/
def parkedAfter (c : Command Value) : WorkflowRun Value :=
  (Drive.exec (thenSleeps c) (initialRun "run-1" "order" .undefined 0) (List.replicate 6 (tick (.num 7)))).run

theorem parkedAfter_engineSnapshot (c : Command Value) : EngineSnapshot (parkedAfter c) :=
  .driven (.launched "run-1" "order" .undefined 0) _ _

theorem saved_parkedAfter {c : Command Value} {run : WorkflowRun Value} (h : .save run ∈ [StoreCall.save (parkedAfter c)]) :
    EngineSnapshot run := by
  cases mem_singleton.1 h
  exact parkedAfter_engineSnapshot c

/-- A run that has recorded the result 7 is loaded alike. -/
theorem substitutable_iff_activity : Substitutable (Stores.after "workflow:" [.save (parkedAfter (.activity {}))]) "run-1" := by
  refine (substitutable_iff "workflow:" (fun _ => saved_parkedAfter) "run-1").2 fun run hrun _ _ => ?_
  cases (Option.some.inj hrun : parkedAfter (.activity {}) = run)
  refine ⟨.inl rfl, fun r hr hc result hresult => ?_, rfl, fun _ _ h => (by cases h), fun _ _ h => (by cases h)⟩
  obtain ⟨i, hi⟩ := mem_iff_getElem?.1 hr
  match i with
  | 0 =>
    cases hi
    cases hresult
    rfl
  | 1 =>
    cases hi
    cases hc
  | _ + 2 => cases hi

/-- A completed `state.set` has the result `undefined`: a drive over what the memory store loads is handed
it again, over what the Redis store loads it meets a record without its result. -/
theorem void_result_counterexample : EngineSnapshot (parkedAfter (.stateSet "step" (.num 1))) ∧
      ¬ Substitutable (Stores.after "workflow:" [.save (parkedAfter (.stateSet "step" (.num 1)))]) "run-1" := by
  refine ⟨parkedAfter_engineSnapshot _, fun h => ?_⟩
  let replies (run : WorkflowRun Value) : Option (List (Reply Value)) :=
    (resumedBehaviour (thenSleeps (.stateSet "step" (.num 1))) run [tick .undefined, tick .undefined]).map (·.2.1)
  have hmemory : replies (cloneRun (cloneRun (parkedAfter (.stateSet "step" (.num 1))))) = some [.settled (.ok .undefined)] := rfl
  have hredis : replies (throughRedis (parkedAfter (.stateSet "step" (.num 1)))) =
      some [.settled (.error (.error (integrityError (missingResultMessage "run-1" .stateSet 0))))] := rfl
  have hsame := congrArg (Option.map (·.2.1)) (h.resumed _ _ rfl rfl (thenSleeps (.stateSet "step" (.num 1)))
    [tick .undefined, tick .undefined])
  cases hredis.symm.trans (hsame.trans hmemory)

end StreetJS.Workflow
