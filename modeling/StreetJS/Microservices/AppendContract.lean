/-
What concurrent appends of one event store keep: no version twice, everything stored by an append that
succeeds, and, where the store numbers the events, versions without gaps.
-/
import StreetJS.Microservices.EventStore

namespace StreetJS.Microservices

open StreetJS.Lib List

variable {J : Type}

/-! ## The table as it grows -/

@[simp] theorem versions_concat (table : EventTable J) (row : Nat × DomainEvent J) (aggregateId : String) :
    EventTable.versions (table ++ [row]) aggregateId =
      table.versions aggregateId ++ if row.2.aggregateId = aggregateId then [row.2.version] else [] := by
  unfold EventTable.versions
  by_cases h : row.2.aggregateId = aggregateId <;> simp [h]

@[simp] theorem writtenBy_concat (table : EventTable J) (row : Nat × DomainEvent J) (i : Nat) :
    EventTable.writtenBy (table ++ [row]) i = table.writtenBy i ++ if row.1 = i then [row.2] else [] := by
  unfold EventTable.writtenBy
  by_cases h : row.1 = i <;> simp [h]

variable {table : EventTable J} {i : Nat}

theorem writtenBy_nil (h : ∀ row ∈ table, row.1 < i) : table.writtenBy i = [] := by
  unfold EventTable.writtenBy
  rw [map_eq_nil_iff, filter_eq_nil_iff]
  intro row hrow
  have := h row hrow
  simp only [decide_eq_true_eq]
  omega

theorem mem_versions {aggregateId : String} {version : Int} :
    version ∈ table.versions aggregateId ↔ (aggregateId, version) ∈ table.map fun row => (row.2.aggregateId, row.2.version) := by
  unfold EventTable.versions
  simp only [mem_map, mem_filter, decide_eq_true_eq, Prod.mk.injEq]
  constructor
  · rintro ⟨row, ⟨hrow, ha⟩, hv⟩
    exact ⟨row, hrow, ha, hv⟩
  · rintro ⟨row, hrow, ha, hv⟩
    exact ⟨row, ⟨hrow, ha⟩, hv⟩

theorem numbered_concat (aggregateId : String) (e : NewEvent J) :
    ∀ (start : Int) (done : List (NewEvent J)), numbered aggregateId start (done ++ [e]) = numbered aggregateId start done ++
        [{ aggregateId, version := e.version.getD (start + done.length), type := e.type, payload := e.payload }]
  | start, [] => by simp [numbered]
  | start, d :: done => by
    have h := numbered_concat aggregateId e (start + 1) done
    have hl : start + 1 + (done.length : Int) = start + ((d :: done).length : Int) := by
      simp only [length_cons, Nat.cast_add, Nat.cast_one]
      omega
    rw [cons_append, numbered, h, hl]
    rfl

theorem numbered_length (aggregateId : String) : ∀ (start : Int) (events : List (NewEvent J)),
    (numbered aggregateId start events).length = events.length
  | _, [] => rfl
  | start, _ :: events => by simp [numbered, numbered_length aggregateId (start + 1) events]

/-! ## The progress of an append -/

/-- The number of the first event. -/
def Append.start (a : Append J) : Int := a.found.getD (-1) + 1

/-- The version that was expected is the one that was found. -/
def Append.Met (a : Append J) : Prop := ∀ v, a.expectedVersion = some v → a.found = some v

/-- An append has stored its events from the first on, and its state says how many are left. -/
structure Progress (table : EventTable J) (i : Nat) (a : Append J) (done left : List (NewEvent J)) : Prop where
  split : a.events = done ++ left
  written : table.writtenBy i = numbered a.aggregateId a.start done
  arrived : a.arrived = none ↔ done = []
  checking : a.state = .checking → done = []
  inserting : ∀ n rest, a.state = .inserting n rest → rest = left ∧ n = a.start + done.length ∧ a.found.isSome ∧ a.Met
  resolved : a.state = .resolved → left = [] ∧ (a.events ≠ [] → a.Met)

/-- No version is there twice, a row comes from an append, and every append makes progress. -/
structure Sound (s : EventStore J) : Prop where
  nodup : (s.table.map fun row => (row.2.aggregateId, row.2.version)).Nodup
  known : ∀ row ∈ s.table, row.1 < s.appends.length
  progress : ∀ i a, s.appends[i]? = some a → ∃ done left, Progress s.table i a done left

variable {s : EventStore J} {a : Append J}

theorem Sound.put (hs : Sound s) {b : Append J} (hi : s.appends[i]? = some a)
    (hp : ∀ done left, Progress s.table i a done left → Progress s.table i b done left) : Sound (s.put i b) where
  nodup := hs.nodup
  known row hrow := by
    have := hs.known row hrow
    simpa [EventStore.put] using this
  progress j c hj := by
    rcases getElem?_set_cases hj with ⟨rfl, rfl⟩ | ⟨-, hj⟩
    · obtain ⟨done, left, h⟩ := hs.progress j a hi
      exact ⟨done, left, hp done left h⟩
    · exact hs.progress j c hj

variable {done left : List (NewEvent J)}

theorem Progress.grow (h : Progress table i a done left) {row : Nat × DomainEvent J} (hr : row.1 ≠ i) :
    Progress (table ++ [row]) i a done left where
  split := h.split
  written := by rw [writtenBy_concat, if_neg hr, append_nil, h.written]
  arrived := h.arrived
  checking := h.checking
  inserting := h.inserting
  resolved := h.resolved

/-- The row that an append stores with the number `n`. -/
def Append.row (a : Append J) (n : Int) (event : NewEvent J) : DomainEvent J :=
  { aggregateId := a.aggregateId, version := event.version.getD n, type := event.type, payload := event.payload }

/-- An append that has stored its next event. -/
def Append.advance (a : Append J) (table : EventTable J) (n : Int) (left : List (NewEvent J)) : Append J :=
  { a with
    state := if left.isEmpty then .resolved else .inserting (n + 1) left
    arrived := some (a.arrived.getD (table.currentVersion a.aggregateId)) }

variable {event : NewEvent J}

theorem insert_eq {n : Int} (hfree : event.version.getD n ∉ s.table.versions a.aggregateId) : s.insert i a n event left =
      { s.put i (a.advance s.table n left) with table := s.table ++ [(i, a.row n event)] } := by
  simp [EventStore.insert, EventTable.taken, hfree, Append.advance, Append.row]

theorem Progress.insert {n : Int} (h : Progress table i a done (event :: left)) (hs : a.state = .inserting n (event :: left)) :
    Progress (table ++ [(i, a.row n event)]) i (a.advance table n left) (done ++ [event]) left := by
  obtain ⟨-, hn, hfound, hmet⟩ := h.inserting n _ hs
  constructor
  · rw [append_assoc]
    exact h.split
  · rw [writtenBy_concat, if_pos rfl, h.written]
    show _ = numbered a.aggregateId a.start (done ++ [event])
    rw [numbered_concat, Append.row, hn]
  · simp [Append.advance]
  · intro hc
    cases left with
    | nil => cases hc
    | cons e left => cases hc
  · intro n' rest hi
    cases left with
    | nil => cases hi
    | cons e left =>
      cases hi
      refine ⟨rfl, ?_, hfound, hmet⟩
      show n + 1 = a.start + ((done ++ [event]).length : Int)
      rw [length_append, hn]
      simp only [length_singleton]
      omega
  · intro hr
    cases left with
    | nil => exact ⟨rfl, fun _ => hmet⟩
    | cons e left => cases hr

theorem Sound.step (hs : Sound s) (ev : AppendEvent J) : Sound (s.step ev) := by
  have hcase := step_cases s ev
  generalize s.step ev = s' at hcase
  cases hcase with
  | same => exact hs
  | called aggregateId events expectedVersion state hstate =>
    constructor
    · exact hs.nodup
    · intro row hrow
      have := hs.known row hrow
      simp only [length_append, length_singleton]
      omega
    · intro j b hj
      rcases Nat.lt_or_ge j s.appends.length with hlt | hge
      · rw [getElem?_append_left hlt] at hj
        exact hs.progress j b hj
      · -- the new append has no row
        obtain rfl : j = s.appends.length := by
          have := (lt_length hj)
          simp only [length_append, length_singleton] at this
          omega
        rw [getElem?_concat_length, Option.some.injEq] at hj
        subst hj
        refine ⟨[], events, rfl, writtenBy_nil hs.known, by simp, fun _ => rfl, ?_, ?_⟩
        · intro n rest hi
          rcases hstate with ⟨-, rfl⟩ | ⟨-, rfl⟩ <;> cases hi
        · intro hr
          rcases hstate with ⟨rfl, -⟩ | ⟨-, rfl⟩
          · exact ⟨rfl, fun h => absurd rfl h⟩
          · cases hr
  | rejected _ i a error found hi hf =>
    refine hs.put hi fun done left h => ?_
    refine ⟨h.split, ?_, h.arrived, fun hc => (by cases hc), fun n rest hc => (by cases hc), fun hc => (by cases hc)⟩
    rcases hf with rfl | hchecking
    · exact h.written
    · -- nothing is numbered yet
      have hw := h.written
      rw [h.checking hchecking] at hw ⊢
      exact hw
  | checked i a hi hstate hv =>
    refine hs.put hi fun done left h => ?_
    have hdone := h.checking hstate
    subst hdone
    refine ⟨h.split, h.written, h.arrived, fun _ => rfl, ?_, fun hc => by cases hc⟩
    rintro n rest ⟨⟩
    refine ⟨h.split, ?_, rfl, fun v hv' => ?_⟩
    · simp [Append.start]
    · exact congrArg some (hv v hv')
  | stored i a n event left hi hstate hfree =>
    rw [insert_eq hfree]
    obtain ⟨done, left', h⟩ := hs.progress i a hi
    obtain ⟨rfl, -⟩ := h.inserting n _ hstate
    have hlt : i < s.appends.length := (lt_length hi)
    constructor
    · simp only [map_append, map_singleton]
      rw [nodup_append]
      refine ⟨hs.nodup, nodup_singleton _, ?_⟩
      rintro p hp q hq rfl
      rw [mem_singleton] at hq
      subst hq
      exact hfree (mem_versions.2 hp)
    · intro row hrow
      simp only [EventStore.put, length_set]
      rcases mem_append.1 hrow with hrow | hrow
      · exact hs.known row hrow
      · rw [mem_singleton.1 hrow]
        exact hlt
    · intro j b hj
      rcases getElem?_set_cases hj with ⟨rfl, rfl⟩ | ⟨hne, hj⟩
      · exact ⟨_, _, h.insert hstate⟩
      · obtain ⟨done', left', h'⟩ := hs.progress j b hj
        exact ⟨done', left', h'.grow fun he => hne he.symm⟩

theorem sound_start : Sound ({} : EventStore J) where
  nodup := nodup_nil
  known row hrow := absurd hrow not_mem_nil
  progress i a hi := by cases hi

/-! ## Versions without gaps -/

/-- The store numbers the next event, or the event carries the number it would get. -/
def NextNumber (s : EventStore J) : AppendEvent J → Prop
  | .insert i _ => ∀ a n event left, s.appends[i]? = some a → a.state = .inserting n (event :: left) → event.version.getD n = n
  | _ => True

/-- The versions of an aggregate are those below a bound, from 0 on. -/
def Gapless (table : EventTable J) (aggregateId : String) (bound : Int) : Prop :=
  0 ≤ bound ∧ ∀ v, v ∈ table.versions aggregateId ↔ 0 ≤ v ∧ v < bound

theorem Gapless.currentVersion {aggregateId : String} {bound : Int}
    (h : Gapless table aggregateId bound) : table.currentVersion aggregateId = bound - 1 := by
  obtain ⟨hpos, hmem⟩ := h
  unfold EventTable.currentVersion
  cases hm : (table.versions aggregateId).max? with
  | none =>
    rw [max?_eq_none_iff] at hm
    have h0 := (hmem 0).not
    rw [hm] at h0
    have : ¬ (0 ≤ (0 : Int) ∧ 0 < bound) := h0.1 not_mem_nil
    simp only [Option.getD_none]
    omega
  | some v =>
    obtain ⟨hv, hle⟩ := max?_eq_some_iff.1 hm
    have hlt := (hmem v).1 hv
    have hlast := hle (bound - 1) ((hmem (bound - 1)).2 (by omega))
    simp only [Option.getD_some]
    omega

/-- The versions are without gaps, an append under way has all versions below its next number in front of
it, its events follow each other, and the first has come on the version that was found. -/
structure Contiguous (s : EventStore J) : Prop where
  gapless : ∀ aggregateId, ∃ bound, Gapless s.table aggregateId bound
  behind : ∀ (i : Nat) (a : Append J) n left, s.appends[i]? = some a → a.state = .inserting n left →
    0 ≤ n ∧ ∀ v, 0 ≤ v → v < n → v ∈ s.table.versions a.aggregateId
  adjacent : ∀ (i : Nat) (a : Append J), s.appends[i]? = some a → (s.table.writtenBy i).map (·.version) =
    (List.range (s.table.writtenBy i).length).map fun k : Nat => a.start + (k : Int)
  arrived : ∀ (i : Nat) (a : Append J) v, s.appends[i]? = some a → a.arrived = some v → a.found = some v

theorem Contiguous.put (hc : Contiguous s) {b : Append J} (hi : s.appends[i]? = some a)
    (hb : ∀ n left, b.state = .inserting n left → 0 ≤ n ∧ ∀ v, 0 ≤ v → v < n → v ∈ s.table.versions b.aggregateId)
    (hw : s.table.writtenBy i = [] ∨ b.start = a.start) (ha : ∀ v, b.arrived = some v → b.found = some v) :
    Contiguous (s.put i b) where
  gapless := hc.gapless
  behind j c n left hj hcs := by
    rcases getElem?_set_cases hj with ⟨rfl, rfl⟩ | ⟨-, hj⟩
    · exact hb n left hcs
    · exact hc.behind j c n left hj hcs
  adjacent j c hj := by
    rcases getElem?_set_cases hj with ⟨rfl, rfl⟩ | ⟨-, hj⟩
    · show (s.table.writtenBy j).map _ = (List.range (s.table.writtenBy j).length).map _
      rcases hw with hw | hw
      · rw [hw]
        rfl
      · rw [hw]
        exact hc.adjacent j a hi
    · exact hc.adjacent j c hj
  arrived j c v hj hv := by
    rcases getElem?_set_cases hj with ⟨rfl, rfl⟩ | ⟨-, hj⟩
    · exact ha v hv
    · exact hc.arrived j c v hj hv

theorem Progress.length (h : Progress table i a done left) : (table.writtenBy i).length = done.length := by
  rw [h.written, numbered_length]

theorem Contiguous.insert (hs : Sound s) (hc : Contiguous s) {n : Int} (hi : s.appends[i]? = some a)
    (hstate : a.state = .inserting n (event :: left)) (hfree : event.version.getD n ∉ s.table.versions a.aggregateId)
    (hnext : event.version.getD n = n) : Contiguous (s.insert i a n event left) := by
  rw [insert_eq hfree]
  rw [hnext] at hfree
  obtain ⟨done, left', h⟩ := hs.progress i a hi
  obtain ⟨-, hn, hfound, -⟩ := h.inserting n _ hstate
  obtain ⟨hn0, hbelow⟩ := hc.behind i a n _ hi hstate
  obtain ⟨bound, hb0, hbound⟩ := hc.gapless a.aggregateId
  -- everything below `n` is there and `n` is not, so `n` is the bound
  have hle : bound ≤ n := by
    by_contra hlt
    exact hfree ((hbound n).2 (by omega))
  have hge : n ≤ bound := by
    by_contra hlt
    have := (hbound bound).1 (hbelow bound hb0 (by omega))
    omega
  obtain rfl : n = bound := by omega
  have hmem : ∀ (aggregateId : String) (v : Int), v ∈ EventTable.versions (s.table ++ [(i, a.row n event)]) aggregateId ↔
        v ∈ s.table.versions aggregateId ∨ a.aggregateId = aggregateId ∧ v = n := by
    intro aggregateId v
    by_cases ha : a.aggregateId = aggregateId <;> simp [Append.row, ha, hnext]
  constructor
  · intro aggregateId
    by_cases ha : a.aggregateId = aggregateId
    · subst ha
      refine ⟨n + 1, by omega, fun v => ?_⟩
      rw [hmem, hbound v]
      constructor
      · rintro (hv | ⟨-, rfl⟩) <;> omega
      · intro hv
        by_cases hvn : v = n
        · exact .inr ⟨rfl, hvn⟩
        · exact .inl (by omega)
    · obtain ⟨bound', hb', hbound'⟩ := hc.gapless aggregateId
      refine ⟨bound', hb', fun v => ?_⟩
      rw [hmem, hbound' v]
      simp [ha]
  · intro j b n' rest hj hb
    rcases getElem?_set_cases hj with ⟨rfl, rfl⟩ | ⟨-, hj⟩
    · have hn' : n' = n + 1 := by
        cases left with
        | nil => cases hb
        | cons e left => cases hb; rfl
      refine ⟨by omega, fun v hv hlt => (hmem _ v).2 ?_⟩
      by_cases hvn : v = n
      · exact .inr ⟨rfl, hvn⟩
      · exact .inl (hbelow v hv (by omega))
    · obtain ⟨h0, hall⟩ := hc.behind j b n' rest hj hb
      exact ⟨h0, fun v hv hlt => (hmem _ v).2 (.inl (hall v hv hlt))⟩
  · intro j b hj
    rcases getElem?_set_cases hj with ⟨rfl, rfl⟩ | ⟨hne, hj⟩
    · have hw : EventTable.writtenBy (s.table ++ [(j, a.row n event)]) j = s.table.writtenBy j ++ [a.row n event] := by
        rw [writtenBy_concat, if_pos rfl]
      rw [hw, map_append, hc.adjacent j a hi, length_append, length_singleton, range_succ, map_append]
      refine congrArg₂ _ rfl ?_
      show [(a.row n event).version] = [a.start + ((s.table.writtenBy j).length : Int)]
      rw [h.length, ← hn, Append.row, hnext]
    · have hw : EventTable.writtenBy (s.table ++ [(i, a.row n event)]) j = s.table.writtenBy j := by
        rw [writtenBy_concat, if_neg fun he : i = j => hne he.symm, append_nil]
      rw [hw]
      exact hc.adjacent j b hj
  · intro j b v hj hv
    rcases getElem?_set_cases hj with ⟨rfl, rfl⟩ | ⟨-, hj⟩
    · show a.found = some v
      have hv' : a.arrived.getD (s.table.currentVersion a.aggregateId) = v := Option.some.inj hv
      cases harr : a.arrived with
      | some w =>
        rw [harr, Option.getD_some] at hv'
        exact hv' ▸ hc.arrived j a w hi harr
      | none =>
        -- the first event: its number is one more than what was found, and the bound of the table
        rw [harr, Option.getD_none, Gapless.currentVersion ⟨hb0, hbound⟩] at hv'
        have hdone := h.arrived.1 harr
        obtain ⟨w, hw⟩ := Option.isSome_iff_exists.1 hfound
        rw [hdone, Append.start, hw] at hn
        simp only [Option.getD_some, length_nil, Nat.cast_zero] at hn
        rw [hw]
        exact congrArg some (by omega)
    · exact hc.arrived j b v hj hv

theorem Contiguous.step (hs : Sound s) (hc : Contiguous s) {ev : AppendEvent J} (hg : NextNumber s ev) : Contiguous (s.step ev) := by
  have hcase := step_cases s ev
  generalize s.step ev = s' at hcase
  cases hcase with
  | same => exact hc
  | called aggregateId events expectedVersion state hstate =>
    have hold : ∀ {j : Nat} {b : Append J}, (s.appends ++ [({ aggregateId, events, expectedVersion, state } : Append J)])[j]? = some b →
          s.appends[j]? = some b ∨ j = s.appends.length ∧ b = { aggregateId, events, expectedVersion, state } := by
      intro j b hj
      rcases Nat.lt_or_ge j s.appends.length with hlt | hge
      · rw [getElem?_append_left hlt] at hj
        exact .inl hj
      · obtain rfl : j = s.appends.length := by
          have := (lt_length hj)
          simp only [length_append, length_singleton] at this
          omega
        rw [getElem?_concat_length, Option.some.injEq] at hj
        exact .inr ⟨rfl, hj.symm⟩
    constructor
    · exact hc.gapless
    · intro j b n left hj hb
      rcases hold hj with hj | ⟨-, rfl⟩
      · exact hc.behind j b n left hj hb
      · rcases hstate with ⟨-, rfl⟩ | ⟨-, rfl⟩ <;> cases hb
    · intro j b hj
      rcases hold hj with hj | ⟨rfl, rfl⟩
      · exact hc.adjacent j b hj
      · simp only [writtenBy_nil hs.known]
        rfl
    · intro j b v hj hv
      rcases hold hj with hj | ⟨-, rfl⟩
      · exact hc.arrived j b v hj hv
      · cases hv
  | rejected _ i a error found hi hf =>
    obtain ⟨done, left, h⟩ := hs.progress i a hi
    have hempty : a.state = .checking → s.table.writtenBy i = [] ∧ a.arrived = none := by
      intro hchecking
      have hdone := h.checking hchecking
      refine ⟨?_, h.arrived.2 hdone⟩
      rw [h.written, hdone]
      rfl
    apply hc.put hi
    · intro n rest hb
      cases hb
    · rcases hf with rfl | hchecking
      · exact .inr rfl
      · exact .inl (hempty hchecking).1
    · intro v hv
      rcases hf with rfl | hchecking
      · exact hc.arrived i a v hi hv
      · rw [show a.arrived = some v from hv] at hempty
        cases (hempty hchecking).2
  | checked i a hi hstate hv =>
    obtain ⟨done, left, h⟩ := hs.progress i a hi
    have hdone := h.checking hstate
    obtain ⟨bound, hbound⟩ := hc.gapless a.aggregateId
    have hcurrent := hbound.currentVersion
    apply hc.put hi
    · rintro n rest ⟨⟩
      have hpos := hbound.1
      exact ⟨by omega, fun v hv0 hlt => (hbound.2 v).2 ⟨hv0, by omega⟩⟩
    · left
      rw [h.written, hdone]
      rfl
    · intro v harr
      have hsome : a.arrived = some v := harr
      rw [h.arrived.2 hdone] at hsome
      cases hsome
  | stored i a n event left hi hstate hfree =>
    exact hc.insert hs hi hstate hfree (hg a n event left hi hstate)

theorem contiguous_start : Contiguous ({} : EventStore J) where
  gapless aggregateId := ⟨0, Int.le_refl 0, fun v => by simp [EventTable.versions]⟩
  behind i a n left hi := by cases hi
  adjacent i a hi := by cases hi
  arrived i a v hi := by cases hi

/-! ## Runs -/

/-- Every version once; an append that succeeds has stored its events in order, under consecutive numbers
or the versions they carry; and its check, if it has events and expects a version, has found that one. -/
structure AppendContract (s : EventStore J) : Prop where
  once : (s.table.map fun row => (row.2.aggregateId, row.2.version)).Nodup
  stored : ∀ (i : Nat) (a : Append J), s.appends[i]? = some a → a.state = .resolved →
    ∃ start, s.table.writtenBy i = numbered a.aggregateId start a.events
  expected : ∀ (i : Nat) (a : Append J) v, s.appends[i]? = some a → a.state = .resolved → a.events ≠ [] →
    a.expectedVersion = some v → a.found = some v

/-- The versions of an aggregate are those from 0 to a bound; the events of an append are adjacent; and one
that succeeds has come on the version it expects. -/
structure NumberedContract (s : EventStore J) : Prop where
  contiguous : ∀ aggregateId, ∃ bound, Gapless s.table aggregateId bound
  adjacent : ∀ (i : Nat) (a : Append J), s.appends[i]? = some a → ∃ start : Int,
    (s.table.writtenBy i).map (·.version) = (List.range (s.table.writtenBy i).length).map fun k : Nat => start + (k : Int)
  exact : ∀ (i : Nat) (a : Append J) v, s.appends[i]? = some a → a.state = .resolved → a.events ≠ [] →
    a.expectedVersion = some v → a.arrived = some v

theorem Sound.contract (hs : Sound s) : AppendContract s where
  once := hs.nodup
  stored i a hi hr := by
    obtain ⟨done, left, h⟩ := hs.progress i a hi
    obtain ⟨rfl, -⟩ := h.resolved hr
    have hsplit := h.split
    rw [append_nil] at hsplit
    exact ⟨a.start, hsplit ▸ h.written⟩
  expected i a v hi hr hne hv := by
    obtain ⟨done, left, h⟩ := hs.progress i a hi
    exact (h.resolved hr).2 hne v hv

theorem Contiguous.contract (hs : Sound s) (hc : Contiguous s) : NumberedContract s where
  contiguous := hc.gapless
  adjacent i a hi := ⟨a.start, hc.adjacent i a hi⟩
  exact i a v hi hr hne hv := by
    obtain ⟨done, left, h⟩ := hs.progress i a hi
    have hfound := hs.contract.expected i a v hi hr hne hv
    cases harr : a.arrived with
    | none =>
      -- nothing stored, nothing left: there were no events
      obtain ⟨rfl, -⟩ := h.resolved hr
      have hdone := h.arrived.1 harr
      rw [hdone] at h
      exact absurd h.split hne
    | some w =>
      have := hc.arrived i a w hi harr
      rw [hfound] at this
      exact this.symm

theorem AppendContract.load (h : AppendContract s) (aggregateId : String) (fromVersion : Int) :
    (s.table.load aggregateId fromVersion).Pairwise fun a b => a.version < b.version := by
  set events := (s.table.map (·.2)).filter fun e => e.aggregateId = aggregateId ∧ fromVersion ≤ e.version with hevents
  have hsorted : (events.mergeSort fun a b => a.version ≤ b.version).Pairwise fun a b => a.version ≤ b.version := by
    have := @pairwise_mergeSort _ (fun a b : DomainEvent J => decide (a.version ≤ b.version))
      (by simp only [decide_eq_true_eq]; omega) (by simp only [Bool.or_eq_true, decide_eq_true_eq]; omega) events
    exact this.imp fun h => by simpa using h
  have hdistinct : events.Pairwise fun a b => a.version ≠ b.version := by
    have honce : (s.table.map (·.2)).Pairwise fun a b => (a.aggregateId, a.version) ≠ (b.aggregateId, b.version) := by
      have := h.once
      rw [List.Nodup, pairwise_map] at this
      exact pairwise_map.2 this
    have hfilter : events.Pairwise fun a b => (a.aggregateId, a.version) ≠ (b.aggregateId, b.version) :=
      honce.sublist filter_sublist
    refine hfilter.imp_of_mem fun {a b} ha hb hne hv => hne ?_
    have hida := (mem_filter.1 ha).2
    have hidb := (mem_filter.1 hb).2
    simp only [decide_eq_true_eq] at hida hidb
    rw [hida.1, hidb.1, hv]
  have hperm : (events.mergeSort fun a b => a.version ≤ b.version).Pairwise fun a b => a.version ≠ b.version :=
    (mergeSort_perm events _).symm.pairwise hdistinct fun h => h.symm
  exact hsorted.imp₂ (fun a b hle hne => by omega) hperm

/-- Whatever appends are under way, an aggregate is loaded under rising versions. -/
theorem load_rising (es : List (AppendEvent J)) (aggregateId : String) (fromVersion : Int) :
    ((run EventStore.step {} es).table.load aggregateId fromVersion).Pairwise fun a b => a.version < b.version := by
  have hsound : Sound (run EventStore.step ({} : EventStore J) es) :=
    run_invariant EventStore.step (fun s ev hs => hs.step ev) es sound_start
  exact hsound.contract.load aggregateId fromVersion

/-- Over every interleaving of appends, with statements that fail at any point: no version is there twice,
an append that succeeds has stored its events in order, after a check that has found the version it expects.
Where every event takes the number that is next, the versions of an aggregate have no gap from 0 on, the
events of an append are adjacent, and one that succeeds has come on the version it expects. -/
theorem append_contract (es : List (AppendEvent J)) : AppendContract (run EventStore.step {} es) ∧
      (Guarded EventStore.step NextNumber {} es → NumberedContract (run EventStore.step {} es)) := by
  have hsound : Sound (run EventStore.step ({} : EventStore J) es) :=
    run_invariant EventStore.step (fun s ev hs => hs.step ev) es sound_start
  refine ⟨hsound.contract, fun hg => Contiguous.contract hsound ?_⟩
  have hstep : ∀ (s : EventStore J) ev, Sound s ∧ Contiguous s → NextNumber s ev → Sound (s.step ev) ∧ Contiguous (s.step ev) := by
    rintro s ev ⟨hs, hc⟩ hg
    exact ⟨hs.step ev, hc.step hs hg⟩
  exact (run_invariant_of_guarded EventStore.step hstep es hg ⟨sound_start, contiguous_start⟩).2

/-- An event that the store numbers. -/
def unnumbered (type : String) : NewEvent Unit := { type, payload := () }

/-- Two appends one after the other, the second on the version that the first leaves. -/
def inTurn : List (AppendEvent Unit) :=
  [.append "user-1" [unnumbered "UserCreated", unnumbered "UserUpdated"] none, .append "user-1" [unnumbered "UserDeleted"] (some 1),
    .check 0 false, .insert 0 false, .insert 0 false, .check 1 false, .insert 1 false]

theorem append_contract_inTurn : AppendContract (run EventStore.step {} inTurn) ∧ NumberedContract (run EventStore.step {} inTurn) := by
  have hg : Guarded EventStore.step NextNumber {} inTurn := by
    refine ⟨trivial, trivial, trivial, ?_, ?_, trivial, ?_, trivial⟩
    · rintro a n event left ⟨⟩ ⟨⟩
      rfl
    · rintro a n event left ⟨⟩ ⟨⟩
      rfl
    · rintro a n event left ⟨⟩ ⟨⟩
      rfl
  exact ⟨(append_contract inTurn).1, (append_contract inTurn).2 hg⟩

/-- An append that fails has stored nothing. -/
def AllOrNone (s : EventStore J) : Prop :=
  ∀ (i : Nat) (a : Append J) error, s.appends[i]? = some a → a.state = .rejected error → s.table.writtenBy i = []

/-- The versions of every aggregate are those from 1 to a bound. -/
def ContiguousFromOne (s : EventStore J) : Prop :=
  ∀ aggregateId, ∃ bound : Int, ∀ v, v ∈ s.table.versions aggregateId ↔ 1 ≤ v ∧ v ≤ bound

/-- An append that succeeds has found the version it expects. -/
def FoundExpected (s : EventStore J) : Prop :=
  ∀ (i : Nat) (a : Append J) v, s.appends[i]? = some a → a.state = .resolved → a.expectedVersion = some v → a.found = some v

/-- The second append takes the number of the first one's second event. -/
def overtaken : List (AppendEvent Unit) :=
  [.append "user-1" [unnumbered "UserCreated", unnumbered "UserUpdated"] none, .append "user-1" [unnumbered "UserDeleted"] none,
    .check 0 false, .insert 0 false, .check 1 false, .insert 1 false, .insert 0 false]

/-- The caller numbers its events. -/
def ownNumbers (versions : List Int) : List (AppendEvent Unit) :=
  .append "user-1" (versions.map fun v => { version := some v, type := "UserUpdated", payload := () }) none ::
    .check 0 false :: versions.map fun _ => .insert 0 false

/-- An append that is overtaken leaves its first event; the store numbers from 0 on, and takes the numbers
of a caller as they are; and without events no version is checked. -/
theorem append_counterexample :
    ¬ AllOrNone (run EventStore.step {} overtaken) ∧ ¬ ContiguousFromOne (run EventStore.step {} (inTurn.take 4)) ∧
      ¬ ContiguousFromOne (run EventStore.step {} (ownNumbers [1, 3])) ∧
      ¬ FoundExpected (run EventStore.step {} ([.append "user-1" [] (some 7)] : List (AppendEvent Unit))) := by
  refine ⟨fun h => ?_, fun h => ?_, fun h => ?_, fun h => ?_⟩
  · exact absurd (h 0 _ .query rfl rfl) (by decide)
  · obtain ⟨bound, hb⟩ := h "user-1"
    have := ((hb 0).1 (by decide)).1
    omega
  · obtain ⟨bound, hb⟩ := h "user-1"
    have h3 := (hb 3).1 (by decide)
    exact absurd ((hb 2).2 (by omega)) (by decide)
  · cases h 0 _ 7 rfl rfl rfl

end StreetJS.Microservices
