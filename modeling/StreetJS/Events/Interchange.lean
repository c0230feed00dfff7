/-
What the three stores make of one sequence of calls. They hold the same events, and `read` and `count` agree on a
filter where its limit does not cut and no event it selects has a text that PostgreSQL refuses.
-/
import StreetJS.Events.Stores
import Mathlib.Data.List.Induction
import Mathlib.Data.List.TakeWhile

namespace StreetJS.Events

open StreetJS.Lib List

/-! ## The events that were appended -/

/-- What was appended since the last `clear`. -/
def appended (ops : List Operation) : List EventEnvelope :=
  ops.foldl (fun es op => match op with
    | .append envelope => es ++ [envelope]
    | .clear => []) []

def Operation.id? : Operation → Option String
  | .append envelope => some envelope.id
  | .clear => none

def UniqueIds (ops : List Operation) : Prop := (ops.filterMap Operation.id?).Nodup

instance (ops : List Operation) : Decidable (UniqueIds ops) := inferInstanceAs (Decidable (List.Nodup _))

variable (e : EventEnvelope)

/-- PostgreSQL takes every text of the event. -/
def storable : Bool :=
  noNul e.id && noNul e.name && e.payload.texts noNul && (Json.obj e.metadata).texts noNul

/-- An event without the order of the fields of its objects. -/
def EventEnvelope.canonical : EventEnvelope :=
  { e with
    payload := e.payload.canonical
    metadata := sortOn Json.keyOrder (Json.canonicalFields e.metadata) }

theorem appended_append (ops : List Operation) (e : EventEnvelope) : appended (ops ++ [.append e]) = appended ops ++ [e] := by
  rw [appended, foldl_append]
  rfl

theorem appended_clear (ops : List Operation) : appended (ops ++ [.clear]) = [] := by
  rw [appended, foldl_append]
  rfl

theorem id_mem_of_appended {ops : List Operation} {e : EventEnvelope} (he : e ∈ appended ops) : e.id ∈ ops.filterMap Operation.id? := by
  induction ops using List.reverseRecOn with
  | nil => exact absurd he not_mem_nil
  | append_singleton ops op ih =>
    rw [filterMap_append, mem_append]
    cases op with
    | append e' =>
      rw [appended_append, mem_append] at he
      rcases he with he | he
      · exact .inl (ih he)
      · rw [mem_singleton.1 he]
        exact .inr (mem_singleton.2 rfl)
    | clear =>
      rw [appended_clear] at he
      exact absurd he not_mem_nil

theorem canonical_canonical : e.canonical.canonical = e.canonical := by
  unfold EventEnvelope.canonical
  rw [Json.canonical_canonical, Json.canonicalFields_sortOn, Json.canonicalFields_canonicalFields,
    sortOn_of_pairwise Json.keyOrder _ (sortOn_pairwise Json.keyOrder _)]

theorem matchesFilter_canonical (filter : Option ReplayFilter) : matchesFilter e.canonical filter = matchesFilter e filter := by
  cases filter <;> rfl

/-! ## One event -/

/-- **An envelope is read back from its text.** -/
theorem safeParse_stringify : RedisEventStore.safeParse (RedisEventStore.toJson e).stringify = some e := by
  rw [RedisEventStore.safeParse, Json.parse_stringify, Option.bind_some]
  simp [RedisEventStore.toJson, RedisEventStore.ofJson, RedisEventStore.field]

theorem toJson_stringify_injective {e e' : EventEnvelope}
    (h : (RedisEventStore.toJson e).stringify = (RedisEventStore.toJson e').stringify) : e = e' := by
  have hparse := safeParse_stringify e
  rw [h, safeParse_stringify] at hparse
  exact (Option.some.inj hparse).symm

theorem zadd_of_not_mem {log : List (Nat × List Json.Token)} {score : Nat} {member : List Json.Token}
    (hmember : member ∉ log.map Prod.snd) (hscore : ∀ entry ∈ log, entry.1 ≤ score) :
    RedisEventStore.zadd log score member = log ++ [(score, member)] := by
  have hfilter : (log.filter fun entry => entry.2 ≠ member) = log := by
    refine filter_eq_self.2 fun entry hentry => decide_eq_true fun heq => hmember ?_
    exact heq ▸ mem_map_of_mem hentry
  have htake : (log.takeWhile fun entry => entry.1 ≤ score) = log :=
    takeWhile_eq_self_iff.2 fun entry hentry => decide_eq_true (hscore entry hentry)
  have hdrop : (log.dropWhile fun entry => entry.1 ≤ score) = [] :=
    dropWhile_eq_nil_iff.2 fun entry hentry => decide_eq_true (hscore entry hentry)
  unfold RedisEventStore.zadd
  dsimp only
  rw [hfilter, htake, hdrop]

/-- The row of an event. -/
def rowOf (storeSeq : Nat) (e : EventEnvelope) : Row :=
  ⟨storeSeq, e.id, e.name, e.payload.canonical, e.timestamp, e.seq, (Json.obj e.metadata).canonical⟩

/-- A row without its number. -/
def Row.bare (row : Row) : Row := { row with storeSeq := 0 }

theorem jsonb_stringify (v : Json) : jsonb v.stringify = if v.texts noNul then some v.canonical else none := by
  rw [jsonb, Json.parse_stringify, Option.bind_some]

theorem insert_of_storable (s : PostgresEventStore) {e : EventEnvelope} (h : storable e = true) :
    s.append e = ⟨s.nextSeq + 1, s.rows ++ [rowOf s.nextSeq e]⟩ := by
  simp only [storable, Bool.and_eq_true] at h
  obtain ⟨⟨⟨hid, hname⟩, hpayload⟩, hmetadata⟩ := h
  unfold PostgresEventStore.append
  rw [jsonb_stringify, jsonb_stringify, if_pos hpayload, if_pos hmetadata]
  dsimp only
  rw [if_pos ⟨hid, hname⟩]
  rfl

theorem insert_of_not_storable (s : PostgresEventStore) {e : EventEnvelope} (h : storable e = false) : s.append e = s := by
  unfold PostgresEventStore.append
  rw [jsonb_stringify, jsonb_stringify]
  split
  · next hpayload hmetadata =>
    rw [ite_eq_iff] at hpayload hmetadata
    have htexts : e.payload.texts noNul = true := by
      rcases hpayload with ⟨htexts, -⟩ | ⟨-, hnone⟩
      · exact htexts
      · cases hnone
    have htexts' : (Json.obj e.metadata).texts noNul = true := by
      rcases hmetadata with ⟨htexts, -⟩ | ⟨-, hnone⟩
      · exact htexts
      · cases hnone
    refine if_neg fun ⟨hid, hname⟩ => ?_
    rw [storable, hid, hname, htexts, htexts'] at h
    cases h
  · rfl

theorem rowToEnvelope_rowOf (n : Nat) (e : EventEnvelope) : PostgresEventStore.rowToEnvelope (rowOf n e) = some e.canonical := by
  unfold PostgresEventStore.rowToEnvelope rowOf
  rw [Json.parse_stringify, Json.parse_stringify]
  rfl

/-! ## The stores along a sequence of calls -/

structure Holds (s : Stores) (es : List EventEnvelope) : Prop where
  memory : s.memory.events = es
  members : s.redis.log.map Prod.snd = es.map fun e => (RedisEventStore.toJson e).stringify
  scores : ∀ entry ∈ s.redis.log, entry.1 ≤ s.redis.seq
  rows : s.postgres.rows.map Row.bare = (es.filter storable).map (rowOf 0)
  numbered : s.postgres.rows.Pairwise fun row row' => row.storeSeq < row'.storeSeq
  next : ∀ row ∈ s.postgres.rows, row.storeSeq < s.postgres.nextSeq

theorem holds_initial : Holds initial [] :=
  ⟨rfl, rfl, fun _ hentry => absurd hentry not_mem_nil, rfl, List.Pairwise.nil, fun _ hrow => absurd hrow not_mem_nil⟩

namespace Holds

variable {s : Stores} {es : List EventEnvelope}

theorem append (h : Holds s es) {e : EventEnvelope} (hnew : e.id ∉ es.map EventEnvelope.id) : Holds (step s (.append e)) (es ++ [e]) := by
  have hmember : (RedisEventStore.toJson e).stringify ∉ s.redis.log.map Prod.snd := by
    rw [h.members]
    intro hmem
    obtain ⟨e', he', heq⟩ := mem_map.1 hmem
    exact hnew (toJson_stringify_injective heq ▸ mem_map_of_mem he')
  have hlog : (step s (.append e)).redis.log = s.redis.log ++ [(s.redis.seq + 1, (RedisEventStore.toJson e).stringify)] :=
    zadd_of_not_mem hmember fun entry hentry => Nat.le_succ_of_le (h.scores entry hentry)
  have hpostgres : ((step s (.append e)).postgres.rows.map Row.bare = ((es ++ [e]).filter storable).map (rowOf 0)) ∧
      ((step s (.append e)).postgres.rows.Pairwise fun row row' => row.storeSeq < row'.storeSeq) ∧
        ∀ row ∈ (step s (.append e)).postgres.rows, row.storeSeq < (step s (.append e)).postgres.nextSeq := by
    rw [show (step s (.append e)).postgres = s.postgres.append e from rfl]
    cases hstorable : storable e with
    | true =>
      rw [insert_of_storable _ hstorable]
      refine ⟨?_, ?_, ?_⟩
      · rw [map_append, h.rows, filter_append, map_append, filter_cons_of_pos hstorable]
        rfl
      · rw [pairwise_append]
        refine ⟨h.numbered, pairwise_singleton _ _, fun row hrow row' hrow' => ?_⟩
        rw [mem_singleton.1 hrow']
        exact h.next row hrow
      · intro row hrow
        rcases mem_append.1 hrow with hrow | hrow
        · exact Nat.lt_succ_of_lt (h.next row hrow)
        · rw [mem_singleton.1 hrow]
          exact Nat.lt_succ_self _
    | false =>
      rw [insert_of_not_storable _ hstorable]
      refine ⟨?_, h.numbered, h.next⟩
      rw [h.rows, filter_append, filter_cons_of_neg (by rw [hstorable]; exact Bool.false_ne_true), filter_nil, append_nil]
  refine ⟨?_, ?_, ?_, hpostgres.1, hpostgres.2.1, hpostgres.2.2⟩
  · exact congrArg (· ++ [e]) h.memory
  · rw [hlog, map_append, h.members, map_append]
    rfl
  · intro entry hentry
    rw [hlog] at hentry
    rcases mem_append.1 hentry with hentry | hentry
    · exact Nat.le_succ_of_le (h.scores entry hentry)
    · rw [mem_singleton.1 hentry]
      exact le_rfl

theorem clear (s : Stores) : Holds (step s .clear) [] :=
  ⟨rfl, rfl, fun _ hentry => absurd hentry not_mem_nil, rfl, List.Pairwise.nil, fun _ hrow => absurd hrow not_mem_nil⟩

theorem run {ops : List Operation} (hids : UniqueIds ops) : Holds (run step initial ops) (appended ops) := by
  induction ops using List.reverseRecOn with
  | nil => exact holds_initial
  | append_singleton ops op ih =>
    rw [UniqueIds, filterMap_append, nodup_append] at hids
    obtain ⟨hold, -, hapart⟩ := hids
    rw [run_concat]
    cases op with
    | append e =>
      rw [appended_append]
      refine (ih hold).append fun hmem => ?_
      obtain ⟨e', he', heq⟩ := mem_map.1 hmem
      exact hapart _ (id_mem_of_appended he') e.id (mem_singleton.2 rfl) heq
    | clear =>
      rw [appended_clear]
      exact clear _

/-! ### What is read -/

theorem memory_read (h : Holds s es) (filter : Option ReplayFilter) :
    s.memory.read filter = limited filter (sortOn EventEnvelope.seq (es.filter fun e => matchesFilter e filter)) := by
  rw [MemoryEventStore.read, MemoryEventStore.select, h.memory]

theorem parsed (h : Holds s es) : (s.redis.log.map Prod.snd).filterMap RedisEventStore.safeParse = es := by
  rw [h.members, filterMap_map]
  have hsome : RedisEventStore.safeParse ∘ (fun e => (RedisEventStore.toJson e).stringify) = some := by
    funext e
    exact safeParse_stringify e
  rw [hsome, filterMap_some]

theorem redis_read (h : Holds s es) (filter : Option ReplayFilter) :
    s.redis.read filter = limited filter (sortOn EventEnvelope.seq (es.filter fun e => matchesFilter e filter)) := by
  rw [RedisEventStore.read, h.parsed]

theorem limited_map {filter : Option ReplayFilter} (l : List EventEnvelope) (f : EventEnvelope → EventEnvelope) :
    limited filter (l.map f) = (limited filter l).map f := by
  unfold limited
  split
  · split
    · exact map_take.symm
    · rfl
  · rfl

theorem postgres_read (h : Holds s es) (filter : Option ReplayFilter) : s.postgres.read filter = (limited filter (sortOn EventEnvelope.seq
      ((es.filter storable).filter fun e => matchesFilter e filter))).map EventEnvelope.canonical := by
  have hordered : (sortOn (fun row => toLex (row.seq, row.storeSeq)) s.postgres.rows).filterMap
      PostgresEventStore.rowToEnvelope = (sortOn EventEnvelope.seq (es.filter storable)).map EventEnvelope.canonical := by
    rw [sortOn_lex Row.seq Row.storeSeq _ (h.numbered.imp le_of_lt)]
    have hbare : (sortOn Row.seq s.postgres.rows).map Row.bare = (sortOn EventEnvelope.seq (es.filter storable)).map (rowOf 0) := by
      rw [← sortOn_map Row.seq Row.seq Row.bare (fun _ => rfl), h.rows, sortOn_map EventEnvelope.seq Row.seq]
      exact fun _ => rfl
    have hfilterMap : (sortOn Row.seq s.postgres.rows).filterMap PostgresEventStore.rowToEnvelope =
        ((sortOn Row.seq s.postgres.rows).map Row.bare).filterMap PostgresEventStore.rowToEnvelope := by
      rw [filterMap_map]
      rfl
    rw [hfilterMap, hbare, filterMap_map]
    have hsome : PostgresEventStore.rowToEnvelope ∘ rowOf 0 = some ∘ EventEnvelope.canonical := by
      funext e
      exact rowToEnvelope_rowOf 0 e
    rw [hsome, ← filterMap_map, filterMap_some]
  rw [PostgresEventStore.read, hordered, filter_map, limited_map, sortOn_filter _ (es.filter storable)]
  have hmatches : ((fun e => matchesFilter e filter) ∘ EventEnvelope.canonical) = fun e => matchesFilter e filter := by
    funext e
    exact matchesFilter_canonical e filter
  rw [hmatches]

end Holds

/-! ## Interchange -/

/-- The same events in the same order, and the same number. -/
structure Interchangeable (s : Stores) (filter : Option ReplayFilter) : Prop where
  redisRead : (s.redis.read filter).map EventEnvelope.canonical = (s.memory.read filter).map EventEnvelope.canonical
  postgresRead : (s.postgres.read filter).map EventEnvelope.canonical = (s.memory.read filter).map EventEnvelope.canonical
  redisCount : s.redis.count filter = s.memory.count filter
  postgresCount : s.postgres.count filter = s.memory.count filter

/-- The limit lets all of the events through. -/
def Uncut (filter : Option ReplayFilter) (n : Nat) : Prop :=
  ∀ limit, filter.bind ReplayFilter.limit = some limit → 0 ≤ limit → n ≤ limit.floor.toNat

theorem limited_of_uncut {filter : Option ReplayFilter} {l : List EventEnvelope} (h : Uncut filter l.length) : limited filter l = l := by
  unfold limited
  split
  · next limit hlimit =>
    split
    · next hpos => exact take_of_length_le (h limit hlimit hpos)
    · rfl
  · rfl

theorem uncut_of_length {filter : Option ReplayFilter} {l : List EventEnvelope} (h : (limited filter l).length = l.length) :
    Uncut filter l.length := by
  intro limit hlimit hpos
  unfold limited at h
  rw [hlimit] at h
  dsimp only at h
  rw [if_pos hpos, length_take] at h
  omega

theorem length_limited_le (filter : Option ReplayFilter) (l : List EventEnvelope) : (limited filter l).length ≤ l.length := by
  unfold limited
  split
  · split
    · exact length_take_le' _ _
    · exact le_rfl
  · exact le_rfl

/-- What the filter selects of what was appended. -/
def selected (ops : List Operation) (filter : Option ReplayFilter) : List EventEnvelope :=
  (appended ops).filter fun e => matchesFilter e filter

section

variable {ops : List Operation} {filter : Option ReplayFilter}

theorem memory_count (hids : UniqueIds ops) : (run step initial ops).memory.count filter = (selected ops filter).length := by
  rw [MemoryEventStore.count, MemoryEventStore.select, (Holds.run hids).memory, selected]

theorem filter_storable_filter : ((appended ops).filter storable).filter (fun e => matchesFilter e filter) =
    (selected ops filter).filter storable := by
  rw [selected, filter_filter, filter_filter]
  simp only [Bool.and_comm]

/-- `MemoryEventStore.count` does not look at the limit. -/
theorem Interchangeable.uncut (hids : UniqueIds ops) (h : Interchangeable (run step initial ops) filter) :
    Uncut filter (selected ops filter).length := by
  cases filter with
  | none => exact fun _ hlimit => nomatch hlimit
  | some filter =>
    have hlength := length_sortOn EventEnvelope.seq (selected ops (some filter))
    have hcount := h.redisCount
    rw [memory_count hids, RedisEventStore.count, (Holds.run hids).redis_read] at hcount
    exact hlength ▸ uncut_of_length (hcount.trans hlength.symm)

/-- An event that PostgreSQL does not take is missing from its count. -/
theorem Interchangeable.storable (hids : UniqueIds ops) (h : Interchangeable (run step initial ops) filter) :
    ∀ e ∈ appended ops, matchesFilter e filter = true → storable e = true := by
  intro e he hmatches
  have hcount := h.postgresCount
  rw [memory_count hids, PostgresEventStore.count, (Holds.run hids).postgres_read, length_map, filter_storable_filter] at hcount
  have hle := length_limited_le filter (sortOn EventEnvelope.seq ((selected ops filter).filter Events.storable))
  rw [hcount, length_sortOn] at hle
  have hall := length_filter_eq_length_iff.1 (le_antisymm (length_filter_le _ _) hle)
  exact hall e (mem_filter.2 ⟨he, hmatches⟩)

theorem interchangeable_of (hids : UniqueIds ops) (huncut : Uncut filter (selected ops filter).length)
    (hstorable : ∀ e ∈ appended ops, matchesFilter e filter = true → storable e = true) :
    Interchangeable (run step initial ops) filter := by
  have h := Holds.run hids
  have hlength := length_sortOn EventEnvelope.seq (selected ops filter)
  have hall : (selected ops filter).filter storable = selected ops filter :=
    filter_eq_self.2 fun e he => hstorable e (mem_filter.1 he).1 (mem_filter.1 he).2
  have huncut' : Uncut filter (sortOn EventEnvelope.seq (selected ops filter)).length := hlength ▸ huncut
  have hmemory : (run step initial ops).memory.read filter = sortOn EventEnvelope.seq (selected ops filter) :=
    (h.memory_read filter).trans (limited_of_uncut huncut')
  have hredis : (run step initial ops).redis.read filter = sortOn EventEnvelope.seq (selected ops filter) :=
    (h.redis_read filter).trans (limited_of_uncut huncut')
  have hpostgres : (run step initial ops).postgres.read filter =
      (sortOn EventEnvelope.seq (selected ops filter)).map EventEnvelope.canonical := by
    rw [h.postgres_read, filter_storable_filter, hall, limited_of_uncut huncut']
  refine ⟨?_, ?_, ?_, ?_⟩
  · rw [hredis, hmemory]
  · rw [hpostgres, hmemory, map_map]
    exact map_congr_left fun e _ => canonical_canonical e
  · rw [memory_count hids]
    cases filter with
    | none =>
      have hlog := congrArg List.length h.members
      rw [length_map, length_map] at hlog
      exact hlog.trans (congrArg List.length (filter_eq_self.2 fun _ _ => rfl).symm)
    | some filter => rw [RedisEventStore.count, hredis, hlength]
  · rw [memory_count hids, PostgresEventStore.count, hpostgres, length_map, hlength]

end

/-- Two events of two writers, with one sequence number. -/
def sampleOps : List Operation :=
  [.append ⟨"a", "user.created", .obj [("id", .str "u1"), ("n", .num 1)], 100, 0, []⟩, .append ⟨"b", "order.paid", .null, 200, 0, []⟩]

def sampleFilter : Option ReplayFilter := some ⟨none, some "user.*", none, none, none, some 1⟩

/-- Two events, the second of which has a text that PostgreSQL refuses. -/
def nulOps : List Operation :=
  [.append ⟨"a", "user.created", .null, 100, 0, []⟩, .append ⟨"b", "user.created", .str "\x00", 200, 1, []⟩]

end StreetJS.Events
