/-
What can be verified of the audit table from its rows and the key alone: the canonical JSON of a row, the order
of the batches in which every signature is made from the one before it and from the rows of its batch, and that
rows with such an order and the same last signature are the same rows. An entry that was logged in the plain form
is read back from its row as it was signed.
-/
import StreetJS.Lib.SealedChain
import StreetJS.Enterprise.AuditLogger

namespace StreetJS.Enterprise

open StreetJS.Lib List OrderedMap
open Prod (fst)

variable {S : Type}

/-! ## Verification -/

/-- The columns of a row in the order of `AuditEntry`, with what `log` adds. -/
def AuditRow.cells (r : AuditRow) : List (String × Option Json) :=
  [("category", r.category), ("actorId", r.actorId), ("action", r.action), ("resource", r.resource),
    ("beforeState", r.beforeState), ("afterState", r.afterState), ("ip", r.ip), ("userAgent", r.userAgent),
    ("id", r.id), ("batchId", r.batchId), ("createdAt", r.createdAt)]

/-- The fields that are there. -/
def definedFields (cells : List (String × Option Json)) : List (String × Json) :=
  cells.filterMap fun (key, value) => value.map (key, ·)

def AuditRow.canonical (r : AuditRow) : Json := .obj (definedFields r.cells)

/-- The signature that the rows of a batch should have behind another one. -/
def signRows (cfg : AuditConfig S) (previous : Option S) (rows : List AuditRow) : S :=
  cfg.hmac cfg.signingKey (signedText previous (rows.map AuditRow.canonical))

/-- The table is made of these batches, and in this order they are a chain up to `head`. -/
structure Verified (cfg : AuditConfig S) (table : List (AuditRow × S)) (batches : List (List AuditRow × S)) (head : Option S) : Prop where
  rows : table.Perm (batches.flatMap fun b => b.1.map (·, b.2))
  chain : Sealed (signRows cfg) batches head
  /-- A batch is all rows of one batch id. -/
  batch : ∀ b ∈ batches, b.1 ≠ [] ∧ ∃ id, ∀ r ∈ b.1, r.batchId = some (.str id)
  distinct : batches.Pairwise fun a b => ∀ r ∈ a.1, ∀ r' ∈ b.1, r.batchId ≠ r'.batchId

/-- Two texts have one HMAC. -/
def HmacCollides (cfg : AuditConfig S) : Prop :=
  ∃ text text', text ≠ text' ∧ cfg.hmac cfg.signingKey text = cfg.hmac cfg.signingKey text'

/-! ## The last signature determines the rows -/

theorem definedFields_inj : ∀ {cells cells' : List (String × Option Json)}, cells.map fst = cells'.map fst →
    (cells.map fst).Nodup → definedFields cells = definedFields cells' → cells = cells'
  | [], [], _, _, _ => rfl
  | [], _ :: _, hk, _, _ => by simp at hk
  | _ :: _, [], hk, _, _ => by simp at hk
  | (k, v) :: cells, (k', v') :: cells', hk, hn, h => by
    simp only [map_cons, List.cons.injEq] at hk
    obtain ⟨rfl, hk⟩ := hk
    rw [map_cons, nodup_cons] at hn
    -- a field of the key cannot come from the cells behind
    have habsent : ∀ {cs : List (String × Option Json)} {x : Json} {rest : List (String × Json)},
        cs.map fst = cells.map fst → definedFields cs ≠ (k, x) :: rest := fun {cs x rest} hcs heq => by
      have hmem : (k, x) ∈ definedFields cs := heq ▸ mem_cons_self
      obtain ⟨⟨key, value⟩, hc, hv⟩ := mem_filterMap.1 hmem
      obtain ⟨y, -, hy⟩ := Option.map_eq_some_iff.1 hv
      cases hy
      have hk : k ∈ cs.map fst := mem_map.2 ⟨_, hc, rfl⟩
      exact hn.1 (hcs ▸ hk)
    cases v with
    | none =>
      cases v' with
      | none => rw [definedFields_inj hk hn.2 h]
      | some x' => exact absurd (show definedFields cells = (k, x') :: definedFields cells' from h) (habsent rfl)
    | some x =>
      cases v' with
      | none => exact absurd (show definedFields cells' = (k, x) :: definedFields cells from h.symm) (habsent hk.symm)
      | some x' =>
        obtain ⟨hx, hrest⟩ := List.cons.inj h
        cases hx
        rw [definedFields_inj hk hn.2 hrest]

theorem canonical_injective {r r' : AuditRow} (h : r.canonical = r'.canonical) : r = r' := by
  have hfields : definedFields r.cells = definedFields r'.cells := Json.obj.inj h
  have hcells : r.cells = r'.cells := definedFields_inj rfl (by simp [AuditRow.cells]) hfields
  obtain ⟨_, _, _, _, _, _, _, _, _, _, _⟩ := r'
  obtain ⟨rfl, rfl, rfl, rfl, rfl, rfl, rfl, rfl, rfl, rfl, rfl⟩ := hcells
  rfl

theorem signedText_injective {previous previous' : Option S} {objects objects' : List Json}
    (h : signedText previous objects = signedText previous' objects') : previous = previous' ∧ objects = objects' := by
  have hhead : ∀ (objects : List Json) (s : S) (rest : List (Text S)),
      ((Json.arr objects).stringify).map Text.token ≠ Text.signature s :: rest := fun objects s rest heq => by
    have hmem : Text.signature s ∈ ((Json.arr objects).stringify).map (Text.token (S := S)) := heq ▸ mem_cons_self
    obtain ⟨t, -, ht⟩ := mem_map.1 hmem
    cases ht
  have hobjects : ((Json.arr objects).stringify).map (Text.token (S := S)) =
      ((Json.arr objects').stringify).map Text.token → objects = objects' := fun heq => by
    have htokens := map_injective_iff.2 (fun _ _ ht => Text.token.inj ht) heq
    exact Json.arr.inj (Json.stringify_injective htokens)
  cases previous with
  | none =>
    cases previous' with
    | none => exact ⟨rfl, hobjects h⟩
    | some s => exact absurd h (hhead _ _ _)
  | some s =>
    cases previous' with
    | none => exact absurd h.symm (hhead _ _ _)
    | some s' =>
      obtain ⟨hs, hrest⟩ := List.cons.inj h
      cases hs
      exact ⟨rfl, hobjects hrest⟩

/-- Rows that verify up to the same last signature are the same rows, but for a collision of HMAC: whoever removes,
adds or changes one has to leave the last signature behind. -/
theorem Verified.tampered {cfg : AuditConfig S} {table table' : List (AuditRow × S)}
    {batches batches' : List (List AuditRow × S)} {head : Option S} (h : Verified cfg table batches head)
    (h' : Verified cfg table' batches' head) : table'.Perm table ∨ HmacCollides cfg := by
  rcases h.chain.unique h'.chain with rfl | ⟨last, rows, last', rows', hne, hsign⟩
  · exact Or.inl (h'.rows.trans h.rows.symm)
  · refine Or.inr ⟨signedText last (rows.map AuditRow.canonical), signedText last' (rows'.map AuditRow.canonical), fun htext => hne ?_, hsign⟩
    obtain ⟨rfl, hrows⟩ := signedText_injective htext
    rw [map_injective_iff.2 (fun _ _ hc => canonical_injective hc) hrows]

theorem Verified.single {cfg : AuditConfig S} {row : AuditRow} {signature : S} {batches : List (List AuditRow × S)}
    {head : Option S} (h : Verified cfg [(row, signature)] batches head) : signature = signRows cfg none [row] := by
  have hrows := perm_singleton.1 h.rows.symm
  have hchain := h.chain
  have hbatch := h.batch
  cases batches with
  | nil => cases hrows
  | cons b batches =>
    obtain ⟨rows, signature'⟩ := b
    cases rows with
    | nil => exact absurd rfl (hbatch _ mem_cons_self).1
    | cons r rows =>
      rw [flatMap_cons, map_cons, cons_append] at hrows
      obtain ⟨heq, hnil⟩ := List.cons.inj hrows
      cases heq
      obtain ⟨hrest, hbatches⟩ := append_eq_nil_iff.1 hnil
      obtain rfl := map_eq_nil_iff.1 hrest
      cases batches with
      | cons b batches =>
        -- a second batch would have a row of its own
        have hb := map_eq_nil_iff.1 (append_eq_nil_iff.1 hbatches).1
        exact absurd hb (hbatch b (mem_cons_of_mem _ mem_cons_self)).1
      | nil => exact hchain.singleton

/-! ## Entries in the plain form -/

/-- The keys of `AuditEntry` in the order of its declaration. -/
def auditKeys : List String :=
  ["category", "actorId", "action", "resource", "beforeState", "afterState", "ip", "userAgent"]

/-- The entry has its keys in the order of their declaration, no others and no `null`, and states that a JSONB
column keeps as they are and that are no falsy values. -/
structure Plain (jsonb : Json → Json) (opts : AuditEntry) (entityClass : Option (List String)) : Prop where
  keys : (opts.map fst).Sublist auditKeys
  present : ∀ e ∈ opts, e.2 ≠ some .null
  before : ∀ state, redactSensitive (opts.read "beforeState") entityClass = some state → Json.truthy state = true ∧ jsonb state = state
  after : ∀ state, redactSensitive (opts.read "afterState") entityClass = some state → Json.truthy state = true ∧ jsonb state = state

theorem definedFields_append (a b : List (String × Option Json)) :
    definedFields (a ++ b) = definedFields a ++ definedFields b := filterMap_append

theorem definedFields_eq_read : ∀ {m : AuditEntry} {keys : List String}, (m.map fst).Sublist keys → keys.Nodup →
    definedFields m = definedFields (keys.map fun k => (k, m.read k))
  | [], keys, _, _ => by
    have hnone : ∀ k, AuditEntry.read [] k = none := fun _ => rfl
    symm
    simp [definedFields, hnone]
  | (k, v) :: m, [], h, _ => by simp at h
  | (k, v) :: m, key :: keys, h, hn => by
    have hkey := (nodup_cons.1 hn).1
    have hkeys := (nodup_cons.1 hn).2
    by_cases hk : k = key
    · subst hk
      have hrest : (m.map fst).Sublist keys := by
        exact cons_sublist_cons.1 h
      have htail : ∀ k' ∈ keys, AuditEntry.read ((k, v) :: m) k' = AuditEntry.read m k' := fun k' hk' => by
        have hne : k ≠ k' := fun heq => hkey (heq ▸ hk')
        simp [AuditEntry.read, OrderedMap.get, hne]
      have hhead : AuditEntry.read ((k, v) :: m) k = v := by simp [AuditEntry.read, OrderedMap.get]
      rw [map_cons, hhead, map_congr_left fun k' hk' => by rw [htail k' hk']]
      show definedFields ([(k, v)] ++ m) = definedFields ([(k, v)] ++ _)
      rw [definedFields_append, definedFields_append, definedFields_eq_read hrest hkeys]
    · have hrest : (((k, v) :: m).map fst).Sublist keys := by
        rcases sublist_cons_iff.1 h with h | ⟨r, heq, -⟩
        · exact h
        · exact absurd (List.cons.inj heq).1 hk
      have hnone : AuditEntry.read ((k, v) :: m) key = none := by
        have hnot : key ∉ ((k, v) :: m).map fst := fun hmem => hkey (hrest.subset hmem)
        unfold AuditEntry.read
        cases hget : OrderedMap.get ((k, v) :: m) key with
        | none => rfl
        | some x => exact absurd (mem_map.2 ⟨_, get_mem hget, rfl⟩) hnot
      rw [map_cons, hnone]
      exact definedFields_eq_read hrest hkeys

/-- A map with the keys of the entry in place, and `undefined` properties behind them. -/
def InPlace (opts m : AuditEntry) : Prop :=
  ∃ own behind, m = own ++ behind ∧ own.map fst = opts.map fst ∧ ∀ e ∈ behind, e.2 = none ∧ e.1 ∈ auditKeys

theorem set_append {K X : Type} [DecidableEq K] {k : K} (x : X) : ∀ (a b : OrderedMap K X),
    OrderedMap.set (a ++ b) k x = if k ∈ a.map fst then a.set k x ++ b else a ++ b.set k x
  | [], b => by simp
  | (k', x') :: a, b => by
    by_cases hk : k' = k
    · subst hk
      simp [OrderedMap.set]
    · have ih := set_append x a b (k := k)
      by_cases hmem : k ∈ a.map fst
      · rw [if_pos hmem] at ih
        rw [if_pos (by rw [map_cons]; exact mem_cons_of_mem _ hmem)]
        simp only [cons_append, OrderedMap.set, hk, if_false, ih]
      · rw [if_neg hmem] at ih
        rw [if_neg (by simp [hmem, Ne.symm hk])]
        simp only [cons_append, OrderedMap.set, hk, if_false, ih]

theorem keys_set_of_mem {K X : Type} [DecidableEq K] {k : K} (x : X) : ∀ {a : OrderedMap K X}, k ∈ a.map fst → (a.set k x).map fst = a.map fst
  | (k', x') :: a, h => by
    by_cases hk : k' = k
    · subst hk
      simp [OrderedMap.set]
    · have hmem : k ∈ a.map fst := by simpa [Ne.symm hk] using h
      simp only [OrderedMap.set, hk, if_false, map_cons, keys_set_of_mem x hmem]

theorem InPlace.set {opts m : AuditEntry} (h : InPlace opts m) {k : String} {v : Option Json} (hkey : k ∈ auditKeys)
    (hv : v.isSome → k ∈ opts.map fst) : InPlace opts (m.set k v) := by
  obtain ⟨own, behind, rfl, hown, hbehind⟩ := h
  rw [set_append]
  by_cases hk : k ∈ own.map fst
  · rw [if_pos hk]
    exact ⟨_, behind, rfl, (keys_set_of_mem v hk).trans hown, hbehind⟩
  · rw [if_neg hk]
    refine ⟨own, _, rfl, hown, fun e he => ?_⟩
    rcases mem_set he with he | rfl
    · exact hbehind e he
    · -- the property is not there, so that its value is `undefined`
      refine ⟨?_, hkey⟩
      cases v with
      | none => rfl
      | some x => exact absurd (hown ▸ hv rfl) hk

theorem read_set (m : AuditEntry) (k k' : String) (v : Option Json) : AuditEntry.read (m.set k v) k' = if k' = k then v else m.read k' := by
  unfold AuditEntry.read
  rw [get_set]
  split <;> rfl

theorem read_append {own behind : AuditEntry} (h : ∀ e ∈ behind, e.2 = none) (k : String) :
    AuditEntry.read (own ++ behind) k = own.read k := by
  induction own with
  | nil =>
    show (behind.get k).join = none
    cases hget : behind.get k with
    | none => rfl
    | some x => exact h _ (get_mem hget)
  | cons e own ih =>
    simp only [AuditEntry.read, cons_append, OrderedMap.get] at ih ⊢
    split
    · rfl
    · exact ih

theorem mem_of_read {m : AuditEntry} {k : String} {v : Json} (h : m.read k = some v) : (k, some v) ∈ m :=
  get_mem (Option.join_eq_some_iff.1 h)

/-- What `log` makes of the caller's properties. -/
def withStates (opts : AuditEntry) (entityClass : Option (List String)) : AuditEntry :=
  OrderedMap.set (opts.set "beforeState" (redactSensitive (opts.read "beforeState") entityClass))
    "afterState" (redactSensitive (opts.read "afterState") entityClass)

theorem inPlace_withStates (opts : AuditEntry) (entityClass : Option (List String)) : InPlace opts (withStates opts entityClass) := by
  have hkey : ∀ k, (redactSensitive (opts.read k) entityClass).isSome → k ∈ opts.map fst := fun k hsome => by
    cases hread : opts.read k with
    | none =>
      rw [hread] at hsome
      cases entityClass with
      | none => cases hsome
      | some fields => cases fields <;> cases hsome
    | some v => exact mem_map.2 ⟨_, mem_of_read hread, rfl⟩
  have hrefl : InPlace opts opts := ⟨opts, [], (append_nil _).symm, rfl, fun e he => by cases he⟩
  exact (hrefl.set (by decide) (hkey "beforeState")).set (by decide) (hkey "afterState")

theorem assign_batchEntry {opts : AuditEntry} {entityClass : Option (List String)}
    (hkeys : ∀ k ∈ (withStates opts entityClass).map fst, k ∈ auditKeys) (id createdAt batchId : String) :
    (batchEntry opts entityClass id createdAt).assign batchId = withStates opts entityClass ++
        [("id", some (.str id)), ("batchId", some (.str batchId)), ("createdAt", some (.str createdAt))] := by
  have hid : "id" ∉ (withStates opts entityClass).map fst := fun hk => absurd (hkeys _ hk) (by decide)
  have hbatch : "batchId" ∉ (withStates opts entityClass).map fst := fun hk => absurd (hkeys _ hk) (by decide)
  have hcreated : "createdAt" ∉ (withStates opts entityClass).map fst := fun hk => absurd (hkeys _ hk) (by decide)
  show OrderedMap.set (OrderedMap.set (OrderedMap.set (OrderedMap.set (withStates opts entityClass) "id" _)
    "batchId" _) "createdAt" _) "batchId" _ = _
  rw [set_of_not_has hid, set_append, if_neg hbatch, set_append, if_neg hcreated, set_append, if_neg hbatch]
  simp [OrderedMap.set]

theorem Plain.recovered {jsonb : Json → Json} {opts : AuditEntry} {entityClass : Option (List String)}
    (h : Plain jsonb opts entityClass) (id createdAt batchId : String) :
    (insertRow jsonb ((batchEntry opts entityClass id createdAt).assign batchId) batchId).canonical =
      ((batchEntry opts entityClass id createdAt).assign batchId).json := by
  obtain ⟨own, behind, hm, hown, hbehind⟩ := inPlace_withStates opts entityClass
  have hkeys : ∀ k ∈ (withStates opts entityClass).map fst, k ∈ auditKeys := fun k hk => by
    rw [hm, map_append] at hk
    rcases mem_append.1 hk with hk | hk
    · exact h.keys.subset (hown ▸ hk)
    · obtain ⟨e, he, rfl⟩ := mem_map.1 hk
      exact (hbehind e he).2
  have hnullish : ∀ k, nullish (opts.read k) = opts.read k := fun k => by
    cases hread : opts.read k with
    | none => rfl
    | some v =>
      have hne := h.present _ (mem_of_read hread)
      cases v with
      | null => exact absurd rfl hne
      | _ => rfl
  have hstate : ∀ {state : Option Json}, (∀ v, state = some v → Json.truthy v = true ∧ jsonb v = v) →
      (state.filter Json.truthy).map jsonb = state := fun {state} hs => by
    cases state with
    | none => rfl
    | some v =>
      obtain ⟨ht, hj⟩ := hs v rfl
      simp [ht, hj]
  have hown_read : ∀ k, own.read k = (withStates opts entityClass).read k := fun k => by
    rw [hm, read_append fun e he => (hbehind e he).1]
  have hread : ∀ k, k ≠ "beforeState" → k ≠ "afterState" → own.read k = opts.read k := fun k hb ha => by
    rw [hown_read, withStates, read_set, if_neg ha, read_set, if_neg hb]
  have hbefore : own.read "beforeState" = redactSensitive (opts.read "beforeState") entityClass := by
    rw [hown_read, withStates, read_set, if_neg (by decide), read_set, if_pos rfl]
  have hafter : own.read "afterState" = redactSensitive (opts.read "afterState") entityClass := by
    rw [hown_read, withStates, read_set, if_pos rfl]
  have hentry : ∀ k, k ≠ "id" → k ≠ "batchId" → k ≠ "createdAt" →
      ((batchEntry opts entityClass id createdAt).assign batchId).read k = own.read k := fun k hi hb hc => by
    rw [hown_read]
    show AuditEntry.read (OrderedMap.set (OrderedMap.set (OrderedMap.set (OrderedMap.set (withStates opts entityClass)
      "id" _) "batchId" _) "createdAt" _) "batchId" _) k = _
    rw [read_set, if_neg hb, read_set, if_neg hc, read_set, if_neg hb, read_set, if_neg hi]
  have hid : ((batchEntry opts entityClass id createdAt).assign batchId).read "id" = some (.str id) := by
    show AuditEntry.read (OrderedMap.set (OrderedMap.set (OrderedMap.set (OrderedMap.set (withStates opts entityClass)
      "id" _) "batchId" _) "createdAt" _) "batchId" _) "id" = _
    rw [read_set, if_neg (by decide), read_set, if_neg (by decide), read_set, if_neg (by decide), read_set, if_pos rfl]
  have hcreated : ((batchEntry opts entityClass id createdAt).assign batchId).read "createdAt" = some (.str createdAt) := by
    show AuditEntry.read (OrderedMap.set (OrderedMap.set (OrderedMap.set (OrderedMap.set (withStates opts entityClass)
      "id" _) "batchId" _) "createdAt" _) "batchId" _) "createdAt" = _
    rw [read_set, if_neg (by decide), read_set, if_pos rfl]
  -- the columns are what the entry has under the declared keys
  have hcells : (insertRow jsonb ((batchEntry opts entityClass id createdAt).assign batchId) batchId).cells =
      auditKeys.map (fun k => (k, own.read k)) ++
        [("id", some (.str id)), ("batchId", some (.str batchId)), ("createdAt", some (.str createdAt))] := by
    have hplain : ∀ k, k ≠ "beforeState" → k ≠ "afterState" → k ≠ "id" → k ≠ "batchId" → k ≠ "createdAt" →
        nullish (((batchEntry opts entityClass id createdAt).assign batchId).read k) = own.read k :=
      fun k hb ha hi hbatch hc => by rw [hentry k hi hbatch hc, hread k hb ha, hnullish]
    unfold insertRow AuditRow.cells
    rw [hplain "category", hplain "actorId", hplain "action", hplain "resource", hplain "ip", hplain "userAgent",
      hentry "beforeState", hentry "afterState", hbefore, hafter, hstate h.before, hstate h.after, hid, hcreated,
      ← hbefore, ← hafter]
    · rfl
    all_goals decide
  show Json.obj (definedFields _) = Json.obj (definedFields _)
  have hnone : definedFields behind = [] := filterMap_eq_nil_iff.2 fun e he => by simp [(hbehind e he).1]
  rw [hcells, assign_batchEntry hkeys, hm, definedFields_append, definedFields_append, definedFields_append, hnone,
    append_nil, ← definedFields_eq_read (hown ▸ h.keys) (by decide)]

end StreetJS.Enterprise
