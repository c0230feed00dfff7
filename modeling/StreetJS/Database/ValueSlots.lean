/-
Values and slots of a built query: what the calls of a builder mean, whatever the values are, and when the
builder takes them so. A raw condition with one or two values of which the first is a string is taken for a
column with an operator, and a first value `undefined` is dropped.
-/
import StreetJS.Database.QueryBuilder

namespace StreetJS.Database

open StreetJS.Lib List

/-! ## What the calls mean -/

/-- A text with a mark for each value, and whether the builder takes the values as they are meant. -/
structure Slot (X : Type) where
  sql : Text
  params : List (Value X)
  sound : Bool := true

section

variable {X : Type}

def Value.isUndefined : Value X → Bool
  | .undefined => true
  | _ => false

/-- The values of a raw condition that `where` takes for what they are: a first value that is a string has at
least two others behind it, and behind `undefined` there is only `undefined`. -/
def takenRaw : List (Value X) → Bool
  | .string _ :: rest => decide (2 ≤ rest.length)
  | .undefined :: rest => rest.all Value.isUndefined
  | _ => true

/-- All fragments are taken as they are meant. -/
def QueryBuilder.sound (q : QueryBuilder (Slot X)) : Bool := q.fragments.all (·.sound)

mutual

/-- A call as it is meant; a subquery stands with its own text and values. -/
def intend : Call X → QueryBuilder (Slot X) → QueryBuilder (Slot X)
  | .select cols, q => { q with selects := q.selects ++ cols }
  | .source table, q => { q with source := some { sql := table, params := [] } }
  | .whereValue col op value, q =>
    { q with wheres := q.wheres ++ [{ sql := col ++ ' ' :: op ++ [' ', '?'], params := [value] }] }
  | .whereOp col op, q => { q with wheres := q.wheres ++ [{ sql := col ++ ' ' :: op, params := [] }] }
  | .whereRaw condition values, q =>
    { q with wheres := q.wheres ++ [{ sql := condition, params := values, sound := takenRaw values }] }
  | .join type table condition, q =>
    { q with joins := q.joins ++ [{ type, table := { sql := table, params := [] }, condition := some condition }] }
  | .orderBy col dir, q => { q with orderBys := q.orderBys ++ [(col, dir)] }
  | .groupBy cols, q => { q with groupBys := q.groupBys ++ cols }
  | .having condition values, q => { q with havings := q.havings ++ [{ sql := condition, params := values }] }
  | .limit n, q => { q with limit := some n }
  | .offset n, q => { q with offset := some n }
  | .subquery calls name, q =>
    let inner := intendAll calls {}
    q.subquery { sql := '(' :: inner.text (·.sql) ++ ") AS ".toList ++ name,
                 params := inner.fragments.flatMap (·.params), sound := inner.sound }

def intendAll : List (Call X) → QueryBuilder (Slot X) → QueryBuilder (Slot X)
  | [], q => q
  | call :: calls, q => intendAll calls (intend call q)

end

mutual

/-- A call without its values. -/
def Call.shape : Call X → Call Unit
  | .select cols => .select cols
  | .source table => .source table
  | .whereValue col op _ => .whereValue col op .undefined
  | .whereOp col op => .whereOp col op
  | .whereRaw condition values => .whereRaw condition (values.map fun _ => .undefined)
  | .join type table condition => .join type table condition
  | .orderBy col dir => .orderBy col dir
  | .groupBy cols => .groupBy cols
  | .having condition values => .having condition (values.map fun _ => .undefined)
  | .limit n => .limit n
  | .offset n => .offset n
  | .subquery calls name => .subquery (shapes calls) name

def shapes : List (Call X) → List (Call Unit)
  | [] => []
  | call :: calls => call.shape :: shapes calls

end

mutual

/-- A call whose raw fragments have a mark for each value, and whose other texts have none. -/
def Call.WellFormed : Call X → Prop
  | .select cols => ∀ col ∈ cols, '?' ∉ col
  | .source table => '?' ∉ table
  | .whereValue col op _ => '?' ∉ col ∧ '?' ∉ op
  | .whereOp col op => '?' ∉ col ∧ '?' ∉ op
  | .whereRaw condition values => condition.count '?' = values.length
  | .join _ table condition => '?' ∉ table ∧ '?' ∉ condition
  | .orderBy col _ => '?' ∉ col
  | .groupBy cols => ∀ col ∈ cols, '?' ∉ col
  | .having condition values => condition.count '?' = values.length
  | .limit n => '?' ∉ n
  | .offset n => '?' ∉ n
  | .subquery calls name => WellFormedCalls calls ∧ '?' ∉ name

def WellFormedCalls : List (Call X) → Prop
  | [] => True
  | call :: calls => call.WellFormed ∧ WellFormedCalls calls

end

/-- The text of a query: a function of the calls without their values. -/
def plainText (calls : List (Call Unit)) : Text := (intendAll calls {}).text (·.sql)

/-- The values of the calls in the order of their slots. -/
def slotValues (calls : List (Call X)) : List (Value X) := (intendAll calls {}).fragments.flatMap (·.params)

/-- The values are kept out of the text: it is that of the calls without their values, with its marks numbered
from the left, and the parameters are the values of the slots, one for each mark. -/
structure ValuesKeptOut (d : SqlDialect) (calls : List (Call X)) : Prop where
  sql : (build d calls).1 = number '?' d.placeholder 1 (plainText (shapes calls))
  params : (build d calls).2 = slotValues calls
  count : (plainText (shapes calls)).count '?' = (build d calls).2.length

/-! ## Fragments -/

/-- A fragment of the builder against what is meant by it. -/
structure Placed (c : Fragment X) (p : Slot X) : Prop where
  marks : p.sql.count '?' = p.params.length
  length : p.params.length ≤ c.slots.length
  sound : p.sound = true ↔ c.slots = p.params
  text : p.sound = true → c.sql = p.sql

theorem slots_of_count {sql : Text} {params : List (Value X)} (h : sql.count '?' = params.length) :
    Fragment.slots { sql, params } = params := by
  unfold Fragment.slots
  rw [h, fill_length]

theorem placed_same {sql : Text} {params : List (Value X)} (h : sql.count '?' = params.length) : Placed { sql, params } { sql, params } := by
  have hslots := slots_of_count h
  exact ⟨h, Nat.le_of_eq (congrArg List.length hslots.symm), by simp [hslots], fun _ => rfl⟩

theorem placed_mistaken {c : Fragment X} {sql : Text} {params : List (Value X)} (h : sql.count '?' = params.length)
    (hle : params.length ≤ c.slots.length) (hne : c.slots ≠ params) : Placed c { sql, params, sound := false } :=
  ⟨h, hle, by simp [hne], fun hf => by cases hf⟩

@[simp] theorem Fragment.length_slots (c : Fragment X) : c.slots.length = c.sql.count '?' := length_fill _ _ _

theorem placed_raw {condition : Text} {values : List (Value X)} (h : condition.count '?' = values.length) :
    Placed (jsWhere condition values) { sql := condition, params := values, sound := takenRaw values } := by
  match values, h with
  | [], h => exact placed_same h
  | .null :: rest, h => exact placed_same h
  | .other x :: rest, h => exact placed_same h
  | .string s :: v :: w :: rest, h => exact placed_same h
  | [.undefined], h =>
    have hslots : (jsWhere condition [.undefined (X := X)]).slots = [.undefined] := by
      simp [jsWhere, Fragment.slots, h, fill_succ, fill_zero]
    exact ⟨h, Nat.le_of_eq (congrArg List.length hslots.symm), by simp [hslots, takenRaw], fun _ => rfl⟩
  | .undefined :: v :: rest, h =>
    -- the values move one slot to the left
    have hslots : (jsWhere condition (.undefined :: v :: rest)).slots = (v :: rest) ++ [.undefined] := by
      simp only [jsWhere, Fragment.slots, h]
      exact fill_length_succ _ _
    refine ⟨h, by simp [hslots], ?_, fun _ => rfl⟩
    rw [hslots, append_singleton_eq_cons_iff]
    simp only [takenRaw, all_eq_true]
    constructor
    · intro hall y hy
      have := hall y hy
      cases y <;> first | rfl | cases this
    · intro hall y hy
      rw [hall y hy]
      rfl
  | [.string s], h =>
    -- no value is left for the slot
    have hcount : (jsWhere condition [.string (X := X) s]).sql.count '?' = s.count '?' + 1 := by
      simp [jsWhere, h]
      omega
    apply placed_mistaken h
    · rw [Fragment.length_slots, hcount]
      simp
    · intro he
      have hhead := congrArg List.head? he
      simp only [Fragment.slots, hcount, fill_succ] at hhead
      cases hhead
  | [.string s, v], h =>
    -- the second value takes the first slot of three
    have hcount : (jsWhere condition [.string s, v]).sql.count '?' = s.count '?' + 3 := by
      simp [jsWhere, h]
      omega
    apply placed_mistaken h
    · rw [Fragment.length_slots, hcount]
      simp
    · intro he
      have hlength := congrArg List.length he
      rw [Fragment.length_slots, hcount] at hlength
      simp at hlength

end

/-! ## Builders side by side -/

/-- Two builders with the same texts, whose fragments are related one by one. -/
structure Related {F G : Type} (R : F → G → Prop) (q : QueryBuilder F) (p : QueryBuilder G) : Prop where
  selects : q.selects = p.selects
  wheres : List.Forall₂ R q.wheres p.wheres
  joins : List.Forall₂ (fun j k => j.type = k.type ∧ j.condition = k.condition ∧ R j.table k.table) q.joins p.joins
  orderBys : q.orderBys = p.orderBys
  groupBys : q.groupBys = p.groupBys
  havings : List.Forall₂ R q.havings p.havings
  source : Option.Rel R q.source p.source
  limit : q.limit = p.limit
  offset : q.offset = p.offset

section

variable {F G : Type} {R : F → G → Prop} {q : QueryBuilder F} {p : QueryBuilder G}

theorem related_start : Related R {} {} :=
  ⟨rfl, .nil, .nil, rfl, rfl, .nil, .none, rfl, rfl⟩

section

variable (h : Related R q p)
include h

theorem Related.where {f : F} {g : G} (hfg : R f g) : Related R { q with wheres := q.wheres ++ [f] } { p with wheres := p.wheres ++ [g] } :=
  { h with wheres := rel_append h.wheres (.cons hfg .nil) }

theorem Related.having {f : F} {g : G} (hfg : R f g) :
    Related R { q with havings := q.havings ++ [f] } { p with havings := p.havings ++ [g] } :=
  { h with havings := rel_append h.havings (.cons hfg .nil) }

theorem Related.join {f : F} {g : G} (hfg : R f g) (type : JoinType) (condition : Option Text) :
    Related R { q with joins := q.joins ++ [{ type, table := f, condition }] }
      { p with joins := p.joins ++ [{ type, table := g, condition }] } :=
  { h with joins := rel_append h.joins (.cons ⟨rfl, rfl, hfg⟩ .nil) }

theorem Related.from {f : F} {g : G} (hfg : R f g) : Related R { q with source := some f } { p with source := some g } :=
  { h with source := .some hfg }

theorem Related.subquery {f : F} {g : G} (hfg : R f g) : Related R (q.subquery f) (p.subquery g) := by
  have hsource := h.source
  unfold QueryBuilder.subquery
  cases hq : q.source with
  | none =>
    rw [hq] at hsource
    cases hp : p.source with
    | none => exact h.from hfg
    | some g' =>
      rw [hp] at hsource
      cases hsource
  | some f' =>
    rw [hq] at hsource
    cases hp : p.source with
    | none =>
      rw [hp] at hsource
      cases hsource
    | some g' =>
      have hjoin := h.join hfg .inner none
      rw [hq, hp] at hjoin
      exact hjoin

end

theorem rel_toList {a : Option F} {b : Option G} (h : Option.Rel R a b) : List.Forall₂ R a.toList b.toList := by
  cases h with
  | none => exact .nil
  | some hfg => exact .cons hfg .nil

theorem Related.fragments (h : Related R q p) : List.Forall₂ R q.fragments p.fragments := by
  have hjoins : List.Forall₂ R (q.joins.map (·.table)) (p.joins.map (·.table)) := by
    rw [List.forall₂_map_left_iff, List.forall₂_map_right_iff]
    exact h.joins.imp fun _ _ hjk => hjk.2.2
  exact rel_append (rel_append (rel_append (rel_toList h.source) hjoins) h.wheres) h.havings

theorem map_eq_of_rel {A : Type} {sql : F → A} {sql' : G → A} {fs : List F} {gs : List G} (h : List.Forall₂ R fs gs)
    (hsql : ∀ f, ∀ g ∈ gs, R f g → sql f = sql' g) : fs.map sql = gs.map sql' := by
  induction h with
  | nil => rfl
  | @cons f g fs gs hfg _ ih =>
    rw [map_cons, map_cons, hsql f g mem_cons_self hfg, ih fun f' g' hg' => hsql f' g' (mem_cons_of_mem _ hg')]

theorem parts_congr {F G : Type} {q : QueryBuilder F} {p : QueryBuilder G} (hselects : q.selects = p.selects)
    (horderBys : q.orderBys = p.orderBys) (hgroupBys : q.groupBys = p.groupBys) (hlimit : q.limit = p.limit)
    (hoffset : q.offset = p.offset) : q.parts = p.parts := by
  unfold QueryBuilder.parts QueryBuilder.selectPart QueryBuilder.endParts
  rw [hselects, horderBys, hgroupBys, hlimit, hoffset]

theorem Related.text (h : Related R q p) {sql : F → Text} {sql' : G → Text}
    (hsql : ∀ f, ∀ g ∈ p.fragments, R f g → sql f = sql' g) : q.text sql = p.text sql' := by
  unfold QueryBuilder.fragments at hsql
  have hsource : q.source.toList.map sql = p.source.toList.map sql' :=
    map_eq_of_rel (rel_toList h.source) fun f g hg => hsql f g (by simp [hg])
  have hjoins : (q.joins.map fun j => joinText j (sql j.table)) = p.joins.map fun k => joinText k (sql' k.table) := by
    apply map_eq_of_rel h.joins
    rintro j k hk ⟨htype, hcondition, hjk⟩
    have htable : sql j.table = sql' k.table := hsql j.table k.table (by simp; exact .inr (.inl ⟨k, hk, rfl⟩)) hjk
    unfold joinText
    rw [htype, hcondition, htable]
  have hwheres : q.wheres.map sql = p.wheres.map sql' := map_eq_of_rel h.wheres fun f g hg => hsql f g (by simp [hg])
  have hhavings : q.havings.map sql = p.havings.map sql' := map_eq_of_rel h.havings fun f g hg => hsql f g (by simp [hg])
  unfold QueryBuilder.text
  rw [parts_congr h.selects h.orderBys h.groupBys h.limit h.offset, hsource, hwheres, hhavings,
    zipWith_map_right, zipWith_map_right, zipWith_self, zipWith_self, hjoins]

end

/-! ## Calls -/

theorem unmarked_start {F : Type} : (({} : QueryBuilder F)).Unmarked where
  selects col h := by cases h
  conditions j h := by cases h
  groupBys col h := by cases h
  orderBys o h := by cases h
  limit n h := by cases h
  offset n h := by cases h

section

variable {X : Type}

theorem slots_eq_iff {cs : List (Fragment X)} {ps : List (Slot X)} (h : List.Forall₂ Placed cs ps) :
    (ps.flatMap (·.params)).length ≤ (cs.flatMap (·.slots)).length ∧
      (ps.all (·.sound) = true ↔ cs.flatMap (·.slots) = ps.flatMap (·.params)) := by
  have hblocks : List.Forall₂ (fun b e : List (Value X) => e.length ≤ b.length) (cs.map (·.slots)) (ps.map (·.params)) := by
    rw [List.forall₂_map_left_iff, List.forall₂_map_right_iff]
    exact h.imp fun c p hcp => hcp.length
  have hsound : ps.all (·.sound) = true ↔ cs.map (·.slots) = ps.map (·.params) := by
    clear hblocks
    induction h with
    | nil => simp
    | cons hcp _ ih => simp [hcp.sound, ih]
  exact ⟨length_flatten_le hblocks, hsound.trans (flatten_eq_iff hblocks).symm⟩

theorem count_slots {ps : List (Slot X)} (h : ∀ p ∈ ps, p.sql.count '?' = p.params.length) :
    (ps.map fun p => p.sql.count '?').sum = (ps.flatMap (·.params)).length := by
  induction ps with
  | nil => rfl
  | cons p ps ih =>
    rw [forall_mem_cons] at h
    simp [h.1, ih h.2]

theorem count_fragments (cs : List (Fragment X)) : (cs.map fun c => c.sql.count '?').sum = (cs.flatMap (·.slots)).length := by
  induction cs with
  | nil => rfl
  | cons c cs ih =>
    rw [map_cons, sum_cons, flatMap_cons, length_append, Fragment.length_slots, ih]

theorem marks_of_rel {cs : List (Fragment X)} {ps : List (Slot X)} (h : List.Forall₂ Placed cs ps) :
    ∀ p ∈ ps, p.sql.count '?' = p.params.length := by
  induction h with
  | nil => simp
  | cons hcp _ ih =>
    rw [forall_mem_cons]
    exact ⟨hcp.marks, ih⟩

theorem Related.unmarked {F G : Type} {R : F → G → Prop} {q : QueryBuilder F} {p : QueryBuilder G}
    (h : Related R q p) (hp : p.Unmarked) : q.Unmarked where
  selects := h.selects ▸ hp.selects
  groupBys := h.groupBys ▸ hp.groupBys
  orderBys := h.orderBys ▸ hp.orderBys
  limit := h.limit ▸ hp.limit
  offset := h.offset ▸ hp.offset
  conditions j hj := by
    obtain ⟨i, hi, rfl⟩ := mem_iff_getElem.1 hj
    have hlength := h.joins.length_eq
    have hjk := List.Forall₂.get h.joins hi (hlength ▸ hi)
    simp only [get_eq_getElem] at hjk
    rw [hjk.2.1]
    exact hp.conditions _ (getElem_mem _)


theorem build_placed {q : QueryBuilder (Fragment X)} {p : QueryBuilder (Slot X)} (h : Related Placed q p)
    (hp : p.Unmarked) {name : Text} (hname : '?' ∉ name) :
    Placed { sql := '(' :: (q.buildInternal .mysql).1 ++ ") AS ".toList ++ name, params := (q.buildInternal .mysql).2 }
      { sql := '(' :: p.text (·.sql) ++ ") AS ".toList ++ name,
        params := p.fragments.flatMap (·.params), sound := p.sound } := by
  obtain ⟨hle, hsound⟩ := slots_eq_iff h.fragments
  have hopen : '?' ∉ ['('] := by decide
  have has : '?' ∉ ") AS ".toList ++ name := by
    rw [mem_append, not_or]
    exact ⟨by decide, hname⟩
  have hbuild : q.buildInternal .mysql = (q.text (·.sql), q.fragments.flatMap (·.slots)) := by
    rw [buildInternal_eq .mysql (h.unmarked hp), number_self (placeholder_self .mysql (by decide))]
  have hq : ('(' :: q.text (·.sql) ++ ") AS ".toList ++ name).count '?' = (q.fragments.flatMap (·.slots)).length := by
    rw [append_assoc, ← count_fragments, ← count_text (h.unmarked hp)]
    exact count_between hopen has _
  have hp' : ('(' :: p.text (·.sql) ++ ") AS ".toList ++ name).count '?' = (p.fragments.flatMap (·.params)).length := by
    rw [append_assoc, ← count_slots (marks_of_rel h.fragments), ← count_text hp]
    exact count_between hopen has _
  have hslots := slots_of_count hq
  rw [hbuild]
  refine ⟨hp', ?_, ?_, ?_⟩
  · rw [hslots]
    exact hle
  · rw [hslots]
    exact hsound
  · intro hs
    have htext : q.text (·.sql) = p.text (·.sql) :=
      h.text fun c s hs' hcs => hcs.text (all_eq_true.1 hs s hs')
    rw [htext]

theorem Unmarked.subquery {F : Type} {q : QueryBuilder F} (h : q.Unmarked) (derived : F) : (q.subquery derived).Unmarked := by
  unfold QueryBuilder.subquery
  split
  · exact { h with }
  · refine { h with conditions := ?_ }
    intro j hj condition hc
    rcases mem_append.1 hj with hj | hj
    · exact h.conditions j hj condition hc
    · rw [mem_singleton.1 hj] at hc
      cases hc

theorem intend_unmarked {p : QueryBuilder (Slot X)} (h : p.Unmarked) : ∀ (call : Call X), call.WellFormed → (intend call p).Unmarked
  | .select cols, hw => by
    refine { h with selects := ?_ }
    intro col hcol
    rcases mem_append.1 hcol with hcol | hcol
    · exact h.selects col hcol
    · exact hw col hcol
  | .source table, hw => { h with }
  | .whereValue col op value, hw => { h with }
  | .whereOp col op, hw => { h with }
  | .whereRaw condition values, hw => { h with }
  | .join type table condition, hw => by
    refine { h with conditions := ?_ }
    intro j hj condition' hc
    rcases mem_append.1 hj with hj | hj
    · exact h.conditions j hj condition' hc
    · rw [mem_singleton.1 hj] at hc
      cases hc
      exact hw.2
  | .orderBy col dir, hw => by
    refine { h with orderBys := ?_ }
    intro o ho
    rcases mem_append.1 ho with ho | ho
    · exact h.orderBys o ho
    · rw [mem_singleton.1 ho]
      exact hw
  | .groupBy cols, hw => by
    refine { h with groupBys := ?_ }
    intro col hcol
    rcases mem_append.1 hcol with hcol | hcol
    · exact h.groupBys col hcol
    · exact hw col hcol
  | .having condition values, hw => { h with }
  | .limit n, hw => by
    refine { h with limit := ?_ }
    rintro n' hn
    cases hn
    exact hw
  | .offset n, hw => by
    refine { h with offset := ?_ }
    rintro n' hn
    cases hn
    exact hw
  | .subquery calls name, hw => Unmarked.subquery h _

theorem intendAll_unmarked : ∀ (calls : List (Call X)) {p : QueryBuilder (Slot X)}, p.Unmarked → WellFormedCalls calls →
    (intendAll calls p).Unmarked
  | [], _, h, _ => h
  | call :: calls, _, h, hw => intendAll_unmarked calls (intend_unmarked h call hw.1) hw.2

theorem placed_plain {sql : Text} (h : '?' ∉ sql) : Placed (X := X) { sql, params := [] } { sql, params := [] } :=
  placed_same (count_eq_zero_of_not_mem h)

mutual

theorem perform_placed {q : QueryBuilder (Fragment X)} {p : QueryBuilder (Slot X)} (h : Related Placed q p) :
    ∀ (call : Call X), call.WellFormed → Related Placed (perform call q) (intend call p)
  | .select cols, _ => { h with selects := congrArg (· ++ cols) h.selects }
  | .source table, hw => h.from (placed_plain hw)
  | .whereValue col op value, hw => by
    apply h.where (f := jsWhere col [.string op, value])
    apply placed_same
    simp [count_eq_zero_of_not_mem hw.1, count_eq_zero_of_not_mem hw.2]
  | .whereOp col op, hw => by
    apply h.where (f := jsWhere col [.string op])
    apply placed_same
    simp [count_eq_zero_of_not_mem hw.1, count_eq_zero_of_not_mem hw.2]
  | .whereRaw condition values, hw => h.where (placed_raw hw)
  | .join type table condition, hw => h.join (placed_plain hw.1) type (some condition)
  | .orderBy col dir, _ => { h with orderBys := congrArg (· ++ [(col, dir)]) h.orderBys }
  | .groupBy cols, _ => { h with groupBys := congrArg (· ++ cols) h.groupBys }
  | .having condition values, hw => h.having (placed_same hw)
  | .limit n, _ => { h with limit := rfl }
  | .offset n, _ => { h with offset := rfl }
  | .subquery calls name, hw =>
    h.subquery (build_placed (performAll_placed related_start calls hw.1) (intendAll_unmarked calls unmarked_start hw.1) hw.2)

theorem performAll_placed {q : QueryBuilder (Fragment X)} {p : QueryBuilder (Slot X)} (h : Related Placed q p) :
    ∀ (calls : List (Call X)), WellFormedCalls calls → Related Placed (performAll calls q) (intendAll calls p)
  | [], _ => h
  | call :: calls, hw => performAll_placed (perform_placed h call hw.1) calls hw.2

end

/-! ## Shapes -/

/-- The same text, with as many values. -/
def SameText {Y : Type} (p : Slot X) (r : Slot Y) : Prop := p.sql = r.sql

mutual

theorem intend_shape {p : QueryBuilder (Slot X)} {r : QueryBuilder (Slot Unit)} (h : Related SameText p r) :
    ∀ (call : Call X), Related SameText (intend call p) (intend call.shape r)
  | .select cols => { h with selects := congrArg (· ++ cols) h.selects }
  | .source table => h.from rfl
  | .whereValue col op value => h.where rfl
  | .whereOp col op => h.where rfl
  | .whereRaw condition values => h.where rfl
  | .join type table condition => by
    apply h.join
    rfl
  | .orderBy col dir => { h with orderBys := congrArg (· ++ [(col, dir)]) h.orderBys }
  | .groupBy cols => { h with groupBys := congrArg (· ++ cols) h.groupBys }
  | .having condition values => h.having rfl
  | .limit n => { h with limit := rfl }
  | .offset n => { h with offset := rfl }
  | .subquery calls name => by
    apply h.subquery
    have htext := (intendAll_shape related_start calls).text fun f g _ hfg => hfg
    simp only [SameText, htext]

theorem intendAll_shape {p : QueryBuilder (Slot X)} {r : QueryBuilder (Slot Unit)} (h : Related SameText p r) :
    ∀ (calls : List (Call X)), Related SameText (intendAll calls p) (intendAll (shapes calls) r)
  | [] => h
  | call :: calls => intendAll_shape (intend_shape h call) calls

end

theorem plainText_shapes (calls : List (Call X)) : plainText (shapes calls) = (intendAll calls {}).text (·.sql) :=
  ((intendAll_shape related_start calls).text fun _ _ _ hfg => hfg).symm

end

/-! ## Queries -/

/-- For every sequence of well-formed calls and all values: the values are kept out of the text if and only if
the builder takes every raw condition of the query, and of the queries in it, with the values that are meant. -/
theorem valuesKeptOut_iff_sound {X : Type} (d : SqlDialect) (calls : List (Call X)) (hw : WellFormedCalls calls) :
    ValuesKeptOut d calls ↔ (intendAll calls {}).sound = true := by
  have h := performAll_placed related_start calls hw
  have hp := intendAll_unmarked calls unmarked_start hw
  have hbuild : build d calls = _ := buildInternal_eq d (h.unmarked hp)
  obtain ⟨-, hsound⟩ := slots_eq_iff h.fragments
  constructor
  · intro hkept
    have hparams := hkept.params
    rw [hbuild] at hparams
    exact hsound.2 hparams
  · intro hs
    have hparams := hsound.1 hs
    have htext : (performAll calls {}).text (·.sql) = (intendAll calls {}).text (·.sql) :=
      h.text fun c s hs' hcs => hcs.text (all_eq_true.1 hs s hs')
    constructor
    · rw [hbuild, plainText_shapes, ← htext]
    · rw [hbuild]
      exact hparams
    · rw [hbuild, plainText_shapes, count_text hp, count_slots (marks_of_rel h.fragments)]
      exact congrArg List.length hparams.symm

/-- A raw condition with one value. -/
def emailQuery (email : Value Unit) : List (Call Unit) :=
  [.source "users".toList, .whereRaw "email = ?".toList [email]]

/-- A value that is a number or `null` is a parameter. -/
theorem valuesKeptOut_iff_sound_null : ValuesKeptOut .postgres (emailQuery .null) :=
  (valuesKeptOut_iff_sound .postgres (emailQuery .null) (by
    simp only [emailQuery, WellFormedCalls, Call.WellFormed]
    decide)).2 (by decide)

/-- A value that is a string becomes a part of the text. -/
theorem string_value_counterexample : (build .postgres (emailQuery (.string "x OR 1=1".toList))).1 =
        "SELECT * FROM users WHERE email = $1 x OR 1=1".toList ∧
      ¬ ValuesKeptOut .postgres (emailQuery (.string "x OR 1=1".toList)) := by
  refine ⟨by decide, fun h => ?_⟩
  have hsql := h.sql
  revert hsql
  decide

end StreetJS.Database
