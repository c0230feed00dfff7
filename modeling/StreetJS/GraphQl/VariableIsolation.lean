/-
Variables against documents (`core/src/graphql/engine.ts`, `prepare`): what it means that variables are data, and
the documents and values for which they are.
-/
import StreetJS.GraphQl.VariableData

namespace StreetJS.GraphQl

open StreetJS.Lib List

/-! ## The shape of an operation -/

mutual

/-- The field without its arguments: names, aliases and nesting. -/
def FieldNode.shape : FieldNode → FieldNode
  | .mk name fieldAlias _ selectionSet => .mk name fieldAlias [] (nestedShape selectionSet)

def nestedShape : Option (List FieldNode) → Option (List FieldNode)
  | none => none
  | some fields => some (shapes fields)

def shapes : List FieldNode → List FieldNode
  | [] => []
  | field :: rest => field.shape :: shapes rest

end

def OperationDef.shape (op : OperationDef) : OperationDef := { op with selectionSet := shapes op.selectionSet }

mutual

theorem fieldDepth_shape : ∀ field : FieldNode, fieldDepth field.shape = fieldDepth field
  | .mk _ _ _ selectionSet => nestedDepth_shape selectionSet

theorem nestedDepth_shape : ∀ fields : Option (List FieldNode), nestedDepth (nestedShape fields) = nestedDepth fields
  | none => rfl
  | some fields => congrArg (· + 1) (maxDepth_shapes fields)

theorem maxDepth_shapes : ∀ fields : List FieldNode, maxDepth (shapes fields) = maxDepth fields
  | [] => rfl
  | field :: rest => by rw [shapes, maxDepth, maxDepth, fieldDepth_shape field, maxDepth_shapes rest]

end

mutual

theorem fieldComplexity_shape : ∀ field : FieldNode, fieldComplexity field.shape = fieldComplexity field
  | .mk _ _ _ selectionSet => congrArg (· + 1) (nestedComplexity_shape selectionSet)

theorem nestedComplexity_shape : ∀ fields : Option (List FieldNode), nestedComplexity (nestedShape fields) = nestedComplexity fields
  | none => rfl
  | some fields => getComplexity_shapes fields

theorem getComplexity_shapes : ∀ fields : List FieldNode, getComplexity (shapes fields) = getComplexity fields
  | [] => rfl
  | field :: rest => by
    rw [shapes, getComplexity, getComplexity, fieldComplexity_shape field, getComplexity_shapes rest]

end

mutual

theorem fieldIntrospects_shape : ∀ field : FieldNode, fieldIntrospects field.shape = fieldIntrospects field
  | .mk _ _ _ selectionSet => by
    rw [FieldNode.shape, fieldIntrospects, fieldIntrospects, nestedIntrospects_shape selectionSet]

theorem nestedIntrospects_shape : ∀ fields : Option (List FieldNode), nestedIntrospects (nestedShape fields) = nestedIntrospects fields
  | none => rfl
  | some fields => usesIntrospection_shapes fields

theorem usesIntrospection_shapes : ∀ fields : List FieldNode, usesIntrospection (shapes fields) = usesIntrospection fields
  | [] => rfl
  | field :: rest => by
    rw [shapes, usesIntrospection, usesIntrospection, fieldIntrospects_shape field, usesIntrospection_shapes rest]

end

variable (opts : GraphQlEngineOptions)

/-- The guards do not read arguments. -/
theorem prepare_shape (ops : List OperationDef) : (opts.prepare ops).map OperationDef.shape = opts.prepare (ops.map OperationDef.shape) := by
  cases ops with
  | nil => rfl
  | cons op ops =>
    have hdepth : getDepth (shapes op.selectionSet) = getDepth op.selectionSet :=
      congrArg (· + 1) (maxDepth_shapes op.selectionSet)
    simp only [GraphQlEngineOptions.prepare, map_cons, OperationDef.shape, hdepth, getComplexity_shapes, usesIntrospection_shapes]
    split
    · rfl
    split
    · rfl
    split
    · rfl
    · rfl

theorem prepare_congr_head {ops ops' : List OperationDef} (h : ops.head? = ops'.head?) : opts.prepare ops = opts.prepare ops' := by
  cases ops with
  | nil =>
    rw [head?_eq_none_iff.1 h.symm]
  | cons op ops =>
    obtain ⟨more, rfl⟩ := head?_eq_some_iff.1 h.symm
    rfl

/-! ## Variables as data -/

/-- An argument that is written as a variable has the variable's value. -/
def HasValue (entries : OrderedMap QueryText Json) (raw : QueryText) (value : ArgValue) : Prop :=
  ∀ name v, raw = asWritten name → entries.get name = some v → v.argValue = some value

mutual

/-- A field of the document and what it is prepared as: the same field, its arguments with their values. -/
def ParsedField.PreparedAs (entries : OrderedMap QueryText Json) : ParsedField → FieldNode → Prop
  | .mk name fieldAlias args selectionSet, .mk name' fieldAlias' args' selectionSet' =>
    name' = String.ofList name ∧ fieldAlias' = fieldAlias.map String.ofList ∧
      List.Forall₂ (fun arg arg' => arg'.1 = String.ofList arg.1 ∧ HasValue entries arg.2 arg'.2) args args' ∧
      NestedPreparedAs entries selectionSet selectionSet'

def NestedPreparedAs (entries : OrderedMap QueryText Json) : Option (List ParsedField) → Option (List FieldNode) → Prop
  | none, none => True
  | some fields, some fields' => FieldsPreparedAs entries fields fields'
  | _, _ => False

def FieldsPreparedAs (entries : OrderedMap QueryText Json) : List ParsedField → List FieldNode → Prop
  | [], [] => True
  | field :: fields, field' :: fields' => field.PreparedAs entries field' ∧ FieldsPreparedAs entries fields fields'
  | _, _ => False

end

/-- In the operation that is prepared every argument written as a variable has the variable's value. -/
def ArgumentsHaveValues (query : QueryText) (vars : Variables) : Prop :=
  ∀ op, opts.prepareQuery query vars = .ok op → ∃ written, (parseDocument query).head? = some written ∧
      FieldsPreparedAs vars.entries written.fields op.selectionSet

/-- Two maps of variables prepare the same operation, and its arguments have their values. -/
def VariablesAreData (query : QueryText) (vars vars' : Variables) : Prop :=
  (opts.prepareQuery query vars).map OperationDef.shape = (opts.prepareQuery query vars').map OperationDef.shape ∧
    ArgumentsHaveValues opts query vars ∧ ArgumentsHaveValues opts query vars'

/-! ## Documents that keep variables in place -/

mutual

/-- The texts of the arguments of the fields. -/
def SkeletonField.argTexts : SkeletonField → List (List Mark)
  | .mk _ _ args selectionSet => args :: nestedArgTexts selectionSet

def nestedArgTexts : Option (List SkeletonField) → List (List Mark)
  | none => []
  | some fields => argTexts fields

def argTexts : List SkeletonField → List (List Mark)
  | [] => []
  | field :: fields => field.argTexts ++ argTexts fields

end

/-- What stands for the variables starts no comment, closes no parenthesis, keeps its braces in pairs and begins no
operation. -/
structure KeepsPlace (query : QueryText) (ts : List Tok) (f : QueryText → QueryText) : Prop where
  hash : ∀ name, .mention name ∈ stripMarks false (marks query) → '#' ∉ f name
  fits : ∀ t ∈ ts, Fits f t
  ahead : ∀ content ∈ groupsAhead false ts, opening false (render f content) = false

/-- Each variable is one whole value, and a plain one. -/
structure ReadAsValues (entries : OrderedMap QueryText Json) (content : List Mark) : Prop where
  read : (readContent 0 content).isSome = true
  plain : ∀ name, .mention name ∈ content → name ≠ [] ∧ ∀ v, entries.get name = some v → v.Plain

/-- A document whose variables stand in parentheses, as whole values where these are the arguments of a field, and
variables that are replaced only where they are mentioned, by texts that keep their place. -/
structure Insulated (query : QueryText) (vars : Variables) : Prop where
  separate : Separate (marks query)
  inTurn : ReplacedInTurn (marks query) [] vars.entries
  placed : ∃ ts operation name fields, tokens (stripMarks false (marks query)) = some ts ∧
    readDocument ts = some (operation, name, fields) ∧ KeepsPlace query ts asWritten ∧
    KeepsPlace query ts (valueText vars.entries) ∧ ∀ content ∈ argTexts fields, ReadAsValues vars.entries content

/-! ## Marks of a document in its arguments -/

variable {query name : QueryText}

theorem mention_isWord (h : .mention name ∈ marks query) : name.all isWord = true := by
  induction query using query_induction with
  | nil => cases h
  | mention s ih =>
    rw [marks_mention] at h
    rcases mem_cons.1 h with h | h
    · cases h
      exact all_takeWhile
    · exact ih h
  | ch c s hc ih =>
    rw [marks_ch hc] at h
    rcases mem_cons.1 h with h | h
    · cases h
    · exact ih h

theorem stripMarks_sublist (comment : Bool) (ms : List Mark) : (stripMarks comment ms).Sublist ms := by
  induction ms generalizing comment with
  | nil => cases comment <;> exact .slnil
  | cons m ms ih =>
    cases comment with
    | true =>
      cases m with
      | ch c =>
        rw [stripMarks]
        split
        · rename_i hc
          rw [hc]
          exact (ih false).cons_cons _
        · exact (ih true).cons _
      | mention name => exact (ih true).cons _
    | false =>
      cases m with
      | ch c =>
        rw [stripMarks]
        split
        · exact (ih true).cons _
        · exact (ih false).cons_cons _
      | mention name => exact (ih false).cons_cons _

theorem Separate.dollar {ms : List Mark} (h : Separate ms) : .ch '$' ∉ ms := by
  induction ms with
  | nil => simp
  | cons m ms ih =>
    rw [mem_cons, not_or]
    cases m with
    | ch c =>
      refine ⟨?_, ih h.2⟩
      rintro heq
      cases heq
      exact h.1 rfl
    | mention name => exact ⟨by simp, ih h.2⟩

variable {ts : List Tok}

theorem mem_of_tokens {ms : List Mark} (h : tokens ms = some ts) {content : List Mark}
    (hcontent : .group content ∈ ts) {m : Mark} (hm : m ∈ content) : m ∈ ms := by
  have hgroup : ∀ {xs : List (Mark ⊕ List Mark)} {ts : List Tok}, tokensOf xs = some ts → .group content ∈ ts → .inr content ∈ xs := by
    intro xs
    induction xs with
    | nil =>
      intro ts h hmem
      cases h
      cases hmem
    | cons x xs ih =>
      intro ts h hmem
      rcases x with (c | name) | content'
      · simp only [tokensOf, Option.ite_none_left_eq_some] at h
        obtain ⟨ts, hts, rfl⟩ := Option.map_eq_some_iff.1 h.2
        rcases mem_cons.1 hmem with heq | hmem
        · cases heq
        · exact mem_cons_of_mem _ (ih hts hmem)
      · cases h
      · obtain ⟨ts, hts, rfl⟩ := Option.map_eq_some_iff.1 h
        rcases mem_cons.1 hmem with heq | hmem
        · cases heq
          exact mem_cons_self
        · exact mem_cons_of_mem _ (ih hts hmem)
  rw [← replaceAll_groups ms, replaceAll, mem_flatMap]
  refine ⟨.inr content, hgroup h hcontent, ?_⟩
  exact mem_cons_of_mem _ (mem_append_left _ hm)

theorem tokArgs_mem (ts : List Tok) : (tokArgs ts).1 = [] ∨ .group (tokArgs ts).1 ∈ ts := by
  rcases ts with - | ⟨c | content, ts⟩
  · exact .inl rfl
  · exact .inl rfl
  · exact .inr mem_cons_self

variable {fields : List SkeletonField}

theorem argTexts_of_readFields {n : Nat} (h : readFields n ts = some fields) :
    ∀ content ∈ argTexts fields, content = [] ∨ .group content ∈ ts := by
  induction n generalizing ts fields with
  | zero =>
    cases h
    simp [argTexts]
  | succ n ih =>
    have hbody := dropChars_suffix isSpace ts
    have hrest : ∀ {us : List Tok} {more : List SkeletonField}, us <:+: ts → readFields n us = some more →
        ∀ content ∈ argTexts more, content = [] ∨ .group content ∈ ts := by
      intro us more hus hmore content hcontent
      exact (ih hmore content hcontent).imp_right fun hmem => hus.subset hmem
    simp only [readFields] at h
    cases hname : tokName (dropChars isSpace ts) with
    | none =>
      rw [hname] at h
      rcases hb : dropChars isSpace ts with - | ⟨c | content, r⟩
      · rw [hb] at h
        cases h
        simp [argTexts]
      · rw [hb] at h hbody
        exact hrest ((suffix_cons (.ch c) r).trans hbody).isInfix h
      · rw [hb] at h
        cases h
    | some found =>
      obtain ⟨first, r⟩ := found
      have halias := (tokAlias_suffix first r).trans ((tokName_suffix hname).1.trans hbody)
      have hparen := (dropChars_suffix isSpace _).trans halias
      have hbrace := (dropChars_suffix isSpace _).trans ((tokArgs_suffix _).trans hparen)
      have hargs := (tokArgs_mem (dropChars isSpace (tokAlias first r).2.2)).imp_right fun hmem => hparen.subset hmem
      rw [hname] at h
      simp only at h
      generalize dropChars isSpace (tokArgs (dropChars isSpace (tokAlias first r).2.2)).2 = behind at h hbrace
      split at h
      · rename_i r'
        split at h
        · cases h
        · rename_i inner rest hblock
          split at h
          · rename_i nested more hnested hmore
            cases h
            have heq := tokBlock_eq hblock
            have hr' := ((suffix_cons _ r').trans hbrace).isInfix
            have hinner : inner <:+: ts := List.IsInfix.trans ⟨[], .ch '}' :: rest, heq.symm⟩ hr'
            have hbehind : rest <:+: ts := List.IsInfix.trans ⟨inner ++ [.ch '}'], [], by simp [heq]⟩ hr'
            simp only [argTexts, SkeletonField.argTexts, nestedArgTexts, mem_append, mem_cons]
            rintro content ((rfl | hcontent) | hcontent)
            · exact hargs
            · exact hrest hinner hnested content hcontent
            · exact hrest hbehind hmore content hcontent
          · cases h
      · obtain ⟨more, hmore, rfl⟩ := Option.map_eq_some_iff.1 h
        simp only [argTexts, SkeletonField.argTexts, nestedArgTexts, mem_append, mem_singleton]
        rintro content (rfl | hcontent)
        · exact hargs
        · exact hrest hbrace.isInfix hmore content hcontent

variable {operation : Operation}

theorem argTexts_of_readDocument
    (h : readDocument ts = some (operation, name, fields)) : ∀ content ∈ argTexts fields, content = [] ∨ .group content ∈ ts := by
  have hblock : ∀ {rest : List Tok} {operation' : Operation} {name' : QueryText}, rest <:+ ts →
      ((tokBlock 0 rest).bind fun b => (readFields b.1.length b.1).map fun fields => (operation', name', fields)) =
        some (operation, name, fields) → ∀ content ∈ argTexts fields, content = [] ∨ .group content ∈ ts := by
    intro rest operation' name' hrest hbind content hcontent
    obtain ⟨b, hb, hmap⟩ := Option.bind_eq_some_iff.1 hbind
    obtain ⟨fields', hfields, heq⟩ := Option.map_eq_some_iff.1 hmap
    cases heq
    refine (argTexts_of_readFields hfields content hcontent).imp_right fun hmem => hrest.subset ?_
    rw [tokBlock_eq hb]
    exact mem_append_left _ hmem
  unfold readDocument at h
  split at h
  · rename_i hfirst
    exact hblock (firstOp_suffix hfirst) h
  · split at h
    · rename_i rest heq
      have hdrop := dropChars_suffix isSpace ts
      rw [heq] at hdrop
      exact hblock ((suffix_cons _ rest).trans hdrop) h
    · cases h

/-! ## The arguments of a field -/

/-- Arguments with the same keys and related values. -/
def SameKeys {X Y : Type} (R : X → Y → Prop) (arg : QueryText × X) (arg' : QueryText × Y) : Prop :=
  arg.1 = arg'.1 ∧ R arg.2 arg'.2

theorem set_rel {X Y : Type} {R : X → Y → Prop} {m : OrderedMap QueryText X} {m' : OrderedMap QueryText Y}
    (h : List.Forall₂ (SameKeys R) m m') {key : QueryText} {x : X} {y : Y} (hxy : R x y) :
    List.Forall₂ (SameKeys R) (m.set key x) (m'.set key y) := by
  induction h with
  | nil => exact .cons ⟨rfl, hxy⟩ .nil
  | @cons e e' m m' he hm ih =>
    obtain ⟨k₀, x₀⟩ := e
    obtain ⟨k₁, y₀⟩ := e'
    obtain rfl : k₀ = k₁ := he.1
    by_cases hk : k₀ = key
    · simp only [OrderedMap.set, hk, if_true]
      exact .cons ⟨rfl, hxy⟩ hm
    · simp only [OrderedMap.set, hk, if_false]
      exact .cons ⟨rfl, he.2⟩ ih

theorem collectArgs_rel {R : QueryText → QueryText → Prop} {found found' : List (QueryText × QueryText)}
    (h : List.Forall₂ (SameKeys R) found found') : List.Forall₂ (SameKeys R) (collectArgs found) (collectArgs found') := by
  refine rel_foldl ?_ .nil h
  rintro m m' hm ⟨key, raw⟩ ⟨key', raw'⟩ harg
  obtain rfl : key = key' := harg.1
  beta_reduce
  split
  · exact hm
  · exact set_rel hm harg.2

theorem args_prepared {entries : OrderedMap QueryText Json} {content : List Mark} (hread : ReadAsValues entries content)
    (hword : ∀ name, .mention name ∈ content → name.all isWord = true) (hdollar : .ch '$' ∉ content) :
    List.Forall₂ (fun arg arg' => arg'.1 = String.ofList arg.1 ∧ HasValue entries arg.2 arg'.2)
      (collectArgs (found argAt (render asWritten content)))
      ((collectArgs (found argAt (render (valueText entries) content))).map fun arg => (String.ofList arg.1, parseArgValue arg.2)) := by
  obtain ⟨args, hargs⟩ := Option.isSome_iff_exists.1 hread.read
  have hwritten : ∀ name, .mention name ∈ content → ValueText (asWritten name) :=
    fun name hname => asWritten_valueText (hread.plain name hname).1 (hword name hname)
  have hvalue : ∀ name, .mention name ∈ content → ValueText (valueText entries name) := by
    intro name hname
    unfold valueText
    split
    · rename_i v hv
      exact stringify_valueText ((hread.plain name hname).2 v hv)
    · exact hwritten name hname
  rw [found_render hwritten hargs, found_render hvalue hargs, List.forall₂_map_right_iff]
  have hrel : List.Forall₂ (SameKeys fun raw given => HasValue entries raw (parseArgValue given))
      (args.map fun arg => (arg.1, arg.2.text asWritten)) (args.map fun arg => (arg.1, arg.2.text (valueText entries))) := by
    rw [List.forall₂_map_left_iff, List.forall₂_map_right_iff, List.forall₂_same]
    rintro ⟨key, value⟩ harg
    refine ⟨rfl, ?_⟩
    have hwithin := readContent_within hargs _ harg
    intro name v hraw hget
    cases value with
    | lit raw =>
      -- a mention is no part of a literal
      apply absurd _ hdollar
      apply hwithin '$'
      rw [show raw = asWritten name from hraw]
      exact mem_cons_self
    | var name' =>
      obtain rfl : name' = name := (List.cons.inj hraw).2
      rw [ArgText.text, valueText, hget]
      exact parseArgValue_stringify ((hread.plain name' hwithin).2 v hget)
  exact (collectArgs_rel hrel).imp fun arg arg' h => ⟨congrArg String.ofList h.1.symm, h.2⟩

mutual

theorem parsed_prepared {entries : OrderedMap QueryText Json} : ∀ (field : SkeletonField),
    (∀ content ∈ field.argTexts, ReadAsValues entries content ∧
      (∀ name, .mention name ∈ content → name.all isWord = true) ∧ .ch '$' ∉ content) →
    (field.parsed asWritten).PreparedAs entries (field.parsed (valueText entries)).node
  | .mk name fieldAlias args selectionSet, h => by
    have hargs := h args mem_cons_self
    exact ⟨rfl, rfl, args_prepared hargs.1 hargs.2.1 hargs.2.2,
      nestedParsed_prepared selectionSet fun content hcontent => h content (mem_cons_of_mem _ hcontent)⟩

theorem nestedParsed_prepared {entries : OrderedMap QueryText Json} : ∀ (fields : Option (List SkeletonField)),
    (∀ content ∈ nestedArgTexts fields, ReadAsValues entries content ∧
      (∀ name, .mention name ∈ content → name.all isWord = true) ∧ .ch '$' ∉ content) →
    NestedPreparedAs entries (nestedParsed asWritten fields) (nestedNodes (nestedParsed (valueText entries) fields))
  | none, _ => trivial
  | some fields, h => parsedFields_prepared fields h

theorem parsedFields_prepared {entries : OrderedMap QueryText Json} : ∀ (fields : List SkeletonField),
    (∀ content ∈ argTexts fields, ReadAsValues entries content ∧
      (∀ name, .mention name ∈ content → name.all isWord = true) ∧ .ch '$' ∉ content) →
    FieldsPreparedAs entries (parsedFields asWritten fields) (nodes (parsedFields (valueText entries) fields))
  | [], _ => trivial
  | field :: fields, h =>
    ⟨parsed_prepared field fun content hcontent => h content (mem_append_left _ hcontent),
      parsedFields_prepared fields fun content hcontent => h content (mem_append_right _ hcontent)⟩

end

mutual

theorem parsed_shape (f g : QueryText → QueryText) : ∀ field : SkeletonField, (field.parsed f).node.shape = (field.parsed g).node.shape
  | .mk _ _ _ selectionSet => by
    simp only [SkeletonField.parsed, ParsedField.node, FieldNode.shape, nestedParsed_shape f g selectionSet]

theorem nestedParsed_shape (f g : QueryText → QueryText) : ∀ fields : Option (List SkeletonField),
    nestedShape (nestedNodes (nestedParsed f fields)) = nestedShape (nestedNodes (nestedParsed g fields))
  | none => rfl
  | some fields => congrArg some (parsedFields_shape f g fields)

theorem parsedFields_shape (f g : QueryText → QueryText) : ∀ fields : List SkeletonField,
    shapes (nodes (parsedFields f fields)) = shapes (nodes (parsedFields g fields))
  | [] => rfl
  | field :: fields => by
    simp only [parsedFields, nodes, shapes, parsed_shape f g field, parsedFields_shape f g fields]

end

/-! ## Preparing insulated documents -/

theorem parseDocument_keepsPlace {f : QueryText → QueryText}
    (hf : KeepsPlace query ts f) (hline : ∀ name, .mention name ∈ marks query → '\n' ∉ f name)
    (htokens : tokens (stripMarks false (marks query)) = some ts)
    (hread : readDocument ts = some (operation, name, fields)) :
    (parseDocument (render f (marks query))).head? =
      some { operation, name := if name = [] then none else some name, fields := parsedFields f fields } := by
  have hquery : stripComments false (render f (marks query)) = renderTokens f ts := by
    rw [stripComments_render false hline hf.hash, renderTokens_tokens htokens]
  exact parseDocument_render hquery hf.fits hf.ahead hread

theorem newline_not_mem_asWritten (h : name.all isWord = true) : '\n' ∉ asWritten name := by
  intro hmem
  rcases mem_cons.1 hmem with heq | hmem
  · revert heq
    decide
  · have hword := all_eq_true.1 h _ hmem
    revert hword
    decide

theorem newline_not_mem_valueText (entries : OrderedMap QueryText Json) (h : name.all isWord = true) : '\n' ∉ valueText entries name := by
  unfold valueText
  split
  · exact newline_not_mem_stringify _
  · exact newline_not_mem_asWritten h

variable {vars : Variables}

/-- What an insulated document is parsed as, and what it is prepared as: one skeleton, with the variables as they are
written and with their values. -/
theorem Insulated.parsed (h : Insulated query vars)
        (htokens : tokens (stripMarks false (marks query)) = some ts) (hread : readDocument ts = some (operation, name, fields)) :
    (∃ written, (parseDocument query).head? = some written ∧ written.fields = parsedFields asWritten fields) ∧
      (parseDocument (substitute vars.entries query)).head? = some
        { operation, name := if name = [] then none else some name, fields := parsedFields (valueText vars.entries) fields } ∧
      FieldsPreparedAs vars.entries (parsedFields asWritten fields) (nodes (parsedFields (valueText vars.entries) fields)) := by
  obtain ⟨ts', operation', name', fields', htokens', hread', hwritten, hvalue, hargs⟩ := h.placed
  obtain rfl := Option.some.inj (htokens'.symm.trans htokens)
  obtain ⟨rfl, rfl, rfl⟩ : operation' = operation ∧ name' = name ∧ fields' = fields := by
    have heq := Option.some.inj (hread'.symm.trans hread)
    simpa using heq
  refine ⟨⟨{ operation := operation', name := if name' = [] then none else some name', fields := parsedFields asWritten fields' },
    ?_, rfl⟩, ?_, ?_⟩
  · have hparse := parseDocument_keepsPlace hwritten (fun name hname => newline_not_mem_asWritten (mention_isWord hname)) htokens hread
    rwa [render_marks] at hparse
  · rw [substitute_marks vars h.separate h.inTurn]
    exact parseDocument_keepsPlace hvalue (fun name hname => newline_not_mem_valueText vars.entries (mention_isWord hname)) htokens hread
  · apply parsedFields_prepared
    intro content hcontent
    have hmarks : ∀ m ∈ content, m ∈ marks query := by
      intro m hm
      rcases argTexts_of_readDocument hread content hcontent with rfl | hgroup
      · cases hm
      · exact (stripMarks_sublist false (marks query)).subset (mem_of_tokens htokens hgroup hm)
    exact ⟨hargs content hcontent, fun name hname => mention_isWord (hmarks _ hname), fun hdollar => h.separate.dollar (hmarks _ hdollar)⟩

theorem Insulated.argumentsHaveValues (h : Insulated query vars) (opts : GraphQlEngineOptions) : ArgumentsHaveValues opts query vars := by
  intro op hop
  obtain ⟨ts, operation, name, fields, htokens, hread, -⟩ := h.placed
  obtain ⟨⟨written, hwritten, hfields⟩, hparse, hprepared⟩ := h.parsed htokens hread
  have hhead := prepare_head hop
  rw [head?_map, hparse] at hhead
  obtain rfl := Option.some.inj hhead
  refine ⟨written, hwritten, ?_⟩
  rw [hfields]
  exact hprepared

theorem Insulated.shape (h : Insulated query vars) (opts : GraphQlEngineOptions)
        (htokens : tokens (stripMarks false (marks query)) = some ts) (hread : readDocument ts = some (operation, name, fields)) :
    (opts.prepareQuery query vars).map OperationDef.shape = opts.prepare
      [{ operation, name := if name = [] then none else some (String.ofList name),
         selectionSet := shapes (nodes (parsedFields asWritten fields)) }] := by
  obtain ⟨-, hparse, -⟩ := h.parsed htokens hread
  unfold GraphQlEngineOptions.prepareQuery
  rw [prepare_shape]
  apply prepare_congr_head
  rw [head?_map, head?_map, hparse]
  simp only [Option.map_some, head?_cons, ParsedOperation.operationDef, OperationDef.shape,
    parsedFields_shape (valueText vars.entries) asWritten, Option.some.injEq, OperationDef.mk.injEq, and_true, true_and]
  split
  · rfl
  · rfl

theorem plainReplacement_of_noDollar {text : QueryText} (h : '$' ∉ text) : PlainReplacement text := by
  intro before matched after
  induction text with
  | nil => rfl
  | cons c s ih =>
    rw [mem_cons, not_or] at h
    have hc : c ≠ '$' := Ne.symm h.1
    rw [expand, ih h.2] <;> (rintro t heq; exact absurd heq hc)

/-- `{user(id:$id){name}}` -/
def userQuery : QueryText :=
  ['{', 'u', 's', 'e', 'r', '(', 'i', 'd', ':', '$', 'i', 'd', ')', '{', 'n', 'a', 'm', 'e', '}', '}']

/-- The variable `id` alone. -/
def idVariable (value : Json) : Variables where
  entries := [(['i', 'd'], value)]
  names := by simp; rfl
  nodup := by simp

theorem marks_userQuery :
    marks userQuery = [.ch '{', .ch 'u', .ch 's', .ch 'e', .ch 'r', .ch '(', .ch 'i', .ch 'd', .ch ':', .mention ['i', 'd'],
      .ch ')', .ch '{', .ch 'n', .ch 'a', .ch 'm', .ch 'e', .ch '}', .ch '}'] := by
  decide

/-- The one argument of the document, with a text in the place of its variable. -/
def idArgument (text : QueryText) : QueryText := ['i', 'd', ':'] ++ text

theorem userQuery_insulated {value : Json} (hplain : value.Plain) (hdollar : '$' ∉ value.stringify)
    (hhash : '#' ∉ value.stringify) (hparen : ')' ∉ idArgument value.stringify)
    (hbraces : balanced 0 (idArgument value.stringify) = true) (hopen : opening false (idArgument value.stringify) = false) :
    Insulated userQuery (idVariable value) := by
  have hmention : ∀ name, .mention name ∈ marks userQuery → name = ['i', 'd'] := by
    rw [marks_userQuery]
    simp
  have hkeeps : ∀ {f : QueryText → QueryText}, '#' ∉ f ['i', 'd'] → ')' ∉ idArgument (f ['i', 'd']) →
      balanced 0 (idArgument (f ['i', 'd'])) = true → opening false (idArgument (f ['i', 'd'])) = false →
      KeepsPlace userQuery [.ch '{', .ch 'u', .ch 's', .ch 'e', .ch 'r',
        .group [.ch 'i', .ch 'd', .ch ':', .mention ['i', 'd']], .ch '{', .ch 'n', .ch 'a', .ch 'm', .ch 'e', .ch '}', .ch '}'] f := by
    intro f hhash hparen hbraces hopen
    have htext : render f [.ch 'i', .ch 'd', .ch ':', .mention ['i', 'd']] = idArgument (f ['i', 'd']) := by
      simp [render, idArgument]
    refine ⟨?_, ?_, ?_⟩
    · intro name hname
      rw [hmention name ((stripMarks_sublist false _).subset hname)]
      exact hhash
    · simp [Fits, htext, hparen, hbraces]
    · intro content hcontent
      obtain rfl : content = [.ch 'i', .ch 'd', .ch ':', .mention ['i', 'd']] := mem_singleton.1 hcontent
      rw [htext]
      exact hopen
  refine ⟨?_, ⟨fun _ => plainReplacement_of_noDollar hdollar, ?_, trivial⟩, _, _, _, _, rfl, rfl,
    hkeeps (by decide) (by decide) (by decide) (by decide), hkeeps hhash hparen hbraces hopen, ?_⟩
  · rw [marks_userQuery]
    simp [Separate]
    decide
  · intro name hname hne
    exact absurd (hmention name hname) hne
  · intro content hcontent
    change content ∈ [[.ch 'i', .ch 'd', .ch ':', .mention ['i', 'd']], []] at hcontent
    rcases mem_pair.1 hcontent with rfl | rfl
    · refine ⟨by rfl, fun name hname => ?_⟩
      obtain rfl : name = ['i', 'd'] := by simpa using hname
      refine ⟨by simp, fun v hv => ?_⟩
      obtain rfl : value = v := Option.some.inj hv
      exact hplain
    · exact ⟨rfl, by simp⟩

end StreetJS.GraphQl
