/-
The router of `router/src/router.ts`: the routes in the order of registration, the first whose expression takes
the path of the request, and the parameters that its groups give.
-/
import StreetJS.Http.PathPattern
import StreetJS.Lib.OrderedMap

namespace StreetJS.Http

open StreetJS.Lib List

/-! ## Percent-decoding -/

def hexDigit (c : Char) : Option Nat :=
  if '0' ≤ c ∧ c ≤ '9' then some (c.toNat - 48)
  else if 'a' ≤ c ∧ c ≤ 'f' then some (c.toNat - 87)
  else if 'A' ≤ c ∧ c ≤ 'F' then some (c.toNat - 55)
  else none

/-- The characters of a text and the octets of its escapes; `none` for an escape without two digits. -/
def unescape : PathText → Option (List (Char ⊕ Nat))
  | [] => some []
  | '%' :: a :: b :: s =>
    match hexDigit a, hexDigit b with
    | some high, some low => (unescape s).map (.inr (16 * high + low) :: ·)
    | _, _ => none
  | '%' :: _ => none
  | c :: s => (unescape s).map (.inl c :: ·)

/-- What a character begun still needs: how many octets, the range of the next one, and the bits so far. -/
structure Owed where
  count : Nat
  low : Nat := 0x80
  high : Nat := 0xBF
  bits : Nat

/-- The first octet of a character of several; `none` begins none. -/
def leadOctet (b : Nat) : Option Owed :=
  if 0xC2 ≤ b ∧ b ≤ 0xDF then some { count := 1, bits := b - 0xC0 }
  else if b = 0xE0 then some { count := 2, low := 0xA0, bits := 0 }
  else if b = 0xED then some { count := 2, high := 0x9F, bits := 0xD }
  else if 0xE1 ≤ b ∧ b ≤ 0xEF then some { count := 2, bits := b - 0xE0 }
  else if b = 0xF0 then some { count := 3, low := 0x90, bits := 0 }
  else if 0xF1 ≤ b ∧ b ≤ 0xF3 then some { count := 3, bits := b - 0xF0 }
  else if b = 0xF4 then some { count := 3, high := 0x8F, bits := 4 }
  else none

/-- Octets are UTF-8, and no character may stand between those of one character. -/
def decodeOctets : Option Owed → List (Char ⊕ Nat) → Option PathText
  | none, [] => some []
  | some _, [] => none
  | none, .inl c :: s => (decodeOctets none s).map (c :: ·)
  | some _, .inl _ :: _ => none
  | none, .inr b :: s =>
    if b < 0x80 then (decodeOctets none s).map (Char.ofNat b :: ·)
    else
      match leadOctet b with
      | some owed => decodeOctets (some owed) s
      | none => none
  | some owed, .inr b :: s =>
    if owed.low ≤ b ∧ b ≤ owed.high then
      if owed.count = 1 then (decodeOctets none s).map (Char.ofNat (64 * owed.bits + (b - 0x80)) :: ·)
      else decodeOctets (some { count := owed.count - 1, bits := 64 * owed.bits + (b - 0x80) }) s
    else none

/-- `none` is the `URIError`. -/
def decodeURIComponent (s : PathText) : Option PathText := (unescape s).bind (decodeOctets none)

/-! ## The routes -/

def normalizeRoutePath (path : PathText) : PathText :=
  let normalized := '/' :: path.dropWhile (· == '/')
  if normalized = ['/'] then normalized else (normalized.reverse.dropWhile (· == '/')).reverse

def isCanonicalRequestPath (path : PathText) : Bool := path == ['/'] || path.getLast? != some '/'

/-- A route as it is registered, with its middlewares and handler as one. -/
structure CompiledRoute (H : Type) where
  method : List Char
  pathTemplate : PathText
  compiled : CompiledPath
  compiled_eq : compiled = compilePath pathTemplate
  handler : H

section

variable {H : Type}

/-- `add` -/
def addRoute (routes : List (CompiledRoute H)) (method path : PathText) (handler : H) : List (CompiledRoute H) :=
  routes ++ [{ method := method.map Char.toUpper, pathTemplate := normalizeRoutePath path,
               compiled := compilePath (normalizeRoutePath path), compiled_eq := rfl, handler }]

/-- `params` of the context: an object without properties of its own at first. -/
abbrev Params := OrderedMap PathText PathText

def protoName : PathText := ['_', '_', 'p', 'r', 'o', 't', 'o', '_', '_']

/-- `params[name] = value`: the prototype of an object is not set to a string. -/
def setParam (params : Params) (name value : PathText) : Params :=
  if name = protoName then params else params.set name value

/-- What `match` throws; `errorHandler` answers it with status 500. -/
inductive MatchError where
  | uriError

/-- `m[i + 1] ?? ''` -/
def groupText (texts : List PathText) (i : Nat) : PathText := texts.getD i []

/-- `paramNames.forEach` -/
def bindParams (texts : List PathText) : List (PathText × Nat) → Params → Except MatchError Params
  | [], params => .ok params
  | (name, i) :: names, params =>
    match decodeURIComponent (groupText texts i) with
    | some value => bindParams texts names (setParam params name value)
    | none => .error .uriError

def CompiledRoute.serves (route : CompiledRoute H) (method : List Char) : Bool :=
  route.method == method || route.method == ['*']

def matchIn (method path : PathText) : List (CompiledRoute H) → Except MatchError (Option (CompiledRoute H × Params))
  | [] => .ok none
  | route :: routes =>
    if route.serves method then
      match route.compiled.exec path with
      | none => matchIn method path routes
      | some texts => (bindParams texts route.compiled.paramNames.zipIdx []).map fun params => some (route, params)
    else matchIn method path routes

/-- `match` -/
def matchRoute (routes : List (CompiledRoute H)) (method path : PathText) : Except MatchError (Option (CompiledRoute H × Params)) :=
  if isCanonicalRequestPath path then matchIn method path routes else .ok none

/-! ## What matching should give -/

/-- The canonical path is divided by the template of a route of the method. -/
structure CompiledRoute.Accepts (route : CompiledRoute H) (method path : PathText) : Prop where
  serves : route.serves method = true
  canonical : isCanonicalRequestPath path = true
  divided : ∃ texts, TemplateMatches route.pathTemplate path texts

instance (route : CompiledRoute H) (method path : PathText) : Decidable (route.Accepts method path) :=
  decidable_of_iff (route.serves method = true ∧ isCanonicalRequestPath path = true ∧
      SequencePattern.test ((tokens route.pathTemplate).map Token.item) path = true)
    ⟨fun h => ⟨h.1, h.2.1, SequencePattern.test_iff.1 h.2.2⟩, fun h => ⟨h.serves, h.canonical, SequencePattern.test_iff.2 h.divided⟩⟩

def firstAccepting (routes : List (CompiledRoute H)) (method path : PathText) : Option (CompiledRoute H) :=
  routes.find? fun route => decide (route.Accepts method path)

/-- The escapes of the path are well formed. -/
def WellEscaped (path : PathText) : Prop := decodeURIComponent path ≠ none

/-- The division of the path that matching finds: from the left each group takes as much as it can, a wildcard no
more than a line. -/
def Division (template path : PathText) (texts : List PathText) : Prop :=
  SequencePattern.exec ((tokens template).map Token.compiled) path = some texts

/-- Each name has the decoded text of its own group. -/
def ParamsBound (template : PathText) (texts : List PathText) (params : Params) : Prop :=
  ∀ k name, (groups template)[k]? = some (some name) →
    ∃ value, decodeURIComponent (groupText texts k) = some value ∧ params.get name = some value

/-- The first route that accepts, with its parameters bound; nothing where none accepts or the path is not well
escaped; and no error. -/
def MatchedAsDeclared (routes : List (CompiledRoute H)) (method path : PathText) : Prop :=
  match matchRoute routes method path with
  | .error _ => False
  | .ok none => WellEscaped path → firstAccepting routes method path = none
  | .ok (some (route, params)) =>
    WellEscaped path ∧ firstAccepting routes method path = some route ∧
      ∃ texts, Division route.pathTemplate path texts ∧ TemplateMatches route.pathTemplate path texts ∧
        ParamsBound route.pathTemplate texts params

/-- The group that the value of a name is read from: the one at the place of the name's last occurrence. -/
def readIndex (names : List PathText) (name : PathText) : Option Nat :=
  ((names.zipIdx.filter fun e => e.1 = name).getLast?).map (·.2)

/-- The texts that are read decode, and each name reads what its own group has. -/
structure ReadsOwn (template : PathText) (texts : List PathText) : Prop where
  decodes : ∀ e ∈ (compilePath template).paramNames.zipIdx, decodeURIComponent (groupText texts e.2) ≠ none
  own : ∀ k name, (groups template)[k]? = some (some name) → name ≠ protoName ∧
    ∀ i, readIndex (compilePath template).paramNames name = some i →
      decodeURIComponent (groupText texts i) = decodeURIComponent (groupText texts k)

/-- The path is well escaped, the first template that matches divides it line by line and reads its own texts; or
the path is not, and no expression takes it. -/
structure RoutesSafely (routes : List (CompiledRoute H)) (method path : PathText) : Prop where
  well : WellEscaped path → ∀ route, firstAccepting routes method path = some route →
    ∃ texts, Division route.pathTemplate path texts ∧ ReadsOwn route.pathTemplate texts
  ill : ¬ WellEscaped path → ∀ route ∈ routes, route.Accepts method path → ∀ texts, ¬ Division route.pathTemplate path texts

/-! ## Parameters -/

variable {texts : List PathText} {names : List (PathText × Nat)}

theorem bindParams_error (params : Params) (h : ∃ e ∈ names, decodeURIComponent (groupText texts e.2) = none) :
    bindParams texts names params = .error .uriError := by
  induction names generalizing params with
  | nil =>
    obtain ⟨e, he, -⟩ := h
    cases he
  | cons e names ih =>
    unfold bindParams
    split
    · rename_i value hvalue
      apply ih
      obtain ⟨e, he, hnone⟩ := h
      rcases mem_cons.1 he with rfl | he
      · rw [hvalue] at hnone
        cases hnone
      · exact ⟨e, he, hnone⟩
    · rfl

theorem bindParams_ok (params : Params) (h : ∀ e ∈ names, decodeURIComponent (groupText texts e.2) ≠ none) :
    ∃ params', bindParams texts names params = .ok params' ∧ ∀ name, name ≠ protoName → params'.get name =
        match (names.filter fun e => e.1 = name).getLast? with
        | some e => decodeURIComponent (groupText texts e.2)
        | none => params.get name := by
  induction names generalizing params with
  | nil => exact ⟨params, rfl, fun name _ => rfl⟩
  | cons e names ih =>
    obtain ⟨n, i⟩ := e
    rw [forall_mem_cons] at h
    obtain ⟨value, hvalue⟩ := Option.ne_none_iff_exists'.1 h.1
    obtain ⟨params', hbind, hget⟩ := ih (setParam params n value) h.2
    refine ⟨params', ?_, ?_⟩
    · unfold bindParams
      rw [hvalue]
      exact hbind
    · intro name hname
      rw [hget name hname]
      by_cases hn : n = name
      · subst hn
        rw [filter_cons_of_pos (by simp), getLast?_cons]
        cases hlast : (names.filter fun e => e.1 = n).getLast? with
        | some e => rfl
        | none => simp [setParam, hname, hvalue]
      · rw [filter_cons_of_neg (by simpa using hn)]
        cases hlast : (names.filter fun e => e.1 = name).getLast? with
        | some e => rfl
        | none =>
          simp only [setParam]
          split
          · rfl
          · rw [OrderedMap.get_set, if_neg (Ne.symm hn)]

/-- The prototype is not a property of the object. -/
theorem bindParams_proto {params params' : Params}
    (h : bindParams texts names params = .ok params') : params'.get protoName = params.get protoName := by
  induction names generalizing params with
  | nil =>
    cases h
    rfl
  | cons e names ih =>
    unfold bindParams at h
    split at h
    · rw [ih h]
      unfold setParam
      split
      · rfl
      · rename_i hn
        rw [OrderedMap.get_set, if_neg (Ne.symm hn)]
    · cases h

theorem mem_paramNames {template name : PathText} {k : Nat} (h : (groups template)[k]? = some (some name)) :
    name ∈ (compilePath template).paramNames := by
  rw [paramNames_eq_groups]
  exact mem_filterMap.2 ⟨some name, mem_of_getElem? h, rfl⟩

theorem exists_last {names : List PathText} {name : PathText} (h : name ∈ names) :
    ∃ e, (names.zipIdx.filter fun e => e.1 = name).getLast? = some e ∧ e ∈ names.zipIdx := by
  obtain ⟨i, hi⟩ := mem_iff_getElem?.1 h
  have hmem : (name, i) ∈ names.zipIdx.filter fun e => e.1 = name := by
    rw [mem_filter, mk_mem_zipIdx_iff_getElem?]
    exact ⟨hi, by simp⟩
  cases hlast : (names.zipIdx.filter fun e => e.1 = name).getLast? with
  | none =>
    rw [getLast?_eq_none_iff.1 hlast] at hmem
    cases hmem
  | some e => exact ⟨e, rfl, mem_of_mem_filter (mem_of_getLast? hlast)⟩

theorem paramsBound_iff {template : PathText} : (∃ params, bindParams texts (compilePath template).paramNames.zipIdx [] = .ok params ∧
      ParamsBound template texts params) ↔ ReadsOwn template texts := by
  constructor
  · rintro ⟨params, hbind, hbound⟩
    have hdecodes : ∀ e ∈ (compilePath template).paramNames.zipIdx, decodeURIComponent (groupText texts e.2) ≠ none := by
      intro e he hnone
      rw [bindParams_error [] ⟨e, he, hnone⟩] at hbind
      cases hbind
    refine ⟨hdecodes, ?_⟩
    intro k name hk
    obtain ⟨value, hvalue, hget⟩ := hbound k name hk
    have hname : name ≠ protoName := by
      rintro rfl
      rw [bindParams_proto hbind] at hget
      cases hget
    refine ⟨hname, ?_⟩
    intro i hi
    obtain ⟨params', hbind', hlast⟩ := bindParams_ok [] hdecodes
    rw [hbind] at hbind'
    cases hbind'
    obtain ⟨e, he, rfl⟩ := Option.map_eq_some_iff.1 hi
    rw [hlast name hname, he] at hget
    rw [hvalue]
    exact hget
  · intro h
    obtain ⟨params, hbind, hlast⟩ := bindParams_ok [] h.decodes
    refine ⟨params, hbind, ?_⟩
    intro k name hk
    obtain ⟨hname, hown⟩ := h.own k name hk
    obtain ⟨e, he, hmem⟩ := exists_last (mem_paramNames hk)
    have hread : readIndex (compilePath template).paramNames name = some e.2 := by
      unfold readIndex
      rw [he]
      rfl
    obtain ⟨value, hvalue⟩ := Option.ne_none_iff_exists'.1 (h.decodes e hmem)
    refine ⟨value, ?_, ?_⟩
    · rw [← hown e.2 hread, hvalue]
    · rw [hlast name hname, he]
      exact hvalue

/-! ## The route that matches -/

/-- The expression of a route of the method takes the path. -/
def CompiledRoute.takes (route : CompiledRoute H) (method path : PathText) : Bool :=
  route.serves method && (route.compiled.exec path).isSome

variable {path : PathText}

theorem exec_eq_division (route : CompiledRoute H) : route.compiled.exec path = some texts ↔ Division route.pathTemplate path texts := by
  rw [route.compiled_eq, compilePath_exec]
  exact Iff.rfl

variable {method : PathText}

theorem matchIn_none {routes : List (CompiledRoute H)}
    (h : routes.find? (·.takes method path) = none) : matchIn method path routes = .ok none := by
  induction routes with
  | nil => rfl
  | cons route routes ih =>
    rw [find?_cons] at h
    unfold matchIn
    cases hserves : route.serves method with
    | false =>
      simp only [CompiledRoute.takes, hserves, Bool.false_and] at h
      simpa using ih h
    | true =>
      cases hexec : route.compiled.exec path with
      | none =>
        simp only [CompiledRoute.takes, hserves, hexec, Option.isSome_none, Bool.and_false] at h
        simpa using ih h
      | some texts => simp [CompiledRoute.takes, hserves, hexec] at h

theorem matchIn_some {routes : List (CompiledRoute H)} {route : CompiledRoute H} (h : routes.find? (·.takes method path) = some route)
    (htexts : route.compiled.exec path = some texts) :
    matchIn method path routes = (bindParams texts route.compiled.paramNames.zipIdx []).map fun params => some (route, params) := by
  induction routes with
  | nil => cases h
  | cons r routes ih =>
    rw [find?_cons] at h
    unfold matchIn
    cases hserves : r.serves method with
    | false =>
      simp only [CompiledRoute.takes, hserves, Bool.false_and] at h
      simpa using ih h
    | true =>
      cases hexec : r.compiled.exec path with
      | none =>
        simp only [CompiledRoute.takes, hserves, hexec, Option.isSome_none, Bool.and_false] at h
        simpa using ih h
      | some texts' =>
        simp only [CompiledRoute.takes, hserves, hexec, Option.isSome_some, Bool.and_true, Option.some.injEq] at h
        subst h
        rw [htexts] at hexec
        cases hexec
        rfl

theorem accepts_of_takes {route : CompiledRoute H}
    (hpath : isCanonicalRequestPath path = true) (h : route.takes method path = true) : route.Accepts method path := by
  unfold CompiledRoute.takes at h
  rw [Bool.and_eq_true] at h
  obtain ⟨texts, htexts⟩ := Option.isSome_iff_exists.1 h.2
  rw [route.compiled_eq] at htexts
  exact ⟨h.1, hpath, texts, templateMatches_of_exec htexts⟩

theorem find?_stronger {A : Type} {p q : A → Bool} {xs : List A} {x : A} (hqp : ∀ a, q a = true → p a = true)
    (h : xs.find? p = some x) (hx : q x = true) : xs.find? q = some x := by
  rw [find?_eq_some_iff_append] at h ⊢
  obtain ⟨-, before, after, hxs, hbefore⟩ := h
  refine ⟨hx, before, after, hxs, ?_⟩
  intro a ha
  have hp := hbefore a ha
  cases hq : q a with
  | false => rfl
  | true => rw [hqp a hq] at hp; exact hp

section

variable {routes : List (CompiledRoute H)} {method path : PathText}

theorem firstAccepting_eq_none : firstAccepting routes method path = none ↔ ∀ route ∈ routes, ¬ route.Accepts method path := by
  simp [firstAccepting]

variable {route : CompiledRoute H} {texts : List PathText}

theorem takes_of_division (h : route.Accepts method path)
    (htexts : Division route.pathTemplate path texts) : route.takes method path = true := by
  unfold CompiledRoute.takes
  rw [(exec_eq_division route).2 htexts, h.serves]
  rfl

theorem find_takes (hpath : isCanonicalRequestPath path = true)
    (h : firstAccepting routes method path = some route) (htakes : route.takes method path = true) :
    routes.find? (·.takes method path) = some route :=
  find?_stronger (fun _ hr => decide_eq_true (accepts_of_takes hpath hr)) h htakes

theorem accepts_of_first (h : firstAccepting routes method path = some route) : route ∈ routes ∧ route.Accepts method path := by
  have hdecide := find?_some h
  exact ⟨mem_of_find?_eq_some h, of_decide_eq_true hdecide⟩

theorem none_asDeclared_iff (h : routes.find? (·.takes method path) = none) :
    (WellEscaped path → firstAccepting routes method path = none) ↔ RoutesSafely routes method path := by
  have hdivision : ∀ route ∈ routes, route.Accepts method path → ∀ texts, ¬ Division route.pathTemplate path texts := by
    intro route hmem haccepts texts htexts
    exact find?_eq_none.1 h route hmem (takes_of_division haccepts htexts)
  constructor
  · intro hnone
    refine ⟨?_, fun _ => hdivision⟩
    intro hwell route hroute
    rw [hnone hwell] at hroute
    cases hroute
  · intro hsafe hwell
    cases hfirst : firstAccepting routes method path with
    | none => rfl
    | some route =>
      obtain ⟨hmem, haccepts⟩ := accepts_of_first hfirst
      obtain ⟨texts, htexts, -⟩ := hsafe.well hwell route hfirst
      exact absurd htexts (hdivision route hmem haccepts texts)

theorem some_asDeclared_iff (hpath : isCanonicalRequestPath path = true) (h : routes.find? (·.takes method path) = some route)
    (htexts : Division route.pathTemplate path texts) :
    (WellEscaped path ∧ firstAccepting routes method path = some route ∧ ReadsOwn route.pathTemplate texts) ↔
      RoutesSafely routes method path := by
  have htakes := find?_some h
  have haccepts : route.Accepts method path := accepts_of_takes hpath htakes
  constructor
  · rintro ⟨hwell, hfirst, hreads⟩
    refine ⟨?_, fun hill => absurd hwell hill⟩
    intro _ route' hroute'
    rw [hfirst] at hroute'
    cases hroute'
    exact ⟨texts, htexts, hreads⟩
  · intro hsafe
    have hwell : WellEscaped path := by
      by_contra hill
      exact hsafe.ill hill route (mem_of_find?_eq_some h) haccepts texts htexts
    cases hfirst : firstAccepting routes method path with
    | none => exact absurd haccepts (firstAccepting_eq_none.1 hfirst route (mem_of_find?_eq_some h))
    | some route' =>
      obtain ⟨texts', htexts', hreads⟩ := hsafe.well hwell route' hfirst
      -- the first that accepts also takes the path, and there is one first
      have hfind := find_takes hpath hfirst (takes_of_division (accepts_of_first hfirst).2 htexts')
      rw [h] at hfind
      cases hfind
      unfold Division at htexts htexts'
      rw [htexts] at htexts'
      cases htexts'
      exact ⟨hwell, rfl, hreads⟩

theorem bound_asDeclared_iff (htexts : Division route.pathTemplate path texts) :
    (match (bindParams texts route.compiled.paramNames.zipIdx []).map fun params => some (route, params) with
      | .error _ => False
      | .ok none => WellEscaped path → firstAccepting routes method path = none
      | .ok (some (route, params)) =>
        WellEscaped path ∧ firstAccepting routes method path = some route ∧
          ∃ texts, Division route.pathTemplate path texts ∧ TemplateMatches route.pathTemplate path texts ∧
            ParamsBound route.pathTemplate texts params) ↔
      WellEscaped path ∧ firstAccepting routes method path = some route ∧ ReadsOwn route.pathTemplate texts := by
  have hmatches : TemplateMatches route.pathTemplate path texts := by
    apply templateMatches_of_exec
    rw [compilePath_exec]
    exact htexts
  rw [← paramsBound_iff, route.compiled_eq]
  cases hbind : bindParams texts (compilePath route.pathTemplate).paramNames.zipIdx [] with
  | error e => simp [Except.map]
  | ok params =>
    simp only [Except.map, Except.ok.injEq, exists_eq_left']
    constructor
    · rintro ⟨hwell, hfirst, texts', htexts', -, hbound⟩
      unfold Division at htexts htexts'
      rw [htexts] at htexts'
      cases htexts'
      exact ⟨hwell, hfirst, hbound⟩
    · rintro ⟨hwell, hfirst, hbound⟩
      exact ⟨hwell, hfirst, texts, htexts, hmatches, hbound⟩

end

/-- For every table of routes, every method and every path: matching gives the first route whose template
divides the canonical path, with each name bound to its own text, and neither an error nor a route for a path
that is not well escaped, if and only if the path is well escaped, stays on its lines and each name reads its
own text, or is not well escaped and no route takes it. -/
theorem matchedAsDeclared_iff (routes : List (CompiledRoute H)) (method path : PathText) :
    MatchedAsDeclared routes method path ↔ RoutesSafely routes method path := by
  unfold MatchedAsDeclared matchRoute
  cases hpath : isCanonicalRequestPath path with
  | false =>
    have hnot : ∀ route : CompiledRoute H, ¬ route.Accepts method path := by
      intro route haccepts
      have hcanonical := haccepts.canonical
      rw [hpath] at hcanonical
      cases hcanonical
    have hnone : firstAccepting routes method path = none := firstAccepting_eq_none.2 fun route _ => hnot route
    constructor
    · intro _
      refine ⟨?_, fun _ route _ haccepts => absurd haccepts (hnot route)⟩
      intro _ route hroute
      rw [hnone] at hroute
      cases hroute
    · intro _ _
      exact hnone
  | true =>
    cases hfind : routes.find? (·.takes method path) with
    | none =>
      rw [matchIn_none hfind]
      exact none_asDeclared_iff hfind
    | some route =>
      have htakes := find?_some hfind
      simp only [CompiledRoute.takes, Bool.and_eq_true] at htakes
      obtain ⟨texts, htexts⟩ := Option.isSome_iff_exists.1 htakes.2
      have hdivision := (exec_eq_division route).1 htexts
      rw [matchIn_some hfind htexts]
      exact (bound_asDeclared_iff hdivision).trans (some_asDeclared_iff hpath hfind hdivision)

/-- A wildcard before a parameter gives the parameter the wildcard's text, and an escape without digits is thrown. -/
theorem shifted_groups_counterexample :
    ¬ MatchedAsDeclared (addRoute [] ['G', 'E', 'T'] "/files/*/:id".toList ()) ['G', 'E', 'T'] "/files/a/b".toList ∧
      ¬ MatchedAsDeclared (addRoute [] ['G', 'E', 'T'] "/users/:id".toList ()) ['G', 'E', 'T'] "/users/%zz".toList := by
  refine ⟨?_, fun h => h⟩
  rintro ⟨-, -, texts, hdivision, -, hbound⟩
  obtain ⟨value, hvalue, hget⟩ := hbound 1 ['i', 'd'] (by decide)
  have htexts : texts = [['a'], ['b']] := Option.some.inj (hdivision.symm.trans (by decide))
  have hid : some value = some ['a'] := hget.symm.trans (by decide)
  rw [htexts, hid] at hvalue
  revert hvalue
  decide

end

end StreetJS.Http
