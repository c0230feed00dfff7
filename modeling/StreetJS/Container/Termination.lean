/-
Every resolution ends. One that comes into a dependency cycle ends with the circular-dependency error, unless
something else fails on the way.
-/
import StreetJS.Container.Resolution
import Mathlib.Algebra.Order.BigOperators.Group.List
import Mathlib.Algebra.Order.Ring.Nat

namespace StreetJS.Container

open StreetJS.Lib List

/-! ## The fuel is enough -/

/-- A scope was made after its parent. -/
def ParentsBelow (s : World) : Prop :=
  ∀ (c : Nat) k parent, s.containers[c]? = some k → k.parent = some parent → parent < c

variable {s s' : World}

theorem Extends.parentsBelow (h : Extends s s') (hs : ParentsBelow s) : ParentsBelow s' := by
  intro c k' parent hk' hparent
  obtain ⟨k, hk, heq, -⟩ := h.back hk'
  exact hs c k parent hk (heq ▸ hparent)

theorem containers_of_extends {T : Type} (h : Extends s s') (f : Container → List T)
    (hf : ∀ (c : Nat) k k', s.containers[c]? = some k → s'.containers[c]? = some k' → f k' = f k) :
    s'.containers.flatMap f = s.containers.flatMap f := by
  have hmap : s'.containers.map f = s.containers.map f := by
    refine ext_getElem? fun c => ?_
    rw [getElem?_map, getElem?_map]
    cases hk : s.containers[c]? with
    | none => rw [h.missing.2 hk]
    | some k =>
      obtain ⟨k', hk', -⟩ := h.container c k hk
      rw [hk', Option.map_some, Option.map_some, hf c k k' hk hk']
  rw [flatMap_def, flatMap_def, hmap]

theorem Extends.tokens (h : Extends s s') (p : Program) : s'.tokens p = s.tokens p := by
  unfold World.tokens
  rw [containers_of_extends h (fun k => k.bindings.map Prod.fst)]
  intro c k k' hk hk'
  obtain ⟨k'', hk'', -, hbindings, -, -⟩ := h.container c k hk
  rw [hk'] at hk''
  cases hk''
  rw [hbindings]

/-- The tokens a container is not resolving. -/
def freeOf (p : Program) (s : World) (c : Nat) : List Token :=
  (s.tokens p).filter fun token => token ∉ ((s.containers[c]?).map Container.resolving).getD []

theorem free_eq (p : Program) (s : World) : s.free p = ((List.range s.containers.length).map fun c => (freeOf p s c).length).sum := by
  unfold World.free
  rw [length_flatMap]
  rfl

theorem Grows.free (h : Grows s s') (p : Program) : s'.free p = s.free p := by
  rw [free_eq, free_eq, h.length]
  congr 1
  refine map_congr_left fun c hc => ?_
  obtain ⟨k, hk⟩ : ∃ k, s.containers[c]? = some k := ⟨_, getElem?_eq_getElem (mem_range.1 hc)⟩
  obtain ⟨k', hk', -⟩ := h.container c k hk
  unfold freeOf
  rw [h.tokens, hk, hk', Option.map_some, Option.map_some, (h.resolving c k k' hk hk').1]

theorem enter_extends (s : World) (c : Nat) (token : Token) : Extends s (s.enter c token) :=
  resolving_extends s c fun ts => ts ++ [token]

variable {p : Program} {c : Nat} {token : Token}

theorem free_enter {k : Container} (hk : s.containers[c]? = some k) (hnotin : token ∉ k.resolving) (htoken : token ∈ s.tokens p) :
    (s.enter c token).free p < s.free p := by
  have hext := enter_extends s c token
  rw [free_eq, free_eq, hext.length]
  have hsub : ∀ c', (freeOf p (s.enter c token) c').length ≤ (freeOf p s c').length := by
    intro c'
    unfold freeOf
    rw [hext.tokens, World.enter, getElem?_update]
    refine List.Sublist.length_le (monotone_filter_right _ fun t ht => ?_)
    simp only [decide_not, Bool.not_eq_eq_eq_not, Bool.not_true, decide_eq_false_iff_not] at ht ⊢
    intro hin
    refine ht ?_
    split
    · cases hk' : s.containers[c']? with
      | none => rw [hk'] at hin; cases hin
      | some k' =>
        rw [hk'] at hin
        exact mem_append_left _ hin
    · exact hin
  refine sum_lt_sum _ _ (fun c' _ => hsub c') ⟨c, ?_, ?_⟩
  · exact mem_range.2 (List.getElem?_eq_some_iff.1 hk).1
  · have hfilter : freeOf p (s.enter c token) c = (freeOf p s c).filter fun t => t ≠ token := by
      unfold freeOf
      rw [hext.tokens, World.enter, getElem?_update, if_pos rfl, hk, filter_filter]
      refine filter_congr fun t _ => ?_
      simp [and_comm]
    rw [hfilter]
    refine length_filter_lt_length_iff_exists.2 ⟨token, ?_, by simp⟩
    unfold freeOf
    rw [hk]
    exact mem_filter.2 ⟨htoken, by simpa using hnotin⟩

theorem findBindingIn_mem {s : World} {token : Token} {b : Binding} : ∀ (n c : Nat), s.findBindingIn n c token = some b →
      ∃ (c' : Nat) (k' : Container), s.containers[c']? = some k' ∧ k'.bindings.get token = some b
  | 0, _, h => by cases h
  | n + 1, c, h => by
    unfold World.findBindingIn at h
    cases hk : s.containers[c]? with
    | none =>
      rw [hk] at h
      cases h
    | some k =>
      rw [hk] at h
      dsimp only at h
      cases hget : k.bindings.get token with
      | some b' =>
        rw [hget] at h
        cases h
        exact ⟨c, k, hk, hget⟩
      | none =>
        rw [hget] at h
        obtain ⟨parent, -, hparent⟩ := Option.bind_eq_some_iff.1 h
        exact findBindingIn_mem n parent hparent

theorem findBinding_mem {b : Binding} (h : s.findBinding c token = some b) :
    ∃ (c' : Nat) (k' : Container), s.containers[c']? = some k' ∧ k'.bindings.get token = some b :=
  findBindingIn_mem (c + 1) c h

theorem mem_tokens_of_bound {b : Binding} (p : Program) (h : s.findBinding c token = some b) : token ∈ s.tokens p := by
  obtain ⟨c', k', hk', hget⟩ := findBinding_mem h
  refine mem_append_left _ (mem_flatMap.2 ⟨k', mem_of_getElem? hk', ?_⟩)
  exact mem_map.2 ⟨_, OrderedMap.get_mem hget, rfl⟩

theorem mem_tokens_of_params {name : String} {param : Option String}
    (h : param ∈ (p.paramTypes.get name).getD []) : .cls name ∈ s.tokens p := by
  cases hget : p.paramTypes.get name with
  | none =>
    rw [hget] at h
    cases h
  | some params => exact mem_append_right _ (mem_map.2 ⟨_, OrderedMap.get_mem hget, rfl⟩)

theorem produce_error {b : Binding} {args : List Instance} {e : ResolveError} (h : s.produce c token b args = (.error e, s')) :
    e.cause = .thrown ∧ s' = s ∧ (b.factory.returns = .throws ∨ ∃ i, b.factory.returns = .argument i ∧ args[i]? = none) := by
  unfold World.produce at h
  cases hreturns : b.factory.returns with
  | fresh =>
    rw [hreturns] at h
    cases h
  | value n =>
    rw [hreturns] at h
    cases h
  | argument i =>
    rw [hreturns] at h
    dsimp only at h
    cases hi : args[i]? with
    | some inst =>
      rw [hi] at h
      cases h
    | none =>
      rw [hi] at h
      cases h
      exact ⟨rfl, rfl, .inr ⟨i, rfl, hi⟩⟩
  | throws =>
    rw [hreturns] at h
    cases h
    exact ⟨rfl, rfl, .inl rfl⟩

/-- **The fuel is enough**: a token that is being resolved is not free, and a parent has a smaller number. -/
theorem resolveIn_ends (p : Program) {fuel : Nat} (hbelow : ParentsBelow s)
    (hfuel : s.free p * (s.containers.length + 1) + c < fuel) {e : ResolveError}
    (he : (resolveIn p fuel c token s).1 = .error e) : e.cause ≠ .outOfFuel := by
  -- what is left of the fuel does not depend on what was resolved before
  have key : ∀ (fuel c : Nat) (token : Token) (s : World), ParentsBelow s → s.free p * (s.containers.length + 1) + c < fuel →
        Outcome (fun _ => True) (fun cause => cause ≠ .outOfFuel) (fun _ _ => True) (resolveIn p fuel c token s) := by
    refine resolveIn_rule (P := fun fuel c token s out => ParentsBelow s → s.free p * (s.containers.length + 1) + c < fuel →
        Outcome (fun _ => True) (fun cause => cause ≠ .outOfFuel) (fun _ _ => True) out)
      ?noFuel ?inactive ?held ?delegated ?circular ?factory ?unbound ?constructor
    case noFuel => exact fun c token s _ hfuel => absurd hfuel (Nat.not_lt_zero _)
    case inactive => exact fun _ _ _ _ _ _ _ => ⟨trivial, nofun⟩
    case held => exact fun _ _ _ _ _ _ _ _ _ _ _ => ⟨trivial, trivial⟩
    case delegated =>
      intro fuel c token s k b parent hopen _ hdel ih hbelow hfuel
      have hparent : k.parent = some parent := by
        unfold delegate at hdel
        split at hdel
        · cases hdel
        · exact hdel
      have hlt := hbelow c k parent hopen.container hparent
      exact ih hbelow (by omega)
    case circular => exact fun _ _ _ _ _ _ _ _ _ => ⟨trivial, by simp⟩
    case factory =>
      intro fuel c token s k b hopen hb _ hnotin ih hbelow hfuel
      have hfree := free_enter (p := p) hopen.container hnotin (mem_tokens_of_bound p hb)
      have hext := enter_extends s c token
      refine whileResolving_outcome (I := fun _ => True) (K := fun _ _ _ => True) (resolveIn_grows p fuel c)
        (fun _ _ _ _ _ _ => trivial) trivial (fun dep _ s' hg _ => ?_) (fun args s' _ _ _ => ?_)
        (fun _ _ => trivial) (fun _ _ _ => trivial)
      · refine ih dep s' (hg.toExtends.parentsBelow (hext.parentsBelow hbelow)) ?_
        rw [hg.free, hg.length, hext.length]
        have hmul : ((s.enter c token).free p + 1) * (s.containers.length + 1) ≤
            s.free p * (s.containers.length + 1) := Nat.mul_le_mul_right _ hfree
        rw [Nat.add_mul] at hmul
        omega
      · cases hp : s'.produce c token b args with
        | mk out s'' =>
          cases out with
          | ok inst => exact ⟨trivial, trivial⟩
          | error e =>
            refine ⟨trivial, ?_⟩
            rw [(produce_error hp).1]
            simp
    case unbound => exact fun _ _ _ _ _ _ _ _ _ => ⟨trivial, by simp⟩
    case constructor =>
      intro fuel c name s k hopen _ hnotin ih hbelow hfuel
      have hext := enter_extends s c (.cls name)
      refine whileResolving_outcome (I := fun _ => True) (K := fun _ _ _ => True)
        (resolveParam_grows (resolveIn_grows p fuel c) _) (fun _ _ _ _ _ _ => trivial) trivial (fun param hparam s' hg _ => ?_) (fun _ _ _ _ _ => ⟨trivial, trivial⟩)
        (fun _ _ => trivial) (fun _ _ _ => trivial)
      refine resolveParam_outcome (K := fun _ _ _ => True) param (fun _ => ⟨trivial, by simp⟩) fun dep _ => ?_
      have hfree := free_enter (p := p) hopen.container hnotin (mem_tokens_of_params hparam)
      refine ih (.cls dep) s' (hg.toExtends.parentsBelow (hext.parentsBelow hbelow)) ?_
      rw [hg.free, hg.length, hext.length]
      have hmul : ((s.enter c (.cls name)).free p + 1) * (s.containers.length + 1) ≤
          s.free p * (s.containers.length + 1) := Nat.mul_le_mul_right _ hfree
      rw [Nat.add_mul] at hmul
      omega
  have hout := key fuel c token s hbelow hfuel
  cases hr : resolveIn p fuel c token s with
  | mk out s' =>
    rw [hr] at hout he
    cases he
    exact hout.2

/-! ## The graph of a resolution -/

/-- A container and the token resolved in it. -/
abbrev Node := Nat × Token

/-- The resolutions that a resolution may go on to. -/
def successors (p : Program) (s : World) (n : Node) : List Node :=
  match s.containers[n.1]? with
  | none => []
  | some k =>
    match k.singletons.get n.2 with
    | some _ => []
    | none =>
      match s.findBinding n.1 n.2 with
      | some b =>
        match delegate k n.2 b with
        | some parent => [(parent, n.2)]
        | none => b.factory.deps.map fun dep => (n.1, dep)
      | none =>
        match n.2 with
        | .key _ => []
        | .cls name => ((p.paramTypes.get name).getD []).filterMap fun param => param.map fun dep => (n.1, .cls dep)

def Next (p : Program) (s : World) (n m : Node) : Prop := m ∈ successors p s n

def Reaches (p : Program) (s : World) : Node → Node → Prop := Relation.ReflTransGen (Next p s)

/-- What makes a resolution fail by itself. -/
inductive Fault (p : Program) (s : World) : Node → Prop
  | missing {n} : s.containers[n.1]? = none → Fault p s n
  | disposed {n k} : s.containers[n.1]? = some k → k.disposed = true → Fault p s n
  | unbound {c name k} : s.containers[c]? = some k → k.singletons.get (.key name) = none →
      s.findBinding c (.key name) = none → Fault p s (c, .key name)
  | thrown {c token k b} : s.containers[c]? = some k → k.singletons.get token = none → s.findBinding c token = some b →
      (b.factory.returns = .throws ∨ ∃ i, b.factory.returns = .argument i ∧ b.factory.deps.length ≤ i) →
      Fault p s (c, token)
  | primitive {c name k} : s.containers[c]? = some k → k.singletons.get (.cls name) = none →
      s.findBinding c (.cls name) = none → none ∈ (p.paramTypes.get name).getD [] → Fault p s (c, .cls name)

section

variable {p : Program} {s s' : World}

theorem successors_eq (h : Extends s s') {n : Node} (hget : ∀ k k', s.containers[n.1]? = some k → s'.containers[n.1]? = some k' →
      k'.singletons.get n.2 = k.singletons.get n.2) : successors p s' n = successors p s n := by
  unfold successors
  rw [h.findBinding]
  cases hk : s.containers[n.1]? with
  | none => rw [h.missing.2 hk]
  | some k =>
    obtain ⟨k', hk', hparent, hbindings, -⟩ := h.container n.1 k hk
    rw [hk']
    dsimp only
    unfold delegate
    rw [hget k k' hk hk', hparent, hbindings]

theorem successors_subset (h : Extends s s') (n : Node) : successors p s' n ⊆ successors p s n := by
  cases hk : s.containers[n.1]? with
  | none =>
    have hnil : successors p s' n = [] := by
      unfold successors
      rw [h.missing.2 hk]
    rw [hnil]
    exact nil_subset _
  | some k =>
    obtain ⟨k', hk', -, -, -, hget⟩ := h.container n.1 k hk
    cases hstored : k.singletons.get n.2 with
    | none =>
      cases hstored' : k'.singletons.get n.2 with
      | none =>
        have heq : successors p s' n = successors p s n := by
          refine successors_eq h fun k₀ k₀' hk₀ hk₀' => ?_
          rw [hk] at hk₀
          rw [hk'] at hk₀'
          cases hk₀
          cases hk₀'
          rw [hstored, hstored']
        rw [heq]
        exact List.Subset.refl _
      | some inst =>
        have hnil : successors p s' n = [] := by
          unfold successors
          rw [hk']
          dsimp only
          rw [hstored']
        rw [hnil]
        exact nil_subset _
    | some inst =>
      have hnil : successors p s' n = [] := by
        unfold successors
        rw [hk']
        dsimp only
        rw [hget _ _ hstored]
      rw [hnil]
      exact nil_subset _

theorem Reaches.of_extends (h : Extends s s') {n m : Node} (hreach : Reaches p s' n m) : Reaches p s n m :=
  Relation.ReflTransGen.mono (fun a _ hab => successors_subset h a hab) _ _ hreach

theorem Extends.unstored (h : Extends s s') {c : Nat} {k k' : Container} {token : Token}
    (hk : s.containers[c]? = some k) (hk' : s'.containers[c]? = some k') (hnone : k'.singletons.get token = none) :
    k.singletons.get token = none := by
  obtain ⟨k'', hk'', -, -, -, hget⟩ := h.container c k hk
  rw [hk'] at hk''
  cases hk''
  cases hg : k.singletons.get token with
  | none => rfl
  | some inst =>
    rw [hget token inst hg] at hnone
    cases hnone

theorem Fault.of_extends (h : Extends s s') {n : Node} (hfault : Fault p s' n) : Fault p s n := by
  cases hfault with
  | missing hnone => exact .missing (h.missing.1 hnone)
  | disposed hk' hd =>
    obtain ⟨k, hk, -, -, hdisposed, -⟩ := h.back hk'
    exact .disposed hk (hdisposed ▸ hd)
  | unbound hk' hstored hb =>
    obtain ⟨k, hk, -⟩ := h.back hk'
    exact .unbound hk (h.unstored hk hk' hstored) (h.findBinding _ _ ▸ hb)
  | thrown hk' hstored hb hreturns =>
    obtain ⟨k, hk, -⟩ := h.back hk'
    exact .thrown hk (h.unstored hk hk' hstored) (h.findBinding _ _ ▸ hb) hreturns
  | primitive hk' hstored hb hparam =>
    obtain ⟨k, hk, -⟩ := h.back hk'
    exact .primitive hk (h.unstored hk hk' hstored) (h.findBinding _ _ ▸ hb) hparam

/-! ### The successors in each case -/

variable {c : Nat} {token : Token} {k : Container} {b : Binding} {name : String}

theorem successors_delegated {parent : Nat} (hopen : Open s c token k) (hb : s.findBinding c token = some b)
    (hdel : delegate k token b = some parent) : successors p s (c, token) = [(parent, token)] := by
  unfold successors
  rw [hopen.container]
  dsimp only
  rw [hopen.unstored, hb]
  dsimp only
  rw [hdel]

theorem successors_factory (hopen : Open s c token k) (hb : s.findBinding c token = some b) (hdel : delegate k token b = none) :
    successors p s (c, token) = b.factory.deps.map fun dep => (c, dep) := by
  unfold successors
  rw [hopen.container]
  dsimp only
  rw [hopen.unstored, hb]
  dsimp only
  rw [hdel]

theorem successors_constructor (hopen : Open s c (.cls name) k) (hb : s.findBinding c (.cls name) = none) : successors p s (c, .cls name) =
      ((p.paramTypes.get name).getD []).filterMap fun param => param.map fun dep => (c, .cls dep) := by
  unfold successors
  rw [hopen.container]
  dsimp only
  rw [hopen.unstored, hb]

theorem next_factory (hopen : Open s c token k) (hb : s.findBinding c token = some b)
    (hdel : delegate k token b = none) {dep : Token} (hdep : dep ∈ b.factory.deps) :
    Next p s (c, token) (c, dep) := by
  unfold Next
  rw [successors_factory hopen hb hdel]
  exact mem_map_of_mem hdep

theorem next_constructor (hopen : Open s c (.cls name) k) (hb : s.findBinding c (.cls name) = none) {dep : String}
    (hdep : some dep ∈ (p.paramTypes.get name).getD []) : Next p s (c, .cls name) (c, .cls dep) := by
  unfold Next
  rw [successors_constructor hopen hb]
  exact mem_filterMap.2 ⟨some dep, hdep, rfl⟩

end

/-! ## Errors -/

/-- What an error stands for. -/
def Explained (p : Program) (s : World) (n : Node) (cause : Cause) : Prop :=
  cause = .outOfFuel ∨ (∃ token chain, cause = .circular token chain) ∨ ∃ m, Reaches p s n m ∧ Fault p s m

theorem Explained.of_next (h : Extends s s') {n m : Node} (hnext : Next p s n m)
    {cause : Cause} (he : Explained p s' m cause) : Explained p s n cause := by
  rcases he with hfuel | hcircular | ⟨m', hreach, hfault⟩
  · exact .inl hfuel
  · exact .inr (.inl hcircular)
  · exact .inr (.inr ⟨m', .head hnext (hreach.of_extends h), hfault.of_extends h⟩)

/-- **A resolution fails** at a cycle, or at a fault that it reaches. -/
theorem resolveIn_explained (p : Program) (fuel c : Nat) (token : Token) (s : World) :
    Outcome (fun _ => True) (Explained p s (c, token)) (fun _ _ => True) (resolveIn p fuel c token s) := by
  refine resolveIn_rule (P := fun _ c token s out =>
      Outcome (fun _ => True) (Explained p s (c, token)) (fun _ _ => True) out)
    ?noFuel ?inactive ?held ?delegated ?circular ?factory ?unbound ?constructor fuel c token s
  case noFuel => exact fun _ _ _ => ⟨trivial, .inl rfl⟩
  case inactive =>
    intro fuel c token s hinactive
    refine ⟨trivial, .inr (.inr ⟨(c, token), .refl, ?_⟩)⟩
    cases hk : s.containers[c]? with
    | none => exact .missing hk
    | some k => exact .disposed hk (hinactive k hk)
  case held => exact fun _ _ _ _ _ _ _ _ _ => ⟨trivial, trivial⟩
  case delegated =>
    intro fuel c token s k b parent hopen hb hdel ih
    cases hr : resolveIn p fuel parent token s with
    | mk out s' =>
      rw [hr] at ih
      cases out with
      | ok inst => exact ⟨trivial, trivial⟩
      | error e =>
        refine ⟨trivial, Explained.of_next (.refl s) ?_ ih.2⟩
        unfold Next
        rw [successors_delegated hopen hb hdel]
        exact mem_singleton.2 rfl
  case circular => exact fun _ _ _ _ _ _ _ => ⟨trivial, .inr (.inl ⟨_, _, rfl⟩)⟩
  case factory =>
    intro fuel c token s k b hopen hb hdel _ ih
    have hext := enter_extends s c token
    refine whileResolving_outcome (I := fun _ => True) (K := fun _ _ _ => True) (resolveIn_grows p fuel c)
      (fun _ _ _ _ _ _ => trivial) trivial (fun dep hdep s' hg _ => ?_) (fun args s' _ _ hargs => ?_)
      (fun _ _ => trivial) (fun _ _ _ => trivial)
    · have hdep' := ih dep s'
      cases hr : resolveIn p fuel c dep s' with
      | mk out s'' =>
        rw [hr] at hdep'
        cases out with
        | ok inst => exact ⟨trivial, trivial⟩
        | error e =>
          exact ⟨trivial, hdep'.2.of_next (hext.trans hg.toExtends) (next_factory hopen hb hdel hdep)⟩
    · cases hp : s'.produce c token b args with
      | mk out s'' =>
        cases out with
        | ok inst => exact ⟨trivial, trivial⟩
        | error e =>
          refine ⟨trivial, .inr (.inr ⟨(c, token), .refl, .thrown hopen.container hopen.unstored hb ?_⟩)⟩
          rcases (produce_error hp).2.2 with hthrows | ⟨i, hreturns, hi⟩
          · exact .inl hthrows
          · rw [getElem?_eq_none_iff, ← hargs.length_eq] at hi
            exact .inr ⟨i, hreturns, hi⟩
  case unbound =>
    exact fun _ _ _ _ _ hopen hb => ⟨trivial, .inr (.inr ⟨_, .refl, .unbound hopen.container hopen.unstored hb⟩)⟩
  case constructor =>
    intro fuel c name s k hopen hb _ ih
    have hext := enter_extends s c (.cls name)
    refine whileResolving_outcome (I := fun _ => True) (K := fun _ _ _ => True)
      (resolveParam_grows (resolveIn_grows p fuel c) _) (fun _ _ _ _ _ _ => trivial) trivial
      (fun param hparam s' hg _ => ?_) (fun _ _ _ _ _ => ⟨trivial, trivial⟩)
      (fun _ _ => trivial) (fun _ _ _ => trivial)
    refine resolveParam_outcome (K := fun _ _ _ => True) param (fun hnone => ⟨trivial, ?_⟩) fun dep hsome => ?_
    · subst hnone
      exact .inr (.inr ⟨_, .refl, .primitive hopen.container hopen.unstored hb hparam⟩)
    · subst hsome
      have hdep' := ih (.cls dep) s'
      cases hr : resolveIn p fuel c (.cls dep) s' with
      | mk out s'' =>
        rw [hr] at hdep'
        cases out with
        | ok inst => exact ⟨trivial, trivial⟩
        | error e =>
          exact ⟨trivial, hdep'.2.of_next (hext.trans hg.toExtends) (next_constructor hopen hb hparam)⟩

/-! ## Cycles -/

theorem exists_of_forall₂ {X Y : Type} {R : X → Y → Prop} {xs : List X} {ys : List Y} (h : List.Forall₂ R xs ys) {x : X}
    (hx : x ∈ xs) : ∃ y, R x y := by
  induction h with
  | nil => cases hx
  | cons hxy _ ih =>
    rcases mem_cons.1 hx with rfl | hx
    · exact ⟨_, hxy⟩
    · exact ih hx

/-- No resolution of `Z` can end without another one of `Z`. -/
def Stuck (p : Program) (Z : Node → Prop) (s : World) : Prop := ∀ n, Z n → ∃ m, Next p s n m ∧ Z m

variable {Z : Node → Prop}

theorem Stuck.of_extends (h : Extends s s') (hs : Stuck p Z s)
    (hget : ∀ n k k', Z n → s.containers[n.1]? = some k → s'.containers[n.1]? = some k' →
      k'.singletons.get n.2 = k.singletons.get n.2) : Stuck p Z s' := by
  intro n hn
  obtain ⟨m, hnext, hm⟩ := hs n hn
  refine ⟨m, ?_, hm⟩
  unfold Next
  rw [successors_eq h fun k k' => hget n k k' hn]
  exact hnext

theorem Stuck.resolving {p : Program} {Z : Node → Prop} {s : World} (hs : Stuck p Z s) (c : Nat)
    (g : List Token → List Token) : Stuck p Z (s.update c fun k => { k with resolving := g k.resolving }) := by
  refine hs.of_extends (resolving_extends s c g) fun n k k' _ hk hk' => ?_
  rw [getElem?_update, hk] at hk'
  split at hk'
  · cases hk'
    rfl
  · cases hk'
    rfl

theorem Stuck.finishes (hs : Stuck p Z s) (h : Finishes s c token s') (hout : ¬ Z (c, token)) : Stuck p Z s' := by
  refine hs.of_extends h.toExtends fun n k k' hn hk hk' => (h.others n.1 k k' hk hk').2 n.2 ?_
  rintro ⟨hc, htoken⟩
  exact hout (by rw [← hc, ← htoken]; exact hn)

theorem outcome_stuck {out : Resolved} (hs : Stuck p Z s') (h : Finishes s' c token out.2) (hout : ¬ Z (c, token)) :
    Outcome (Stuck p Z) (fun _ => True) (fun _ _ => ¬ Z (c, token)) out := by
  have hstuck := hs.finishes h hout
  obtain ⟨out, s''⟩ := out
  cases out with
  | error e => exact ⟨hstuck, trivial⟩
  | ok inst => exact ⟨hstuck, hout⟩

/-- **Nothing of a stuck set is ever resolved.** -/
theorem resolveIn_stuck (p : Program) (Z : Node → Prop) (fuel c : Nat) (token : Token) (s : World) :
    Stuck p Z s → Outcome (Stuck p Z) (fun _ => True) (fun _ _ => ¬ Z (c, token)) (resolveIn p fuel c token s) := by
  refine resolveIn_rule (P := fun _ c token s out => Stuck p Z s → Outcome (Stuck p Z) (fun _ => True) (fun _ _ => ¬ Z (c, token)) out)
    ?noFuel ?inactive ?held ?delegated ?circular ?factory ?unbound ?constructor fuel c token s
  case noFuel => exact fun _ _ _ hs => ⟨hs, trivial⟩
  case inactive => exact fun _ _ _ _ _ hs => ⟨hs, trivial⟩
  case held =>
    intro fuel c token s k inst hk _ hget hs
    refine ⟨hs, fun hz => ?_⟩
    -- what is held has no successor
    obtain ⟨m, hnext, -⟩ := hs _ hz
    unfold Next successors at hnext
    rw [hk] at hnext
    dsimp only at hnext
    rw [hget] at hnext
    cases hnext
  case delegated =>
    intro fuel c token s k b parent hopen hb hdel ih hs
    have hparent := ih hs
    cases hr : resolveIn p fuel parent token s with
    | mk out s' =>
      rw [hr] at hparent
      cases out with
      | error e => exact hparent
      | ok inst =>
        refine ⟨hparent.1, fun hz => hparent.2 ?_⟩
        obtain ⟨m, hnext, hm⟩ := hs _ hz
        unfold Next at hnext
        rw [successors_delegated hopen hb hdel, mem_singleton] at hnext
        exact hnext ▸ hm
  case circular => exact fun _ _ _ _ _ _ _ hs => ⟨hs, trivial⟩
  case factory =>
    intro fuel c token s k b hopen hb hdel hnotin ih hs
    refine whileResolving_outcome (K := fun dep _ _ => ¬ Z (c, dep)) (resolveIn_grows p fuel c)
      (fun _ _ _ _ _ => id) (hs.resolving c fun ts => ts ++ [token]) (fun dep _ s' _ hs' => ih dep s' hs')
      (fun args s' hg hs' hargs => ?_) (fun s' hs' => hs'.resolving c fun ts => ts.filter fun t => t ≠ token)
      (fun _ _ => id)
    have hout : ¬ Z (c, token) := by
      intro hz
      obtain ⟨m, hnext, hm⟩ := hs _ hz
      unfold Next at hnext
      rw [successors_factory hopen hb hdel] at hnext
      obtain ⟨dep, hdep, rfl⟩ := mem_map.1 hnext
      obtain ⟨inst, hnot⟩ := exists_of_forall₂ hargs hdep
      exact hnot hm
    exact outcome_stuck hs' (produce_finishes b args (hopen.unstored_of_grows hg)) hout
  case unbound => exact fun _ _ _ _ _ _ _ hs => ⟨hs, trivial⟩
  case constructor =>
    intro fuel c name s k hopen hb hnotin ih hs
    refine whileResolving_outcome (E := fun _ => True) (K := fun param _ _ => ∀ dep, param = some dep → ¬ Z (c, .cls dep))
      (resolveParam_grows (resolveIn_grows p fuel c) _) (fun _ _ _ _ _ => id)
      (hs.resolving c fun ts => ts ++ [.cls name]) (fun param hparam s' _ hs' => ?_)
      (fun args s' hg hs' hargs => ?_) (fun s' hs' => hs'.resolving c fun ts => ts.filter fun t => t ≠ .cls name)
      (fun _ _ => id)
    · refine resolveParam_outcome (E := fun _ => True) (K := fun param _ _ => ∀ dep, param = some dep → ¬ Z (c, .cls dep))
        param (fun _ => ⟨hs', trivial⟩) fun dep hsome => ?_
      subst hsome
      have hdep := ih (.cls dep) s' hs'
      cases hr : resolveIn p fuel c (.cls dep) s' with
      | mk out s'' =>
        rw [hr] at hdep
        cases out with
        | error e => exact hdep
        | ok inst => exact ⟨hdep.1, fun dep' heq => by cases heq; exact hdep.2⟩
    · have hout : ¬ Z (c, .cls name) := by
        intro hz
        obtain ⟨m, hnext, hm⟩ := hs _ hz
        unfold Next at hnext
        rw [successors_constructor hopen hb] at hnext
        obtain ⟨param, hparam, heq⟩ := mem_filterMap.1 hnext
        obtain ⟨dep, rfl, rfl⟩ := Option.map_eq_some_iff.1 heq
        obtain ⟨inst, hnot⟩ := exists_of_forall₂ hargs hparam
        exact hnot dep rfl hm
      exact outcome_stuck hs' (construct_finishes args (hopen.unstored_of_grows hg)) hout

/-- A resolution that comes into a dependency cycle. -/
def Cyclic (p : Program) (s : World) (n : Node) : Prop := ∃ m, Reaches p s n m ∧ Relation.TransGen (Next p s) m m

theorem stuck_cyclic (p : Program) (s : World) : Stuck p (Cyclic p s) s := by
  rintro n ⟨m, hreach, hcycle⟩
  rcases hreach.cases_head with rfl | ⟨n', hnext, hreach'⟩
  · obtain ⟨n', hnext, hback⟩ := Relation.TransGen.head'_iff.1 hcycle
    exact ⟨n', hnext, n, hback, hcycle⟩
  · exact ⟨n', hnext, m, hreach', hcycle⟩

/-- **A dependency cycle** raises the circular-dependency error, unless the resolution comes to a fault first. -/
theorem resolve_cyclic (hbelow : ParentsBelow s) (hcyclic : Cyclic p s (c, token)) : ∃ e, (s.resolve p c token).1 = .error e ∧
      ((∃ token' chain, e.cause = .circular token' chain) ∨ ∃ m, Reaches p s (c, token) m ∧ Fault p s m) := by
  have hstuck := resolveIn_stuck p _ (s.enough p c) c token s (stuck_cyclic p s)
  have hexplained := resolveIn_explained p (s.enough p c) c token s
  have hends : ∀ e, (resolveIn p (s.enough p c) c token s).1 = .error e → e.cause ≠ .outOfFuel :=
    fun e he => resolveIn_ends p hbelow (Nat.lt_succ_self _) he
  unfold World.resolve
  cases hr : resolveIn p (s.enough p c) c token s with
  | mk out s' =>
    rw [hr] at hstuck hexplained hends
    cases out with
    | ok inst => exact absurd hcyclic hstuck.2
    | error e => exact ⟨e, rfl, hexplained.2.resolve_left (hends e rfl)⟩

end StreetJS.Container
