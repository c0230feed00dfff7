/-
What one resolution does: it ends, it only adds instances and leaves the registrations and the `resolving`
sets as they were, and it fails where a dependency cycle has no instance to break it.
-/
import StreetJS.Container.Container
import Mathlib.Logic.Relation

namespace StreetJS.Container

open StreetJS.Lib List

/-! ## One container changed -/

section

variable {s : World} {c : Nat} {f : Container → Container}

theorem getElem?_update (c' : Nat) : (s.update c f).containers[c']? = if c' = c then (s.containers[c']?).map f else s.containers[c']? := by
  unfold World.update
  rw [getElem?_modify]
  split
  · next heq => rw [heq, if_pos rfl]; rfl
  · next hne => rw [if_neg fun heq => hne heq.symm]; cases s.containers[c']? <;> rfl

theorem length_update : (s.update c f).containers.length = s.containers.length := length_modify _ _ _

end

/-! ## What a resolution leaves alone -/

/-- A world with the same containers, parents and bindings, and at least the same instances. -/
structure Extends (s s' : World) : Prop where
  length : s'.containers.length = s.containers.length
  container : ∀ (c : Nat) k, s.containers[c]? = some k → ∃ k', s'.containers[c]? = some k' ∧ k'.parent = k.parent ∧
    k'.bindings = k.bindings ∧ k'.disposed = k.disposed ∧
      ∀ token inst, k.singletons.get token = some inst → k'.singletons.get token = some inst
  births : s.births <+: s'.births

theorem Extends.refl (s : World) : Extends s s where
  length := rfl
  container _ k hk := ⟨k, hk, rfl, rfl, rfl, fun _ _ => id⟩
  births := prefix_refl _

theorem Extends.trans {s₁ s₂ s₃ : World} (h₁ : Extends s₁ s₂) (h₂ : Extends s₂ s₃) : Extends s₁ s₃ where
  length := h₂.length.trans h₁.length
  container c k hk := by
    obtain ⟨k₂, hk₂, hparent₂, hbindings₂, hdisposed₂, hget₂⟩ := h₁.container c k hk
    obtain ⟨k₃, hk₃, hparent₃, hbindings₃, hdisposed₃, hget₃⟩ := h₂.container c k₂ hk₂
    exact ⟨k₃, hk₃, hparent₃.trans hparent₂, hbindings₃.trans hbindings₂, hdisposed₃.trans hdisposed₂,
      fun token inst h => hget₃ token inst (hget₂ token inst h)⟩
  births := h₁.births.trans h₂.births

variable {s s' : World} {c : Nat}

theorem Extends.back (h : Extends s s') {k' : Container} (hk' : s'.containers[c]? = some k') :
    ∃ k, s.containers[c]? = some k ∧ k'.parent = k.parent ∧ k'.bindings = k.bindings ∧ k'.disposed = k.disposed ∧
      ∀ token inst, k.singletons.get token = some inst → k'.singletons.get token = some inst := by
  have hlt := (of_getElem?_eq_some hk')
  rw [h.length] at hlt
  obtain ⟨k'', hk'', hrest⟩ := h.container c _ (getElem?_eq_getElem hlt)
  rw [hk'] at hk''
  cases hk''
  exact ⟨_, getElem?_eq_getElem hlt, hrest⟩

theorem Extends.missing (h : Extends s s') : s'.containers[c]? = none ↔ s.containers[c]? = none := by
  rw [getElem?_eq_none_iff, getElem?_eq_none_iff, h.length]

theorem Extends.findBindingIn (h : Extends s s') (token : Token) : ∀ (n c : Nat), s'.findBindingIn n c token = s.findBindingIn n c token
  | 0, _ => rfl
  | n + 1, c => by
    unfold World.findBindingIn
    cases hk : s.containers[c]? with
    | none => rw [h.missing.2 hk]
    | some k =>
      obtain ⟨k', hk', hparent, hbindings, -, -⟩ := h.container c k hk
      rw [hk']
      dsimp only
      rw [hbindings, hparent]
      cases k.bindings.get token with
      | some b => rfl
      | none =>
        cases k.parent with
        | none => rfl
        | some parent => exact h.findBindingIn token n parent

theorem Extends.findBinding (h : Extends s s') (c : Nat) (token : Token) :
    s'.findBinding c token = s.findBinding c token := h.findBindingIn token (c + 1) c

theorem Extends.seen (h : Extends s s') {inst : Instance} (hi : inst ∈ s.seen) : inst ∈ s'.seen := by
  obtain ⟨birth, hb, rfl⟩ := mem_map.1 hi
  exact mem_map_of_mem (h.births.subset hb)

/-- A world that extends another one, with the same tokens being resolved, and nothing new stored under them. -/
structure Grows (s s' : World) : Prop extends Extends s s' where
  resolving : ∀ (c : Nat) k k', s.containers[c]? = some k → s'.containers[c]? = some k' →
    k'.resolving = k.resolving ∧ ∀ token ∈ k.resolving, k'.singletons.get token = k.singletons.get token

theorem Grows.refl (s : World) : Grows s s where
  toExtends := .refl s
  resolving _ k k' hk hk' := by
    rw [hk] at hk'
    cases hk'
    exact ⟨rfl, fun _ _ => rfl⟩

theorem Grows.trans {s₁ s₂ s₃ : World} (h₁ : Grows s₁ s₂) (h₂ : Grows s₂ s₃) : Grows s₁ s₃ where
  toExtends := h₁.toExtends.trans h₂.toExtends
  resolving c k k₃ hk hk₃ := by
    obtain ⟨k₂, hk₂, -⟩ := h₁.container c k hk
    obtain ⟨heq₁, hget₁⟩ := h₁.resolving c k k₂ hk hk₂
    obtain ⟨heq₂, hget₂⟩ := h₂.resolving c k₂ k₃ hk₂ hk₃
    exact ⟨heq₂.trans heq₁, fun token ht => (hget₂ token (heq₁ ▸ ht)).trans (hget₁ token ht)⟩

theorem resolveAll_grows {α : Type} {r : α → World → Resolved} (hr : ∀ x s, Grows s (r x s).2) :
    ∀ (xs : List α) (s : World), Grows s (resolveAll r xs s).2
  | [], s => .refl s
  | x :: xs, s => by
    have hx := hr x s
    unfold resolveAll
    cases hrx : r x s with
    | mk out s' =>
      rw [hrx] at hx
      cases out with
      | error e => exact hx
      | ok inst =>
        have hxs := resolveAll_grows hr xs s'
        dsimp only
        cases hrxs : resolveAll r xs s' with
        | mk out s'' =>
          rw [hrxs] at hxs
          cases out with
          | error e => exact hx.trans hxs
          | ok insts => exact hx.trans hxs

theorem resolveParam_grows {r : Token → World → Resolved} (hr : ∀ token s, Grows s (r token s).2) (chain : List Token)
    (param : Option String) (s : World) : Grows s (resolveParam r chain param s).2 := by
  cases param with
  | none => exact .refl s
  | some dep =>
    have hdep := hr (.cls dep) s
    unfold resolveParam
    dsimp only
    cases hrd : r (.cls dep) s with
    | mk out s' =>
      rw [hrd] at hdep
      cases out with
      | error e => exact hdep
      | ok inst => exact hdep

/-- A world that extends another one, with nothing else new stored than under one token of one container. -/
structure Finishes (s : World) (c : Nat) (token : Token) (s' : World) : Prop extends Extends s s' where
  others : ∀ (c' : Nat) k k', s.containers[c']? = some k → s'.containers[c']? = some k' → k'.resolving = k.resolving ∧
      ∀ token', ¬ (c' = c ∧ token' = token) → k'.singletons.get token' = k.singletons.get token'

theorem Finishes.refl (s : World) (c : Nat) (token : Token) : Finishes s c token s where
  toExtends := .refl s
  others _ k k' hk hk' := by
    rw [hk] at hk'
    cases hk'
    exact ⟨rfl, fun _ _ => rfl⟩

variable {token : Token}

theorem Finishes.trans {s₁ s₂ s₃ : World} (h₁ : Finishes s₁ c token s₂) (h₂ : Finishes s₂ c token s₃) : Finishes s₁ c token s₃ where
  toExtends := h₁.toExtends.trans h₂.toExtends
  others c' k k₃ hk hk₃ := by
    obtain ⟨k₂, hk₂, -⟩ := h₁.container c' k hk
    obtain ⟨heq₁, hget₁⟩ := h₁.others c' k k₂ hk hk₂
    obtain ⟨heq₂, hget₂⟩ := h₂.others c' k₂ k₃ hk₂ hk₃
    exact ⟨heq₂.trans heq₁, fun token' ht => (hget₂ token' ht).trans (hget₁ token' ht)⟩

/-- Nothing is stored under a token yet. -/
def Unstored (s : World) (c : Nat) (token : Token) : Prop :=
  ∀ k, s.containers[c]? = some k → k.singletons.get token = none

theorem store_finishes (inst : Instance) (hnone : Unstored s c token) : Finishes s c token (s.store c token inst) := by
  have hget := getElem?_update (s := s) (c := c) (f := fun k => { k with singletons := k.singletons.set token inst })
  refine ⟨⟨length_update, fun c' k hk => ?_, prefix_refl _⟩, fun c' k k' hk hk' => ?_⟩
  · specialize hget c'
    by_cases hc : c' = c
    · subst hc
      rw [if_pos rfl, hk, Option.map_some] at hget
      refine ⟨_, hget, rfl, rfl, rfl, fun token' inst' h => ?_⟩
      rw [OrderedMap.get_set]
      split
      · next heq =>
        rw [heq, hnone k hk] at h
        cases h
      · exact h
    · rw [if_neg hc, hk] at hget
      exact ⟨k, hget, rfl, rfl, rfl, fun _ _ => id⟩
  · have hk'' : (s.store c token inst).containers[c']? = _ := hget c'
    rw [hk', hk] at hk''
    by_cases hc : c' = c
    · rw [if_pos hc, Option.map_some] at hk''
      cases hk''
      exact ⟨rfl, fun token' ht => by rw [OrderedMap.get_set, if_neg fun heq => ht ⟨hc, heq⟩]⟩
    · rw [if_neg hc] at hk''
      cases hk''
      exact ⟨rfl, fun _ _ => rfl⟩

theorem bear_finishes (s : World) (birth : Birth) (created c : Nat) (token : Token) :
    Finishes s c token { s.bear birth with created := created } where
  length := rfl
  container _ k hk := ⟨k, hk, rfl, rfl, rfl, fun _ _ => id⟩
  births := prefix_append _ _
  others _ k k' hk hk' := by
    have hk'' : s.containers[_]? = some k' := hk'
    rw [hk] at hk''
    cases hk''
    exact ⟨rfl, fun _ _ => rfl⟩

theorem keep_finishes (b : Binding) (inst : Instance) (h : Finishes s c token s') (hnone : Unstored s' c token) :
    Finishes s c token (if b.scope = .transient then s' else s'.store c token inst) := by
  split
  · exact h
  · exact h.trans (store_finishes inst hnone)

theorem produce_finishes (b : Binding) (args : List Instance)
    (hnone : Unstored s c token) : Finishes s c token (s.produce c token b args).2 := by
  unfold World.produce
  dsimp only
  split
  · exact keep_finishes b _ (bear_finishes s _ _ c token) hnone
  · next n _ =>
    by_cases hseen : Instance.value n ∈ s.seen
    · rw [if_pos hseen]
      exact keep_finishes b _ (.refl s c token) hnone
    · rw [if_neg hseen]
      exact keep_finishes b _ (bear_finishes s _ s.created c token) hnone
  · split
    · exact keep_finishes b _ (.refl s c token) hnone
    · exact .refl s c token
  · exact .refl s c token

theorem construct_finishes {name : String} (args : List Instance)
    (hnone : Unstored s c (.cls name)) : Finishes s c (.cls name) (s.construct c name args).2 :=
  (bear_finishes s _ _ c _).trans (store_finishes _ hnone)

theorem resolving_extends (s : World) (c : Nat) (g : List Token → List Token) :
    Extends s (s.update c fun k => { k with resolving := g k.resolving }) where
  length := length_update
  container c' k hk := by
    have hget := getElem?_update (s := s) (c := c) (f := fun k => { k with resolving := g k.resolving }) c'
    rw [hk] at hget
    split at hget
    · exact ⟨_, hget, rfl, rfl, rfl, fun _ _ => id⟩
    · exact ⟨k, hget, rfl, rfl, rfl, fun _ _ => id⟩
  births := prefix_refl _

theorem finishWith_cases {finish : List Instance → World → Resolved}
    {resolved : Except ResolveError (List Instance) × World} {P : Resolved → Prop}
    (herror : ∀ e s, resolved = (.error e, s) → P (.error e, s))
    (hok : ∀ args s, resolved = (.ok args, s) → P (finish args s)) : P (finishWith finish resolved) := by
  obtain ⟨out, s⟩ := resolved
  cases out with
  | error e => exact herror e s rfl
  | ok args => exact hok args s rfl

/-- **A factory or constructor run under `resolving`** leaves the set as it was. -/
theorem whileResolving_grows {α : Type} {k : Container}
    {r : α → World → Resolved} {deps : List α} {finish : List Instance → World → Resolved}
    (hk : s.containers[c]? = some k) (hnotin : token ∉ k.resolving) (hnone : k.singletons.get token = none)
    (hr : ∀ x s, Grows s (r x s).2)
    (hfinish : ∀ args s', Unstored s' c token → Finishes s' c token (finish args s').2) :
    Grows s (whileResolving c token r deps finish s).2 := by
  unfold whileResolving
  dsimp only
  set s₁ := s.enter c token with hs₁
  have h₁ : Extends s s₁ := resolving_extends s c fun ts => ts ++ [token]
  have hk₁ : s₁.containers[c]? = some { k with resolving := k.resolving ++ [token] } := by
    rw [hs₁, World.enter, getElem?_update, if_pos rfl, hk, Option.map_some]
  have hother₁ : ∀ c', c' ≠ c → s₁.containers[c']? = s.containers[c']? := by
    intro c' hc
    rw [hs₁, World.enter, getElem?_update, if_neg hc]
  have h₂ := resolveAll_grows hr deps s₁
  have hnone₂ : Unstored (resolveAll r deps s₁).2 c token := by
    intro k₂ hk₂
    rw [(h₂.resolving c _ k₂ hk₁ hk₂).2 token (mem_append_right _ mem_cons_self)]
    exact hnone
  -- whatever the outcome, nothing else is stored after the dependencies
  have h₃ : Finishes (resolveAll r deps s₁).2 c token (finishWith finish (resolveAll r deps s₁)).2 :=
    finishWith_cases (P := fun out => Finishes (resolveAll r deps s₁).2 c token out.2) (fun e s' heq => by rw [heq]; exact .refl _ _ _)
      (fun args s' heq => by rw [heq] at hnone₂ ⊢; exact hfinish args s' hnone₂)
  set s₃ := (finishWith finish (resolveAll r deps s₁)).2 with hs₃
  refine ⟨((h₁.trans h₂.toExtends).trans h₃.toExtends).trans
    (resolving_extends s₃ c fun ts => ts.filter fun t => t ≠ token), fun c' k₀ k₄ hk₀ hk₄ => ?_⟩
  rw [World.leave, getElem?_update] at hk₄
  by_cases hc : c' = c
  · subst hc
    rw [hk] at hk₀
    cases hk₀
    rw [if_pos rfl] at hk₄
    obtain ⟨k₃, hk₃, rfl⟩ := Option.map_eq_some_iff.1 hk₄
    obtain ⟨k₂, hk₂, -⟩ := h₂.container c' _ hk₁
    obtain ⟨hres₂, hget₂⟩ := h₂.resolving c' _ k₂ hk₁ hk₂
    obtain ⟨hres₃, hget₃⟩ := h₃.others c' k₂ k₃ hk₂ hk₃
    constructor
    · rw [hres₃, hres₂, filter_append, filter_eq_self.2]
      · simp
      · exact fun t ht => decide_eq_true fun heq => hnotin (heq ▸ ht)
    · intro t ht
      have hne : t ≠ token := fun heq => hnotin (heq ▸ ht)
      rw [hget₃ t fun heq => hne heq.2, hget₂ t (mem_append_left _ ht)]
  · rw [if_neg hc] at hk₄
    have hk₁' : s₁.containers[c']? = some k₀ := (hother₁ c' hc).trans hk₀
    obtain ⟨k₂, hk₂, -⟩ := h₂.container c' k₀ hk₁'
    obtain ⟨hres₂, hget₂⟩ := h₂.resolving c' k₀ k₂ hk₁' hk₂
    obtain ⟨hres₃, hget₃⟩ := h₃.others c' k₂ k₄ hk₂ hk₄
    exact ⟨hres₃.trans hres₂, fun t ht => (hget₃ t fun heq => hc heq.1).trans (hget₂ t ht)⟩

/-! ## The cases of a resolution -/

/-- The container in which the resolution of a bound token goes on, if it is not this one. -/
def delegate (k : Container) (token : Token) (b : Binding) : Option Nat :=
  if k.bindings.has token ∨ b.scope ≠ .singleton then none else k.parent

/-- An active container that holds nothing under a token. -/
structure Open (s : World) (c : Nat) (token : Token) (k : Container) : Prop where
  container : s.containers[c]? = some k
  active : k.disposed = false
  unstored : k.singletons.get token = none

theorem Open.unstored_of_grows {k : Container} (h : Open s c token k) (hg : Grows (s.enter c token) s') : Unstored s' c token := by
  intro k' hk'
  have hk₁ : (s.enter c token).containers[c]? = some { k with resolving := k.resolving ++ [token] } := by
    rw [World.enter, getElem?_update, if_pos rfl, h.container, Option.map_some]
  rw [(hg.resolving c _ k' hk₁ hk').2 token (mem_append_right _ mem_cons_self)]
  exact h.unstored

/-- **What holds of every resolution** is what holds in each of its cases, of the resolutions inside it. -/
theorem resolveIn_rule {p : Program} {P : Nat → Nat → Token → World → Resolved → Prop}
    (noFuel : ∀ c token s, P 0 c token s (.error ⟨.outOfFuel, none⟩, s))
    (inactive : ∀ fuel c token s, (∀ k, s.containers[c]? = some k → k.disposed = true) → P (fuel + 1) c token s (.error ⟨.disposed, none⟩, s))
    (held : ∀ fuel c token s k inst, s.containers[c]? = some k → k.disposed = false →
      k.singletons.get token = some inst → P (fuel + 1) c token s (.ok inst, s))
    (delegated : ∀ fuel c token s k b parent, Open s c token k → s.findBinding c token = some b →
      delegate k token b = some parent → P fuel parent token s (resolveIn p fuel parent token s) →
      P (fuel + 1) c token s (resolveIn p fuel parent token s))
    (circular : ∀ fuel c token s k, Open s c token k → token ∈ k.resolving →
      P (fuel + 1) c token s (.error ⟨.circular token k.resolving, none⟩, s))
    (factory : ∀ fuel c token s k b, Open s c token k → s.findBinding c token = some b → delegate k token b = none → token ∉ k.resolving →
      (∀ token' s', P fuel c token' s' (resolveIn p fuel c token' s')) →
      P (fuel + 1) c token s (whileResolving c token (resolveIn p fuel c) b.factory.deps (fun args s' => s'.produce c token b args) s))
    (unbound : ∀ fuel c name s k, Open s c (.key name) k → s.findBinding c (.key name) = none →
      P (fuel + 1) c (.key name) s (.error ⟨.noBinding (.key name), none⟩, s))
    (constructor : ∀ fuel c name s k, Open s c (.cls name) k → s.findBinding c (.cls name) = none →
      .cls name ∉ k.resolving → (∀ token' s', P fuel c token' s' (resolveIn p fuel c token' s')) →
      P (fuel + 1) c (.cls name) s (whileResolving c (.cls name)
        (resolveParam (resolveIn p fuel c) (k.resolving ++ [.cls name])) ((p.paramTypes.get name).getD [])
        (fun args s' => s'.construct c name args) s)) :
    ∀ (fuel c : Nat) (token : Token) (s : World), P fuel c token s (resolveIn p fuel c token s)
  | 0, c, token, s => noFuel c token s
  | fuel + 1, c, token, s => by
    have ih := resolveIn_rule noFuel inactive held delegated circular factory unbound constructor fuel
    unfold resolveIn
    cases hk : s.containers[c]? with
    | none => exact inactive fuel c token s fun k hk' => by rw [hk] at hk'; cases hk'
    | some k =>
      dsimp only
      by_cases hd : k.disposed = true
      · rw [if_pos hd]
        exact inactive fuel c token s fun k' hk' => by rw [hk] at hk'; cases hk'; exact hd
      · rw [if_neg hd]
        have hactive : k.disposed = false := Bool.eq_false_iff.2 hd
        cases hget : k.singletons.get token with
        | some inst => exact held fuel c token s k inst hk hactive hget
        | none =>
          have hopen : Open s c token k := ⟨hk, hactive, hget⟩
          cases hb : s.findBinding c token with
          | some b =>
            dsimp only
            cases hdel : (if k.bindings.has token ∨ b.scope ≠ .singleton then none else k.parent) with
            | some parent => exact delegated fuel c token s k b parent hopen hb hdel (ih parent token s)
            | none =>
              dsimp only
              split
              · next hin => exact circular fuel c token s k hopen hin
              · next hnotin => exact factory fuel c token s k b hopen hb hdel hnotin (ih c)
          | none =>
            cases token with
            | key name => exact unbound fuel c name s k hopen hb
            | cls name =>
              dsimp only
              split
              · next hin => exact circular fuel c _ s k hopen hin
              · next hnotin => exact constructor fuel c name s k hopen hb hnotin (ih c)

/-- **A resolution only adds instances**, and leaves the registrations and the `resolving` sets as they were. -/
theorem resolveIn_grows (p : Program) (fuel c : Nat) (token : Token) (s : World) : Grows s (resolveIn p fuel c token s).2 := by
  refine resolveIn_rule (P := fun _ _ _ s out => Grows s out.2) ?noFuel ?inactive ?held ?delegated ?circular
    ?factory ?unbound ?constructor fuel c token s
  case noFuel => exact fun _ _ s => .refl s
  case inactive => exact fun _ _ _ s _ => .refl s
  case held => exact fun _ _ _ s _ _ _ _ _ => .refl s
  case delegated => exact fun _ _ _ _ _ _ _ _ _ _ h => h
  case circular => exact fun _ _ _ s _ _ _ => .refl s
  case factory =>
    intro fuel c token s k b hopen _ _ hnotin ih
    exact whileResolving_grows hopen.container hnotin hopen.unstored ih fun args s' hnone => produce_finishes b args hnone
  case unbound => exact fun _ _ _ s _ _ _ => .refl s
  case constructor =>
    intro fuel c name s k hopen _ hnotin ih
    exact whileResolving_grows hopen.container hnotin hopen.unstored (resolveParam_grows ih _)
      fun args s' hnone => construct_finishes args hnone

/-! ## The outcome of a factory or constructor -/

/-- The world after a resolution meets `I`, the cause of its error `E` and its instance `K`. -/
def Outcome (I : World → Prop) (E : Cause → Prop) (K : Instance → World → Prop) : Resolved → Prop
  | (.error e, s) => I s ∧ E e.cause
  | (.ok inst, s) => I s ∧ K inst s

/-- The same of a list of dependencies. -/
def OutcomeAll {α : Type} (I : World → Prop) (E : Cause → Prop) (K : α → Instance → World → Prop) (xs : List α) :
    Except ResolveError (List Instance) × World → Prop
  | (.error e, s) => I s ∧ E e.cause
  | (.ok insts, s) => I s ∧ List.Forall₂ (fun x inst => K x inst s) xs insts

section

variable {α : Type} {I : World → Prop} {E : Cause → Prop} {K : α → Instance → World → Prop} {r : α → World → Resolved}

theorem resolveAll_outcome (hr : ∀ x s, Grows s (r x s).2) (hmono : ∀ x inst s s', Extends s s' → K x inst s → K x inst s') :
    ∀ (xs : List α) (s : World), (∀ x ∈ xs, ∀ s', Grows s s' → I s' → Outcome I E (K x) (r x s')) → I s →
      OutcomeAll I E K xs (resolveAll r xs s)
  | [], s, _, hs => ⟨hs, .nil⟩
  | x :: xs, s, hxs, hs => by
    have hx := hxs x mem_cons_self s (.refl s) hs
    have hgrows := hr x s
    unfold resolveAll
    cases hrx : r x s with
    | mk out s₁ =>
      rw [hrx] at hx hgrows
      cases out with
      | error e => exact hx
      | ok inst =>
        have hrest := resolveAll_outcome hr hmono xs s₁ (fun y hy s' hg => hxs y (mem_cons_of_mem _ hy) s' (hgrows.trans hg)) hx.1
        have hgrows' := resolveAll_grows hr xs s₁
        dsimp only
        cases hrxs : resolveAll r xs s₁ with
        | mk out s₂ =>
          rw [hrxs] at hrest hgrows'
          cases out with
          | error e => exact hrest
          | ok insts => exact ⟨hrest.1, .cons (hmono x inst s₁ s₂ hgrows'.toExtends hx.2) hrest.2⟩

/-- **The rule of a factory or constructor**: `I` holds while it runs and `J` after it. -/
theorem whileResolving_outcome {J : World → Prop} {L : Instance → World → Prop} {s : World} {c : Nat} {token : Token}
    {deps : List α} {finish : List Instance → World → Resolved} (hr : ∀ x s, Grows s (r x s).2)
    (hmono : ∀ x inst s s', Extends s s' → K x inst s → K x inst s')
    (henter : I (s.enter c token))
    (hdeps : ∀ x ∈ deps, ∀ s', Grows (s.enter c token) s' → I s' → Outcome I E (K x) (r x s'))
    (hfinish : ∀ args s', Grows (s.enter c token) s' → I s' → List.Forall₂ (fun x inst => K x inst s') deps args →
      Outcome I E L (finish args s'))
    (hleave : ∀ s', I s' → J (s'.leave c token)) (hL : ∀ inst s', L inst s' → L inst (s'.leave c token)) :
    Outcome J E L (whileResolving c token r deps finish s) := by
  have hall := resolveAll_outcome hr hmono deps _ hdeps henter
  have hgrows := resolveAll_grows hr deps (s.enter c token)
  have hout : Outcome I E L (finishWith finish (resolveAll r deps (s.enter c token))) :=
    finishWith_cases (fun e s' heq => by rw [heq] at hall; exact hall)
      (fun args s' heq => by rw [heq] at hall hgrows; exact hfinish args s' hgrows hall.1 hall.2)
  unfold whileResolving
  cases hfin : finishWith finish (resolveAll r deps (s.enter c token)) with
  | mk out s' =>
    rw [hfin] at hout
    cases out with
    | error e => exact ⟨hleave s' hout.1, hout.2⟩
    | ok inst => exact ⟨hleave s' hout.1, hL inst s' hout.2⟩

theorem resolveParam_outcome {K : Option String → Instance → World → Prop} {r : Token → World → Resolved}
    {chain : List Token} {s : World} :
    ∀ (param : Option String), (param = none → I s ∧ E .primitive) → (∀ dep, param = some dep → Outcome I E (K param) (r (.cls dep) s)) →
      Outcome I E (K param) (resolveParam r chain param s)
  | none, hnone, _ => hnone rfl
  | some dep, _, hsome => by
    have hdep := hsome dep rfl
    unfold resolveParam
    dsimp only
    cases hr : r (.cls dep) s with
    | mk out s' =>
      rw [hr] at hdep
      cases out with
      | ok inst => exact hdep
      | error e =>
        have hcause : (e.annotate (chain ++ [.cls dep])).cause = e.cause := by
          unfold ResolveError.annotate
          cases e.chain <;> rfl
        exact ⟨hdep.1, hcause ▸ hdep.2⟩

end

end StreetJS.Container
