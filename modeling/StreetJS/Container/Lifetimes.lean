/-
`Container` lifetimes. While every token is registered before it holds anything, a kept factory makes an
instance of its own, and no class without a binding is constructed on two levels of one tree, each binding and
class has the instances its scope says, and `dispose()` visits what a container owns once, dependents first.
-/
import StreetJS.Container.Ownership
import StreetJS.Container.Termination

namespace StreetJS.Container

open StreetJS.Lib List OrderedMap

/-! ## What the containers are for -/

/-- The containers above one, itself included, through at most `n`. -/
def ancestorsIn (s : World) : Nat → Nat → List Nat
  | 0, _ => []
  | n + 1, c => c :: ((((s.containers[c]?).bind Container.parent).map (ancestorsIn s n)).getD [])

def ancestors (s : World) (c : Nat) : List Nat := ancestorsIn s (c + 1) c

/-- One of two containers is a scope of the other, or they are the same. -/
def Related (s : World) (c c' : Nat) : Prop := c ∈ ancestors s c' ∨ c' ∈ ancestors s c

/-- Two instances that may both be made: not twice from one singleton binding, not twice in a scope from one
scoped binding, and not from one class without a binding in a container and a scope of it. -/
def Apart (s : World) (b₁ b₂ : Birth) : Prop :=
  b₁.inst ≠ b₂.inst ∧ (b₁.source = b₂.source → match b₁.source with
      | .binding _ .singleton => False
      | .binding _ .scoped => b₁.container ≠ b₂.container
      | .binding _ .transient => True
      | .cls _ => ¬ Related s b₁.container b₂.container
      | .registered => True)

/-- **The lifetimes of the containers**: what is made, what a resolution comes to, and what `dispose()` does. -/
structure Lifetimes (p : Program) (s : World) : Prop where
  apart : s.births.Pairwise (Apart s)
  ends : ∀ c token e, (s.resolve p c token).1 = .error e → e.cause ≠ .outOfFuel
  cyclic : ∀ c token, Cyclic p s (c, token) → ∃ e, (s.resolve p c token).1 = .error e ∧
    ((∃ token' chain, e.cause = .circular token' chain) ∨ ∃ m, Reaches p s (c, token) m ∧ Fault p s m)
  disposed : ∀ (c : Nat) k, s.containers[c]? = some k → (disposedBy s c).Perm (if k.disposed then ownedBy s c else [])
  once : (s.disposals.map Disposal.inst).Nodup
  dependentsFirst : s.disposals.Pairwise fun d₁ d₂ =>
    d₁.container = d₂.container → ¬ DependsOn s d₂.inst d₁.inst

/-! ## The condition -/

/-- All bindings of all containers. -/
def registered (s : World) : List Binding := s.containers.flatMap fun k => k.bindings.map Prod.snd

/-- A factory of which nothing is kept that something else keeps too. -/
def OwnInstance (s : World) (factory : Factory) (scope : BindingScope) : Prop :=
  match factory.returns, scope with
  | .fresh, _ => True
  | .throws, _ => True
  | .argument _, scope => scope = .transient
  | .value n, .transient =>
    ∀ b ∈ registered s, b.scope ≠ .transient → b.factory.returns = .value n → .value n ∈ s.seen
  | .value n, .singleton => .value n ∉ s.seen ∧ ∀ b ∈ registered s, b.factory.returns ≠ .value n
  | .value _, .scoped => False

/-- A class that a resolution may come to construct. -/
structure Site (p : Program) (s : World) (root : Node) (c : Nat) (name : String) : Prop where
  reached : Reaches p s root (c, .cls name)
  unbound : s.findBinding c (.cls name) = none
  unstored : Unstored s c (.cls name)

/-- No class that the resolution may come to construct has an instance above or below, or would get one. -/
def ConstructsOnce (p : Program) (s : World) (root : Node) : Prop :=
  ∀ c name, Site p s root c name → (∀ birth ∈ s.births, birth.source = .cls name → ¬ Related s birth.container c) ∧
      ∀ c', Site p s root c' name → Related s c' c → c' = c

/-- A token is registered while it holds nothing. -/
def Vacant (s : World) (c : Nat) (token : Token) : Prop :=
  ∀ k, s.containers[c]? = some k → k.disposed = false → k.singletons.get token = none

def Orderly (p : Program) (s : World) : Event → Prop
  | .registerValue c token n =>
    Vacant s c token ∧ .value n ∉ s.seen ∧ ∀ b ∈ registered s, b.scope ≠ .transient → b.factory.returns ≠ .value n
  | .registerFactory c token factory scope => Vacant s c token ∧ OwnInstance s factory scope
  | .resolve c token => ConstructsOnce p s (c, token)
  | _ => True

/-! ## Where a binding is and what it keeps -/

def Bound (s : World) (c : Nat) (token : Token) (b : Binding) : Prop :=
  ∃ k, s.containers[c]? = some k ∧ k.bindings.get token = some b

/-- A container that is not disposed of holds something under a token. -/
def Kept (s : World) (c : Nat) (token : Token) : Prop :=
  ∀ k, s.containers[c]? = some k → k.disposed = false → k.singletons.get token ≠ none

/-- A value that is seen first when the one binding that returns it does. -/
def Reserved (s : World) (c : Nat) (token : Token) (n : Nat) : Prop :=
  .value n ∉ s.seen ∧ ∀ c' token' b, Bound s c' token' b → b.factory.returns = .value n → c' = c ∧ token' = token

/-- The births agree with the bindings. -/
structure Sources (s : World) : Prop where
  ids : ∀ c token b, Bound s c token b → b.id < s.registrations
  unique : ∀ c token b c' token' b', Bound s c token b → Bound s c' token' b' → b.id = b'.id → c = c' ∧ token = token'
  births : ∀ birth ∈ s.births, birth.container < s.containers.length
  sources : ∀ birth ∈ s.births, ∀ id scope, birth.source = .binding id scope → id < s.registrations
  kept : ∀ birth ∈ s.births, ∀ id scope, birth.source = .binding id scope → scope ≠ .transient →
    ∀ c token b, Bound s c token b → b.id = id → (scope = .singleton → birth.container = c) ∧ Kept s birth.container token
  keeps : ∀ c token b, Bound s c token b → b.scope ≠ .transient → (∀ i, b.factory.returns ≠ .argument i) ∧
    ∀ n, b.factory.returns = .value n → b.scope = .singleton ∧ (Kept s c token ∨ Reserved s c token n)
  apart : s.births.Pairwise (Apart s)

section

variable {s s' : World} {c : Nat} {token : Token} {b : Binding}

theorem Bound.mem_registered (h : Bound s c token b) : b ∈ registered s := by
  obtain ⟨k, hk, hget⟩ := h
  exact mem_flatMap.2 ⟨k, mem_of_getElem? hk, mem_map.2 ⟨_, get_mem hget, rfl⟩⟩

theorem Bound.lt (h : Bound s c token b) : c < s.containers.length := by
  obtain ⟨k, hk, -⟩ := h
  exact (lt_length hk)

theorem Bound.eq {b' : Binding} (h : Bound s c token b) (h' : Bound s c token b') : b = b' := by
  obtain ⟨k, hk, hget⟩ := h
  obtain ⟨k', hk', hget'⟩ := h'
  rw [hk] at hk'
  cases hk'
  rw [hget] at hget'
  exact Option.some.inj hget'

theorem Kept.not_open {k : Container} (h : Kept s c token) (hopen : Open s c token k) : False :=
  h k hopen.container hopen.active hopen.unstored

theorem Extends.bound (h : Extends s s') : Bound s' c token b → Bound s c token b := by
  rintro ⟨k', hk', hget⟩
  obtain ⟨k, hk, -, hbindings, -, -⟩ := h.back hk'
  exact ⟨k, hk, hbindings ▸ hget⟩

theorem Extends.kept (h : Extends s s') (hkept : Kept s c token) : Kept s' c token := by
  intro k' hk' hactive hnone
  obtain ⟨k, hk, -, -, hdisposed, -⟩ := h.back hk'
  exact hkept k hk (hdisposed ▸ hactive) (h.unstored hk hk' hnone)

theorem bound_of_delegate {k : Container} (hk : s.containers[c]? = some k) (hb : s.findBinding c token = some b)
    (hdel : delegate k token b = none) (hsingleton : b.scope = .singleton) : Bound s c token b := by
  refine ⟨k, hk, ?_⟩
  unfold World.findBinding World.findBindingIn at hb
  rw [hk] at hb
  dsimp only at hb
  cases hget : k.bindings.get token with
  | some b' =>
    rw [hget] at hb
    exact hb
  | none =>
    rw [hget] at hb
    have hparent : k.parent = none := by
      unfold delegate OrderedMap.has at hdel
      rw [hget, hsingleton] at hdel
      simpa using hdel
    rw [hparent] at hb
    cases hb

/-! ## Ancestors -/

theorem ancestorsIn_eq {n c : Nat} (hbelow : ParentsBelow s) {m : Nat}
    (hparent : ∀ c < m, (s'.containers[c]?).bind Container.parent = (s.containers[c]?).bind Container.parent) :
    c < m → ancestorsIn s' n c = ancestorsIn s n c := by
  induction n generalizing c with
  | zero => exact fun _ => rfl
  | succ n ih =>
    intro hlt
    unfold ancestorsIn
    rw [hparent c hlt]
    cases hp : (s.containers[c]?).bind Container.parent with
    | none => rfl
    | some parent =>
      obtain ⟨k, hk, hkp⟩ := Option.bind_eq_some_iff.1 hp
      rw [Option.map_some, Option.map_some, ih (lt_trans (hbelow c k parent hk hkp) hlt)]

theorem Extends.parent (h : Extends s s') (c : Nat) :
    (s'.containers[c]?).bind Container.parent = (s.containers[c]?).bind Container.parent := by
  cases hk : s.containers[c]? with
  | none => rw [h.missing.2 hk]
  | some k =>
    obtain ⟨k', hk', hparent, -⟩ := h.container c k hk
    rw [hk', Option.bind_some, Option.bind_some, hparent]

theorem Extends.ancestors (h : Extends s s') (hbelow : ParentsBelow s) (c : Nat) : ancestors s' c = ancestors s c :=
  ancestorsIn_eq (m := c + 1) hbelow (fun c' _ => h.parent c') (Nat.lt_succ_self c)

theorem Apart.of_ancestors {b₁ b₂ : Birth} (h₁ : Container.ancestors s' b₁.container = Container.ancestors s b₁.container)
    (h₂ : Container.ancestors s' b₂.container = Container.ancestors s b₂.container) (h : Apart s b₁ b₂) :
    Apart s' b₁ b₂ := by
  unfold Apart Related at *
  rw [h₁, h₂]
  exact h

end

/-! ## Steps that add no binding -/

/-- What may be added to the births: at most one instance, which its binding keeps. -/
structure Addition (s s' : World) (birth : Birth) : Prop where
  container : birth.container < s.containers.length
  source : ∀ id scope, birth.source = .binding id scope → id < s.registrations
  kept : ∀ id scope, birth.source = .binding id scope → scope ≠ .transient →
    ∀ c token b, Bound s c token b → b.id = id → (scope = .singleton → birth.container = c) ∧ Kept s' birth.container token
  value : ∀ n, birth.inst = .value n → ∀ c token b, Bound s c token b → b.scope ≠ .transient → b.factory.returns = .value n → Kept s' c token
  apart : ∀ old ∈ s.births, Apart s old birth

/-- A step that leaves the bindings as they are, adds at most one instance and drops none. -/
theorem Sources.evolve {s s' : World} (h : Sources s) (newest : Option Birth)
    (hregistrations : s'.registrations = s.registrations) (hbirths : s'.births = s.births ++ newest.toList)
    (hlength : s.containers.length ≤ s'.containers.length)
    (hbound : ∀ c token b, Bound s' c token b → Bound s c token b)
    (hkept : ∀ c token, c < s.containers.length → Kept s c token → Kept s' c token)
    (hancestors : ∀ c, c < s.containers.length → ancestors s' c = ancestors s c)
    (hnew : ∀ birth, newest = some birth → Addition s s' birth) : Sources s' := by
  have hmem : ∀ birth ∈ s'.births, birth ∈ s.births ∨ Addition s s' birth := by
    intro birth hbirth
    rw [hbirths] at hbirth
    rcases mem_append.1 hbirth with hold | hnewest
    · exact .inl hold
    · exact .inr (hnew birth (Option.mem_toList.1 hnewest))
  refine ⟨?ids, ?unique, ?births, ?sources, ?kept, ?keeps, ?apart⟩
  case ids =>
    intro c token b hb
    rw [hregistrations]
    exact h.ids c token b (hbound c token b hb)
  case unique =>
    intro c token b c' token' b' hb hb'
    exact h.unique c token b c' token' b' (hbound _ _ _ hb) (hbound _ _ _ hb')
  case births =>
    intro birth hbirth
    rcases hmem birth hbirth with hold | hadd
    · exact lt_of_lt_of_le (h.births birth hold) hlength
    · exact lt_of_lt_of_le hadd.container hlength
  case sources =>
    intro birth hbirth id scope hsource
    rw [hregistrations]
    rcases hmem birth hbirth with hold | hadd
    · exact h.sources birth hold id scope hsource
    · exact hadd.source id scope hsource
  case kept =>
    intro birth hbirth id scope hsource hscope c token b hb hid
    rcases hmem birth hbirth with hold | hadd
    · obtain ⟨hsingleton, hk⟩ := h.kept birth hold id scope hsource hscope c token b (hbound _ _ _ hb) hid
      exact ⟨hsingleton, hkept _ _ (h.births birth hold) hk⟩
    · exact hadd.kept id scope hsource hscope c token b (hbound _ _ _ hb) hid
  case keeps =>
    intro c token b hb hscope
    have hb' := hbound _ _ _ hb
    obtain ⟨hargument, hvalue⟩ := h.keeps c token b hb' hscope
    refine ⟨hargument, fun n hn => ⟨(hvalue n hn).1, ?_⟩⟩
    rcases (hvalue n hn).2 with hk | ⟨hunseen, honly⟩
    · exact .inl (hkept _ _ hb'.lt hk)
    -- a reserved value stays unseen, or it is this binding that returned it
    by_cases hseen : .value n ∈ s'.seen
    · left
      obtain ⟨birth, hbirth, hinst⟩ := mem_map.1 hseen
      rcases hmem birth hbirth with hold | hadd
      · exact absurd (hinst ▸ mem_map_of_mem hold) hunseen
      · exact hadd.value n hinst c token b hb' hscope hn
    · exact .inr ⟨hseen, fun c' token' b' h' => honly c' token' b' (hbound _ _ _ h')⟩
  case apart =>
    have hold : s.births.Pairwise (Apart s') := h.apart.imp_of_mem fun {b₁ b₂} h₁ h₂ hapart =>
      hapart.of_ancestors (hancestors _ (h.births b₁ h₁)) (hancestors _ (h.births b₂ h₂))
    rw [hbirths]
    refine pairwise_append.2 ⟨hold, ?_, fun old hmemOld birth hbirth => ?_⟩
    · cases newest with
      | none => exact .nil
      | some birth => exact pairwise_singleton _ _
    · have hadd := hnew birth (Option.mem_toList.1 hbirth)
      exact (hadd.apart old hmemOld).of_ancestors (hancestors _ (h.births old hmemOld)) (hancestors _ hadd.container)

/-- The invariant of every run that meets the condition. -/
structure Inv (s : World) : Prop where
  below : ParentsBelow s
  ledger : Ledger s
  sources : Sources s

theorem start_inv : Inv start where
  below := by
    intro c k parent hk
    cases hk
  ledger := start_ledger
  sources := by
    refine ⟨?_, ?_, nofun, nofun, nofun, ?_, .nil⟩
    · rintro c token b ⟨k, hk, -⟩
      cases hk
    · rintro c token b c' token' b' ⟨k, hk, -⟩
      cases hk
    · rintro c token b ⟨k, hk, -⟩
      cases hk

namespace Inv

variable {s s' : World}

theorem sources_of_extends (h : Inv s) (hext : Extends s s') (newest : Option Birth)
    (hregistrations : s'.registrations = s.registrations) (hbirths : s'.births = s.births ++ newest.toList)
    (hnew : ∀ birth, newest = some birth → Addition s s' birth) : Sources s' :=
  h.sources.evolve newest hregistrations hbirths (le_of_eq hext.length.symm) (fun _ _ _ => hext.bound)
    (fun _ _ _ => hext.kept) (fun c _ => hext.ancestors h.below c) hnew

theorem resolving (h : Inv s) (c : Nat) (g : List Token → List Token) : Inv (s.update c fun k => { k with resolving := g k.resolving }) where
  below := (resolving_extends s c g).parentsBelow h.below
  ledger := h.ledger.resolving c g
  sources := h.sources_of_extends (resolving_extends s c g) none rfl (append_nil _).symm nofun

/-! ### A new instance -/

section

variable {c : Nat} {token : Token} {k : Container} {birth : Birth} {created : Nat}

theorem bear (h : Inv s) (hnew : birth.inst ∉ s.seen) (hdeps : ∀ dep ∈ birth.deps, dep ∈ s.seen)
    (hle : s.created ≤ created) (hlt : ∀ n, birth.inst = .created n → n < created)
    (hadd : Addition s { s.bear birth with created := created } birth) :
    Inv { s.bear birth with created := created } := by
  have hext := (bear_finishes s birth created 0 (.key "")).toExtends
  refine ⟨hext.parentsBelow h.below, h.ledger.bear hnew hdeps hle hlt, ?_⟩
  refine h.sources_of_extends hext (some birth) rfl rfl fun birth' heq => ?_
  cases heq
  exact hadd

theorem store_extends (birth : Birth) (created : Nat) (hopen : Open s c token k) :
    Extends s (World.store { s.bear birth with created := created } c token birth.inst) := by
  have hborn := (bear_finishes s birth created c token).toExtends
  have hnone : Unstored { s.bear birth with created := created } c token := by
    intro k' hk'
    have hk'' : s.containers[c]? = some k' := hk'
    rw [hopen.container] at hk''
    cases hk''
    exact hopen.unstored
  exact hborn.trans (store_finishes birth.inst hnone).toExtends

theorem store_kept (birth : Birth) : Kept (World.store { s.bear birth with created := created } c token birth.inst) c token := by
  intro k' hk' _
  have hget := getElem?_update (s := { s.bear birth with created := created }) (c := c)
    (f := fun k => { k with singletons := k.singletons.set token birth.inst }) c
  rw [if_pos rfl] at hget
  have hk'' := hget.symm.trans hk'
  obtain ⟨k₀, -, rfl⟩ := Option.map_eq_some_iff.1 hk''
  rw [get_set, if_pos rfl]
  nofun

theorem keep (h : Inv s) (birth : Birth) (hopen : Open s c token k) (hnew : birth.inst ∉ s.seen)
    (hdeps : ∀ dep ∈ birth.deps, dep ∈ s.seen) (hle : s.created ≤ created)
    (hlt : ∀ n, birth.inst = .created n → n < created)
    (hadd : Addition s (World.store { s.bear birth with created := created } c token birth.inst) birth) :
    Inv (World.store { s.bear birth with created := created } c token birth.inst) := by
  have hext := store_extends birth created hopen
  refine ⟨hext.parentsBelow h.below, h.ledger.keep hopen hnew hdeps hle hlt, ?_⟩
  refine h.sources_of_extends hext (some birth) rfl rfl fun birth' heq => ?_
  cases heq
  exact hadd

end

variable {c : Nat} {token : Token}

theorem addition_of_binding {c₀ : Nat} {k : Container} {b : Binding} {inst : Instance}
    {args : List Instance} (h : Inv s) (hopen : Open s c token k) (hb : Bound s c₀ token b)
    (hsingleton : b.scope = .singleton → c₀ = c) (hnew : inst ∉ s.seen) (hext : Extends s s')
    (hkept : b.scope ≠ .transient → Kept s' c token)
    (hvalue : ∀ n, inst = .value n → b.factory.returns = .value n) :
    Addition s s' ⟨inst, args, c, .binding b.id b.scope⟩ where
  container := (lt_length hopen.container)
  source := by
    rintro id scope ⟨rfl, rfl⟩
    exact h.sources.ids _ _ _ hb
  kept := by
    rintro id scope ⟨rfl, rfl⟩ hscope c' token' b' hb' hid
    obtain ⟨rfl, rfl⟩ := h.sources.unique _ _ _ _ _ _ hb' hb hid
    exact ⟨fun hs => (hsingleton hs).symm, hkept hscope⟩
  value := by
    intro n hn c' token' b' hb' hscope' hreturns
    obtain ⟨hsingleton', hor⟩ := (h.sources.keeps c' token' b' hb' hscope').2 n hreturns
    rcases hor with hkept' | ⟨-, honly⟩
    · exact hext.kept hkept'
    · obtain ⟨rfl, rfl⟩ := honly _ _ _ hb (hvalue n hn)
      obtain rfl := hb.eq hb'
      obtain rfl := hsingleton hsingleton'
      exact hkept hscope'
  apart := by
    intro old hold
    have hseen : old.inst ∈ s.seen := mem_map_of_mem hold
    refine ⟨fun heq => hnew ?_, fun hsource => ?_⟩
    · rw [show inst = old.inst from heq.symm]
      exact hseen
    rw [hsource]
    match hscope : b.scope with
    | .transient => trivial
    | .singleton =>
      have hsource' : old.source = .binding b.id b.scope := hsource
      have hne : b.scope ≠ .transient := by rw [hscope]; nofun
      obtain ⟨hc, hkept'⟩ := h.sources.kept old hold _ _ hsource' hne _ _ _ hb rfl
      rw [hc hscope, hsingleton hscope] at hkept'
      exact hkept'.not_open hopen
    | .scoped =>
      have hsource' : old.source = .binding b.id b.scope := hsource
      have hne : b.scope ≠ .transient := by rw [hscope]; nofun
      obtain ⟨-, hkept'⟩ := h.sources.kept old hold _ _ hsource' hne _ _ _ hb rfl
      intro heq
      have heq' : old.container = c := heq
      rw [heq'] at hkept'
      exact hkept'.not_open hopen

/-! ### What a factory or constructor returns -/

/-- The invariant during a resolution: what was constructed since it began was constructed at one of its sites. -/
structure Running (p : Program) (s₀ : World) (root : Node) (s : World) : Prop where
  before : Inv s₀
  inv : Inv s
  ext : Extends s₀ s
  sites : ∀ birth ∈ s.births, birth ∈ s₀.births ∨ ∀ name, birth.source = .cls name →
    Site p s₀ root birth.container name ∧ Kept s birth.container (.cls name)

theorem produce {k : Container} {b : Binding} {args : List Instance} (h : Inv s)
    (hopen : Open s c token k) (hb : s.findBinding c token = some b) (hdel : delegate k token b = none)
    (hargs : ∀ inst ∈ args, inst ∈ s.seen) :
    Outcome (fun s' => Inv s' ∧ ∀ birth ∈ s'.births, birth ∈ s.births ∨ ∀ name, birth.source ≠ .cls name)
      (fun _ => True) (fun inst s' => inst ∈ s'.seen) (s.produce c token b args) := by
  obtain ⟨c₀, k₀, hk₀, hget⟩ := findBinding_mem hb
  have hbound : Bound s c₀ token b := ⟨k₀, hk₀, hget⟩
  have hown : b.scope = .singleton → c₀ = c := fun hsingleton =>
    (h.sources.unique _ _ _ _ _ _ hbound (bound_of_delegate hopen.container hb hdel hsingleton) rfl).1
  -- a new instance of the binding, kept or not
  have hnewInstance : ∀ inst created deps, inst ∉ s.seen → (∀ dep ∈ deps, dep ∈ s.seen) → s.created ≤ created →
      (∀ n, inst = .created n → n < created) → (∀ n, inst = .value n → b.factory.returns = .value n) →
      Outcome (fun s' => Inv s' ∧ ∀ birth ∈ s'.births, birth ∈ s.births ∨ ∀ name, birth.source ≠ .cls name)
        (fun _ => True) (fun inst s' => inst ∈ s'.seen)
        (.ok inst, let s' : World := { s.bear ⟨inst, deps, c, .binding b.id b.scope⟩ with created := created }
          if b.scope = .transient then s' else s'.store c token inst) := by
    intro inst created deps hnew hdeps hle hlt hvalue
    have hbirths : ∀ birth ∈ s.births ++ [⟨inst, deps, c, .binding b.id b.scope⟩], birth ∈ s.births ∨ ∀ name, birth.source ≠ .cls name := by
      intro birth hbirth
      rcases mem_append.1 hbirth with hold | hnewest
      · exact .inl hold
      · cases mem_singleton.1 hnewest
        exact .inr fun name => nofun
    have hseen : ∀ s' : World, s'.births = s.births ++ [⟨inst, deps, c, .binding b.id b.scope⟩] → inst ∈ s'.seen := by
      intro s' heq
      unfold World.seen
      rw [heq, map_append]
      exact mem_append_right _ mem_cons_self
    split
    · next htransient =>
      have hext := (bear_finishes s ⟨inst, deps, c, .binding b.id b.scope⟩ created c token).toExtends
      exact ⟨⟨h.bear hnew hdeps hle hlt (h.addition_of_binding hopen hbound hown hnew hext
        (fun hne => absurd htransient hne) hvalue), hbirths⟩, hseen _ rfl⟩
    · exact ⟨⟨h.keep _ hopen hnew hdeps hle hlt (h.addition_of_binding hopen hbound hown hnew
        (store_extends _ _ hopen) (fun _ => store_kept _) hvalue), hbirths⟩, hseen _ rfl⟩
  unfold World.produce
  cases hreturns : b.factory.returns with
  | fresh =>
    have hnew : Instance.created s.created ∉ s.seen := fun hseen => lt_irrefl _ (h.ledger.created _ hseen)
    refine hnewInstance (.created s.created) (s.created + 1) args hnew hargs (Nat.le_succ _) (fun n heq => ?_) nofun
    cases heq
    exact Nat.lt_succ_self _
  | value n =>
    dsimp only
    by_cases hseen : Instance.value n ∈ s.seen
    · split
      · exact ⟨⟨h, fun birth => .inl⟩, hseen⟩
      · next hscope =>
        -- a value that was seen before is kept already
        obtain ⟨hsingleton, hor⟩ := (h.sources.keeps _ _ _ hbound hscope).2 n hreturns
        obtain rfl := hown hsingleton
        rcases hor with hkept | ⟨hunseen, -⟩
        · exact (hkept.not_open hopen).elim
        · exact absurd hseen hunseen
    · rw [if_neg hseen]
      exact hnewInstance (.value n) s.created [] hseen nofun le_rfl nofun fun m heq => by cases heq; exact hreturns
  | argument i =>
    dsimp only
    cases hi : args[i]? with
    | none => exact ⟨⟨h, fun birth => .inl⟩, trivial⟩
    | some inst =>
      dsimp only
      split
      · exact ⟨⟨h, fun birth => .inl⟩, hargs inst (mem_of_getElem? hi)⟩
      · next hscope => exact absurd hreturns ((h.sources.keeps _ _ _ hbound hscope).1 i)
  | throws => exact ⟨⟨h, fun birth => .inl⟩, trivial⟩

theorem forall_of_forall₂ {X : Type} {P : Instance → Prop} {xs : List X} {insts : List Instance}
    (h : List.Forall₂ (fun _ inst => P inst) xs insts) : ∀ inst ∈ insts, P inst := by
  induction h with
  | nil => exact nofun
  | cons hp _ ih =>
    intro inst hinst
    rcases mem_cons.1 hinst with rfl | hinst
    · exact hp
    · exact ih inst hinst

theorem open_of_grows {k : Container} (hopen : Open s c token k) (hg : Grows (s.enter c token) s') :
    ∃ k', Open s' c token k' ∧ k'.bindings = k.bindings ∧ k'.parent = k.parent := by
  have hext := (enter_extends s c token).trans hg.toExtends
  obtain ⟨k', hk', hparent, hbindings, hdisposed, -⟩ := hext.container c k hopen.container
  exact ⟨k', ⟨hk', hdisposed.trans hopen.active, hopen.unstored_of_grows hg k' hk'⟩, hbindings, hparent⟩

namespace Running

variable {p : Program} {s₀ : World} {root : Node}

theorem resolving (h : Running p s₀ root s) (c : Nat) (g : List Token → List Token) :
    Running p s₀ root (s.update c fun k => { k with resolving := g k.resolving }) where
  before := h.before
  inv := h.inv.resolving c g
  ext := h.ext.trans (resolving_extends s c g)
  sites := by
    intro birth hbirth
    refine (h.sites birth hbirth).imp id fun hsite name hsource => ?_
    exact ⟨(hsite name hsource).1, (resolving_extends s c g).kept (hsite name hsource).2⟩

theorem reaches_next (h : Running p s₀ root s) {n m : Node} (hreach : Reaches p s₀ root n) (hnext : Next p s n m) : Reaches p s₀ root m :=
  hreach.tail (successors_subset h.ext n hnext)

theorem produce {c : Nat} {token : Token} {k : Container} {b : Binding} {args : List Instance}
    (h : Running p s₀ root s) (hopen : Open s c token k) (hb : s.findBinding c token = some b)
    (hdel : delegate k token b = none) (hargs : ∀ inst ∈ args, inst ∈ s.seen) :
    Outcome (Running p s₀ root) (fun _ => True) (fun inst s' => inst ∈ s'.seen) (s.produce c token b args) := by
  have hout := h.inv.produce hopen hb hdel hargs
  have hnone : Unstored s c token := by
    intro k' hk'
    rw [hopen.container] at hk'
    cases hk'
    exact hopen.unstored
  have hext := (produce_finishes b args hnone).toExtends
  have hsites : ∀ s' : World, Extends s s' →
      (∀ birth ∈ s'.births, birth ∈ s.births ∨ ∀ name, birth.source ≠ .cls name) → Inv s' → Running p s₀ root s' := by
    intro s' hext' hbirths hinv
    refine ⟨h.before, hinv, h.ext.trans hext', fun birth hbirth => ?_⟩
    rcases hbirths birth hbirth with hold | hsource
    · refine (h.sites birth hold).imp id fun hsite name hsource => ?_
      exact ⟨(hsite name hsource).1, hext'.kept (hsite name hsource).2⟩
    · exact .inr fun name heq => absurd heq (hsource name)
  cases hp : s.produce c token b args with
  | mk out s' =>
    rw [hp] at hout hext
    cases out with
    | error e => exact ⟨hsites s' hext hout.1.2 hout.1.1, trivial⟩
    | ok inst => exact ⟨hsites s' hext hout.1.2 hout.1.1, hout.2⟩

/-- **A class is constructed** where no instance of it is above or below. -/
theorem construct {c : Nat} {name : String} {k : Container} {args : List Instance} (h : Running p s₀ root s)
    (honce : ConstructsOnce p s₀ root) (hsite : Site p s₀ root c name) (hopen : Open s c (.cls name) k)
    (hargs : ∀ inst ∈ args, inst ∈ s.seen) :
    Outcome (Running p s₀ root) (fun _ => True) (fun inst s' => inst ∈ s'.seen) (s.construct c name args) := by
  have hnew : Instance.created s.created ∉ s.seen := fun hseen => lt_irrefl _ (h.inv.ledger.created _ hseen)
  have hrelated : ∀ c', Related s c' c → Related s₀ c' c := by
    intro c' hrel
    unfold Related at *
    rw [← h.ext.ancestors h.before.below c, ← h.ext.ancestors h.before.below c']
    exact hrel
  have hext : Extends s (World.store { s.bear ⟨.created s.created, args, c, .cls name⟩ with created := s.created + 1 }
    c (.cls name) (.created s.created)) :=
    store_extends ⟨.created s.created, args, c, .cls name⟩ (s.created + 1) hopen
  have hadd : Addition s (World.store { s.bear ⟨.created s.created, args, c, .cls name⟩ with created := s.created + 1 }
      c (.cls name) (.created s.created)) ⟨.created s.created, args, c, .cls name⟩ := by
    refine ⟨(lt_length hopen.container), nofun, nofun, nofun, fun old hold => ?_⟩
    refine ⟨fun heq => hnew ?_, fun hsource => ?_⟩
    · rw [show Instance.created s.created = old.inst from heq.symm]
      exact mem_map_of_mem hold
    have hsource' : old.source = .cls name := hsource
    rw [hsource']
    intro hrel
    rcases h.sites old hold with hbefore | hduring
    · exact (honce c name hsite).1 old hbefore hsource' (hrelated _ hrel)
    · obtain ⟨hsite', hkept⟩ := hduring name hsource'
      have hc := (honce c name hsite).2 _ hsite' (hrelated _ hrel)
      rw [hc] at hkept
      exact hkept.not_open hopen
  refine ⟨⟨h.before, h.inv.keep ⟨.created s.created, args, c, .cls name⟩ hopen hnew hargs (Nat.le_succ _)
    (fun n heq => by cases heq; exact Nat.lt_succ_self _) hadd, h.ext.trans hext, fun birth hbirth => ?_⟩, ?_⟩
  · rcases mem_append.1 hbirth with hold | hnewest
    · refine (h.sites birth hold).imp id fun hsite name hsource => ?_
      exact ⟨(hsite name hsource).1, hext.kept (hsite name hsource).2⟩
    · cases mem_singleton.1 hnewest
      refine .inr fun name' heq => ?_
      cases heq
      exact ⟨hsite, store_kept ⟨.created s.created, args, c, .cls name⟩⟩
  · exact mem_map.2 ⟨_, mem_append_right _ mem_cons_self, rfl⟩

/-- **A resolution keeps the invariant**, and what it returns was seen. -/
theorem resolve (honce : ConstructsOnce p s₀ root) (fuel c : Nat) (token : Token) (s : World) :
    Running p s₀ root s → Reaches p s₀ root (c, token) →
      Outcome (Running p s₀ root) (fun _ => True) (fun inst s' => inst ∈ s'.seen) (resolveIn p fuel c token s) := by
  refine resolveIn_rule (P := fun _ c token s out => Running p s₀ root s → Reaches p s₀ root (c, token) →
      Outcome (Running p s₀ root) (fun _ => True) (fun inst s' => inst ∈ s'.seen) out)
    ?noFuel ?inactive ?held ?delegated ?circular ?factory ?unbound ?constructor fuel c token s
  case noFuel => exact fun _ _ _ h _ => ⟨h, trivial⟩
  case inactive => exact fun _ _ _ _ _ h _ => ⟨h, trivial⟩
  case held => exact fun _ _ _ _ _ _ hk hactive hget h _ => ⟨h, h.inv.ledger.seen_of_held hk hactive hget⟩
  case delegated =>
    intro fuel c token s k b parent hopen hb hdel ih h hreach
    refine ih h (h.reaches_next hreach ?_)
    unfold Next
    rw [successors_delegated hopen hb hdel]
    exact mem_singleton.2 rfl
  case circular => exact fun _ _ _ _ _ _ _ h _ => ⟨h, trivial⟩
  case factory =>
    intro fuel c token s k b hopen hb hdel _ ih h hreach
    refine whileResolving_outcome (K := fun _ inst s' => inst ∈ s'.seen) (resolveIn_grows p fuel c)
      (fun _ _ _ _ hext hseen => hext.seen hseen) (h.resolving c fun ts => ts ++ [token])
      (fun dep hdep s' _ h' => ih dep s' h' (h.reaches_next hreach (next_factory hopen hb hdel hdep)))
      (fun args s' hg h' hargs => ?_) (fun s' h' => h'.resolving c fun ts => ts.filter fun t => t ≠ token)
      (fun _ _ => id)
    obtain ⟨k', hopen', hbindings, hparent⟩ := open_of_grows hopen hg
    have hb' : s'.findBinding c token = some b :=
      (((enter_extends s c token).trans hg.toExtends).findBinding c token).trans hb
    have hdel' : delegate k' token b = none := by
      unfold delegate at *
      rw [hbindings, hparent]
      exact hdel
    exact h'.produce hopen' hb' hdel' (forall_of_forall₂ hargs)
  case unbound => exact fun _ _ _ _ _ _ _ h _ => ⟨h, trivial⟩
  case constructor =>
    intro fuel c name s k hopen hb _ ih h hreach
    refine whileResolving_outcome (E := fun _ => True) (K := fun _ inst s' => inst ∈ s'.seen)
      (resolveParam_grows (resolveIn_grows p fuel c) _) (fun _ _ _ _ hext hseen => hext.seen hseen)
      (h.resolving c fun ts => ts ++ [.cls name]) (fun param hparam s' _ h' => ?_)
      (fun args s' hg h' hargs => ?_) (fun s' h' => h'.resolving c fun ts => ts.filter fun t => t ≠ .cls name)
      (fun _ _ => id)
    · refine resolveParam_outcome (E := fun _ => True) (K := fun _ inst s' => inst ∈ s'.seen) param
        (fun _ => ⟨h', trivial⟩) fun dep hsome => ?_
      subst hsome
      exact ih (.cls dep) s' h' (h.reaches_next hreach (next_constructor hopen hb hparam))
    · obtain ⟨k', hopen', -, -⟩ := open_of_grows hopen hg
      have hsite : Site p s₀ root c name := by
        refine ⟨hreach, (h.ext.findBinding c _).symm.trans hb, fun k₀ hk₀ => ?_⟩
        exact h.ext.unstored hk₀ hopen.container hopen.unstored
      exact h'.construct honce hsite hopen' (forall_of_forall₂ hargs)

end Running

/-! ## The steps -/

variable {p : Program}

theorem resolve (h : Inv s) (honce : ConstructsOnce p s (c, token)) : Inv (s.resolve p c token).2 := by
  have hout := Running.resolve honce (s.enough p c) c token s ⟨h, h, .refl s, fun _ => .inl⟩ .refl
  unfold World.resolve
  cases hr : resolveIn p (s.enough p c) c token s with
  | mk out s' =>
    rw [hr] at hout
    cases out with
    | error e => exact hout.1.inv
    | ok inst => exact hout.1.inv

theorem dispose (h : Inv s) : Inv (s.dispose p c).1 := by
  by_cases hinactive : ∀ k, s.containers[c]? = some k → k.disposed = true
  · rw [dispose_inactive hinactive]
    exact h
  · obtain ⟨k, hk, hd⟩ : ∃ k, s.containers[c]? = some k ∧ ¬ k.disposed = true := by
      simpa only [not_forall, exists_prop] using hinactive
    have hactive : k.disposed = false := Bool.eq_false_iff.2 hd
    have hledger := h.ledger.dispose (p := p) hk hactive
    rw [dispose_active hk hactive] at hledger ⊢
    have hget := getElem?_update (s := s) (c := c) (f := fun k => { k with disposed := true, singletons := [], resolving := [] })
    -- a container as it was, but for what it holds when it is the one disposed of
    have hback : ∀ (c' : Nat) k', (s.update c fun k => { k with disposed := true, singletons := [], resolving := [] }).containers[c']? = some k' →
        ∃ k₀, s.containers[c']? = some k₀ ∧ k'.parent = k₀.parent ∧ k'.bindings = k₀.bindings ∧ (k'.disposed = false → k' = k₀) := by
      intro c' k' hk'
      rw [hget] at hk'
      split at hk'
      · obtain ⟨k₀, hk₀, rfl⟩ := Option.map_eq_some_iff.1 hk'
        exact ⟨k₀, hk₀, rfl, rfl, nofun⟩
      · exact ⟨k', hk', rfl, rfl, fun _ => rfl⟩
    refine ⟨fun c' k' parent hk' hparent => ?_, hledger, ?_⟩
    · obtain ⟨k₀, hk₀, heq, -, -⟩ := hback c' k' hk'
      exact h.below c' k₀ parent hk₀ (heq ▸ hparent)
    refine h.sources.evolve none rfl (append_nil _).symm (le_of_eq length_update.symm) ?_ ?_ ?_ nofun
    · rintro c' token' b ⟨k', hk', hb⟩
      obtain ⟨k₀, hk₀, -, hbindings, -⟩ := hback c' k' hk'
      exact ⟨k₀, hk₀, hbindings ▸ hb⟩
    · intro c' token' _ hkept k' hk' hactive'
      obtain ⟨k₀, hk₀, -, -, hsame⟩ := hback c' k' hk'
      have heq := hsame hactive'
      rw [heq] at hactive' ⊢
      exact hkept k₀ hk₀ hactive'
    · intro c' hlt
      refine ancestorsIn_eq (m := s.containers.length) h.below (fun c'' _ => ?_) hlt
      have hget'' := hget c''
      have heq : (s.update c fun k => { k with disposed := true, singletons := [], resolving := [] }).containers[c'']? = _ := hget''
      rw [heq]
      split
      · cases s.containers[c'']? <;> rfl
      · rfl

theorem createContainer {parent : Option Nat} (h : Inv s) (hparent : ∀ c, parent = some c → c < s.containers.length) :
    Inv { s with containers := s.containers ++ [⟨parent, [], [], [], false⟩] } := by
  refine ⟨fun c k c' hk hc' => ?_, h.ledger.createContainer parent, ?_⟩
  · rcases getElem?_concat_cases hk with hold | ⟨rfl, rfl⟩
    · exact h.below c k c' hold hc'
    · exact hparent c' hc'
  refine h.sources.evolve none rfl (append_nil _).symm ?_ ?_ ?_ ?_ nofun
  · rw [length_append]
    exact Nat.le_add_right _ _
  · rintro c token b ⟨k, hk, hb⟩
    rcases getElem?_concat_cases hk with hold | ⟨-, rfl⟩
    · exact ⟨k, hold, hb⟩
    · cases hb
  · intro c token hlt hkept k hk hactive
    rcases getElem?_concat_cases hk with hold | ⟨rfl, -⟩
    · exact hkept k hold hactive
    · exact absurd hlt (lt_irrefl _)
  · intro c hlt
    refine ancestorsIn_eq (m := s.containers.length) h.below (fun c' hc' => ?_) hlt
    rw [getElem?_append_left hc']

/-! ### Registrations -/

section

variable {c : Nat} {token : Token} {factory : Factory} {scope : BindingScope}

theorem bind_container (c' : Nat) (k' : Container) (hk' : (s.bind c token factory scope).containers[c']? = some k') :
    ∃ k, s.containers[c']? = some k ∧ k'.parent = k.parent ∧ k'.singletons = k.singletons ∧ k'.disposed = k.disposed ∧
        k'.bindings = if c' = c then k.bindings.set token ⟨s.registrations, factory, scope⟩ else k.bindings := by
  have hget := getElem?_update (s := s) (c := c)
    (f := fun k => { k with bindings := k.bindings.set token ⟨s.registrations, factory, scope⟩ }) c'
  have hk'' := hget.symm.trans hk'
  split at hk''
  · next heq =>
    obtain ⟨k, hk, rfl⟩ := Option.map_eq_some_iff.1 hk''
    exact ⟨k, hk, rfl, rfl, rfl, (if_pos heq).symm⟩
  · next hne => exact ⟨k', hk'', rfl, rfl, rfl, (if_neg hne).symm⟩

theorem bound_bind {c' : Nat} {token' : Token} {b : Binding} (h : Bound (s.bind c token factory scope) c' token' b) :
    (c' = c ∧ token' = token ∧ b = ⟨s.registrations, factory, scope⟩) ∨ Bound s c' token' b := by
  obtain ⟨k', hk', hget⟩ := h
  obtain ⟨k, hk, -, -, -, hbindings⟩ := bind_container c' k' hk'
  rw [hbindings] at hget
  split at hget
  · next heq =>
    rw [get_set] at hget
    split at hget
    · next htoken => exact .inl ⟨heq, htoken, (Option.some.inj hget).symm⟩
    · exact .inr ⟨k, hk, hget⟩
  · exact .inr ⟨k, hk, hget⟩

theorem kept_bind {c' : Nat} {token' : Token} (h : Kept s c' token') : Kept (s.bind c token factory scope) c' token' := by
  intro k' hk' hactive
  obtain ⟨k, hk, -, hsingletons, hdisposed, -⟩ := bind_container c' k' hk'
  rw [hsingletons]
  exact h k hk (hdisposed ▸ hactive)

/-- **A registration keeps the invariant** when what its factory returns is kept by nothing else. -/
theorem bind (h : Inv s) (hargument : scope ≠ .transient → ∀ i, factory.returns ≠ .argument i)
    (hvalue : scope ≠ .transient → ∀ n, factory.returns = .value n → scope = .singleton ∧
      (Kept s c token ∨ .value n ∉ s.seen ∧ ∀ b ∈ registered s, b.factory.returns ≠ .value n))
    (hothers : ∀ n, factory.returns = .value n → ∀ c' token' b, Bound s c' token' b → b.scope ≠ .transient →
      b.factory.returns = .value n → Kept s c' token') : Inv (s.bind c token factory scope) := by
  have hlength : (s.bind c token factory scope).containers.length = s.containers.length := length_update
  refine ⟨fun c' k' parent hk' hparent => ?_, ?_, ?_⟩
  · obtain ⟨k, hk, heq, -⟩ := bind_container c' k' hk'
    exact h.below c' k parent hk (heq ▸ hparent)
  · refine h.ledger.of_same rfl rfl rfl rfl hlength fun c' k' hk' => ?_
    obtain ⟨k, hk, -, hsingletons, hdisposed, -⟩ := bind_container c' k' hk'
    exact ⟨k, hk, hsingletons, hdisposed⟩
  refine ⟨?ids, ?unique, ?births, ?sources, ?kept, ?keeps, ?apart⟩
  case ids =>
    intro c' token' b hb
    rcases bound_bind hb with ⟨-, -, rfl⟩ | hold
    · exact Nat.lt_succ_self _
    · exact Nat.lt_succ_of_lt (h.sources.ids _ _ _ hold)
  case unique =>
    intro c₁ token₁ b₁ c₂ token₂ b₂ h₁ h₂ hid
    rcases bound_bind h₁ with ⟨rfl, rfl, rfl⟩ | hold₁
    · rcases bound_bind h₂ with ⟨rfl, rfl, -⟩ | hold₂
      · exact ⟨rfl, rfl⟩
      · exact absurd hid (Nat.ne_of_gt (h.sources.ids _ _ _ hold₂))
    · rcases bound_bind h₂ with ⟨rfl, rfl, rfl⟩ | hold₂
      · exact absurd hid (Nat.ne_of_lt (h.sources.ids _ _ _ hold₁))
      · exact h.sources.unique _ _ _ _ _ _ hold₁ hold₂ hid
  case births =>
    intro birth hbirth
    rw [hlength]
    exact h.sources.births birth hbirth
  case sources => exact fun birth hbirth id scope' hsource => Nat.lt_succ_of_lt (h.sources.sources birth hbirth id scope' hsource)
  case kept =>
    intro birth hbirth id scope' hsource hscope c' token' b hb hid
    rcases bound_bind hb with ⟨-, -, rfl⟩ | hold
    · exact absurd hid (Nat.ne_of_gt (h.sources.sources birth hbirth id scope' hsource))
    · obtain ⟨hsingleton, hkept⟩ := h.sources.kept birth hbirth id scope' hsource hscope _ _ _ hold hid
      exact ⟨hsingleton, kept_bind hkept⟩
  case keeps =>
    intro c' token' b hb hscope
    rcases bound_bind hb with ⟨rfl, rfl, rfl⟩ | hold
    · refine ⟨hargument hscope, fun n hn => ⟨(hvalue hscope n hn).1, ?_⟩⟩
      rcases (hvalue hscope n hn).2 with hkept | ⟨hunseen, hnone⟩
      · exact .inl (kept_bind hkept)
      · refine .inr ⟨hunseen, fun c₁ token₁ b₁ h₁ hn₁ => ?_⟩
        rcases bound_bind h₁ with ⟨rfl, rfl, -⟩ | hold₁
        · exact ⟨rfl, rfl⟩
        · exact absurd hn₁ (hnone b₁ hold₁.mem_registered)
    · refine ⟨(h.sources.keeps _ _ _ hold hscope).1, fun n hn => ?_⟩
      obtain ⟨hsingleton, hor⟩ := (h.sources.keeps _ _ _ hold hscope).2 n hn
      refine ⟨hsingleton, ?_⟩
      by_cases hsame : factory.returns = .value n
      · exact .inl (kept_bind (hothers n hsame _ _ _ hold hscope hn))
      rcases hor with hkept | ⟨hunseen, honly⟩
      · exact .inl (kept_bind hkept)
      · refine .inr ⟨hunseen, fun c₁ token₁ b₁ h₁ hn₁ => ?_⟩
        rcases bound_bind h₁ with ⟨-, -, rfl⟩ | hold₁
        · exact absurd hn₁ hsame
        · exact honly _ _ _ hold₁ hn₁
  case apart =>
    refine h.sources.apart.imp fun hapart => hapart.of_ancestors ?_ ?_ <;>
    · refine ancestorsIn_eq (m := _ + 1) h.below (fun c' _ => ?_) (Nat.lt_succ_self _)
      have hget := getElem?_update (s := s) (c := c)
        (f := fun k => { k with bindings := k.bindings.set token ⟨s.registrations, factory, scope⟩ }) c'
      unfold World.bind
      rw [hget]
      split
      · cases s.containers[c']? <;> rfl
      · rfl

theorem unstore_bind (hvacant : Vacant s c token) {k : Container} (hk : s.containers[c]? = some k) (hactive : k.disposed = false) :
    (s.bind c token factory scope).unstore c token = s.bind c token factory scope := by
  have hsame : (s.bind c token factory scope).containers.modify c
      (fun k => { k with singletons := k.singletons.delete token }) = (s.bind c token factory scope).containers := by
    refine ext_getElem? fun c' => ?_
    have hget := getElem?_update (s := s.bind c token factory scope) (c := c)
      (f := fun k => { k with singletons := k.singletons.delete token }) c'
    refine Eq.trans hget ?_
    split
    · next heq =>
      subst heq
      cases hk' : (s.bind c' token factory scope).containers[c']? with
      | none => rfl
      | some k' =>
        obtain ⟨k₀, hk₀, -, hsingletons, -, -⟩ := bind_container c' k' hk'
        rw [hk] at hk₀
        cases hk₀
        have hkeys : token ∉ k'.singletons.map Prod.fst := by
          rw [← has_iff_mem_keys, hsingletons]
          unfold OrderedMap.has
          rw [hvacant k hk hactive]
          nofun
        rw [Option.map_some, delete_of_not_has hkeys]
    · rfl
  unfold World.unstore World.update
  rw [hsame]

theorem registerFactory (h : Inv s) (hvacant : Vacant s c token) (hown : OwnInstance s factory scope) :
    Inv (s.registerFactory c token factory scope) := by
  unfold World.registerFactory
  cases hk : s.containers[c]? with
  | none => exact h
  | some k =>
    dsimp only
    by_cases hd : k.disposed = true
    · rw [if_pos hd]
      exact h
    rw [if_neg hd, unstore_bind hvacant hk (Bool.eq_false_iff.2 hd)]
    unfold OwnInstance at hown
    refine h.bind (fun hscope i hi => ?_) (fun hscope n hn => ?_) fun n hn c' token' b hb hscope' hn' => ?_
    · rw [hi] at hown
      exact hscope hown
    · rw [hn] at hown
      match scope, hown with
      | .transient, _ => exact absurd rfl hscope
      | .singleton, hown => exact ⟨rfl, .inr hown⟩
    · rw [hn] at hown
      match scope, hown with
      | .transient, hown =>
        have hseen := hown b hb.mem_registered hscope' hn'
        exact ((h.sources.keeps _ _ _ hb hscope').2 n hn').2.resolve_right fun hreserved => hreserved.1 hseen
      | .singleton, hown => exact absurd hn' (hown.2 b hb.mem_registered)

theorem registerValue {n : Nat} (h : Inv s) (hvacant : Vacant s c token) (hnew : .value n ∉ s.seen)
    (hfree : ∀ b ∈ registered s, b.scope ≠ .transient → b.factory.returns ≠ .value n) :
    Inv (s.registerValue c token n) := by
  unfold World.registerValue
  cases hk : s.containers[c]? with
  | none => exact h
  | some k =>
    dsimp only
    by_cases hd : k.disposed = true
    · rw [if_pos hd]
      exact h
    rw [if_neg hd, if_neg hnew]
    have hactive : k.disposed = false := Bool.eq_false_iff.2 hd
    have hopen : Open s c token k := ⟨hk, hactive, hvacant k hk hactive⟩
    set birth : Birth := ⟨.value n, [], c, .registered⟩ with hbirth
    have hext : Extends s ((s.bear birth).store c token (.value n)) :=
      store_extends birth s.created hopen
    have hadd : Addition s ((s.bear birth).store c token (.value n)) birth := by
      refine ⟨(lt_length hk), nofun, nofun, fun m hm c' token' b hb hscope hreturns => ?_,
        fun old hold => ⟨fun heq => hnew ?_, fun hsource => ?_⟩⟩
      · cases hm
        exact absurd hreturns (hfree b hb.mem_registered hscope)
      · rw [show Instance.value n = old.inst from heq.symm]
        exact mem_map_of_mem hold
      · rw [hsource]
        trivial
    have hkeep : Inv ((s.bear birth).store c token (.value n)) :=
      h.keep birth hopen hnew nofun le_rfl nofun hadd
    refine hkeep.bind (fun _ => nofun) (fun _ m _ => ⟨rfl, .inl ?_⟩) fun m hm c' token' b hb hscope hreturns => ?_
    · exact store_kept birth
    · cases hm
      exact absurd hreturns (hfree b (hext.bound hb).mem_registered hscope)

end

/-- **One step** keeps the invariant when it meets the condition. -/
theorem step (e : Event) (h : Inv s) (ho : Orderly p s e) : Inv (Container.step p s e) := by
  cases e with
  | createContainer => exact h.createContainer nofun
  | createScope c =>
    unfold Container.step World.createScope
    dsimp only
    cases hk : s.containers[c]? with
    | none => exact h
    | some k =>
      dsimp only
      split
      · exact h
      · refine h.createContainer fun c' heq => ?_
        cases heq
        exact (lt_length hk)
  | registerValue c token n => exact h.registerValue ho.1 ho.2.1 ho.2.2
  | registerFactory c token factory scope => exact h.registerFactory ho.1 ho.2
  | resolve c token => exact h.resolve ho
  | dispose c => exact h.dispose

theorem lifetimes (h : Inv s) : Lifetimes p s where
  apart := h.sources.apart
  ends c token e he := resolveIn_ends p h.below (Nat.lt_succ_self _) he
  cyclic c token hcyclic := resolve_cyclic h.below hcyclic
  disposed := by
    intro c k hk
    rw [h.ledger.disposed c k hk]
    split
    · exact reverse_perm _
    · exact .refl _
  once := h.ledger.disposals_nodup
  dependentsFirst := h.ledger.dependents_first

end Inv

/-! ## Runs -/

/-- **Along every run whose steps meet the condition**, the containers keep their lifetimes. -/
theorem lifetimes_of_orderly (p : Program) (es : List Event) (h : Guarded (step p) (Orderly p) start es) (n : Nat) :
    Lifetimes p (run (step p) start (es.take n)) := by
  have htake : Guarded (step p) (Orderly p) start (es.take n) := by
    have happend := h
    rw [← take_append_drop n es, guarded_append] at happend
    exact happend.1
  exact (run_invariant_of_guarded (P := Inv) (step p) (fun s e hs he => hs.step e he) _ htake start_inv).lifetimes

theorem reaches_mem {p : Program} {s : World} {ns : List Node} (hclosed : ∀ n ∈ ns, ∀ m ∈ successors p s n, m ∈ ns)
    {n m : Node} (hn : n ∈ ns) (hreach : Reaches p s n m) : m ∈ ns := by
  induction hreach with
  | refl => exact hn
  | tail _ hnext ih => exact hclosed _ ih _ hnext

instance (s : World) (c c' : Nat) : Decidable (Related s c c') :=
  inferInstanceAs (Decidable (c ∈ ancestors s c' ∨ c' ∈ ancestors s c))

instance (s : World) (c : Nat) (token : Token) : Decidable (Vacant s c token) :=
  inferInstanceAs (Decidable (∀ k ∈ s.containers[c]?, k.disposed = false → k.singletons.get token = none))

/-- An application with a database, a repository for each request and a class without a binding. -/
def sampleProgram : Program where
  paramTypes := [("App", [some "Config"]), ("Config", [])]
  has inst method := inst ≠ .value 7 ∧ method = .close
  fails inst := inst = .created 0

def sampleRun : List Event :=
  [.createContainer, .registerFactory 0 (.key "db") ⟨[], .fresh⟩ .singleton,
    .registerFactory 0 (.key "repo") ⟨[.key "db"], .fresh⟩ .scoped, .registerValue 0 (.key "port") 7, .createScope 0,
    .resolve 1 (.key "repo"), .resolve 0 (.cls "App"), .dispose 1, .dispose 0]

theorem constructsOnce_app : ConstructsOnce sampleProgram (run (step sampleProgram) start (sampleRun.take 6)) (0, .cls "App") := by
  set s := run (step sampleProgram) start (sampleRun.take 6) with hs
  have hclosed : ∀ n ∈ [((0 : Nat), Token.cls "App"), (0, .cls "Config")], ∀ m ∈ successors sampleProgram s n,
      m ∈ [((0 : Nat), Token.cls "App"), (0, .cls "Config")] := by
    decide +kernel
  have hzero : ∀ c name, Site sampleProgram s (0, .cls "App") c name → c = 0 := by
    intro c name hsite
    have hmem := reaches_mem hclosed mem_cons_self hsite.reached
    simp only [mem_cons, Prod.mk.injEq, not_mem_nil, or_false] at hmem
    rcases hmem with ⟨rfl, -⟩ | ⟨rfl, -⟩ <;> rfl
  refine fun c name hsite => ⟨fun birth hbirth hsource => ?_, fun c' hsite' _ => ?_⟩
  · have hnone : ∀ birth ∈ s.births, birth.source = .binding 0 .singleton ∨ birth.source = .binding 1 .scoped ∨
        birth.source = .registered := by
      decide +kernel
    rcases hnone birth hbirth with h | h | h <;> rw [h] at hsource <;> cases hsource
  · rw [hzero c name hsite, hzero c' name hsite']

theorem constructsOnce_repo : ConstructsOnce sampleProgram (run (step sampleProgram) start (sampleRun.take 5)) (1, .key "repo") := by
  set s := run (step sampleProgram) start (sampleRun.take 5) with hs
  have hclosed : ∀ n ∈ [((1 : Nat), Token.key "repo"), (1, .key "db"), (0, .key "db")],
      ∀ m ∈ successors sampleProgram s n, m ∈ [((1 : Nat), Token.key "repo"), (1, .key "db"), (0, .key "db")] := by
    decide +kernel
  intro c name hsite
  have hmem := reaches_mem hclosed mem_cons_self hsite.reached
  simp only [mem_cons, Prod.mk.injEq, reduceCtorEq, and_false, or_self, not_mem_nil] at hmem

theorem lifetimes_of_orderly_sample : Lifetimes sampleProgram (run (step sampleProgram) start (sampleRun.take 9)) := by
  refine lifetimes_of_orderly sampleProgram sampleRun ⟨trivial, ⟨?_, trivial⟩, ⟨?_, trivial⟩, ⟨?_, ?_, ?_⟩, trivial, ?_, ?_,
    trivial, trivial, trivial⟩ 9
  · decide +kernel
  · decide +kernel
  · decide +kernel
  · decide +kernel
  · decide +kernel
  · exact constructsOnce_repo
  · exact constructsOnce_app

example : (run (step sampleProgram) start sampleRun).disposals =
    [⟨1, .created 1, some .close⟩, ⟨0, .created 3, some .close⟩, ⟨0, .created 2, some .close⟩,
      ⟨0, .created 0, some .close⟩, ⟨0, .value 7, none⟩] := by decide +kernel

/-! ## Where the lifetimes end -/

/-- One instance under two tokens. -/
def aliasRun : List Event :=
  [.createContainer, .registerValue 0 (.key "db") 1, .registerValue 0 (.key "pool") 1, .dispose 0]

/-- A class without a binding, resolved in a scope and in its parent. -/
def levelsRun : List Event := [.createContainer, .createScope 0, .resolve 1 (.cls "Config"), .resolve 0 (.cls "Config")]

/-- A token that is registered again while it holds an instance. -/
def replacedRun : List Event :=
  [.createContainer, .registerValue 0 (.key "db") 1, .registerFactory 0 (.key "db") ⟨[], .fresh⟩ .singleton, .dispose 0]

/-- An instance with two tokens is disposed of twice, a class without a binding has an instance on each level, and
an instance that is replaced is never disposed of. -/
theorem lifetimes_counterexample : ¬ Lifetimes sampleProgram (run (step sampleProgram) start aliasRun) ∧
      ¬ Lifetimes sampleProgram (run (step sampleProgram) start levelsRun) ∧
        ¬ Lifetimes sampleProgram (run (step sampleProgram) start replacedRun) := by
  refine ⟨fun h => ?_, fun h => ?_, fun h => ?_⟩
  · have hnot : ¬ ((run (step sampleProgram) start aliasRun).disposals.map Disposal.inst).Nodup := by decide +kernel
    exact hnot h.once
  · have hrelated : Related (run (step sampleProgram) start levelsRun) 1 0 := by decide +kernel
    have hapart := h.apart
    exact (rel_of_pairwise_cons hapart mem_cons_self).2 rfl hrelated
  · obtain ⟨k, hk, hd⟩ : ∃ k, (run (step sampleProgram) start replacedRun).containers[0]? = some k ∧ k.disposed = true :=
      ⟨_, rfl, rfl⟩
    have hperm := h.disposed 0 k hk
    rw [hd] at hperm
    have hlength := hperm.length_eq
    cases hlength

end StreetJS.Container
