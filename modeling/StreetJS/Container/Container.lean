/-
`Container`: dependency injection with singleton, scoped and transient bindings, unregistered classes and
child scopes. Containers are numbered in the order they were made, so a scope comes after its parent.
A factory resolves its dependencies through the container it is given and then returns something.
-/
import StreetJS.Lib.OrderedMap
import StreetJS.Lib.Runs

namespace StreetJS.Container

open StreetJS.Lib

/-- A class, or a symbol or string. -/
inductive Token
  | cls (name : String)
  | key (name : String)
  deriving DecidableEq

/-- An instance made by a factory or a constructor, or a value from outside. -/
inductive Instance
  | created (n : Nat)
  | value (n : Nat)
  deriving DecidableEq

inductive BindingScope
  | singleton
  | transient
  | scoped
  deriving DecidableEq

/-- What a factory does with its dependencies: it makes a new instance, returns a value from outside or one of
the dependencies, or throws. -/
inductive Returned
  | fresh
  | value (n : Nat)
  | argument (i : Nat)
  | throws
  deriving DecidableEq

structure Factory where
  deps : List Token
  returns : Returned
  deriving DecidableEq

/-- A binding, numbered by its registration. -/
structure Binding where
  id : Nat
  factory : Factory
  scope : BindingScope
  deriving DecidableEq

structure Container where
  parent : Option Nat
  singletons : OrderedMap Token Instance
  bindings : OrderedMap Token Binding
  resolving : List Token
  disposed : Bool
  deriving DecidableEq

inductive Source
  | binding (id : Nat) (scope : BindingScope)
  | cls (name : String)
  | registered
  deriving DecidableEq

/-- An instance seen for the first time: what it was made from, where, and by what. -/
structure Birth where
  inst : Instance
  deps : List Instance
  container : Nat
  source : Source
  deriving DecidableEq

/-- An instance a container came to own. -/
structure Store where
  container : Nat
  token : Token
  inst : Instance
  deriving DecidableEq

inductive Method
  | dispose
  | close
  | destroy
  deriving DecidableEq

/-- An instance visited by `dispose()`, with the method called on it, if it has one. -/
structure Disposal where
  container : Nat
  inst : Instance
  method : Option Method
  deriving DecidableEq

/-- All containers. `births`, `stores` and `disposals` record what happened; no operation reads them to decide
anything. -/
structure World where
  containers : List Container
  created : Nat
  registrations : Nat
  births : List Birth
  stores : List Store
  disposals : List Disposal
  deriving DecidableEq

/-- What the containers do not decide: the constructor parameters of each class (`design:paramtypes`; a
primitive or undefined type is `none`), the methods of instances, and whether disposing of one throws. -/
structure Program where
  paramTypes : OrderedMap String (List (Option String))
  has : Instance → Method → Bool
  fails : Instance → Bool

inductive Cause
  | disposed
  | circular (token : Token) (chain : List Token)
  | noBinding (token : Token)
  | primitive
  | thrown
  | outOfFuel
  deriving DecidableEq

/-- An error, with the chain of a `Cannot resolve …` text once it has one. -/
structure ResolveError where
  cause : Cause
  chain : Option (List Token)
  deriving DecidableEq

/-- An error caught by a class that was resolving a dependency is wrapped, unless it is wrapped already. -/
def ResolveError.annotate (e : ResolveError) (chain : List Token) : ResolveError :=
  match e.chain with
  | some _ => e
  | none => { e with chain := some chain }

abbrev Resolved := Except ResolveError Instance × World

namespace World

variable (s : World)

variable (c : Nat)

def update (f : Container → Container) : World :=
  { s with containers := s.containers.modify c f }

/-- `findBinding`, through at most `n` containers. -/
def findBindingIn (s : World) : Nat → Nat → Token → Option Binding
  | 0, _, _ => none
  | n + 1, c, token =>
    match s.containers[c]? with
    | none => none
    | some k =>
      match k.bindings.get token with
      | some b => some b
      | none => k.parent.bind fun parent => s.findBindingIn n parent token

variable (token : Token)

def findBinding : Option Binding := s.findBindingIn (c + 1) c token

/-- The instances seen so far. -/
def seen : List Instance := s.births.map Birth.inst

/-- `this.singletons.set(token, instance)`. -/
def store (inst : Instance) : World :=
  let s' := s.update c fun k => { k with singletons := k.singletons.set token inst }
  { s' with stores := s.stores ++ [⟨c, token, inst⟩] }

/-- `this.resolving.add(token)`, of a token that is not in the set. -/
def enter : World :=
  s.update c fun k => { k with resolving := k.resolving ++ [token] }

/-- `this.resolving.delete(token)`. -/
def leave : World :=
  s.update c fun k => { k with resolving := k.resolving.filter fun t => t ≠ token }

/-- An instance seen for the first time. -/
def bear (birth : Birth) : World := { s with births := s.births ++ [birth] }

/-! ## Registration -/

/-- `this.bindings.set(token, binding)`. -/
def bind (factory : Factory) (scope : BindingScope) : World :=
  let s' := s.update c fun k => { k with bindings := k.bindings.set token ⟨s.registrations, factory, scope⟩ }
  { s' with registrations := s.registrations + 1 }

/-- `this.singletons.delete(token)`. -/
def unstore : World :=
  s.update c fun k => { k with singletons := k.singletons.delete token }

/-- `register` and `registerValue`. -/
def registerValue (n : Nat) : World :=
  match s.containers[c]? with
  | none => s
  | some k =>
    if k.disposed then s
    else
      let s' := if .value n ∈ s.seen then s else s.bear ⟨.value n, [], c, .registered⟩
      (s'.store c token (.value n)).bind c token ⟨[], .value n⟩ .singleton

def registerFactory (factory : Factory) (scope : BindingScope) : World :=
  match s.containers[c]? with
  | none => s
  | some k => if k.disposed then s else (s.bind c token factory scope).unstore c token

def createScope : World :=
  match s.containers[c]? with
  | none => s
  | some k => if k.disposed then s else { s with containers := s.containers ++ [⟨some c, [], [], [], false⟩] }

/-- `createContainer()`. -/
def createContainer : World := { s with containers := s.containers ++ [⟨none, [], [], [], false⟩] }

/-! ## Resolution -/

/-- A binding's factory returns: what it returns is kept unless the binding is transient. -/
def produce (b : Binding) (args : List Instance) : Resolved :=
  let keep := fun (s : World) (inst : Instance) => if b.scope = .transient then s else s.store c token inst
  match b.factory.returns with
  | .fresh =>
    let inst := Instance.created s.created
    (.ok inst, keep { s.bear ⟨inst, args, c, .binding b.id b.scope⟩ with created := s.created + 1 } inst)
  | .value n =>
    let s' := if .value n ∈ s.seen then s else s.bear ⟨.value n, [], c, .binding b.id b.scope⟩
    (.ok (.value n), keep s' (.value n))
  | .argument i =>
    match args[i]? with
    | some inst => (.ok inst, keep s inst)
    | none => (.error ⟨.thrown, none⟩, s)
  | .throws => (.error ⟨.thrown, none⟩, s)

/-- `new token(...deps)`, kept as a singleton. -/
def construct (name : String) (args : List Instance) : Resolved :=
  let inst := Instance.created s.created
  (.ok inst, World.store { s.bear ⟨inst, args, c, .cls name⟩ with created := s.created + 1 } c (.cls name) inst)

end World

/-- Dependencies resolved one after the other, up to the first error. -/
def resolveAll {α : Type} (r : α → World → Resolved) : List α → World → Except ResolveError (List Instance) × World
  | [], s => (.ok [], s)
  | x :: xs, s =>
    match r x s with
    | (.error e, s') => (.error e, s')
    | (.ok inst, s') =>
      match resolveAll r xs s' with
      | (.error e, s'') => (.error e, s'')
      | (.ok insts, s'') => (.ok (inst :: insts), s'')

/-- A constructor parameter of the class that is last in the chain. A primitive or undefined one names that class
a second time in its text. -/
def resolveParam (r : Token → World → Resolved) (chain : List Token) : Option String → World → Resolved
  | none, s => (.error ⟨.primitive, some (chain ++ chain.getLast?.toList)⟩, s)
  | some dep, s =>
    match r (.cls dep) s with
    | (.ok inst, s') => (.ok inst, s')
    | (.error e, s') => (.error (e.annotate (chain ++ [.cls dep])), s')

/-- A factory or constructor run on its resolved dependencies. -/
def finishWith (finish : List Instance → World → Resolved) : Except ResolveError (List Instance) × World → Resolved
  | (.error e, s) => (.error e, s)
  | (.ok args, s) => finish args s

/-- The `try`/`finally` around a factory or constructor: the token is in the container's `resolving` set
meanwhile. -/
def whileResolving {α : Type} (c : Nat) (token : Token) (r : α → World → Resolved) (deps : List α)
    (finish : List Instance → World → Resolved) (s : World) : Resolved :=
  let resolved := finishWith finish (resolveAll r deps (s.enter c token))
  (resolved.1, resolved.2.leave c token)

/-- `resolve`, with at most `fuel` calls inside each other. -/
def resolveIn (p : Program) : Nat → Nat → Token → World → Resolved
  | 0, _, _, s => (.error ⟨.outOfFuel, none⟩, s)
  | fuel + 1, c, token, s =>
    match s.containers[c]? with
    | none => (.error ⟨.disposed, none⟩, s)
    | some k =>
      if k.disposed then (.error ⟨.disposed, none⟩, s)
      else
        match k.singletons.get token with
        | some inst => (.ok inst, s)
        | none =>
          match s.findBinding c token with
          | some b =>
            match if k.bindings.has token ∨ b.scope ≠ .singleton then none else k.parent with
            | some parent => resolveIn p fuel parent token s
            | none =>
              if token ∈ k.resolving then (.error ⟨.circular token k.resolving, none⟩, s)
              else
                whileResolving c token (resolveIn p fuel c) b.factory.deps (fun args s' => s'.produce c token b args) s
          | none =>
            match token with
            | .key _ => (.error ⟨.noBinding token, none⟩, s)
            | .cls name =>
              if token ∈ k.resolving then (.error ⟨.circular token k.resolving, none⟩, s)
              else
                whileResolving c token (resolveParam (resolveIn p fuel c) (k.resolving ++ [token]))
                  ((p.paramTypes.get name).getD []) (fun args s' => s'.construct c name args) s

namespace World

variable (p : Program)

/-- The tokens whose resolution may resolve others: the bound ones and the classes. -/
def tokens (s : World) : List Token :=
  (s.containers.flatMap fun k => k.bindings.map Prod.fst) ++ p.paramTypes.map fun e => .cls e.1

/-- The tokens and containers that are not being resolved. -/
def free (s : World) : Nat :=
  ((List.range s.containers.length).flatMap fun c => (s.tokens p).filter fun token =>
    token ∉ ((s.containers[c]?).map Container.resolving).getD []).length

/-- Enough calls inside each other for any resolution from a container. -/
def enough (s : World) (c : Nat) : Nat := s.free p * (s.containers.length + 1) + c + 1

/-- `resolve`. -/
def resolve (s : World) (c : Nat) (token : Token) : Resolved := resolveIn p (s.enough p c) c token s

/-! ## Disposal -/

/-- The method called on an instance. -/
def methodOf (inst : Instance) : Option Method :=
  if p.has inst .dispose then some .dispose
  else if p.has inst .close then some .close
  else if p.has inst .destroy then some .destroy
  else none

/-- The loop of `dispose`: an error does not stop it, and the first one is kept. -/
def disposeAll (p : Program) (c : Nat) : List Instance → Option Instance → List Disposal × Option Instance
  | [], firstError => ([], firstError)
  | inst :: insts, firstError =>
    let method := methodOf p inst
    let failed := if method ≠ none ∧ p.fails inst then some inst else none
    let rest := disposeAll p c insts (firstError <|> failed)
    (⟨c, inst, method⟩ :: rest.1, rest.2)

/-- `dispose`, with the instance whose error it throws at the end, if there is one. -/
def dispose (s : World) (c : Nat) : World × Option Instance :=
  match s.containers[c]? with
  | none => (s, none)
  | some k =>
    if k.disposed then (s, none)
    else
      let (disposals, firstError) := disposeAll p c (k.singletons.map Prod.snd).reverse none
      let s' := s.update c fun k => { k with disposed := true, singletons := [], resolving := [] }
      ({ s' with disposals := s.disposals ++ disposals }, firstError)

end World

/-! ## Runs -/

inductive Event
  | createContainer
  | createScope (c : Nat)
  | registerValue (c : Nat) (token : Token) (n : Nat)
  | registerFactory (c : Nat) (token : Token) (factory : Factory) (scope : BindingScope)
  | resolve (c : Nat) (token : Token)
  | dispose (c : Nat)
  deriving DecidableEq

def step (p : Program) (s : World) : Event → World
  | .createContainer => s.createContainer
  | .createScope c => s.createScope c
  | .registerValue c token n => s.registerValue c token n
  | .registerFactory c token factory scope => s.registerFactory c token factory scope
  | .resolve c token => (s.resolve p c token).2
  | .dispose c => (s.dispose p c).1

def start : World := ⟨[], 0, 0, [], [], []⟩

end StreetJS.Container
