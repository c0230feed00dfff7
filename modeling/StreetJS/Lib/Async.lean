/-
Sequential asynchronous computations over a state: one returns, throws, or waits for ever on a
promise that is never settled. Postconditions speak about all three endings; `Triple.bind` and
`Triple.tryCatch` compose them along `await`s and `try`/`catch`.
-/

namespace StreetJS.Lib

/-- How a computation ends, or a promise settles. -/
inductive Outcome (ε α : Type) where
  | returned (value : α)
  | thrown (error : ε)
  | pending
deriving DecidableEq

def Async (σ ε α : Type) : Type := σ → Outcome ε α × σ

namespace Async

variable {σ ε α β : Type}

def pure (value : α) : Async σ ε α := fun s => (.returned value, s)

def bind (x : Async σ ε α) (f : α → Async σ ε β) : Async σ ε β := fun s =>
  match x s with
  | (.returned value, s') => f value s'
  | (.thrown error, s') => (.thrown error, s')
  | (.pending, s') => (.pending, s')

instance : Monad (Async σ ε) where
  pure := pure
  bind := bind

/-- `throw`. -/
def throw (error : ε) : Async σ ε α := fun s => (.thrown error, s)

/-- `try { x } catch (error) { handler(error) }`. -/
def tryCatch (x : Async σ ε α) (handler : ε → Async σ ε α) : Async σ ε α := fun s =>
  match x s with
  | (.thrown error, s') => handler error s'
  | r => r

/-- `await` of a promise that settles so. -/
def await (outcome : Outcome ε α) : Async σ ε α := fun s => (outcome, s)

def get : Async σ ε σ := fun s => (.returned s, s)

def modify (f : σ → σ) : Async σ ε Unit := fun s => (.returned (), f s)

/-- Started where `P` holds, the computation ends so that `Q` holds of its ending and its state. -/
def Triple (P : σ → Prop) (x : Async σ ε α) (Q : Outcome ε α → σ → Prop) : Prop :=
  ∀ s, P s → Q (x s).1 (x s).2

section Rules

variable {P : σ → Prop} {x : Async σ ε α} {f : α → Async σ ε β} {R : Outcome ε α → σ → Prop} {Q : Outcome ε β → σ → Prop}

theorem Triple.mono {P' : σ → Prop} {R' : Outcome ε α → σ → Prop} (h : Triple P x R) (hp : ∀ s, P' s → P s)
    (hr : ∀ o s, R o s → R' o s) : Triple P' x R' := fun s hs => hr _ _ (h s (hp s hs))

theorem Triple.bind (hx : Triple P x R) (hf : ∀ value, Triple (R (.returned value)) (f value) Q)
    (hthrown : ∀ error s, R (.thrown error) s → Q (.thrown error) s)
    (hpending : ∀ s, R .pending s → Q .pending s) : Triple P (x >>= f) Q := fun s hs => by
  have hr := hx s hs
  show Q (Async.bind x f s).1 (Async.bind x f s).2
  unfold Async.bind
  rcases hxs : x s with ⟨o, s'⟩
  rw [hxs] at hr
  cases o with
  | returned value => exact hf value s' hr
  | thrown error => exact hthrown error s' hr
  | pending => exact hpending s' hr

theorem Triple.tryCatch {handler : ε → Async σ ε α} {Q : Outcome ε α → σ → Prop} (hx : Triple P x R)
    (hh : ∀ error, Triple (R (.thrown error)) (handler error) Q)
    (hreturned : ∀ value s, R (.returned value) s → Q (.returned value) s)
    (hpending : ∀ s, R .pending s → Q .pending s) : Triple P (Async.tryCatch x handler) Q := fun s hs => by
  have hr := hx s hs
  unfold Async.tryCatch
  rcases hxs : x s with ⟨o, s'⟩
  rw [hxs] at hr
  cases o with
  | returned value => exact hreturned value s' hr
  | thrown error => exact hh error s' hr
  | pending => exact hpending s' hr

end Rules

end Async

end StreetJS.Lib
