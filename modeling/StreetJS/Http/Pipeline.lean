/-
The middleware pipelines of a request (`runPipeline` of `core/src/http/server.ts` and of
`router/src/router.ts`): the application's middlewares and its router, and in the router the pipeline of the
matched route. A middleware calls its `next` at any time, and as often as it likes.
-/
import StreetJS.Queue.Middleware

namespace StreetJS.Http

open StreetJS.Lib List

/-! ## The pipelines -/

inductive Stage where
  | global (k : Nat)
  | router
  | rateLimit
  | middleware (k : Nat)
  | validation
  | handler

/-- The route a request matches. -/
structure MatchedRoute where
  rateLimited : Bool := false
  middlewares : Nat := 0
  validates : Bool := false

/-- The pipeline that `dispatch` builds. -/
def MatchedRoute.pipeline (route : MatchedRoute) : List Stage :=
  (if route.rateLimited then [.rateLimit] else []) ++ (List.range route.middlewares).map .middleware ++
    (if route.validates then [.validation] else []) ++ [.handler]

/-- An application and the route that its router matches for the request. -/
structure Pipelines where
  globalMiddlewares : Nat := 0
  route : Option MatchedRoute := none

inductive Level where
  | app
  | route
deriving DecidableEq

def Pipelines.pipeline (p : Pipelines) : Level → List Stage
  | .app => (List.range p.globalMiddlewares).map .global ++ [.router]
  | .route => p.route.elim [] MatchedRoute.pipeline

/-! ## Runs -/

/-- An invocation: the pipeline and the index in it. -/
abbrev Frame := Level × Nat

/-- The invocations in order, and those that have called their `next`. -/
structure PipelineRun where
  frames : List Frame := []
  called : List Nat := []

/-- `runPipeline`: nothing behind the end; the router goes on with the pipeline of the route. -/
def Pipelines.runPipeline (p : Pipelines) (frames : List Frame) (level : Level) (index : Nat) : List Frame :=
  match (p.pipeline level)[index]? with
  | none => frames
  | some .router => if (p.pipeline .route).isEmpty then frames ++ [(level, index)] else frames ++ [(level, index), (.route, 0)]
  | some _ => frames ++ [(level, index)]

def Pipelines.start (p : Pipelines) : PipelineRun := { frames := p.runPipeline [] .app 0 }

/-- The `f`-th invocation calls its `next`. -/
def Pipelines.next (p : Pipelines) (s : PipelineRun) (f : Nat) : PipelineRun :=
  match s.frames[f]? with
  | some (level, index) => { frames := p.runPipeline s.frames level (index + 1), called := s.called ++ [f] }
  | none => s

/-- The stages in the order of registration. -/
def Pipelines.order (p : Pipelines) : List Frame :=
  (List.range (p.pipeline .app).length).map (fun k => (.app, k)) ++ (List.range (p.pipeline .route).length).map fun k => (.route, k)

/-- Every middleware and the handler are invoked at most once, in the order of registration. -/
def InvokedOnce (p : Pipelines) (s : PipelineRun) : Prop := s.frames <+: p.order

/-- An invocation that has a stage behind it calls `next` for the first time. -/
def FirstNext (p : Pipelines) (s : PipelineRun) (f : Nat) : Prop :=
  ∀ level index, s.frames[f]? = some (level, index) → index + 1 < (p.pipeline level).length → f ∉ s.called

/-! ## The order -/

section

variable (p : Pipelines)

theorem order_nodup : p.order.Nodup := by
  unfold Pipelines.order
  rw [nodup_append]
  refine ⟨?_, ?_, ?_⟩
  · exact nodup_range.map fun a b h => by simpa using h
  · exact nodup_range.map fun a b h => by simpa using h
  · rintro a ha b hb rfl
    obtain ⟨k, -, rfl⟩ := mem_map.1 ha
    obtain ⟨l, -, hl⟩ := mem_map.1 hb
    cases hl

theorem order_length : p.order.length = (p.pipeline .app).length + (p.pipeline .route).length := by
  simp [Pipelines.order]

theorem order_app {k : Nat} (h : k < (p.pipeline .app).length) : p.order[k]? = some (.app, k) := by
  unfold Pipelines.order
  rw [getElem?_append_left (by simpa using h)]
  simp [h]

theorem order_route {k : Nat} (h : k < (p.pipeline .route).length) : p.order[(p.pipeline .app).length + k]? = some (.route, k) := by
  unfold Pipelines.order
  simp [h]

/-- The place of a frame in the order. -/
def Pipelines.place (p : Pipelines) : Frame → Nat
  | (.app, k) => k
  | (.route, k) => (p.pipeline .app).length + k

theorem order_place {f : Nat} {frame : Frame} (h : p.order[f]? = some frame) : f = p.place frame ∧ frame.2 < (p.pipeline frame.1).length := by
  have hlt : f < p.order.length := (List.getElem?_eq_some_iff.1 h).1
  rw [order_length] at hlt
  rcases Nat.lt_or_ge f (p.pipeline .app).length with happ | happ
  · rw [order_app p happ] at h
    cases h
    exact ⟨rfl, happ⟩
  · obtain ⟨k, rfl⟩ := Nat.exists_eq_add_of_le happ
    rw [order_route p (by omega)] at h
    cases h
    exact ⟨rfl, by simp only; omega⟩

theorem place_order {level : Level} {index : Nat} (h : index < (p.pipeline level).length) :
    p.order[p.place (level, index)]? = some (level, index) := by
  cases level with
  | app => exact order_app p h
  | route => exact order_route p h

theorem app_length : (p.pipeline .app).length = p.globalMiddlewares + 1 := by
  simp [Pipelines.pipeline]

theorem app_stage {k : Nat} (h : k < p.globalMiddlewares) : (p.pipeline .app)[k]? = some (.global k) := by
  unfold Pipelines.pipeline
  rw [getElem?_append_left (by simpa using h)]
  simp [h]

theorem app_router : (p.pipeline .app)[p.globalMiddlewares]? = some .router := by
  unfold Pipelines.pipeline
  simp

theorem router_not_mem : Stage.router ∉ p.pipeline .route := by
  unfold Pipelines.pipeline
  cases p.route with
  | none => simp
  | some route =>
    unfold MatchedRoute.pipeline
    simp only [Option.elim_some]
    intro h
    simp only [mem_append, mem_map, mem_singleton, reduceCtorEq, or_false] at h
    rcases h with (h | ⟨k, -, h⟩) | h
    · split at h <;> simp at h
    · cases h
    · split at h <;> simp at h

theorem runPipeline_cases (frames : List Frame) (level : Level) (index : Nat) :
    (p.pipeline level).length ≤ index ∧ p.runPipeline frames level index = frames ∨ index < (p.pipeline level).length ∧
        ((level = .route ∨ index < p.globalMiddlewares ∨ (p.pipeline .route).length = 0) ∧
            p.runPipeline frames level index = frames ++ [(level, index)] ∨
          level = .app ∧ index = p.globalMiddlewares ∧ 0 < (p.pipeline .route).length ∧
            p.runPipeline frames level index = frames ++ [(.app, index), (.route, 0)]) := by
  unfold Pipelines.runPipeline
  cases hstage : (p.pipeline level)[index]? with
  | none => exact .inl ⟨getElem?_eq_none_iff.1 hstage, rfl⟩
  | some stage =>
    have hlt := (of_getElem?_eq_some hstage)
    refine .inr ⟨hlt, ?_⟩
    cases level with
    | route =>
      left
      refine ⟨.inl rfl, ?_⟩
      have hne : stage ≠ .router := by
        rintro rfl
        exact router_not_mem p (mem_of_getElem? hstage)
      cases stage <;> first | rfl | exact absurd rfl hne
    | app =>
      have hle : index ≤ p.globalMiddlewares := by
        rw [app_length] at hlt
        omega
      rcases Nat.lt_or_eq_of_le hle with hlt' | rfl
      · rw [app_stage p hlt'] at hstage
        cases hstage
        exact .inl ⟨.inr (.inl hlt'), rfl⟩
      · rw [app_router] at hstage
        cases hstage
        by_cases he : (p.pipeline .route).isEmpty = true
        · left
          refine ⟨.inr (.inr ?_), by simp only [he, if_true]⟩
          simpa using he
        · right
          refine ⟨rfl, rfl, ?_, by simp only [he]; rfl⟩
          rw [List.isEmpty_iff] at he
          exact length_pos_iff.2 he

/-- From the first `n` stages the stage at place `n` leads to the first stages again; the router does not
stand alone where there is a route. -/
theorem runPipeline_take {n : Nat} {level : Level} {index : Nat} (hplace : p.place (level, index) = n)
    (hlt : index < (p.pipeline level).length) :
    ∃ n', p.runPipeline (p.order.take n) level index = p.order.take n' ∧ n' ≤ p.order.length ∧
      (n' = n + 1 ∧ (n = p.globalMiddlewares → (p.pipeline .route).length = 0) ∨ n = p.globalMiddlewares ∧ n' = n + 2) := by
  have hget : p.order[n]? = some (level, index) := hplace ▸ place_order p hlt
  have hn := (of_getElem?_eq_some hget)
  rcases runPipeline_cases p (p.order.take n) level index with ⟨hle, -⟩ | ⟨-, ⟨hstage, he⟩ | ⟨rfl, rfl, hroute, he⟩⟩
  · omega
  · refine ⟨n + 1, ?_, hn, .inl ⟨rfl, ?_⟩⟩
    · rw [he, take_add_one, hget]
      rfl
    · rintro rfl
      rcases hstage with rfl | hindex | hroute
      · have happ := app_length p
        simp only [Pipelines.place] at hplace
        omega
      · cases level with
        | app =>
          simp only [Pipelines.place] at hplace
          omega
        | route =>
          have happ := app_length p
          simp only [Pipelines.place] at hplace
          omega
      · exact hroute
  · have hnext : p.order[n + 1]? = some (.route, 0) := by
      have := order_route p hroute
      rw [app_length] at this
      rw [← hplace]
      exact this
    refine ⟨n + 2, ?_, (List.getElem?_eq_some_iff.1 hnext).1, .inr ⟨hplace.symm, rfl⟩⟩
    rw [he, take_add_one, take_add_one, hget, hnext, append_assoc]
    rfl

end

/-! ## At most once -/

/-- The first `n` stages are invoked, in order; all but the last have called `next` (the router calls none
that leads on); and where `next` was called, the stage behind is invoked. -/
structure Invoked (p : Pipelines) (s : PipelineRun) (n : Nat) : Prop where
  frames : s.frames = p.order.take n
  le : n ≤ p.order.length
  routed : n = p.globalMiddlewares + 1 → (p.pipeline .route).length = 0
  called : ∀ f, f + 1 < n → f ≠ p.globalMiddlewares → f ∈ s.called
  known : ∀ f ∈ s.called, f < n
  reached : ∀ f ∈ s.called, ∀ level index, s.frames[f]? = some (level, index) →
    index + 1 < (p.pipeline level).length → (level, index + 1) ∈ s.frames

section

variable {p : Pipelines} {s : PipelineRun} {n : Nat}

theorem invoked_start (p : Pipelines) : ∃ n, Invoked p p.start n := by
  have happ := app_length p
  have hplace : p.place (.app, 0) = 0 := rfl
  obtain ⟨n, he, hle, hn⟩ := runPipeline_take p hplace (by omega)
  refine ⟨n, he, hle, ?_, ?_, fun f hf => absurd hf not_mem_nil, fun f hf => absurd hf not_mem_nil⟩
  · rintro rfl
    rcases hn with ⟨hn, hroute⟩ | ⟨h0, hn⟩
    · exact hroute (by omega)
    · omega
  · intro f hf hne
    rcases hn with ⟨rfl, -⟩ | ⟨h0, rfl⟩ <;> omega

theorem Invoked.frame (h : Invoked p s n) {f : Nat} {level : Level} {index : Nat} (hf : s.frames[f]? = some (level, index)) :
    f < n ∧ f = p.place (level, index) ∧ index < (p.pipeline level).length := by
  rw [h.frames, getElem?_take] at hf
  split at hf
  · rename_i hlt
    exact ⟨hlt, order_place p hf⟩
  · cases hf

theorem Invoked.next (h : Invoked p s n) {f : Nat} (hg : FirstNext p s f) : ∃ n', Invoked p (p.next s f) n' := by
  unfold Pipelines.next
  split
  · rename_i level index hf
    obtain ⟨hfn, hplace, hlt⟩ := h.frame hf
    rcases Nat.lt_or_ge (index + 1) (p.pipeline level).length with hlt' | hge
    · -- the caller is not the router, and it is the last that was invoked
      have hsucc : p.place (level, index + 1) = f + 1 := by
        rw [hplace]
        cases level <;> rfl
      have hrouter : f ≠ p.globalMiddlewares := by
        have happ := app_length p
        cases level <;> simp only [Pipelines.place] at hplace <;> omega
      have hlast : f + 1 = n := by
        by_contra hne
        exact hg level index hf hlt' (h.called f (by omega) hrouter)
      obtain ⟨n', he, hle, hn'⟩ := runPipeline_take p (hsucc.trans hlast) hlt'
      have hframes : p.runPipeline s.frames level (index + 1) = p.order.take n' := by rw [h.frames, he]
      have hmem : ∀ frame ∈ s.frames, frame ∈ p.order.take n' := by
        intro frame hframe
        rw [h.frames] at hframe
        exact (take_subset_take_left p.order (by omega)) hframe
      have hnn' : n < n' := by rcases hn' with ⟨rfl, -⟩ | ⟨-, rfl⟩ <;> omega
      have hget' : ∀ {f' : Nat} {frame : Frame}, f' < n → (p.order.take n')[f']? = some frame → s.frames[f']? = some frame := by
        intro f' frame hf' hget
        rw [getElem?_take, if_pos (by omega)] at hget
        rw [h.frames, getElem?_take, if_pos hf', hget]
      refine ⟨n', hframes, hle, ?_, ?_, ?_, ?_⟩
      · rintro rfl
        rcases hn' with ⟨hn', hroute⟩ | ⟨hn', hn''⟩
        · exact hroute (by omega)
        · omega
      · intro f' hf' hne
        by_cases hlt'' : f' + 1 < n
        · exact mem_append_left _ (h.called f' hlt'' hne)
        · obtain rfl : f' = f := by rcases hn' with ⟨rfl, -⟩ | ⟨hn', rfl⟩ <;> omega
          exact mem_append_right _ (mem_singleton_self _)
      · intro f' hf'
        rcases mem_append.1 hf' with hf' | hf'
        · exact lt_trans (h.known f' hf') hnn'
        · rw [mem_singleton.1 hf']
          omega
      · intro f' hf' level' index' hget hlt''
        rw [hframes] at hget ⊢
        rcases mem_append.1 hf' with hf' | hf'
        · exact hmem _ (h.reached f' hf' level' index' (hget' (h.known f' hf') hget) hlt'')
        · -- the stage that has just been invoked
          rw [mem_singleton.1 hf'] at hget
          have hsame := hget' hfn hget
          rw [hf] at hsame
          cases hsame
          have hnew := place_order p hlt'
          rw [hsucc.trans hlast] at hnew
          exact mem_of_getElem? (by rw [getElem?_take, if_pos hnn', hnew])
    · have hsame : p.runPipeline s.frames level (index + 1) = s.frames := by
        rcases runPipeline_cases p s.frames level (index + 1) with ⟨-, he⟩ | ⟨hlt', -⟩
        · exact he
        · omega
      rw [hsame]
      refine ⟨n, h.frames, h.le, h.routed, ?_, ?_, ?_⟩
      · intro f' hf' hne
        exact mem_append_left _ (h.called f' hf' hne)
      · intro f' hf'
        rcases mem_append.1 hf' with hf' | hf'
        · exact h.known f' hf'
        · rw [mem_singleton.1 hf']
          exact hfn
      · intro f' hf' level' index' hget hlt'
        rcases mem_append.1 hf' with hf' | hf'
        · exact h.reached f' hf' level' index' hget hlt'
        · rw [mem_singleton.1 hf', hf] at hget
          cases hget
          omega
  · exact ⟨n, h⟩

theorem Invoked.first (h : Invoked p s n) {f : Nat} (hsafe : InvokedOnce p (p.next s f)) : FirstNext p s f := by
  intro level index hf hlt hcalled
  have hmem := h.reached f hcalled level index hf hlt
  have hnodup : (p.next s f).frames.Nodup := (order_nodup p).sublist hsafe.sublist
  simp only [Pipelines.next, hf] at hnodup
  rcases runPipeline_cases p s.frames level (index + 1) with ⟨hle, -⟩ | ⟨-, ⟨-, he⟩ | ⟨rfl, -, -, he⟩⟩
  · omega
  · rw [he, nodup_append] at hnodup
    exact hnodup.2.2 _ hmem _ (mem_singleton_self _) rfl
  · rw [he, nodup_append] at hnodup
    exact hnodup.2.2 _ hmem _ mem_cons_self rfl

theorem Invoked.once (h : Invoked p s n) : InvokedOnce p s := by
  unfold InvokedOnce
  rw [h.frames]
  exact List.take_prefix n p.order

end

/-! ## Runs -/

/-- For every chain of application and route middlewares and every pattern of calls of `next`: at every
point of the request each stage was invoked at most once and in the order of registration if and only if no
invocation with a stage behind it has called its `next` again. The queue's runner keeps this for every
pattern. -/
theorem invokedOnce_iff_firstNext (p : Pipelines) (fs : List Nat) (length : Nat) :
    ((∀ k, InvokedOnce p (run p.next p.start (fs.take k))) ↔ Guarded p.next (FirstNext p) p.start fs) ∧
      (run (Queue.ChainRun.next length) Queue.ChainRun.start fs).invoked <+: List.range (length + 1) := by
  refine ⟨?_, Queue.ChainRun.invoked_prefix_range length fs⟩
  refine forall_take_iff_guarded (P := fun s => ∃ n, Invoked p s n) (D := fun _ _ => True) p.next ?_ ?_ ?_ fs
    (invoked_start p) (guarded_of_forall p.next (fun _ _ => trivial) p.start fs)
  · rintro s ⟨n, h⟩
    exact h.once
  · rintro s f ⟨n, h⟩ - hg
    exact h.next hg
  · rintro s f ⟨n, h⟩ - hsafe
    exact h.first hsafe

/-- One application middleware before a route with one middleware; the application middleware calls `next`
twice. -/
theorem next_twice_counterexample : ¬ InvokedOnce { globalMiddlewares := 1, route := some { middlewares := 1 } }
      (run (Pipelines.next { globalMiddlewares := 1, route := some { middlewares := 1 } })
        (Pipelines.start { globalMiddlewares := 1, route := some { middlewares := 1 } }) [0, 2, 0]) := by
  unfold InvokedOnce
  decide

end StreetJS.Http
