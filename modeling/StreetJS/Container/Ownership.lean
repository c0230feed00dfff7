/-
Who owns an instance: the instances a container holds are those it came to own, in the order in which they were
made, and `dispose()` visits them in the reverse order.
-/
import StreetJS.Container.Resolution
import StreetJS.Lib.ListSet

namespace StreetJS.Container

open StreetJS.Lib List
open Prod (fst snd)

/-- The instances a container came to own, in order. -/
def ownedBy (s : World) (c : Nat) : List Instance := (s.stores.filter fun st => st.container = c).map Store.inst

/-- The instances a container disposed of, in order. -/
def disposedBy (s : World) (c : Nat) : List Instance :=
  (s.disposals.filter fun d => d.container = c).map Disposal.inst

/-- The ledger agrees with the containers, while nothing is owned twice, by one container or by two. -/
structure Ledger (s : World) : Prop where
  created : ∀ n, .created n ∈ s.seen → n < s.created
  nodup : s.seen.Nodup
  deps : ∀ birth ∈ s.births, ∀ dep ∈ birth.deps, dep ∈ s.seen ∧ s.seen.idxOf dep < s.seen.idxOf birth.inst
  stores : (s.stores.map Store.inst).Sublist s.seen
  bounded : ∀ st ∈ s.stores, st.container < s.containers.length
  owned : ∀ (c : Nat) k, s.containers[c]? = some k → k.disposed = false → k.singletons.map snd = ownedBy s c
  disposed : ∀ (c : Nat) k, s.containers[c]? = some k → disposedBy s c = if k.disposed then (ownedBy s c).reverse else []
  disposals : ∀ d ∈ s.disposals, d.container < s.containers.length

theorem start_ledger : Ledger start where
  created := nofun
  nodup := nodup_nil
  deps := nofun
  stores := .slnil
  bounded := nofun
  owned := by
    intro c k hk
    cases hk
  disposed := by
    intro c k hk
    cases hk
  disposals := nofun

namespace Ledger

variable {s s' : World}

theorem seen_of_held (h : Ledger s) {c : Nat} {k : Container} {token : Token} {inst : Instance}
    (hk : s.containers[c]? = some k) (hactive : k.disposed = false) (hget : k.singletons.get token = some inst) :
    inst ∈ s.seen := by
  have hheld : inst ∈ k.singletons.map snd := mem_map.2 ⟨_, OrderedMap.get_mem hget, rfl⟩
  rw [h.owned c k hk hactive] at hheld
  obtain ⟨st, hst, rfl⟩ := mem_map.1 hheld
  exact h.stores.subset (mem_map_of_mem (mem_filter.1 hst).1)

/-! ## What leaves the ledger as it was -/

theorem of_same (h : Ledger s) (hcreated : s'.created = s.created) (hbirths : s'.births = s.births)
    (hstores : s'.stores = s.stores) (hdisposals : s'.disposals = s.disposals)
    (hlength : s'.containers.length = s.containers.length)
    (hcontainer : ∀ (c : Nat) k', s'.containers[c]? = some k' → ∃ k, s.containers[c]? = some k ∧
      k'.singletons = k.singletons ∧ k'.disposed = k.disposed) : Ledger s' where
  created := by
    unfold World.seen
    rw [hcreated, hbirths]
    exact h.created
  nodup := by
    unfold World.seen
    rw [hbirths]
    exact h.nodup
  deps := by
    unfold World.seen
    rw [hbirths]
    exact h.deps
  stores := by
    unfold World.seen
    rw [hstores, hbirths]
    exact h.stores
  bounded := by
    rw [hstores, hlength]
    exact h.bounded
  owned := by
    intro c k' hk' hactive
    obtain ⟨k, hk, hsingletons, hdisposed⟩ := hcontainer c k' hk'
    unfold ownedBy
    rw [hsingletons, hstores]
    exact h.owned c k hk (hdisposed ▸ hactive)
  disposed := by
    intro c k' hk'
    obtain ⟨k, hk, -, hdisposed⟩ := hcontainer c k' hk'
    unfold disposedBy ownedBy
    rw [hdisposed, hstores, hdisposals]
    exact h.disposed c k hk
  disposals := by
    rw [hdisposals, hlength]
    exact h.disposals

theorem resolving (h : Ledger s) (c : Nat) (g : List Token → List Token) :
    Ledger (s.update c fun k => { k with resolving := g k.resolving }) := by
  refine h.of_same rfl rfl rfl rfl length_update fun c' k' hk' => ?_
  rw [getElem?_update] at hk'
  split at hk'
  · obtain ⟨k, hk, rfl⟩ := Option.map_eq_some_iff.1 hk'
    exact ⟨k, hk, rfl, rfl⟩
  · exact ⟨k', hk', rfl, rfl⟩

/-! ## A new instance -/

section

variable {birth : Birth} {created : Nat}

theorem seen_bear : World.seen { s.bear birth with created := created } = s.seen ++ [birth.inst] := by
  unfold World.seen World.bear
  rw [map_append, map_singleton]

/-- An instance that no container keeps. -/
theorem bear (h : Ledger s) (hnew : birth.inst ∉ s.seen) (hdeps : ∀ dep ∈ birth.deps, dep ∈ s.seen)
    (hle : s.created ≤ created) (hlt : ∀ n, birth.inst = .created n → n < created) :
    Ledger { s.bear birth with created := created } where
  created := by
    intro n hn
    rw [seen_bear] at hn
    rcases mem_append.1 hn with hn | hn
    · exact lt_of_lt_of_le (h.created n hn) hle
    · exact hlt n (mem_singleton.1 hn).symm
  nodup := by
    rw [seen_bear]
    exact nodup_append.2 ⟨h.nodup, nodup_singleton _, fun a ha b hb hab =>
      hnew (by rw [← mem_singleton.1 hb, ← hab]; exact ha)⟩
  deps := by
    rw [seen_bear]
    intro birth' hbirth dep hdep
    rcases mem_append.1 hbirth with hold | hnewest
    · obtain ⟨hseen, hidx⟩ := h.deps birth' hold dep hdep
      have hinst : birth'.inst ∈ s.seen := mem_map_of_mem hold
      rw [idxOf_append_of_mem hseen, idxOf_append_of_mem hinst]
      exact ⟨mem_append_left _ hseen, hidx⟩
    · cases mem_singleton.1 hnewest
      have hseen := hdeps dep hdep
      rw [idxOf_append_of_mem hseen, idxOf_append_of_notMem hnew]
      exact ⟨mem_append_left _ hseen, Nat.lt_add_right _ (idxOf_lt_length_of_mem hseen)⟩
  stores := by
    rw [seen_bear]
    exact h.stores.trans (sublist_append_left _ _)
  bounded := h.bounded
  owned := h.owned
  disposed := h.disposed
  disposals := h.disposals

theorem ownedBy_store (c c' : Nat) (token : Token) (inst : Instance) :
    ownedBy (s.store c token inst) c' = if c = c' then ownedBy s c' ++ [inst] else ownedBy s c' := by
  unfold ownedBy World.store
  split
  · next heq => simp [heq]
  · next hne => simp [hne]

theorem keep {c : Nat} {token : Token} {k : Container} (h : Ledger s) (hopen : Open s c token k)
    (hnew : birth.inst ∉ s.seen) (hdeps : ∀ dep ∈ birth.deps, dep ∈ s.seen) (hle : s.created ≤ created)
    (hlt : ∀ n, birth.inst = .created n → n < created) :
    Ledger (World.store { s.bear birth with created := created } c token birth.inst) := by
  have hborn := h.bear hnew hdeps hle hlt
  set s₁ : World := { s.bear birth with created := created } with hs₁
  have hcontainer : ∀ c', (s₁.store c token birth.inst).containers[c']? = _ := fun c' =>
    getElem?_update (s := s₁) (c := c) (f := fun k => { k with singletons := k.singletons.set token birth.inst }) c'
  have hlength : (s₁.store c token birth.inst).containers.length = s.containers.length := length_update
  refine ⟨hborn.created, hborn.nodup, hborn.deps, ?_, ?_, ?_, ?_, ?_⟩
  · -- the instance kept is the last one seen
    have hseen : (s₁.store c token birth.inst).seen = s.seen ++ [birth.inst] := map_append
    rw [hseen]
    have hmap : (s₁.store c token birth.inst).stores.map Store.inst = s.stores.map Store.inst ++ [birth.inst] := by
      unfold World.store
      rw [map_append, map_singleton]
      rfl
    rw [hmap]
    exact h.stores.append_right _
  · intro st hst
    rw [hlength]
    rcases mem_append.1 hst with hst | hst
    · exact h.bounded st hst
    · cases mem_singleton.1 hst
      exact (lt_length hopen.container)
  · intro c' k' hk' hactive
    rw [hcontainer] at hk'
    rw [ownedBy_store]
    split at hk'
    · next heq =>
      subst heq
      have hk₁ : s₁.containers[c']? = some k := hopen.container
      rw [hk₁] at hk'
      cases hk'
      rw [if_pos rfl]
      dsimp only
      have hkeys : token ∉ k.singletons.map fst := by
        rw [← OrderedMap.has_iff_mem_keys]
        unfold OrderedMap.has
        rw [hopen.unstored]
        nofun
      rw [OrderedMap.set_of_not_has hkeys, map_append, map_singleton, hborn.owned c' k hk₁ hactive]
    · next hne =>
      rw [if_neg fun heq => hne heq.symm]
      exact hborn.owned c' k' hk' hactive
  · intro c' k' hk'
    by_cases hc : c' = c
    · subst hc
      have hk₁ : s₁.containers[c']? = some k := hopen.container
      rw [hcontainer, if_pos rfl, hk₁] at hk'
      have hd := hborn.disposed c' k hk₁
      cases hk'
      rw [hopen.active] at hd ⊢
      exact hd
    · rw [hcontainer, if_neg hc] at hk'
      rw [ownedBy_store, if_neg (Ne.symm hc)]
      exact hborn.disposed c' k' hk'
  · rw [hlength]
    exact h.disposals

end

/-! ## A new container, and the disposal of one -/

theorem filter_new {X : Type} {f : X → Nat} {n : Nat} {xs : List X} (h : ∀ x ∈ xs, f x < n) : (xs.filter fun x => f x = n) = [] := by
  refine filter_eq_nil_iff.2 fun x hx heq => ?_
  have hlt := h x hx
  have heq' : f x = n := of_decide_eq_true heq
  omega

theorem createContainer (h : Ledger s) (parent : Option Nat) :
    Ledger { s with containers := s.containers ++ [⟨parent, [], [], [], false⟩] } where
  created := h.created
  nodup := h.nodup
  deps := h.deps
  stores := h.stores
  bounded st hst := by
    rw [length_append]
    exact Nat.lt_add_right _ (h.bounded st hst)
  owned := by
    intro c k hk hactive
    rcases getElem?_concat_cases hk with hold | ⟨rfl, rfl⟩
    · exact h.owned c k hold hactive
    · unfold ownedBy
      rw [filter_new h.bounded]
      rfl
  disposed := by
    intro c k hk
    rcases getElem?_concat_cases hk with hold | ⟨rfl, rfl⟩
    · exact h.disposed c k hold
    · unfold disposedBy
      rw [filter_new h.disposals]
      rfl
  disposals d hd := by
    rw [length_append]
    exact Nat.lt_add_right _ (h.disposals d hd)

end Ledger

/-! ## Disposal -/

section

variable {p : Program} {s : World} {c : Nat} {k : Container}

theorem disposeAll_insts (insts : List Instance) : ∀ firstError, (World.disposeAll p c insts firstError).1.map Disposal.inst = insts := by
  induction insts with
  | nil => exact fun _ => rfl
  | cons inst insts ih => exact fun firstError => congrArg (inst :: ·) (ih _)

theorem disposeAll_container (insts : List Instance) : ∀ firstError, ∀ d ∈ (World.disposeAll p c insts firstError).1, d.container = c := by
  induction insts with
  | nil => exact fun _ _ => nofun
  | cons inst insts ih =>
    intro firstError d hd
    rcases mem_cons.1 hd with rfl | hd
    · rfl
    · exact ih _ d hd

theorem dispose_active (hk : s.containers[c]? = some k) (hactive : k.disposed = false) : (s.dispose p c).1 =
      { s.update c (fun k => { k with disposed := true, singletons := [], resolving := [] }) with
        disposals := s.disposals ++ (World.disposeAll p c (k.singletons.map snd).reverse none).1 } := by
  unfold World.dispose
  rw [hk]
  dsimp only
  rw [hactive]
  rfl

theorem dispose_inactive (hinactive : ∀ k, s.containers[c]? = some k → k.disposed = true) : (s.dispose p c).1 = s := by
  unfold World.dispose
  cases hk : s.containers[c]? with
  | none => rfl
  | some k =>
    dsimp only
    rw [if_pos (hinactive k hk)]

theorem Ledger.dispose (h : Ledger s) (hk : s.containers[c]? = some k) (hactive : k.disposed = false) : Ledger (s.dispose p c).1 := by
  rw [dispose_active hk hactive]
  have hget := getElem?_update (s := s) (c := c) (f := fun k => { k with disposed := true, singletons := [], resolving := [] })
  have hlength := length_update (s := s) (c := c) (f := fun k => { k with disposed := true, singletons := [], resolving := [] })
  have hnew := disposeAll_container (p := p) (c := c) (k.singletons.map snd).reverse none
  refine ⟨h.created, h.nodup, h.deps, h.stores, ?_, ?_, ?_, ?_⟩
  · rw [hlength]
    exact h.bounded
  · intro c' k' hk' hactive'
    rw [hget] at hk'
    split at hk'
    · obtain ⟨k₀, -, rfl⟩ := Option.map_eq_some_iff.1 hk'
      cases hactive'
    · exact h.owned c' k' hk' hactive'
  · intro c' k' hk'
    rw [hget] at hk'
    unfold disposedBy
    rw [filter_append, map_append]
    split at hk'
    · next heq =>
      subst heq
      rw [hk] at hk'
      cases hk'
      have hbefore := h.disposed c' k hk
      rw [hactive] at hbefore
      have hall : ((World.disposeAll p c' (k.singletons.map snd).reverse none).1.filter
          fun d => d.container = c') = (World.disposeAll p c' (k.singletons.map snd).reverse none).1 :=
        filter_eq_self.2 fun d hd => decide_eq_true (hnew d hd)
      unfold disposedBy at hbefore
      rw [hbefore, hall, disposeAll_insts, h.owned c' k hk hactive]
      rfl
    · next hne =>
      have hnone : ((World.disposeAll p c (k.singletons.map snd).reverse none).1.filter fun d => d.container = c') = [] :=
        filter_eq_nil_iff.2 fun d hd heq => hne ((of_decide_eq_true heq).symm.trans (hnew d hd))
      rw [hnone, map_nil, append_nil]
      exact h.disposed c' k' hk'
  · intro d hd
    rw [hlength]
    rcases mem_append.1 hd with hd | hd
    · exact h.disposals d hd
    · rw [hnew d hd]
      exact (lt_length hk)

/-! ## The order of disposals -/

/-- One instance was made from another one, through any number of instances between them. -/
def DependsOn (s : World) : Instance → Instance → Prop :=
  Relation.TransGen fun x y => ∃ birth ∈ s.births, birth.inst = x ∧ y ∈ birth.deps

namespace Ledger

theorem idxOf_lt_of_dependsOn (h : Ledger s) {x y : Instance} (hxy : DependsOn s x y) : s.seen.idxOf y < s.seen.idxOf x := by
  induction hxy with
  | single hdep =>
    obtain ⟨birth, hbirth, rfl, hmem⟩ := hdep
    exact (h.deps birth hbirth _ hmem).2
  | tail _ hdep ih =>
    obtain ⟨birth, hbirth, rfl, hmem⟩ := hdep
    exact lt_trans (h.deps birth hbirth _ hmem).2 ih

theorem pairwise_of_filter {X : Type} {R : X → X → Prop} (f : X → Nat) :
    ∀ (xs : List X), (∀ n, (xs.filter fun x => f x = n).Pairwise R) → xs.Pairwise fun x y => f x = f y → R x y
  | [], _ => .nil
  | x :: xs, h => by
    refine .cons (fun y hy heq => ?_) (pairwise_of_filter f xs fun n => ?_)
    · have hx := h (f x)
      rw [filter_cons_of_pos (by simp)] at hx
      exact rel_of_pairwise_cons hx (mem_filter.2 ⟨hy, by simp [heq]⟩)
    · exact (h n).sublist ((sublist_cons_self x xs).filter _)

theorem reverse_order (h : Ledger s) : s.disposals.Pairwise fun d₁ d₂ => d₁.container = d₂.container →
      s.seen.idxOf d₂.inst < s.seen.idxOf d₁.inst := by
  refine pairwise_of_filter Disposal.container s.disposals fun c => ?_
  have hsorted : s.seen.Pairwise fun x y => s.seen.idxOf x < s.seen.idxOf y := by
    refine pairwise_iff_getElem.2 fun i j hi hj hij => ?_
    rw [h.nodup.idxOf_getElem, h.nodup.idxOf_getElem]
    exact hij
  have hdisposed : (disposedBy s c).Pairwise fun x y => s.seen.idxOf y < s.seen.idxOf x := by
    by_cases hc : c < s.containers.length
    · rw [h.disposed c _ (getElem?_eq_getElem hc)]
      split
      · have howned : (ownedBy s c).Sublist s.seen := (filter_sublist.map _).trans h.stores
        exact pairwise_reverse.2 (hsorted.sublist howned)
      · exact .nil
    · have hnone : (s.disposals.filter fun d => d.container = c) = [] :=
        filter_eq_nil_iff.2 fun d hd heq => hc (of_decide_eq_true heq ▸ h.disposals d hd)
      unfold disposedBy
      rw [hnone]
      exact .nil
  exact pairwise_map.1 hdisposed

theorem store_of_disposal (h : Ledger s) {d : Disposal} (hd : d ∈ s.disposals) :
    ∃ st ∈ s.stores, st.container = d.container ∧ st.inst = d.inst := by
  have hmem : d.inst ∈ disposedBy s d.container :=
    mem_map_of_mem (mem_filter.2 ⟨hd, by simp⟩)
  rw [h.disposed _ _ (getElem?_eq_getElem (h.disposals d hd))] at hmem
  split at hmem
  · obtain ⟨st, hst, heq⟩ := mem_map.1 (mem_reverse.1 hmem)
    have hfilter := mem_filter.1 hst
    exact ⟨st, hfilter.1, of_decide_eq_true hfilter.2, heq⟩
  · cases hmem

/-- **No instance is disposed of twice**, by one container or by two. -/
theorem disposals_nodup (h : Ledger s) : (s.disposals.map Disposal.inst).Nodup := by
  refine pairwise_map.2 ((h.reverse_order).imp_of_mem fun {d₁ d₂} hd₁ hd₂ hlt heq => ?_)
  obtain ⟨st₁, hst₁, hc₁, hi₁⟩ := h.store_of_disposal hd₁
  obtain ⟨st₂, hst₂, hc₂, hi₂⟩ := h.store_of_disposal hd₂
  have hstores : (s.stores.map Store.inst).Nodup := h.nodup.sublist h.stores
  have hsame : st₁ = st₂ := inj_on_of_nodup_map hstores hst₁ hst₂ (by rw [hi₁, hi₂, heq])
  have hcontainer : d₁.container = d₂.container := by rw [← hc₁, ← hc₂, hsame]
  have := hlt hcontainer
  rw [heq] at this
  exact lt_irrefl _ this

/-- **Dependents are disposed of before their dependencies.** -/
theorem dependents_first (h : Ledger s) : s.disposals.Pairwise fun d₁ d₂ => d₁.container = d₂.container → ¬ DependsOn s d₂.inst d₁.inst :=
  h.reverse_order.imp fun hlt heq hdep => Nat.lt_asymm (hlt heq) (h.idxOf_lt_of_dependsOn hdep)

end Ledger

end

end StreetJS.Container
