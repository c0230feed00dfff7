/-
`ReplicationCoordinator`: the regions of a deployment, of which one is the primary. Rounds of health checks overlap,
each going on when the query of its region has been answered. At most one region is configured primary and no
region recovers while none is primary: then at every moment there is one healthy primary, or no healthy region.
-/
import StreetJS.Lib.ListSet
import StreetJS.Lib.Runs

namespace StreetJS.Platform

open StreetJS.Lib

structure RegionConfig where
  name : String
  primary : Bool

structure RegionState where
  name : String
  healthy : Bool
  isPrimary : Bool
  deriving DecidableEq

/-- A round of `_checkHealth` that waits for the query of a region, by the region's index; past the last one the
round has completed. -/
structure ReplicationCoordinator where
  regions : List RegionState
  rounds : List Nat := []
  deriving DecidableEq

def update (regions : List RegionState) (i : Nat) (f : RegionState → RegionState) : List RegionState :=
  match regions[i]? with
  | some region => regions.set i (f region)
  | none => regions

namespace ReplicationCoordinator

def new (configs : List RegionConfig) : ReplicationCoordinator where
  regions :=
    let regions := configs.map fun r => { name := r.name, healthy := true, isPrimary := r.primary }
    if regions.any RegionState.isPrimary then regions else update regions 0 ({ · with isPrimary := true })

variable (s : ReplicationCoordinator)

/-- The region whose pool takes the writes. -/
def getWritePool : Except String RegionState :=
  match s.regions.find? fun r => r.isPrimary && r.healthy with
  | some primary => .ok primary
  | none => .error "No healthy primary region available"

def promotePrimary (regionName : String) : Except String ReplicationCoordinator :=
  match s.regions.findIdx? fun r => r.name = regionName with
  | none => .error ("Region not found: " ++ regionName)
  | some target =>
    if (s.regions[target]?.map RegionState.healthy) = some false then
      .error ("Cannot promote unhealthy region: " ++ regionName)
    else
      let oldPrimary := s.regions.findIdx? RegionState.isPrimary
      let regions := oldPrimary.elim s.regions fun i => update s.regions i ({ · with isPrimary := false })
      .ok { s with regions := update regions target ({ · with isPrimary := true }) }

/-- The part of `_checkHealth` that follows a failed query: the first healthy region takes over from a primary. -/
def failed (i : Nat) (region : RegionState) : ReplicationCoordinator :=
  let regions := s.regions.set i { region with healthy := false, isPrimary := false }
  if region.isPrimary then
    match regions.findIdx? fun r => r.healthy && !r.isPrimary with
    | some next => { s with regions := update regions next ({ · with isPrimary := true }) }
    | none => { s with regions }
  else { s with regions }

end ReplicationCoordinator

inductive Event where
  /-- The health timer starts a round. -/
  | checkHealth
  /-- The query that a round waits for succeeds or fails. -/
  | answer (round : Nat) (ok : Bool)
  | promotePrimary (regionName : String)
  deriving DecidableEq

open ReplicationCoordinator

def step (s : ReplicationCoordinator) : Event → ReplicationCoordinator
  | .checkHealth => { s with rounds := s.rounds ++ [0] }
  | .answer round ok =>
    match s.rounds[round]?.bind fun i => s.regions[i]?.map (i, ·) with
    | none => s
    | some (i, region) =>
      let s' := { s with rounds := s.rounds.set round (i + 1) }
      if ok then { s' with regions := s.regions.set i { region with healthy := true } } else s'.failed i region
  | .promotePrimary regionName => (s.promotePrimary regionName).toOption.getD s

/-! ## One primary -/

def primaries (regions : List RegionState) : Nat := regions.countP RegionState.isPrimary

/-- At most one region is primary; where a region is healthy, one is, it is healthy, and it takes the writes. -/
structure OnePrimary (s : ReplicationCoordinator) : Prop where
  atMost : primaries s.regions ≤ 1
  served : (∃ r ∈ s.regions, r.healthy = true) →
    primaries s.regions = 1 ∧ ∃ r ∈ s.regions, r.isPrimary = true ∧ r.healthy = true ∧ s.getWritePool = .ok r

/-- A region recovers while some region is primary. -/
def Recovers (s : ReplicationCoordinator) : Event → Prop
  | .answer _ true => ∃ r ∈ s.regions, r.isPrimary = true
  | _ => True

/-- The invariant: a primary is healthy, and where a region is healthy there is a primary. -/
structure Led (regions : List RegionState) : Prop where
  atMost : primaries regions ≤ 1
  healthy : ∀ r ∈ regions, r.isPrimary = true → r.healthy = true
  served : (∃ r ∈ regions, r.healthy = true) → primaries regions = 1

variable {regions : List RegionState} {i : Nat} {region : RegionState}

theorem Led.onePrimary {s : ReplicationCoordinator} (h : Led s.regions) : OnePrimary s := by
  refine ⟨h.atMost, fun hup => ⟨h.served hup, ?_⟩⟩
  obtain ⟨r, hr, hp⟩ := List.countP_pos_iff.1 (Nat.lt_of_lt_of_eq Nat.one_pos (h.served hup).symm)
  unfold getWritePool
  cases hfind : s.regions.find? fun r => r.isPrimary && r.healthy with
  | some primary =>
    have hprimary := List.find?_some hfind
    simp only [Bool.and_eq_true] at hprimary
    exact ⟨primary, List.mem_of_find?_eq_some hfind, hprimary.1, hprimary.2, rfl⟩
  | none =>
    have hnone := List.find?_eq_none.1 hfind r hr
    simp [hp, h.healthy r hr hp] at hnone

theorem healthy_set (region' : RegionState) (h : ∀ r ∈ regions, r.isPrimary = true → r.healthy = true)
    (hup : region'.isPrimary = true → region'.healthy = true) :
    ∀ r ∈ regions.set i region', r.isPrimary = true → r.healthy = true := by
  intro r hr hp
  rcases List.mem_or_eq_of_mem_set hr with hr | rfl
  · exact h r hr hp
  · exact hup hp

/-- A healthy region is promoted where none is primary. -/
theorem Led.promote (h : ∀ r ∈ regions, r.isPrimary = true → r.healthy = true) (hnone : primaries regions = 0)
    (hi : regions[i]?.map RegionState.healthy = some true) : Led
    (update regions i ({ · with isPrimary := true })) := by
  obtain ⟨region, hi, hup⟩ := Option.map_eq_some_iff.1 hi
  have hcount := countP_set_add RegionState.isPrimary hi { region with isPrimary := true }
  have hregion : region.isPrimary = false :=
    Bool.eq_false_iff.2 fun hp => List.countP_eq_zero.1 hnone region (List.mem_of_getElem? hi) hp
  have hone : primaries (regions.set i { region with isPrimary := true }) = 1 := by
    unfold primaries at hnone ⊢
    simp only [hregion, Bool.toNat_false, Bool.toNat_true] at hcount
    omega
  simp only [update, hi]
  exact ⟨le_of_eq hone, healthy_set _ h fun _ => hup, fun _ => hone⟩

/-- The primary is demoted. -/
theorem primaries_set_zero (hle : primaries regions ≤ 1) (hi : regions[i]? = some region) (hp : region.isPrimary = true)
    (region' : RegionState) (hp' : region'.isPrimary = false) : primaries (regions.set i region') = 0 := by
  have hcount := countP_set_add RegionState.isPrimary hi region'
  unfold primaries at hle ⊢
  simp only [hp, hp', Bool.toNat_false, Bool.toNat_true] at hcount
  omega

theorem of_findIdx? {p : RegionState → Bool} (h : regions.findIdx? p = some i) : ∃ r, regions[i]? = some r ∧ p r = true := by
  obtain ⟨hlt, hp, -⟩ := List.findIdx?_eq_some_iff_getElem.1 h
  exact ⟨regions[i], List.getElem?_eq_getElem hlt, hp⟩

theorem Led.failed {s : ReplicationCoordinator} (h : Led s.regions) (hi : s.regions[i]? = some region) : Led (s.failed i region).regions := by
  have hhealthy := healthy_set (i := i) { region with healthy := false, isPrimary := false } h.healthy nofun
  unfold ReplicationCoordinator.failed
  dsimp only
  split
  · rename_i hp
    have hnone := primaries_set_zero h.atMost hi hp { region with healthy := false, isPrimary := false } rfl
    split
    · rename_i next hnext
      obtain ⟨r, hr, hup⟩ := of_findIdx? hnext
      simp only [Bool.and_eq_true] at hup
      exact Led.promote hhealthy hnone (hr ▸ congrArg some hup.1)
    · -- no region is left that is healthy
      rename_i hall
      refine ⟨Nat.le_trans (Nat.le_of_eq hnone) (Nat.zero_le 1), hhealthy, fun ⟨r, hr, hup⟩ => ?_⟩
      have hdown := List.findIdx?_eq_none_iff.1 hall r hr
      have hp := List.countP_eq_zero.1 hnone r hr
      simp [hup, hp] at hdown
  · rename_i hp
    have hcount := countP_set_add RegionState.isPrimary hi { region with healthy := false, isPrimary := false }
    have hsame : primaries (s.regions.set i { region with healthy := false, isPrimary := false }) = primaries s.regions := by
      unfold primaries
      simp only [hp, Bool.toNat_false] at hcount
      omega
    refine ⟨hsame ▸ h.atMost, hhealthy, fun ⟨r, hr, hup⟩ => hsame ▸ h.served ?_⟩
    rcases List.mem_or_eq_of_mem_set hr with hr | rfl
    · exact ⟨r, hr, hup⟩
    · cases hup

theorem Led.promotePrimary {s s' : ReplicationCoordinator} {regionName : String} (h : Led s.regions)
    (hs : s.promotePrimary regionName = .ok s') : Led s'.regions := by
  unfold ReplicationCoordinator.promotePrimary at hs
  split at hs
  · cases hs
  rename_i target htarget
  obtain ⟨t, ht, -⟩ := of_findIdx? htarget
  split at hs
  · cases hs
  rename_i hup
  have hup : s.regions[target]?.map RegionState.healthy = some true := by simpa [ht] using hup
  have hone := h.served ⟨t, List.mem_of_getElem? ht, by simpa [ht] using hup⟩
  cases hs
  cases hold : s.regions.findIdx? RegionState.isPrimary with
  | none =>
    have hzero : primaries s.regions = 0 := List.countP_eq_zero.2 fun r hr =>
      Bool.eq_false_iff.1 (List.findIdx?_eq_none_iff.1 hold r hr)
    omega
  | some o =>
    obtain ⟨old, ho, hp⟩ := of_findIdx? hold
    have hnone := primaries_set_zero h.atMost ho hp { old with isPrimary := false } rfl
    have hkept := map_set_eq (f := RegionState.healthy) (b := { old with isPrimary := false }) ho rfl
    simp only [Option.elim_some, update, ho]
    refine Led.promote (healthy_set _ h.healthy nofun) hnone ?_
    rw [← List.getElem?_map, hkept, List.getElem?_map]
    exact hup

theorem Led.step {s : ReplicationCoordinator} {ev : Event} (h : Led s.regions) (hg : Recovers s ev) : Led (step s ev).regions := by
  cases ev with
  | checkHealth => exact h
  | promotePrimary regionName =>
    show Led ((s.promotePrimary regionName).toOption.getD s).regions
    cases hs : s.promotePrimary regionName with
    | error e => exact h
    | ok s' => exact h.promotePrimary hs
  | answer round ok =>
    unfold Platform.step
    dsimp only
    split
    · exact h
    · rename_i i region hround
      obtain ⟨j, -, hround⟩ := Option.bind_eq_some_iff.1 hround
      obtain ⟨r, hi, heq⟩ := Option.map_eq_some_iff.1 hround
      cases heq
      cases ok with
      | false => exact Led.failed (s := { s with rounds := _ }) h hi
      | true =>
        have hcount := countP_set_add RegionState.isPrimary hi { region with healthy := true }
        have hsame : primaries (s.regions.set i { region with healthy := true }) = primaries s.regions :=
          Nat.add_right_cancel hcount
        obtain ⟨p, hmem, hp⟩ := hg
        have hpos : 0 < primaries s.regions := List.countP_pos_iff.2 ⟨p, hmem, hp⟩
        have hle := h.atMost
        refine ⟨hsame ▸ h.atMost, healthy_set _ h.healthy fun _ => rfl, fun _ => ?_⟩
        show primaries (s.regions.set i _) = 1
        omega

theorem led_new {configs : List RegionConfig} (h : configs.countP RegionConfig.primary ≤ 1) : Led (new configs).regions := by
  set regions := configs.map fun r =>
    ({ name := r.name, healthy := true, isPrimary := r.primary } : RegionState) with hregions
  have hcount : primaries regions = configs.countP RegionConfig.primary := by
    rw [hregions, primaries, List.countP_map]
    rfl
  have hup : ∀ r ∈ regions, r.isPrimary = true → r.healthy = true := by
    intro r hr _
    obtain ⟨c, -, rfl⟩ := List.mem_map.1 hr
    rfl
  unfold new
  dsimp only
  rw [← hregions]
  split
  · rename_i hany
    obtain ⟨p, hmem, hp⟩ := List.any_eq_true.1 hany
    have hpos : 0 < primaries regions := List.countP_pos_iff.2 ⟨p, hmem, hp⟩
    exact ⟨by omega, hup, fun _ => by omega⟩
  · rename_i hany
    have hnone : primaries regions = 0 := List.countP_eq_zero.2 fun r hr hp => hany (List.any_eq_true.2 ⟨r, hr, hp⟩)
    cases hfirst : regions[0]? with
    | none =>
      simp only [update, hfirst]
      refine ⟨by omega, hup, fun ⟨r, hr, _⟩ => ?_⟩
      rw [List.getElem?_eq_none_iff, Nat.le_zero, List.length_eq_zero_iff] at hfirst
      rw [hfirst] at hr
      cases hr
    | some first =>
      obtain ⟨c, -, hc⟩ := List.mem_map.1 (List.mem_of_getElem? hfirst)
      exact Led.promote hup hnone (by rw [hfirst, ← hc]; rfl)

/-- **Exactly one primary**, in every state of every run. -/
theorem onePrimary_of_recovering (configs : List RegionConfig) (es : List Event)
    (hconfigs : configs.countP RegionConfig.primary ≤ 1) (hg : Guarded step Recovers (new configs) es) :
    OnePrimary (run step (new configs) es) :=
  (run_invariant_of_guarded step (P := fun s => Led s.regions) (fun _ _ h hg => h.step hg) es hg (led_new hconfigs)).onePrimary

/-- Two regions; the primary fails and is checked again. -/
def failover : List Event := [.checkHealth, .answer 0 false, .answer 0 true, .checkHealth, .answer 1 true]

theorem onePrimary_of_recovering_failover : OnePrimary (run step (new [⟨"eu", true⟩, ⟨"us", false⟩]) failover) :=
  onePrimary_of_recovering _ failover (by decide) ⟨trivial, trivial, ⟨_, .tail _ (.head _), rfl⟩, trivial,
    ⟨_, .tail _ (.head _), rfl⟩, trivial⟩

/-- After an outage of its only region the coordinator has no primary; two configured primaries stay two. -/
theorem primary_counterexample : ¬OnePrimary (run step (new [⟨"eu", true⟩]) [.checkHealth, .answer 0 false, .checkHealth, .answer 1 true]) ∧
      ¬OnePrimary (new [⟨"eu", true⟩, ⟨"us", true⟩]) := by
  refine ⟨fun h => ?_, fun h => absurd h.atMost (by decide)⟩
  exact absurd (h.served ⟨_, .head _, rfl⟩).1 (by decide)

end StreetJS.Platform
