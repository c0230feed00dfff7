/-
`RbacService` (`core/src/auth/rbac.ts`): the permissions of each role are gathered along the hierarchy when the service is
made, breadth first. A required role is only compared by name.
-/
import StreetJS.Lib.OrderedMap
import Mathlib.Logic.Relation

namespace StreetJS.Auth

open StreetJS.Lib Relation List
open Prod (fst)

/-! ## Records -/

/-- `Record<string, string[]>`, an object literal. -/
abbrev RoleRecord := OrderedMap String (List String)

/-- What every object has; none of it is an array. -/
def objectPrototype : List String :=
  ["constructor", "__proto__", "hasOwnProperty", "isPrototypeOf", "propertyIsEnumerable", "toLocaleString", "toString",
    "valueOf", "__defineGetter__", "__defineSetter__", "__lookupGetter__", "__lookupSetter__"]

def RoleRecord.own (record : RoleRecord) (role : String) : List String := (record.get role).getD []

/-- The names that `for (… of record[role] ?? [])` runs through; it throws where that is no array. -/
def RoleRecord.iterate (record : RoleRecord) (role : String) : Except String (List String) :=
  if (record.get role).isNone ∧ role ∈ objectPrototype then .error "TypeError: not iterable" else .ok (record.own role)

variable {record : RoleRecord} {role : String}

theorem own_of_not_mem (h : role ∉ record.map fst) : record.own role = [] := by
  cases hget : record.get role with
  | none => rw [RoleRecord.own, hget]; rfl
  | some names => exact absurd (mem_map.2 ⟨_, OrderedMap.get_mem hget, rfl⟩) h

/-! ## `RbacService` -/

/-- The roles of a record that have not been visited. -/
def unvisited (record : RoleRecord) (visited : List String) : List String :=
  (record.map fst).filter fun role => decide (role ∉ visited)

theorem unvisited_cons_lt {visited : List String} (hkey : role ∈ record.map fst)
    (h : role ∉ visited) : (unvisited record (role :: visited)).length < (unvisited record visited).length := by
  have hfilter : unvisited record (role :: visited) = (unvisited record visited).filter fun r => decide (r ≠ role) := by
    unfold unvisited
    rw [filter_filter]
    exact filter_congr fun r _ => by simp
  rw [hfilter]
  exact length_filter_lt_length_iff_exists.2 ⟨role, mem_filter.2 ⟨hkey, by simpa using h⟩, by simp⟩

theorem unvisited_cons_of_not_mem (visited : List String)
    (hkey : role ∉ record.map fst) : unvisited record (role :: visited) = unvisited record visited := by
  refine filter_congr fun r hr => ?_
  have hne : r ≠ role := fun heq => hkey (heq ▸ hr)
  simp [hne]

section

variable (hierarchy rolePerms : RoleRecord)

/-- The loop of `_flattenPerms`. -/
def flatten (queue visited result : List String) : Except String (List String) :=
  match queue with
  | [] => .ok result
  | role :: queue =>
    if role ∈ visited then flatten queue visited result
    else
      match rolePerms.iterate role, hierarchy.iterate role with
      | .ok perms, .ok _ =>
        flatten (queue ++ (hierarchy.own role).filter fun r => decide (r ∉ role :: visited)) (role :: visited) (result ∪ perms)
      | .error e, _ | _, .error e => .error e
termination_by ((unvisited hierarchy visited).length, queue.length)
decreasing_by
  · exact Prod.Lex.right _ (Nat.lt_succ_self _)
  · by_cases hkey : role ∈ hierarchy.map fst
    · exact Prod.Lex.left _ _ (unvisited_cons_lt hkey ‹_›)
    · rw [unvisited_cons_of_not_mem visited hkey, own_of_not_mem hkey]
      exact Prod.Lex.right _ (by simp)

def flattenPerms (startRole : String) : Except String (List String) := flatten hierarchy rolePerms [startRole] [] []

structure RbacService where
  rolePerms : OrderedMap String (List String)

def register (map : OrderedMap String (List String)) (role : String) : Except String (OrderedMap String (List String)) :=
  (flattenPerms hierarchy rolePerms role).map (map.set role)

/-- The constructor. -/
def RbacService.new : Except String RbacService := do
  let map ← (hierarchy.map fst).foldlM (register hierarchy rolePerms) []
  let map ← (rolePerms.map fst).foldlM (fun map role => if map.has role then .ok map else register hierarchy rolePerms map role) map
  .ok ⟨map⟩

def isInherited (_fromRole _targetRole : String) : Bool := false

def RbacService.hasRole (_service : RbacService) (userRoles : List String) (requiredRole : String) : Bool :=
  if userRoles.contains requiredRole then true
  else userRoles.any fun userRole => userRole = requiredRole || isInherited userRole requiredRole

def RbacService.hasPermission (service : RbacService) (userRoles : List String) (permission : String) : Bool :=
  userRoles.any fun role => ((service.rolePerms.get role).map fun perms => perms.contains permission).getD false

/-! ## Reachability -/

def Inherits (fromRole role : String) : Prop := role ∈ hierarchy.own fromRole

/-- Through zero or more edges from one of the roles. -/
def Reaches (userRoles : List String) (role : String) : Prop :=
  ∃ userRole ∈ userRoles, ReflTransGen (Inherits hierarchy) userRole role

/-- Looking the role up in the records throws nothing. -/
def Safe (role : String) : Prop :=
  role ∈ objectPrototype → (hierarchy.get role).isSome ∧ (rolePerms.get role).isSome

end

variable {hierarchy rolePerms : RoleRecord}

theorem safe_iff : Safe hierarchy rolePerms role ↔
    rolePerms.iterate role = .ok (rolePerms.own role) ∧ hierarchy.iterate role = .ok (hierarchy.own role) := by
  unfold Safe RoleRecord.iterate
  by_cases hmem : role ∈ objectPrototype <;> cases hierarchy.get role <;> cases rolePerms.get role <;> simp [hmem]

theorem iterate_eq {names : List String} (h : record.iterate role = .ok names) : record.own role = names := by
  unfold RoleRecord.iterate at h
  split at h
  · cases h
  · exact Except.ok.inj h

/-- What the loop has found so far. -/
structure Swept (hierarchy rolePerms : RoleRecord) (start : String) (queue visited result : List String) : Prop where
  reached : ∀ role, role ∈ queue ∨ role ∈ visited → ReflTransGen (Inherits hierarchy) start role
  started : start ∈ queue ∨ start ∈ visited
  closed : ∀ role ∈ visited, ∀ r ∈ hierarchy.own role, r ∈ queue ∨ r ∈ visited
  gathered : ∀ p, p ∈ result ↔ ∃ role ∈ visited, p ∈ rolePerms.own role
  safe : ∀ role ∈ visited, Safe hierarchy rolePerms role

namespace Swept

variable {start role : String} {queue visited result : List String}

theorem skip (h : Swept hierarchy rolePerms start (role :: queue) visited result) (hv : role ∈ visited) :
    Swept hierarchy rolePerms start queue visited result := by
  have hdrop : ∀ r, r ∈ role :: queue ∨ r ∈ visited → r ∈ queue ∨ r ∈ visited := by
    rintro r (hr | hr)
    · rcases mem_cons.1 hr with rfl | hr
      · exact .inr hv
      · exact .inl hr
    · exact .inr hr
  exact ⟨fun r hr => h.reached r (hr.imp_left (mem_cons_of_mem _)), hdrop _ h.started,
    fun v hv r hr => hdrop r (h.closed v hv r hr), h.gathered, h.safe⟩

theorem visit (h : Swept hierarchy rolePerms start (role :: queue) visited result) (hsafe : Safe hierarchy rolePerms role) :
    Swept hierarchy rolePerms start (queue ++ (hierarchy.own role).filter fun r => decide (r ∉ role :: visited))
      (role :: visited) (result ∪ rolePerms.own role) := by
  have hrole := h.reached role (.inl mem_cons_self)
  have hkeep : ∀ r, r ∈ role :: queue ∨ r ∈ visited ∨ r ∈ hierarchy.own role →
      r ∈ queue ++ (hierarchy.own role).filter (fun r => decide (r ∉ role :: visited)) ∨ r ∈ role :: visited := by
    intro r hr
    by_cases hr' : r ∈ role :: visited
    · exact .inr hr'
    · simp only [mem_cons, mem_append, mem_filter, decide_eq_true_eq] at *
      tauto
  constructor
  · rintro r (hr | hr)
    · rcases mem_append.1 hr with hr | hr
      · exact h.reached r (.inl (mem_cons_of_mem _ hr))
      · exact hrole.tail (mem_of_mem_filter hr)
    · rcases mem_cons.1 hr with rfl | hr
      · exact hrole
      · exact h.reached r (.inr hr)
  · exact hkeep start (h.started.imp_right .inl)
  · intro v hv r hr
    rcases mem_cons.1 hv with rfl | hv
    · exact hkeep r (.inr (.inr hr))
    · exact hkeep r ((h.closed v hv r hr).imp_right .inl)
  · intro p
    rw [mem_union_iff, h.gathered, exists_mem_cons_iff, or_comm]
  · intro v hv
    rcases mem_cons.1 hv with rfl | hv
    · exact hsafe
    · exact h.safe v hv

end Swept

/-- The loop ends with what the reachable roles carry, or at the first of them that cannot be looked up. -/
theorem flatten_spec {start : String} {queue visited result : List String} (h : Swept hierarchy rolePerms start queue visited result) :
    match flatten hierarchy rolePerms queue visited result with
    | .ok perms => (∀ r, ReflTransGen (Inherits hierarchy) start r → Safe hierarchy rolePerms r) ∧
        ∀ p, p ∈ perms ↔ ∃ r, ReflTransGen (Inherits hierarchy) start r ∧ p ∈ rolePerms.own r
    | .error _ => ∃ r, ReflTransGen (Inherits hierarchy) start r ∧ ¬ Safe hierarchy rolePerms r := by
  fun_induction flatten hierarchy rolePerms queue visited result with
  | case1 visited result =>
    -- the queue is empty, so the visited roles are closed under inheritance
    have hall : ∀ r, ReflTransGen (Inherits hierarchy) start r → r ∈ visited := by
      intro r hr
      induction hr with
      | refl => simpa using h.started
      | tail _ hstep ih => simpa using h.closed _ ih _ hstep
    refine ⟨fun r hr => h.safe r (hall r hr), fun p => (h.gathered p).trans ⟨?_, ?_⟩⟩
    · rintro ⟨r, hr, hp⟩
      exact ⟨r, h.reached r (.inr hr), hp⟩
    · rintro ⟨r, hr, hp⟩
      exact ⟨r, hall r hr, hp⟩
  | case2 visited result role queue hv ih => exact ih (h.skip hv)
  | case3 visited result role queue hv perms _ hinh hperms ih =>
    cases iterate_eq hperms
    cases iterate_eq hinh
    exact ih (h.visit (safe_iff.2 ⟨hperms, hinh⟩))
  | case4 visited result role queue hv e he =>
    exact ⟨role, h.reached role (.inl mem_cons_self), fun hsafe => by simp [(safe_iff.1 hsafe).1] at he⟩
  | case5 visited result role queue hv e he =>
    exact ⟨role, h.reached role (.inl mem_cons_self), fun hsafe => by simp [(safe_iff.1 hsafe).2] at he⟩

theorem flattenPerms_spec (hierarchy rolePerms : RoleRecord) (start : String) : match flattenPerms hierarchy rolePerms start with
    | .ok perms => (∀ r, ReflTransGen (Inherits hierarchy) start r → Safe hierarchy rolePerms r) ∧
        ∀ p, p ∈ perms ↔ ∃ r, ReflTransGen (Inherits hierarchy) start r ∧ p ∈ rolePerms.own r
    | .error _ => ∃ r, ReflTransGen (Inherits hierarchy) start r ∧ ¬ Safe hierarchy rolePerms r := by
  refine flatten_spec ⟨?_, .inl mem_cons_self, by simp, by simp, by simp⟩
  rintro r (hr | hr)
  · rw [mem_singleton.1 hr]
  · cases hr

/-! ## Construction -/

/-- The map has a set for each of the roles and for no other, the one that is computed for it. -/
structure Registered (hierarchy rolePerms : RoleRecord) (roles : List String) (map : OrderedMap String (List String)) : Prop where
  computed : ∀ role perms, map.get role = some perms → flattenPerms hierarchy rolePerms role = .ok perms
  keys : ∀ role, (map.get role).isSome ↔ role ∈ roles

/-- A step that adds a role, or stops at one that has no set. -/
def Adds (hierarchy rolePerms : RoleRecord)
    (add : OrderedMap String (List String) → String → Except String (OrderedMap String (List String))) : Prop :=
  ∀ roles map role, Registered hierarchy rolePerms roles map → match add map role with
    | .ok map' => Registered hierarchy rolePerms (role :: roles) map'
    | .error e => flattenPerms hierarchy rolePerms role = .error e

theorem adds_register : Adds hierarchy rolePerms (register hierarchy rolePerms) := by
  intro roles map role h
  unfold register
  cases hflat : flattenPerms hierarchy rolePerms role with
  | error e => rfl
  | ok perms =>
    refine ⟨fun r perms' hget => ?_, fun r => ?_⟩
    · rw [OrderedMap.get_set] at hget
      split at hget
      · cases hget
        rw [‹r = role›, hflat]
      · exact h.computed r perms' hget
    · rw [OrderedMap.get_set, mem_cons, ← h.keys]
      split <;> simp [*]

theorem adds_unless_has : Adds hierarchy rolePerms
    fun map role => if map.has role then .ok map else register hierarchy rolePerms map role := by
  intro roles map role h
  dsimp only
  by_cases hhas : map.has role
  · have hmem : role ∈ roles := (h.keys role).1 hhas
    rw [if_pos hhas]
    exact ⟨h.computed, fun r => by rw [h.keys, mem_cons, or_iff_right_of_imp (· ▸ hmem)]⟩
  · rw [if_neg hhas]
    exact adds_register roles map role h

theorem Adds.foldlM {add : OrderedMap String (List String) → String → Except String (OrderedMap String (List String))}
    (hadd : Adds hierarchy rolePerms add) (names : List String) :
    ∀ roles map, Registered hierarchy rolePerms roles map → match names.foldlM add map with
      | .ok map' => Registered hierarchy rolePerms (names.reverse ++ roles) map'
      | .error e => ∃ role ∈ names, flattenPerms hierarchy rolePerms role = .error e := by
  induction names with
  | nil => exact fun roles map h => h
  | cons role names ih =>
    intro roles map h
    have hstep := hadd roles map role h
    rw [foldlM_cons]
    cases hmap : add map role with
    | error e =>
      rw [hmap] at hstep
      exact ⟨role, mem_cons_self, hstep⟩
    | ok map' =>
      rw [hmap] at hstep
      have hrest := ih (role :: roles) map' hstep
      simp only [bind, Except.bind]
      split at hrest
      · simpa using hrest
      · obtain ⟨r, hr, he⟩ := hrest
        exact ⟨r, mem_cons_of_mem _ hr, he⟩

variable (hierarchy rolePerms) in
/-- The roles that one of the records has an entry for. -/
def named : List String := hierarchy.map fst ++ rolePerms.map fst

theorem new_spec (hierarchy rolePerms : RoleRecord) : match RbacService.new hierarchy rolePerms with
    | .ok service => ∃ roles, (∀ role, role ∈ roles ↔ role ∈ named hierarchy rolePerms) ∧
        Registered hierarchy rolePerms roles service.rolePerms
    | .error e => ∃ role ∈ named hierarchy rolePerms, flattenPerms hierarchy rolePerms role = .error e := by
  have h₁ := adds_register.foldlM (hierarchy.map fst) [] [] (⟨nofun, by simp⟩ : Registered hierarchy rolePerms [] [])
  unfold RbacService.new
  cases hmap : (hierarchy.map fst).foldlM (register hierarchy rolePerms) [] with
  | error e =>
    rw [hmap] at h₁
    obtain ⟨role, hrole, he⟩ := h₁
    exact ⟨role, mem_append_left _ hrole, he⟩
  | ok map =>
    rw [hmap] at h₁
    have h₂ := adds_unless_has.foldlM (rolePerms.map fst) _ map h₁
    simp only [bind, Except.bind]
    split at h₂
    · next map' hmap' =>
      rw [hmap']
      exact ⟨_, fun role => by simp [named, or_comm], h₂⟩
    · next e hmap' =>
      obtain ⟨role, hrole, he⟩ := h₂
      rw [hmap']
      exact ⟨role, mem_append_right _ hrole, he⟩

theorem named_of_step {r p : String} (h : Inherits hierarchy role r ∨ p ∈ rolePerms.own role) : role ∈ named hierarchy rolePerms := by
  by_contra hnot
  rw [named, mem_append, not_or] at hnot
  rcases h with h | h
  · rw [Inherits, own_of_not_mem hnot.1] at h
    cases h
  · rw [own_of_not_mem hnot.2] at h
    cases h

theorem hasRole_iff {service : RbacService} {userRoles : List String} {r : String} : service.hasRole userRoles r = true ↔ r ∈ userRoles := by
  unfold RbacService.hasRole isInherited
  by_cases h : r ∈ userRoles <;> simp [h]

theorem hasPermission_iff {service : RbacService} (hnew : RbacService.new hierarchy rolePerms = .ok service)
    {userRoles : List String} {p : String} :
    service.hasPermission userRoles p = true ↔ ∃ role, Reaches hierarchy userRoles role ∧ p ∈ rolePerms.own role := by
  have hspec := new_spec hierarchy rolePerms
  rw [hnew] at hspec
  obtain ⟨roles, hroles, hreg⟩ := hspec
  have hget : ∀ role perms, service.rolePerms.get role = some perms →
      (p ∈ perms ↔ ∃ r, ReflTransGen (Inherits hierarchy) role r ∧ p ∈ rolePerms.own r) := by
    intro role perms h
    have hflat := flattenPerms_spec hierarchy rolePerms role
    rw [hreg.computed role perms h] at hflat
    exact hflat.2 p
  unfold RbacService.hasPermission
  rw [any_eq_true]
  constructor
  · rintro ⟨role, hrole, h⟩
    cases hperms : service.rolePerms.get role with
    | none => simp [hperms] at h
    | some perms =>
      obtain ⟨r, hr, hp⟩ := (hget role perms hperms).1 (by simpa [hperms] using h)
      exact ⟨r, ⟨role, hrole, hr⟩, hp⟩
  · rintro ⟨r, ⟨role, hrole, hr⟩, hp⟩
    -- a role without an entry inherits nothing and carries nothing
    have hnamed : role ∈ named hierarchy rolePerms := by
      rcases ReflTransGen.cases_head hr with rfl | ⟨r', hstep, -⟩
      · exact named_of_step (r := "") (.inr hp)
      · exact named_of_step (p := "") (.inl hstep)
    obtain ⟨perms, hperms⟩ := Option.isSome_iff_exists.1 ((hreg.keys role).2 ((hroles role).2 hnamed))
    exact ⟨role, hrole, by simpa [hperms] using (hget role perms hperms).2 ⟨r, hr, hp⟩⟩

theorem new_ok_iff : (∃ service, RbacService.new hierarchy rolePerms = .ok service) ↔
    ∀ role ∈ named hierarchy rolePerms, ∀ r, ReflTransGen (Inherits hierarchy) role r → Safe hierarchy rolePerms r := by
  have hspec := new_spec hierarchy rolePerms
  have hflat := flattenPerms_spec hierarchy rolePerms
  constructor
  · rintro ⟨service, hnew⟩ role hrole
    rw [hnew] at hspec
    obtain ⟨roles, hroles, hreg⟩ := hspec
    obtain ⟨perms, hperms⟩ := Option.isSome_iff_exists.1 ((hreg.keys role).2 ((hroles role).2 hrole))
    have hrole := hflat role
    rw [hreg.computed role perms hperms] at hrole
    exact hrole.1
  · intro hsafe
    cases hnew : RbacService.new hierarchy rolePerms with
    | ok service => exact ⟨service, rfl⟩
    | error e =>
      rw [hnew] at hspec
      obtain ⟨role, hrole, he⟩ := hspec
      have hrole' := hflat role
      rw [he] at hrole'
      obtain ⟨r, hr, hnot⟩ := hrole'
      exact absurd (hsafe role hrole r hr) hnot

/-! ## Roles and permissions are reachability -/

/-- The service can be made, and answers by what the roles reach; more roles never have less. -/
def Reachability (hierarchy rolePerms : RoleRecord) (userRoles : List String) (r p : String) : Prop :=
  ∃ service, RbacService.new hierarchy rolePerms = .ok service ∧ (service.hasRole userRoles r = true ↔ Reaches hierarchy userRoles r) ∧
    (service.hasPermission userRoles p = true ↔ ∃ role, Reaches hierarchy userRoles role ∧ p ∈ rolePerms.own role) ∧
    ∀ more, userRoles ⊆ more → (service.hasRole userRoles r = true → service.hasRole more r = true) ∧
      (service.hasPermission userRoles p = true → service.hasPermission more p = true)

/-- The answers are right iff the service can be made and a required role is only reachable where it is named. -/
theorem reachability_iff (hierarchy rolePerms : RoleRecord) (userRoles : List String) (r p : String) :
    Reachability hierarchy rolePerms userRoles r p ↔ (∀ role ∈ named hierarchy rolePerms, ∀ r', ReflTransGen (Inherits hierarchy) role r' →
        Safe hierarchy rolePerms r') ∧ (Reaches hierarchy userRoles r → r ∈ userRoles) := by
  rw [← new_ok_iff]
  constructor
  · rintro ⟨service, hnew, hrole, -⟩
    exact ⟨⟨service, hnew⟩, fun h => hasRole_iff.1 (hrole.2 h)⟩
  · rintro ⟨⟨service, hnew⟩, hnamed⟩
    refine ⟨service, hnew, hasRole_iff.trans ⟨fun h => ⟨r, h, .refl⟩, hnamed⟩, hasPermission_iff hnew, ?_⟩
    intro more hmore
    refine ⟨fun h => hasRole_iff.2 (hmore (hasRole_iff.1 h)), fun h => ?_⟩
    obtain ⟨role, ⟨userRole, hmem, hr⟩, hp⟩ := (hasPermission_iff hnew).1 h
    exact (hasPermission_iff hnew).2 ⟨role, ⟨userRole, hmore hmem, hr⟩, hp⟩

/-- An admin inherits the role of an editor, and does not have it. -/
theorem rbac_counterexample : ¬ ∀ hierarchy rolePerms userRoles r p, Reachability hierarchy rolePerms userRoles r p := by
  intro h
  obtain ⟨service, -, hrole, -⟩ := h [("admin", ["editor"])] [] ["admin"] "editor" ""
  have hreach : Reaches [("admin", ["editor"])] ["admin"] "editor" :=
    ⟨"admin", mem_singleton.2 rfl, .single (by decide +kernel : "editor" ∈ RoleRecord.own [("admin", ["editor"])] "admin")⟩
  exact absurd (hasRole_iff.1 (hrole.2 hreach)) (by decide)

end StreetJS.Auth
