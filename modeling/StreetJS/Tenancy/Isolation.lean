/-
The isolation of tenants: what every run of the pool registry keeps whose steps meet the guard, and with it the
runs of the requests that share repositories and the registry.
-/
import StreetJS.Tenancy.TenantScoped
import StreetJS.Tenancy.PoolRegistry

namespace StreetJS.Tenancy

open StreetJS.Lib TenantPoolRegistry List OrderedMap

/-! ## The registry -/

variable {cfg : RegistryConfig} {s : TenantPoolRegistry}

/-- The pool that a tenant with this row has to have. -/
def Held (cfg : RegistryConfig) (pools : List DedicatedPool) (row : TenantRow) (pool : PoolRef) : Prop :=
  match row.dedicated with
  | none => pool = .master
  | some connectionString => ∃ i p, pool = .dedicated i ∧ pools[i]? = some p ∧ p.closed = false ∧
    ∀ e, p.options.endpoint = some e → e = cfg.target connectionString

/-- What a call under way has found out. -/
def PhaseOk (cfg : RegistryConfig) (s : TenantPoolRegistry) (tenantId : String) : CallPhase → Prop
  | .lookup => True
  | .found row => row = (s.row tenantId).filter TenantRow.active
  | .importing options => ∃ row connectionString, s.row tenantId = some row ∧ row.active = true ∧
    row.dedicated = some connectionString ∧ ∀ e, options.endpoint = some e → e = cfg.target connectionString
  | .built pool => (∃ row, s.row tenantId = some row ∧ row.active = true ∧ Held cfg s.pools row pool) ∧
    ∀ i, pool = .dedicated i → ¬ s.Registered i
  | .returned => True

structure RegistrySound (cfg : RegistryConfig) (s : TenantPoolRegistry) : Prop where
  keys : (s.entries.map Prod.fst).Nodup
  entries : ∀ tenantId entry, s.entries.get tenantId = some entry →
    ∃ row, s.row tenantId = some row ∧ row.active = true ∧ Held cfg s.pools row entry.pool
  distinct : ∀ a b entry entry' (i : Nat), s.entries.get a = some entry →
    s.entries.get b = some entry' → entry.pool = .dedicated i → entry'.pool = .dedicated i → a = b
  calls : ∀ (k : Nat) call, s.calls[k]? = some call → call.phase ≠ .returned →
    call.before = s.row call.tenantId ∧ PhaseOk cfg s call.tenantId call.phase
  built : ∀ (j k : Nat) call call' i, s.calls[j]? = some call → s.calls[k]? = some call' →
    call.phase = .built (.dedicated i) → call'.phase = .built (.dedicated i) → j = k
  served : ∀ x ∈ s.served, x.Good cfg

variable {row : TenantRow} {pool : PoolRef}

theorem Held.fits {pools : List DedicatedPool} (h : Held cfg pools row pool)
    (hs : s.pools = pools) : Fits cfg row pool ((s.pool? pool).map DedicatedPool.options) ∧
      ((s.pool? pool).map DedicatedPool.closed).getD false = false := by
  unfold Held at h
  cases hd : row.dedicated with
  | none =>
    rw [hd] at h
    obtain rfl : pool = .master := h
    exact ⟨fun connectionString hc => (by rw [hd] at hc; cases hc), rfl⟩
  | some connectionString =>
    rw [hd] at h
    obtain ⟨i, p, rfl, hp, hopen, htarget⟩ := h
    have hpool : s.pool? (.dedicated i) = some p := by rw [TenantPoolRegistry.pool?, hs, hp]
    refine ⟨fun connectionString' hc => ⟨(by rintro ⟨⟩), fun o ho e he => ?_⟩, by rw [hpool]; exact hopen⟩
    rw [hd] at hc
    cases hc
    rw [hpool] at ho
    cases ho
    exact htarget e he

theorem Held.of_pools {pools pools' : List DedicatedPool} (h : Held cfg pools row pool)
    (hsame : ∀ (i : Nat) p, pool = .dedicated i → pools[i]? = some p → pools'[i]? = some p) :
    Held cfg pools' row pool := by
  unfold Held at h ⊢
  split at h
  · exact h
  · obtain ⟨i, p, hpool, hp, hrest⟩ := h
    exact ⟨i, p, hpool, hsame i p hpool hp, hrest⟩

variable {tenantId : String}

theorem RegistrySound.serve (h : RegistrySound cfg s) {before : Option TenantRow} (hbefore : before = s.row tenantId)
    (hheld : ∃ row, s.row tenantId = some row ∧ row.active = true ∧ Held cfg s.pools row pool) :
    RegistrySound cfg (s.serve tenantId pool before) := by
  refine { h with served := fun x hx => ?_ }
  rcases mem_append.1 hx with hx | hx
  · exact h.served x hx
  · obtain ⟨row, hrow, hactive, hheld⟩ := hheld
    obtain ⟨hfits, hopen⟩ := hheld.fits (s := s) rfl
    rw [mem_singleton.1 hx]
    exact ⟨⟨row, hbefore.trans hrow, hactive, hfits⟩, ⟨row, hrow, hactive, hfits⟩, hopen⟩

variable {now : Int} {i : Nat}

theorem registered_setEntry (hold : ∀ entry, s.entries.get tenantId = some entry → entry.pool = pool) :
    (s.setEntry tenantId pool now).Registered i ↔ s.Registered i ∨ pool = .dedicated i := by
  unfold Registered setEntry
  constructor
  · rintro ⟨a, entry, hentry, hi⟩
    rw [get_set] at hentry
    split at hentry
    · cases hentry
      exact Or.inr hi
    · exact Or.inl ⟨a, entry, hentry, hi⟩
  · rintro (⟨a, entry, hentry, hi⟩ | hi)
    · by_cases ha : a = tenantId
      · subst ha
        exact ⟨a, ⟨pool, now⟩, by rw [get_set, if_pos rfl], (hold entry hentry) ▸ hi⟩
      · exact ⟨a, entry, by rw [get_set, if_neg ha]; exact hentry, hi⟩
    · exact ⟨tenantId, ⟨pool, now⟩, by rw [get_set, if_pos rfl], hi⟩

variable {phase : CallPhase}

theorem PhaseOk.congr {t : TenantPoolRegistry} (h : PhaseOk cfg s tenantId phase) (hrow : t.row tenantId = s.row tenantId)
    (hpools : ∀ (i : Nat) p, s.pools[i]? = some p → ¬ s.Registered i → t.pools[i]? = some p)
    (hregistered : ∀ i, phase = .built (.dedicated i) → t.Registered i → s.Registered i) :
    PhaseOk cfg t tenantId phase := by
  cases phase with
  | lookup => trivial
  | returned => trivial
  | found row => exact Eq.trans h (by rw [hrow])
  | importing options =>
    obtain ⟨row, connectionString, hr, hrest⟩ := h
    exact ⟨row, connectionString, hrow.trans hr, hrest⟩
  | built pool =>
    obtain ⟨⟨row, hr, hactive, hheld⟩, hfresh⟩ := h
    refine ⟨⟨row, hrow.trans hr, hactive, hheld.of_pools fun i p hi hp => hpools i p hp (hfresh i hi)⟩, ?_⟩
    exact fun i hi ht => hfresh i hi (hregistered i (by rw [hi]) ht)

variable {call : PoolCall}

section

variable (h : RegistrySound cfg s)
include h

theorem RegistrySound.setPhase (hi : s.calls[i]? = some call) (hcall : call.phase ≠ .returned) (hok : PhaseOk cfg s call.tenantId phase)
    (hnew : ∀ j, phase ≠ .built (.dedicated j)) : RegistrySound cfg (s.setPhase i call phase) := by
  refine { h with calls := fun k c hc hphase => ?_, built := fun j k c c' x hc hc' hx hx' => ?_ }
  · rcases getElem?_set_cases hc with ⟨-, rfl⟩ | ⟨-, hc⟩
    · exact ⟨(h.calls i call hi hcall).1, hok⟩
    · exact h.calls k c hc hphase
  · rcases getElem?_set_cases hc with ⟨-, rfl⟩ | ⟨-, hc⟩
    · exact absurd hx (hnew x)
    · rcases getElem?_set_cases hc' with ⟨-, rfl⟩ | ⟨-, hc'⟩
      · exact absurd hx' (hnew x)
      · exact h.built j k c c' x hc hc' hx hx'

theorem RegistrySound.setEntry (now : Int) (hold : ∀ entry, s.entries.get tenantId = some entry → entry.pool = pool)
    (hheld : ∃ row, s.row tenantId = some row ∧ row.active = true ∧ Held cfg s.pools row pool)
    (hfree : ∀ a entry i, s.entries.get a = some entry → entry.pool = .dedicated i → pool = .dedicated i → a = tenantId)
    (hbuilt : ∀ call ∈ s.calls, ∀ i, call.phase = .built (.dedicated i) → pool ≠ .dedicated i) :
    RegistrySound cfg (s.setEntry tenantId pool now) := by
  refine ⟨keys_set_nodup h.keys _ _, fun a entry ha => ?_, fun a b e e' i ha hb hi hi' => ?_, fun k call hc hphase => ?_, h.built, h.served⟩
  · rw [show (s.setEntry tenantId pool now).entries = s.entries.set tenantId ⟨pool, now⟩ from rfl, get_set] at ha
    split at ha
    · rename_i heq
      cases ha
      exact heq ▸ hheld
    · exact h.entries a entry ha
  · rw [show (s.setEntry tenantId pool now).entries = s.entries.set tenantId ⟨pool, now⟩ from rfl, get_set] at ha hb
    split at ha
    · rename_i heq
      cases ha
      split at hb
      · rename_i heq'
        rw [heq, heq']
      · rw [heq, hfree b e' i hb hi' hi]
    · split at hb
      · rename_i heq'
        cases hb
        rw [heq', hfree a e i ha hi hi']
      · exact h.distinct a b e e' i ha hb hi hi'
  · obtain ⟨hbefore, hok⟩ := h.calls k call hc hphase
    refine ⟨hbefore, hok.congr rfl (fun i p hp _ => hp) fun i hi hr => ?_⟩
    rcases (registered_setEntry hold).1 hr with hr | hr
    · exact hr
    · exact absurd hr (hbuilt call (mem_of_getElem? hc) i hi)

theorem RegistrySound.getPool (tenantId : String) (now : Int) : RegistrySound cfg (s.getPool tenantId now) := by
  unfold TenantPoolRegistry.getPool
  cases hget : s.entries.get tenantId with
  | some existing =>
    have hheld := h.entries tenantId existing hget
    have hold : ∀ entry, s.entries.get tenantId = some entry → entry.pool = existing.pool := fun entry he => by
      rw [hget] at he
      rw [← Option.some.inj he]
    refine RegistrySound.serve (h.setEntry now hold hheld (fun a entry i ha hi hp => ?_) fun call hc i hphase hp => ?_) rfl hheld
    · exact h.distinct a tenantId entry existing i ha hget hi hp
    · obtain ⟨k, hk⟩ := mem_iff_getElem?.1 hc
      have hok := (h.calls k call hk (by rw [hphase]; rintro ⟨⟩)).2
      rw [hphase] at hok
      exact hok.2 i rfl ⟨tenantId, existing, hget, hp⟩
  | none =>
    refine { h with calls := fun k call hc hphase => ?_, built := fun j k c c' i hc hc' hi hi' => ?_ }
    · rcases getElem?_concat_cases hc with hc | ⟨-, rfl⟩
      · exact h.calls k call hc hphase
      · exact ⟨rfl, trivial⟩
    · rcases getElem?_concat_cases hc with hc | ⟨-, rfl⟩
      · rcases getElem?_concat_cases hc' with hc' | ⟨-, rfl⟩
        · exact h.built j k c c' i hc hc' hi hi'
        · cases hi'
      · cases hi

theorem RegistrySound.answer (i : Nat) : RegistrySound cfg (s.answer i) := by
  unfold TenantPoolRegistry.answer
  cases hi : s.calls[i]? with
  | none => exact h
  | some call =>
    dsimp only
    cases hphase : call.phase with
    | lookup => exact h.setPhase hi (by rw [hphase]; rintro ⟨⟩) rfl (by rintro j ⟨⟩)
    | _ => exact h

theorem RegistrySound.found (hi : s.calls[i]? = some call) (hphase : call.phase = .found (some row)) :
    call.before = s.row call.tenantId ∧ s.row call.tenantId = some row ∧ row.active = true := by
  obtain ⟨hbefore, hok⟩ := h.calls i call hi (by rw [hphase]; rintro ⟨⟩)
  rw [hphase] at hok
  have hrow : some row = (s.row call.tenantId).filter TenantRow.active := hok
  obtain ⟨hrow, hactive⟩ := Option.filter_eq_some_iff.1 hrow.symm
  exact ⟨hbefore, hrow, hactive⟩

theorem RegistrySound.entry_master (hrow : s.row tenantId = some row) (hd : row.dedicated = none) (entry : PoolEntry)
    (hentry : s.entries.get tenantId = some entry) : entry.pool = .master := by
  obtain ⟨row', hrow', -, hheld⟩ := h.entries tenantId entry hentry
  rw [hrow] at hrow'
  cases hrow'
  rw [Held, hd] at hheld
  exact hheld

theorem RegistrySound.resume (hg : RegistryGuard cfg s (.resume i now)) : RegistrySound cfg (s.resume cfg i now) := by
  unfold TenantPoolRegistry.resume
  cases hi : s.calls[i]? with
  | none => exact h
  | some call =>
    dsimp only
    cases hphase : call.phase with
    | found answer =>
      have hcall : call.phase ≠ .returned := by rw [hphase]; rintro ⟨⟩
      cases answer with
      | none => exact h.setPhase hi hcall trivial (by rintro j ⟨⟩)
      | some row =>
        obtain ⟨hbefore, hrow, hactive⟩ := h.found hi hphase
        dsimp only
        cases hd : row.dedicated with
        | none =>
          have hheld : Held cfg s.pools row .master := by rw [Held, hd]
          have hreturned : PhaseOk cfg s call.tenantId .returned := trivial
          refine RegistrySound.serve (RegistrySound.setEntry (h.setPhase hi hcall hreturned (by rintro j ⟨⟩)) now
            (h.entry_master hrow hd) ⟨row, hrow, hactive, hheld⟩ ?_ ?_) hbefore ⟨row, hrow, hactive, hheld⟩
          · rintro a entry j - - ⟨⟩
          · rintro c - j - ⟨⟩
        | some connectionString =>
          obtain ⟨url, hurl, htarget⟩ := hg call row connectionString hi hphase hd
          simp only [hurl]
          exact h.setPhase hi hcall ⟨row, connectionString, hrow, hactive, hd, htarget⟩ (by rintro j ⟨⟩)
    | _ => exact h

theorem RegistrySound.registered_lt (hi : s.Registered i) : i < s.pools.length := by
  obtain ⟨tenantId, entry, hentry, hpool⟩ := hi
  obtain ⟨row, -, -, hheld⟩ := h.entries tenantId entry hentry
  unfold Held at hheld
  split at hheld
  · rw [hpool] at hheld
    cases hheld
  · obtain ⟨j, p, hj, hp, -⟩ := hheld
    rw [hpool] at hj
    cases hj
    exact (lt_length hp)

/-- A pool is made for a call. -/
theorem RegistrySound.imported {succeeds : Bool} (hg : RegistryGuard cfg s (.imported i succeeds)) :
    RegistrySound cfg (s.imported i succeeds) := by
  obtain rfl : succeeds = true := hg
  unfold TenantPoolRegistry.imported
  cases hi : s.calls[i]? with
  | none => exact h
  | some call =>
    dsimp only
    cases hphase : call.phase with
    | importing options =>
      have hcall : call.phase ≠ .returned := by rw [hphase]; rintro ⟨⟩
      obtain ⟨hbefore, hok⟩ := h.calls i call hi hcall
      rw [hphase] at hok
      obtain ⟨row, connectionString, hrow, hactive, hd, htarget⟩ := hok
      have hgrow : ∀ {row : TenantRow} {pool : PoolRef}, Held cfg s.pools row pool →
          Held cfg (s.pools ++ [{ options := options }]) row pool := fun hheld => hheld.of_pools fun j p _ hp => by
        rw [getElem?_append_left (lt_length hp)]
        exact hp
      dsimp only
      rw [if_pos rfl]
      refine ⟨h.keys, fun a entry ha => ?_, h.distinct, fun k c hc hc' => ?_, fun j k c c' x hc hc' hx hx' => ?_, h.served⟩
      · obtain ⟨row', hrow', hactive', hheld⟩ := h.entries a entry ha
        exact ⟨row', hrow', hactive', hgrow hheld⟩
      · rcases getElem?_set_cases hc with ⟨-, rfl⟩ | ⟨-, hc⟩
        · refine ⟨hbefore, ⟨row, hrow, hactive, ?_⟩, fun j hj hr => ?_⟩
          · rw [Held, hd]
            exact ⟨s.pools.length, _, rfl, getElem?_concat_length, rfl, htarget⟩
          · cases hj
            exact absurd (h.registered_lt hr) (lt_irrefl _)
        · obtain ⟨hb, hok⟩ := h.calls k c hc hc'
          refine ⟨hb, hok.congr rfl (fun j p hp _ => ?_) fun j _ hr => hr⟩
          rw [getElem?_append_left (lt_length hp)]
          exact hp
      · -- the new pool is in no other hand
        have hother : ∀ (k : Nat) c, s.calls[k]? = some c → c.phase ≠ .built (.dedicated s.pools.length) :=
          fun k c hc hbuilt => by
            have hok := (h.calls k c hc (by rw [hbuilt]; rintro ⟨⟩)).2
            rw [hbuilt] at hok
            obtain ⟨⟨row', -, -, hheld⟩, -⟩ := hok
            unfold Held at hheld
            split at hheld
            · cases hheld
            · obtain ⟨j, p, hj, hp, -⟩ := hheld
              cases hj
              exact absurd (lt_length hp) (lt_irrefl _)
        rcases getElem?_set_cases hc with ⟨rfl, rfl⟩ | ⟨-, hc⟩
        · rcases getElem?_set_cases hc' with ⟨rfl, rfl⟩ | ⟨-, hc'⟩
          · rfl
          · cases hx
            exact absurd hx' (hother k c' hc')
        · rcases getElem?_set_cases hc' with ⟨-, rfl⟩ | ⟨-, hc'⟩
          · cases hx'
            exact absurd hx (hother j c hc)
          · exact h.built j k c c' x hc hc' hx hx'
    | _ => exact h

theorem RegistrySound.register (hg : RegistryGuard cfg s (.register i now)) : RegistrySound cfg (s.register i now) := by
  unfold TenantPoolRegistry.register
  cases hi : s.calls[i]? with
  | none => exact h
  | some call =>
    dsimp only
    cases hphase : call.phase with
    | built pool =>
      have hcall : call.phase ≠ .returned := by rw [hphase]; rintro ⟨⟩
      have hnone := hg call hi ⟨pool, hphase⟩
      obtain ⟨hbefore, hok⟩ := h.calls i call hi hcall
      rw [hphase] at hok
      obtain ⟨hheld, hfresh⟩ := hok
      have hreturned : PhaseOk cfg s call.tenantId .returned := trivial
      refine RegistrySound.serve (RegistrySound.setEntry (h.setPhase hi hcall hreturned (by rintro j ⟨⟩)) now
        (fun entry he => ?_) hheld (fun a entry j ha hj hp => ?_) fun c hc j hc' hp => ?_) hbefore hheld
      · rw [show (s.setPhase i call .returned).entries = s.entries from rfl, hnone] at he
        cases he
      · exact absurd ⟨a, entry, ha, hj⟩ (hfresh j hp)
      · -- another call has another pool in hand
        obtain ⟨k, hk⟩ := mem_iff_getElem?.1 hc
        rcases getElem?_set_cases hk with ⟨-, rfl⟩ | ⟨hne, hk⟩
        · cases hc'
        · exact hne (h.built k i c call j hk hi hc' (by rw [hphase, hp]))
    | _ => exact h

theorem get_releaseIdle {maxIdleMs : Int} {entry : PoolEntry} : OrderedMap.get (s.releaseIdle now maxIdleMs).entries tenantId = some entry ↔
      s.entries.get tenantId = some entry ∧ idle (now - maxIdleMs) entry = false := by
  have hget := get_filterMap (fun e : PoolEntry => if idle (now - maxIdleMs) e then none else some e) h.keys tenantId
  show OrderedMap.get (s.entries.filterMap _) tenantId = some entry ↔ _
  rw [hget, Option.bind_eq_some_iff]
  constructor
  · rintro ⟨e, he, hif⟩
    split at hif
    · cases hif
    · cases hif
      rename_i hidle
      exact ⟨he, Bool.not_eq_true _ ▸ hidle⟩
  · rintro ⟨he, hidle⟩
    exact ⟨entry, he, by rw [hidle]; rfl⟩

end

theorem releaseIdle_pools (now maxIdleMs : Int) (i : Nat) : ((s.releaseIdle now maxIdleMs).pools[i]? = s.pools[i]? ∧
      ∀ e ∈ s.entries, e.2.pool = .dedicated i → idle (now - maxIdleMs) e.2 = false) ∨
      (∃ e ∈ s.entries, e.2.pool = .dedicated i ∧ idle (now - maxIdleMs) e.2 = true) ∧
        ∀ p, (s.releaseIdle now maxIdleMs).pools[i]? = some p → p.closed = true := by
  unfold TenantPoolRegistry.releaseIdle
  rw [getElem?_mapIdx]
  by_cases hany : (s.entries.filter fun e => idle (now - maxIdleMs) e.2).any fun e => e.2.pool = .dedicated i
  · obtain ⟨e, he, hpool⟩ := any_eq_true.1 hany
    refine Or.inr ⟨⟨e, (mem_filter.1 he).1, of_decide_eq_true hpool, (mem_filter.1 he).2⟩, fun p hp => ?_⟩
    simp only [hany, if_true, Option.map_eq_some_iff] at hp
    obtain ⟨p', -, rfl⟩ := hp
    rfl
  · refine Or.inl ⟨by simp only [hany, Bool.false_eq_true, if_false, Option.map_id'], fun e he hpool => ?_⟩
    cases hidle : idle (now - maxIdleMs) e.2 with
    | false => rfl
    | true => exact absurd (any_eq_true.2 ⟨e, mem_filter.2 ⟨he, hidle⟩, decide_eq_true hpool⟩) hany

theorem RegistrySound.releaseIdle (h : RegistrySound cfg s) (now maxIdleMs : Int) : RegistrySound cfg (s.releaseIdle now maxIdleMs) := by
  -- a pool of no idle entry stays open
  have hpool : ∀ (i : Nat) p, s.pools[i]? = some p → (∀ a entry, s.entries.get a = some entry →
      entry.pool = .dedicated i → idle (now - maxIdleMs) entry = false) →
        (s.releaseIdle now maxIdleMs).pools[i]? = some p := fun i p hp hbusy => by
    rcases releaseIdle_pools (s := s) now maxIdleMs i with ⟨hsame, -⟩ | ⟨⟨e, he, hi, hidle⟩, -⟩
    · rw [hsame, hp]
    · rw [hbusy e.1 e.2 (get_of_mem h.keys he) hi] at hidle
      cases hidle
  refine ⟨?_, fun a entry ha => ?_, fun a b e e' i ha hb => ?_, fun k call hc hphase => ?_, h.built, h.served⟩
  · exact h.keys.sublist (keys_filterMap_sublist (fun e : PoolEntry => if idle (now - maxIdleMs) e then none else some e) s.entries)
  · obtain ⟨ha, hidle⟩ := (get_releaseIdle h).1 ha
    obtain ⟨row, hrow, hactive, hheld⟩ := h.entries a entry ha
    refine ⟨row, hrow, hactive, hheld.of_pools fun i p hi hp => hpool i p hp fun b entry' hb hi' => ?_⟩
    obtain rfl := h.distinct a b entry entry' i ha hb hi hi'
    rw [ha] at hb
    cases hb
    exact hidle
  · exact h.distinct a b e e' i ((get_releaseIdle h).1 ha).1 ((get_releaseIdle h).1 hb).1
  · obtain ⟨hbefore, hok⟩ := h.calls k call hc hphase
    refine ⟨hbefore, hok.congr rfl (fun i p hp hfree => ?_) fun i _ hr => ?_⟩
    · exact hpool i p hp fun a entry ha hi => absurd ⟨a, entry, ha, hi⟩ hfree
    · obtain ⟨a, entry, ha, hi⟩ := hr
      exact ⟨a, entry, ((get_releaseIdle h).1 ha).1, hi⟩

theorem RegistrySound.tenantChanged (h : RegistrySound cfg s) {tenants : OrderedMap String TenantRow}
    (hother : ∀ a, a ≠ tenantId → tenants.get a = s.tenants.get a)
    (hnone : s.entries.get tenantId = none) (hidle : ¬ s.Underway tenantId) :
    RegistrySound cfg { s with tenants := tenants } := by
  refine { h with entries := fun a entry ha => ?_, calls := fun k call hc hphase => ?_ }
  · have hne : a ≠ tenantId := fun heq => by
      rw [heq, hnone] at ha
      cases ha
    obtain ⟨row, hrow, hrest⟩ := h.entries a entry ha
    exact ⟨row, (hother a hne).trans hrow, hrest⟩
  · have hne : call.tenantId ≠ tenantId := fun heq => hidle ⟨call, mem_of_getElem? hc, heq, hphase⟩
    obtain ⟨hbefore, hok⟩ := h.calls k call hc hphase
    exact ⟨hbefore.trans (hother _ hne).symm, hok.congr (hother _ hne) (fun i p hp _ => hp) fun i _ hr => hr⟩

theorem RegistrySound.step (s : TenantPoolRegistry) (ev : RegistryEvent) (h : RegistrySound cfg s)
    (hg : RegistryGuard cfg s ev) : RegistrySound cfg (s.step cfg ev) := by
  cases ev with
  | getPool tenantId now => exact h.getPool tenantId now
  | answer i => exact h.answer i
  | resume i now => exact h.resume hg
  | imported i succeeds => exact h.imported hg
  | register i now => exact h.register hg
  | releaseIdle now maxIdleMs => exact h.releaseIdle now maxIdleMs
  | tenantChanged tenantId row =>
    cases row with
    | none =>
      exact h.tenantChanged (fun a ha => by rw [get_delete, if_neg ha]) hg.1 hg.2
    | some row =>
      exact h.tenantChanged (fun a ha => by rw [get_set, if_neg ha]) hg.1 hg.2

/-! ## No pool is forgotten -/

/-- Every pool is in the registry, closed, or in the hand of a call that is about to register it. -/
def NoneForgotten (s : TenantPoolRegistry) : Prop :=
  ∀ (i : Nat) pool, s.pools[i]? = some pool → s.Registered i ∨ pool.closed = true ∨ s.InHand i

theorem inHand_setPhase {j : Nat} (hi : s.calls[i]? = some call)
    (hcall : call.phase ≠ .built (.dedicated j)) (hj : s.InHand j) : (s.setPhase i call phase).InHand j := by
  obtain ⟨c, hc, pool, hphase, rfl⟩ := hj
  obtain ⟨k, hk⟩ := mem_iff_getElem?.1 hc
  have hne : i ≠ k := fun heq => by
    rw [heq, hk] at hi
    cases hi
    exact hcall hphase
  exact ⟨c, mem_iff_getElem?.2 ⟨k, by rw [← hk]; exact getElem?_set_ne hne⟩, _, hphase, rfl⟩

section

variable (h : NoneForgotten s)
include h

theorem NoneForgotten.setPhase (hi : s.calls[i]? = some call) (hcall : ∀ j, call.phase ≠ .built (.dedicated j)) :
    NoneForgotten (s.setPhase i call phase) := fun j pool hj => by
  rcases h j pool hj with hr | hc | hh
  · exact Or.inl hr
  · exact Or.inr (Or.inl hc)
  · exact Or.inr (Or.inr (inHand_setPhase hi (hcall j) hh))

theorem NoneForgotten.setEntry (hold : ∀ entry, s.entries.get tenantId = some entry → entry.pool = pool) :
    NoneForgotten (s.setEntry tenantId pool now) := fun j p hj => by
  rcases h j p hj with hr | hrest
  · exact Or.inl ((registered_setEntry hold).2 (Or.inl hr))
  · exact Or.inr hrest

theorem NoneForgotten.getPool (tenantId : String) (now : Int) : NoneForgotten (s.getPool tenantId now) := by
  unfold TenantPoolRegistry.getPool
  cases hget : s.entries.get tenantId with
  | some existing =>
    exact h.setEntry fun entry he => by
      rw [hget] at he
      rw [← Option.some.inj he]
  | none =>
    intro j p hj
    rcases h j p hj with hr | hc | ⟨c, hc, hh⟩
    · exact Or.inl hr
    · exact Or.inr (Or.inl hc)
    · exact Or.inr (Or.inr ⟨c, mem_append_left _ hc, hh⟩)

theorem NoneForgotten.answer (i : Nat) : NoneForgotten (s.answer i) := by
  unfold TenantPoolRegistry.answer
  cases hi : s.calls[i]? with
  | none => exact h
  | some call =>
    dsimp only
    cases hphase : call.phase with
    | lookup => exact h.setPhase hi (by rw [hphase]; rintro j ⟨⟩)
    | _ => exact h

theorem NoneForgotten.resume (hs : RegistrySound cfg s) (i : Nat) (now : Int) : NoneForgotten (s.resume cfg i now) := by
  unfold TenantPoolRegistry.resume
  cases hi : s.calls[i]? with
  | none => exact h
  | some call =>
    dsimp only
    cases hphase : call.phase with
    | found answer =>
      have hcall : ∀ j, call.phase ≠ .built (.dedicated j) := by rw [hphase]; rintro j ⟨⟩
      cases answer with
      | none => exact h.setPhase hi hcall
      | some row =>
        dsimp only
        cases hd : row.dedicated with
        | none =>
          exact NoneForgotten.setEntry (h.setPhase hi hcall) (hs.entry_master (hs.found hi hphase).2.1 hd)
        | some connectionString =>
          dsimp only
          cases cfg.parseUrl connectionString with
          | none => exact h.setPhase hi hcall
          | some url => exact h.setPhase hi hcall
    | _ => exact h

theorem NoneForgotten.imported (i : Nat) (succeeds : Bool) : NoneForgotten (s.imported i succeeds) := by
  unfold TenantPoolRegistry.imported
  cases hi : s.calls[i]? with
  | none => exact h
  | some call =>
    dsimp only
    cases hphase : call.phase with
    | importing options =>
      have hcall : ∀ j, call.phase ≠ .built (.dedicated j) := by rw [hphase]; rintro j ⟨⟩
      cases succeeds with
      | false => exact h.setPhase hi hcall
      | true =>
        have hlt := (lt_length hi)
        intro j p hj
        rcases getElem?_concat_cases hj with hj | ⟨rfl, -⟩
        · exact h.setPhase hi hcall j p hj
        · exact Or.inr (Or.inr ⟨_, mem_iff_getElem?.2 ⟨i, getElem?_set_self hlt⟩, _, rfl, rfl⟩)
    | _ => exact h

theorem NoneForgotten.register (hg : RegistryGuard cfg s (.register i now)) : NoneForgotten (s.register i now) := by
  unfold TenantPoolRegistry.register
  cases hi : s.calls[i]? with
  | none => exact h
  | some call =>
    dsimp only
    cases hphase : call.phase with
    | built pool =>
      have hnone := hg call hi ⟨pool, hphase⟩
      have hregistered : ∀ j, ((s.setPhase i call .returned).setEntry call.tenantId pool now).Registered j ↔
          s.Registered j ∨ pool = .dedicated j := fun j =>
        registered_setEntry (s := s.setPhase i call .returned) fun entry he => by
          rw [show (s.setPhase i call .returned).entries = s.entries from rfl, hnone] at he
          cases he
      intro j p hj
      rcases h j p hj with hr | hc | hh
      · exact Or.inl ((hregistered j).2 (Or.inl hr))
      · exact Or.inr (Or.inl hc)
      · by_cases hp : pool = .dedicated j
        · exact Or.inl ((hregistered j).2 (Or.inr hp))
        · refine Or.inr (Or.inr (inHand_setPhase hi (fun heq => ?_) hh))
          rw [hphase] at heq
          exact hp (CallPhase.built.inj heq)
    | _ => exact h

theorem NoneForgotten.releaseIdle (hs : RegistrySound cfg s) (now maxIdleMs : Int) :
    NoneForgotten (s.releaseIdle now maxIdleMs) := fun j p hj => by
  rcases releaseIdle_pools (s := s) now maxIdleMs j with ⟨hsame, hbusy⟩ | ⟨-, hclosed⟩
  · rcases h j p (hsame ▸ hj) with ⟨a, entry, ha, hpool⟩ | hrest
    · exact Or.inl ⟨a, entry, (get_releaseIdle hs).2 ⟨ha, hbusy _ (get_mem ha) hpool⟩, hpool⟩
    · exact Or.inr hrest
  · exact Or.inr (Or.inl (hclosed p hj))

end

theorem NoneForgotten.step (s : TenantPoolRegistry) (ev : RegistryEvent) (h : NoneForgotten s)
    (hs : RegistrySound cfg s) (hg : RegistryGuard cfg s ev) : NoneForgotten (s.step cfg ev) := by
  cases ev with
  | getPool tenantId now => exact h.getPool tenantId now
  | answer i => exact h.answer i
  | resume i now => exact h.resume hs i now
  | imported i succeeds => exact h.imported i succeeds
  | register i now => exact h.register hg
  | releaseIdle now maxIdleMs => exact h.releaseIdle hs now maxIdleMs
  | tenantChanged tenantId row => cases row <;> exact h

/-! ## Tenants -/

/-- The requests of all tenants, over shared repositories and one registry. -/
structure Tenancy where
  repositories : Repositories
  registry : TenantPoolRegistry

inductive TenancyEvent where
  | repository (ev : RepositoryEvent)
  | registry (ev : RegistryEvent)

variable (tenancy : TenancyConfig) (pooling : RegistryConfig)

def Tenancy.step (s : Tenancy) : TenancyEvent → Tenancy
  | .repository ev => { s with repositories := s.repositories.step tenancy ev }
  | .registry ev => { s with registry := s.registry.step pooling ev }

def TenancyGuard (s : Tenancy) : TenancyEvent → Prop
  | .repository ev => RepositoryGuard tenancy s.repositories ev
  | .registry ev => RegistryGuard pooling s.registry ev

/-- No operation has touched another tenant's row, and no call has given a wrong pool or forgotten one. -/
structure TenantsIsolated (s : Tenancy) : Prop where
  rows : ∀ d ∈ s.repositories.done, d.2.Isolated (tenancy.tenantOf d.1)
  pools : RegistrySafe pooling s.registry

structure TenancySound (s : Tenancy) : Prop where
  repositories : RepositoriesSound tenancy s.repositories
  registry : RegistrySound pooling s.registry
  pools : NoneForgotten s.registry

variable {tenancy pooling}

theorem TenancySound.step (hdb : ∀ tableName, (tenancy.database tableName).Scoped) (s : Tenancy) (ev : TenancyEvent)
    (h : TenancySound tenancy pooling s) (hg : TenancyGuard tenancy pooling s ev) :
    TenancySound tenancy pooling (s.step tenancy pooling ev) := by
  cases ev with
  | repository ev => exact ⟨h.repositories.step hdb _ ev hg, h.registry, h.pools⟩
  | registry ev => exact ⟨h.repositories, h.registry.step _ ev hg, h.pools.step _ ev h.registry hg⟩

/-- The tenants of repositories that were not used and an empty registry, over some rows. -/
def Tenancy.start (shared : List TenantScopedRepository) (tables : OrderedMap String (List Row))
    (tenants : OrderedMap String TenantRow) : Tenancy where
  repositories := { shared, tables }
  registry := { tenants }

theorem tenancySound_start (shared : List TenantScopedRepository) (tables : OrderedMap String (List Row))
    (tenants : OrderedMap String TenantRow) : TenancySound tenancy pooling (Tenancy.start shared tables tenants) := by
  constructor
  case repositories => constructor <;> simp [Tenancy.start]
  case registry => constructor <;> simp [Tenancy.start]
  case pools =>
    intro i pool hpool
    cases hpool

/-- Along every run whose steps meet the guard the tenants are isolated. -/
theorem tenants_isolated (tenancy : TenancyConfig) (pooling : RegistryConfig)
    (hdb : ∀ tableName, (tenancy.database tableName).Scoped) (shared : List TenantScopedRepository)
    (tables : OrderedMap String (List Row)) (tenants : OrderedMap String TenantRow) (events : List TenancyEvent)
    (hg : Guarded (Tenancy.step tenancy pooling) (TenancyGuard tenancy pooling) (.start shared tables tenants) events)
    (n : Nat) : TenantsIsolated tenancy pooling (run (Tenancy.step tenancy pooling) (.start shared tables tenants) (events.take n)) := by
  have h := take_invariant_of_guarded _ (TenancySound.step hdb) hg (tenancySound_start shared tables tenants) n
  exact ⟨h.repositories.done, h.registry.served, h.pools⟩

/-- Two tenants' requests over a database with three columns. -/
def twoTenants : TenancyConfig where
  tenantOf request := if request = 0 then "acme" else "globex"
  database _ := {
    reads := fun name => if name ∈ ["id", "tenant_id", "name"] then .column name else .unknown
    defaults := fun rows => [("id", some (String.ofList (List.replicate rows.length '1')))]
    accepts := fun _ => true
    injected := fun _ _ => none }

/-- One connection string, and the database that it names. -/
def oneDatabase : RegistryConfig where
  parseUrl connectionString :=
    if connectionString = "postgres://acme-db:5433/acme" then some ⟨"acme-db", "5433", "", "", "/acme"⟩ else none
  target _ := ⟨"acme-db", 5433, "acme"⟩

def acmeRow : OrderedMap String TenantRow := [("acme", ⟨true, some "postgres://acme-db:5433/acme"⟩)]

theorem twoTenants_scoped (tableName : String) : (twoTenants.database tableName).Scoped := ⟨rfl, rfl⟩

/-- Two requests write through one repository in turn, and one of the tenants gets its pool. -/
theorem tenants_isolated_inTurn : TenantsIsolated twoTenants oneDatabase
    (run (Tenancy.step twoTenants oneDatabase) (.start [⟨"notes", none⟩] [] acmeRow)
      ([.repository (.setTenant 0 0), .repository (.call 0 0 (.create [("name", some "a")])),
        .repository (.setTenant 1 0), .repository (.execute 0),
        .repository (.call 1 0 (.update "1" [("name", some "b")])), .repository (.execute 0),
        .registry (.getPool "acme" 0), .registry (.answer 0), .registry (.resume 0 1), .registry (.imported 0 true),
        .registry (.register 0 2), .registry (.getPool "acme" 3)].take 12)) := by
  refine tenants_isolated twoTenants oneDatabase twoTenants_scoped _ _ _ _ ?_ 12
  refine ⟨trivial, fun repo hrepo tenantId ht => ?_, trivial, trivial, fun repo hrepo tenantId ht => ?_, trivial,
    trivial, trivial, fun call row connectionString hcall hphase hd => ?_, rfl, fun call hcall hphase => rfl, trivial,
    trivial⟩
  · cases hrepo
    cases ht
    refine ⟨rfl, fun field hfield => ?_⟩
    rw [mem_singleton.1 hfield]
    decide
  · cases hrepo
    cases ht
    refine ⟨rfl, fun field hfield => ?_⟩
    rw [mem_singleton.1 hfield]
    exact ⟨by decide, fun hname => absurd hname (by decide)⟩
  · cases hcall
    cases hphase
    cases hd
    exact ⟨_, rfl, by decide⟩

/-- An update that names the column of the tenant gives the row to another tenant; and of two pools that are built
for one tenant at once the first is neither registered nor closed. -/
theorem tenancy_counterexample : ¬ TenantsIsolated twoTenants oneDatabase (run (Tenancy.step twoTenants oneDatabase)
        (.start [⟨"notes", none⟩] [("notes", [[("id", some "1"), ("tenant_id", some "acme")]])] [])
        [.repository (.setTenant 0 0), .repository (.call 0 0 (.update "1" [("tenant_id", some "globex")])), .repository (.execute 0)]) ∧
    ¬ TenantsIsolated twoTenants oneDatabase (run (Tenancy.step twoTenants oneDatabase) (.start [] [] acmeRow)
        [.registry (.getPool "acme" 0), .registry (.getPool "acme" 0), .registry (.answer 0), .registry (.answer 1),
          .registry (.resume 0 1), .registry (.resume 1 1), .registry (.imported 0 true),
          .registry (.imported 1 true), .registry (.register 0 2), .registry (.register 1 2)]) := by
  constructor
  · intro h
    have hrow := (h.rows _ mem_cons_self).rows _ mem_cons_self
    revert hrow
    unfold Row.belongs
    decide
  · intro h
    rcases h.pools.pools 0 _ rfl with ⟨a, entry, ha, hpool⟩ | hclosed | ⟨call, hcall, pool, hphase, rfl⟩
    · -- the entry has the second pool
      have hentry : entry = ⟨.dedicated 1, 2⟩ := congrArg Prod.snd (mem_singleton.1 (get_mem ha))
      rw [hentry] at hpool
      cases hpool
    · cases hclosed
    · -- both calls have returned
      rcases mem_cons.1 hcall with rfl | hcall
      · cases hphase
      · rw [mem_singleton.1 hcall] at hphase
        cases hphase

end StreetJS.Tenancy
