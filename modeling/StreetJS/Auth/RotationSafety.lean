/-
Refresh token rotation, over every interleaving: where no rotation revokes a token that was revoked since it was
read, and no token is replayed while its family has others, a token is exchanged once and a replayed family stays
revoked.
-/
import Mathlib.Data.List.Nodup
import StreetJS.Auth.RefreshTokens

namespace StreetJS.Auth

open StreetJS.Lib List

/-! ## Where a rotation stands -/

/-- The row that a rotation has read and works on. -/
def RotatePhase.target : RotatePhase → Option (Nat × TokenRow)
  | .revoking id row => some (id, row)
  | .inserting id row _ => some (id, row)
  | .committing id row _ _ => some (id, row)
  | _ => none

/-- The row that a rotation has revoked and not committed. -/
def RotatePhase.opened : RotatePhase → Option (Nat × TokenRow)
  | .inserting id row _ => some (id, row)
  | .committing id row _ _ => some (id, row)
  | _ => none

/-- The family that a rotation has found replayed. -/
def RotatePhase.replays : RotatePhase → Option String
  | .revokingFamily familyId => some familyId
  | .rollingBack familyId _ => some familyId
  | _ => none

theorem RotatePhase.target_of_opened {phase : RotatePhase} {id : Nat} {row : TokenRow}
    (h : phase.opened = some (id, row)) : phase.target = some (id, row) := by
  cases phase with
  | inserting id' row' _ => exact h
  | committing id' row' _ _ => exact h
  | _ => cases h

theorem RotatePhase.holds_of_opened {phase : RotatePhase} {id : Nat} {row : TokenRow}
    (h : phase.opened = some (id, row)) : phase.holds id = true := by
  cases phase with
  | inserting id' row' _ =>
    cases h
    simp [RotatePhase.holds]
  | committing id' row' _ _ =>
    cases h
    simp [RotatePhase.holds]
  | _ => cases h

namespace TokenStore

variable {refreshTtlMs : Int} {s : TokenStore}

/-- A replay of the family has been found. -/
def Begun (s : TokenStore) (familyId : String) : Prop :=
  s.Replayed familyId ∨ ∃ x tokenHash phase, s.At x tokenHash phase ∧ phase.replays = some familyId

/-- The rows of the family are revoked, and no rotation that is not committed gives it another one. -/
def Closed (s : TokenStore) (familyId : String) : Prop :=
  (∀ row ∈ s.rows, row.familyId = familyId → row.revokedAt.isSome) ∧
    ∀ x tokenHash phase id row, s.At x tokenHash phase → phase.opened = some (id, row) → row.familyId ≠ familyId

/-- A rotation revokes its token only if that is not revoked by now, a token is replayed only if its family is
closed, and no token is issued to a family that was replayed. -/
def Orderly (s : TokenStore) : TokenEvent → Prop
  | .issue _ familyId _ _ => ¬ s.Begun familyId
  | .proceed x now _ =>
    match s.calls[x]? with
    | some (.rotate _ (.revoking id _)) => ∀ row, s.rows[id]? = some row → row.revokedAt = none
    | some (.rotate tokenHash .selecting) =>
      ∀ familyId, s.selectToken tokenHash now = .revokingFamily familyId → s.Closed familyId
    | _ => True
  | _ => True

/-! ## Rows -/

theorem getElem?_revokeRows (ids : List Nat) (revokedAt : Int) (id : Nat) :
    (s.revokeRows ids revokedAt)[id]? = s.rows[id]?.map fun row => if ids.contains id then revokeRow revokedAt row else row := by
  simp [revokeRows, getElem?_mapIdx]

variable {x : Nat}

theorem locked_eq_false {id : Nat} (h : s.locked x id = false) {y : Nat} {call : Call} (hy : s.calls[y]? = some call)
    (hne : y ≠ x) : call.holds id = false := by
  unfold locked at h
  rw [any_eq_false] at h
  have hlt : y < s.calls.length := (lt_length hy)
  have hat := h y (mem_range.2 hlt)
  rw [hy] at hat
  simpa [hne] using hat

variable {tokenHash : String}

theorem taken_eq_false (h : s.taken tokenHash = false) :
    tokenHash ∉ s.rows.map (·.tokenHash) ∧ ∀ call ∈ s.calls, call.inserts tokenHash = false := by
  unfold taken at h
  rw [Bool.or_eq_false_iff, any_eq_false, any_eq_false] at h
  constructor
  · rintro hmem
    obtain ⟨row, hrow, rfl⟩ := mem_map.1 hmem
    exact h.1 row hrow (by simp)
  · intro call hcall
    simpa using h.2 call hcall

theorem selectToken_cases (tokenHash : String) (now : Int) : (∃ message, s.selectToken tokenHash now = .failed message) ∨
      ∃ id row, s.rows[id]? = some row ∧ row.tokenHash = tokenHash ∧
        (row.revokedAt.isSome ∧ s.selectToken tokenHash now = .revokingFamily row.familyId ∨
          row.revokedAt = none ∧ s.selectToken tokenHash now = .revoking id row) := by
  unfold selectToken
  cases hfind : s.rows.findIdx? (·.tokenHash == tokenHash) with
  | none => exact .inl ⟨_, rfl⟩
  | some id =>
    obtain ⟨hlt, hp, -⟩ := findIdx?_eq_some_iff_getElem.1 hfind
    have hrow : s.rows[id]? = some s.rows[id] := getElem?_eq_getElem hlt
    simp only [hrow]
    by_cases hrevoked : s.rows[id].revokedAt.isSome = true
    · right
      refine ⟨id, s.rows[id], hrow, by simpa using hp, .inl ⟨hrevoked, ?_⟩⟩
      rw [if_pos hrevoked]
    · rw [if_neg hrevoked]
      split
      · exact .inl ⟨_, rfl⟩
      · right
        refine ⟨id, s.rows[id], hrow, by simpa using hp, .inr ⟨?_, rfl⟩⟩
        simpa using hrevoked

/-! ## The invariant -/

/-- Hashes are unique, also those that are not committed; a rotation works on the row of its token; the row that it
has revoked without a commit is nobody else's and not revoked otherwise; an exchanged token is revoked; and a family
that was found replayed is closed. -/
structure Inv (s : TokenStore) : Prop where
  nodup : (s.rows.map (·.tokenHash)).Nodup
  pending : ∀ {x tokenHash id row revokedAt new}, s.At x tokenHash (.committing id row revokedAt new) →
    new.familyId = row.familyId ∧ new.tokenHash ∉ s.rows.map (·.tokenHash)
  pendingOnce : ∀ {x y tokenHash tokenHash' id id' row row' at' at'' new new'},
    s.At x tokenHash (.committing id row at' new) → s.At y tokenHash' (.committing id' row' at'' new') →
    new.tokenHash = new'.tokenHash → x = y
  found : ∀ {x tokenHash phase id row}, s.At x tokenHash phase → phase.target = some (id, row) →
    ∃ r, s.rows[id]? = some r ∧ r.tokenHash = tokenHash ∧ r.familyId = row.familyId
  unrevoked : ∀ {x tokenHash phase id row r}, s.At x tokenHash phase → phase.opened = some (id, row) →
    s.rows[id]? = some r → r.revokedAt = none
  alone : ∀ {x y tokenHash tokenHash' phase phase' id row row'}, s.At x tokenHash phase → s.At y tokenHash' phase' →
    phase.opened = some (id, row) → phase'.opened = some (id, row') → x = y
  spent : ∀ {x tokenHash new}, s.At x tokenHash (.exchanged new) → ∃ row ∈ s.rows, row.tokenHash = tokenHash ∧ row.revokedAt.isSome
  once : ∀ {x y tokenHash new new'}, s.At x tokenHash (.exchanged new) → s.At y tokenHash (.exchanged new') → x = y
  closed : ∀ {familyId}, s.Begun familyId → s.Closed familyId
  noLater : ∀ {familyId n x tokenHash new}, (familyId, n) ∈ s.replays → n ≤ x → s.At x tokenHash (.exchanged new) → new.familyId ≠ familyId

theorem Inv.rotationSafe (h : Inv s) : s.RotationSafe where
  once _ _ _ _ _ hx hy := h.once hx hy
  revoked _ hreplayed := (h.closed (.inl hreplayed)).1
  noLater _ _ hmem _ hle _ _ hx := h.noLater hmem hle hx

theorem inv_init : Inv {} where
  nodup := nodup_nil
  pending h := by cases h
  pendingOnce h := by cases h
  found h := by cases h
  unrevoked h := by cases h
  alone h := by cases h
  spent h := by cases h
  once h := by cases h
  closed := by
    rintro familyId (⟨n, hmem⟩ | ⟨x, tokenHash, phase, hx, -⟩)
    · cases hmem
    · cases hx
  noLater h := by cases h

variable {phase : RotatePhase}

theorem at_set {y : Nat} {call : Call} {rows : List TokenRow} {replays : List (String × Nat)}
    (h : At { rows, calls := s.calls.set x call, replays } y tokenHash phase) :
    y = x ∧ call = .rotate tokenHash phase ∨ y ≠ x ∧ s.At y tokenHash phase := by
  rcases getElem?_set_cases h with ⟨hy, hcall⟩ | h
  · exact .inl ⟨hy, hcall.symm⟩
  · exact .inr h

/-! ## Calls that leave the table as it is -/

/-- A phase that works on no row and has found no replay. -/
def quiet : RotatePhase → Bool
  | .selecting => true
  | .failed _ => true
  | _ => false

theorem Inv.of_quiet (h : Inv s) {s' : TokenStore} (hrows : s'.rows = s.rows)
    (hreplays : ∀ e ∈ s'.replays, e ∈ s.replays ∨ s.Begun e.1 ∧ s.calls.length ≤ e.2)
    (hat : ∀ {y tokenHash phase}, s'.At y tokenHash phase → s.At y tokenHash phase ∨ quiet phase = true) : Inv s' := by
  -- only phases that are not quiet are spoken of
  have hback : ∀ {y tokenHash phase}, s'.At y tokenHash phase → quiet phase = false → s.At y tokenHash phase := by
    intro y tokenHash phase hy hquiet
    rcases hat hy with hy | hy
    · exact hy
    · rw [hquiet] at hy
      cases hy
  have htarget : ∀ {phase : RotatePhase} {id row}, phase.target = some (id, row) → quiet phase = false := by
    intro phase id row htarget
    cases phase <;> first | rfl | cases htarget
  have hreplaying : ∀ {phase : RotatePhase} {familyId}, phase.replays = some familyId → quiet phase = false := by
    intro phase familyId hphase
    cases phase <;> first | rfl | cases hphase
  have hbegun : ∀ {familyId}, s'.Begun familyId → s.Begun familyId := by
    rintro familyId (⟨n, hmem⟩ | ⟨x, tokenHash, phase, hx, hphase⟩)
    · rcases hreplays _ hmem with hmem | ⟨hbegun, -⟩
      · exact .inl ⟨n, hmem⟩
      · exact hbegun
    · exact .inr ⟨x, tokenHash, phase, hback hx (hreplaying hphase), hphase⟩
  have hopened : ∀ {phase : RotatePhase} {id row}, phase.opened = some (id, row) → quiet phase = false :=
    fun hphase => htarget (RotatePhase.target_of_opened hphase)
  constructor
  · rw [hrows]
    exact h.nodup
  · intro x tokenHash id row revokedAt new hx
    rw [hrows]
    exact h.pending (hback hx rfl)
  · intro x y tokenHash tokenHash' id id' row row' at' at'' new new' hx hy
    exact h.pendingOnce (hback hx rfl) (hback hy rfl)
  · intro x tokenHash phase id row hx hphase
    rw [hrows]
    exact h.found (hback hx (htarget hphase)) hphase
  · intro x tokenHash phase id row r hx hphase
    rw [hrows]
    exact h.unrevoked (hback hx (hopened hphase)) hphase
  · intro x y tokenHash tokenHash' phase phase' id row row' hx hy hphase hphase'
    exact h.alone (hback hx (hopened hphase)) (hback hy (hopened hphase')) hphase hphase'
  · intro x tokenHash new hx
    rw [hrows]
    exact h.spent (hback hx rfl)
  · intro x y tokenHash new new' hx hy
    exact h.once (hback hx rfl) (hback hy rfl)
  · intro familyId hfamily
    obtain ⟨hrevoked, hclosed⟩ := h.closed (hbegun hfamily)
    refine ⟨?_, fun x tokenHash phase id row hx hphase => hclosed x tokenHash phase id row (hback hx (hopened hphase)) hphase⟩
    rw [hrows]
    exact hrevoked
  · intro familyId n x tokenHash new hmem hle hx
    have hx := hback hx rfl
    rcases hreplays _ hmem with hmem | ⟨-, hlength⟩
    · exact h.noLater hmem hle hx
    · have hlt := (lt_length hx)
      omega

theorem Inv.setQuiet (h : Inv s) (x : Nat) (tokenHash : String) (hquiet : quiet phase = true) :
    Inv (s.setCall x (.rotate tokenHash phase)) := by
  refine h.of_quiet rfl (fun e he => .inl he) ?_
  intro y tokenHash' p hy
  rcases at_set hy with ⟨-, hcall⟩ | ⟨-, hy⟩
  · cases hcall
    exact .inr hquiet
  · exact .inl hy

theorem Inv.setRotate (h : Inv s) {phase' : RotatePhase} (hx : s.At x tokenHash phase)
    (htarget : ∀ id row, phase'.target = some (id, row) → ∃ r, s.rows[id]? = some r ∧ r.tokenHash = tokenHash ∧ r.familyId = row.familyId)
    (hopened : ∀ id row, phase'.opened = some (id, row) → phase.opened = some (id, row) ∨
      (∀ r, s.rows[id]? = some r → r.revokedAt = none) ∧ s.locked x id = false ∧ ¬ s.Begun row.familyId)
    (hpending : ∀ id row revokedAt new, phase' = .committing id row revokedAt new →
      new.familyId = row.familyId ∧ s.taken new.tokenHash = false)
    (hexchanged : ∀ new, phase' ≠ .exchanged new) (hreplays : ∀ familyId, phase'.replays = some familyId → s.Closed familyId) :
    Inv (s.setCall x (.rotate tokenHash phase')) := by
  -- the phase of a rotation afterwards
  have hat : ∀ {y tokenHash' p}, (s.setCall x (.rotate tokenHash phase')).At y tokenHash' p →
      y = x ∧ tokenHash' = tokenHash ∧ p = phase' ∨ y ≠ x ∧ s.At y tokenHash' p := by
    intro y tokenHash' p hy
    rcases at_set hy with ⟨hyx, hcall⟩ | hy
    · cases hcall
      exact .inl ⟨hyx, rfl, rfl⟩
    · exact .inr hy
  have hopen : ∀ {y tokenHash' p id row}, (s.setCall x (.rotate tokenHash phase')).At y tokenHash' p →
      p.opened = some (id, row) → (∀ r, s.rows[id]? = some r → r.revokedAt = none) ∧
        ∀ {z tokenHash'' p' row'}, (s.setCall x (.rotate tokenHash phase')).At z tokenHash'' p' → p'.opened = some (id, row') → z = y := by
    have hlocked : ∀ {w tokenHash'' p' id row row'}, w ≠ x → s.At w tokenHash'' p' → p'.opened = some (id, row) →
        phase'.opened = some (id, row') → phase.opened = some (id, row') := by
      intro w tokenHash'' p' id row row' hwx hw hp' hphase'
      rcases hopened id row' hphase' with hphase | ⟨-, hfree, -⟩
      · exact hphase
      · have hholds := locked_eq_false hfree hw hwx
        rw [Call.holds, RotatePhase.holds_of_opened hp'] at hholds
        cases hholds
    intro y tokenHash' p id row hy hp
    rcases hat hy with ⟨rfl, -, rfl⟩ | ⟨hyx, hold⟩
    · constructor
      · intro r hr
        rcases hopened id row hp with hphase | ⟨hnone, -, -⟩
        · exact h.unrevoked hx hphase hr
        · exact hnone r hr
      · intro z tokenHash'' p' row' hz hp'
        rcases hat hz with ⟨hzx, -, -⟩ | ⟨hzx, hz⟩
        · exact hzx
        · exact absurd (h.alone hz hx hp' (hlocked hzx hz hp' hp)) hzx
    · constructor
      · exact fun r hr => h.unrevoked hold hp hr
      · intro z tokenHash'' p' row' hz hp'
        rcases hat hz with ⟨rfl, -, rfl⟩ | ⟨-, hz⟩
        · exact (h.alone hold hx hp (hlocked hyx hold hp hp')).symm
        · exact h.alone hz hold hp' hp
  constructor
  · exact h.nodup
  · intro y tokenHash' id row revokedAt new hy
    rcases hat hy with ⟨rfl, rfl, hp⟩ | ⟨-, hy⟩
    · obtain ⟨hfamily, htaken⟩ := hpending _ _ _ _ hp.symm
      exact ⟨hfamily, (taken_eq_false htaken).1⟩
    · exact h.pending hy
  · intro y z tokenHash' tokenHash'' id id' row row' at' at'' new new' hy hz heq
    have hfresh : ∀ {w tokenHash''' id'' row'' at''' new''}, s.At w tokenHash''' (.committing id'' row'' at''' new'') →
        ∀ {id row revokedAt new}, .committing id row revokedAt new = phase' → new''.tokenHash = new.tokenHash → False := by
      intro w tokenHash''' id'' row'' at''' new'' hw id row revokedAt new hp hhash
      have hinserts := (taken_eq_false (hpending _ _ _ _ hp.symm).2).2 _ (mem_of_getElem? hw)
      simp only [Call.inserts, hhash, beq_self_eq_true, reduceCtorEq] at hinserts
    rcases hat hy with ⟨hyx, -, hp⟩ | ⟨-, hy⟩
    · rcases hat hz with ⟨hzx, -, -⟩ | ⟨-, hz⟩
      · rw [hyx, hzx]
      · exact (hfresh hz hp heq.symm).elim
    · rcases hat hz with ⟨-, -, hp⟩ | ⟨-, hz⟩
      · exact (hfresh hy hp heq).elim
      · exact h.pendingOnce hy hz heq
  · intro y tokenHash' p id row hy hp
    rcases hat hy with ⟨-, rfl, rfl⟩ | ⟨-, hy⟩
    · exact htarget id row hp
    · exact h.found hy hp
  · intro y tokenHash' p id row r hy hp hr
    exact (hopen hy hp).1 r hr
  · intro y z tokenHash' tokenHash'' p p' id row row' hy hz hp hp'
    exact ((hopen hy hp).2 hz hp').symm
  · intro y tokenHash' new hy
    rcases hat hy with ⟨-, -, hp⟩ | ⟨-, hy⟩
    · exact absurd hp.symm (hexchanged new)
    · exact h.spent hy
  · intro y z tokenHash' new new' hy hz
    rcases hat hy with ⟨-, -, hp⟩ | ⟨-, hy⟩
    · exact absurd hp.symm (hexchanged new)
    · rcases hat hz with ⟨-, -, hp⟩ | ⟨-, hz⟩
      · exact absurd hp.symm (hexchanged new')
      · exact h.once hy hz
  · intro familyId hbegun
    have hbefore : s.Begun familyId ∨ phase'.replays = some familyId := by
      rcases hbegun with hreplayed | ⟨y, tokenHash', p, hy, hp⟩
      · exact .inl (.inl hreplayed)
      · rcases hat hy with ⟨-, -, rfl⟩ | ⟨-, hy⟩
        · exact .inr hp
        · exact .inl (.inr ⟨y, tokenHash', p, hy, hp⟩)
    have hclosed : s.Closed familyId := by
      rcases hbefore with hbefore | hbefore
      · exact h.closed hbefore
      · exact hreplays familyId hbefore
    refine ⟨hclosed.1, ?_⟩
    intro y tokenHash' p id row hy hp
    rcases hat hy with ⟨-, -, rfl⟩ | ⟨-, hy⟩
    · rcases hopened id row hp with hphase | ⟨-, -, hnot⟩
      · exact hclosed.2 x tokenHash phase id row hx hphase
      · rintro rfl
        rcases hbefore with hbefore | hbefore
        · exact hnot hbefore
        · cases p with
          | inserting _ _ _ => cases hbefore
          | committing _ _ _ _ => cases hbefore
          | _ => cases hp
    · exact hclosed.2 y tokenHash' p id row hy hp
  · intro familyId n y tokenHash' new hmem hle hy
    rcases hat hy with ⟨-, -, hp⟩ | ⟨-, hy⟩
    · exact absurd hp.symm (hexchanged new)
    · exact h.noLater hmem hle hy

/-! ## Statements that change the table -/

theorem mem_revokeRows {ids : List Nat} {revokedAt : Int} {row : TokenRow} (h : row ∈ s.revokeRows ids revokedAt) :
    ∃ r ∈ s.rows, r.tokenHash = row.tokenHash ∧ r.familyId = row.familyId ∧ (r.revokedAt.isSome → row.revokedAt.isSome) := by
  obtain ⟨id, hid⟩ := mem_iff_getElem?.1 h
  rw [getElem?_revokeRows] at hid
  obtain ⟨r, hr, rfl⟩ := Option.map_eq_some_iff.1 hid
  refine ⟨r, mem_of_getElem? hr, ?_⟩
  split <;> simp [revokeRow]

theorem revokeRows_mem (ids : List Nat) (revokedAt : Int) {r : TokenRow} (h : r ∈ s.rows) :
    ∃ row ∈ s.revokeRows ids revokedAt, row.tokenHash = r.tokenHash ∧ (r.revokedAt.isSome → row.revokedAt.isSome) := by
  obtain ⟨id, hid⟩ := mem_iff_getElem?.1 h
  refine ⟨if ids.contains id then revokeRow revokedAt r else r, ?_, ?_⟩
  · apply mem_iff_getElem?.2
    refine ⟨id, ?_⟩
    rw [getElem?_revokeRows, hid]
    rfl
  · split <;> simp [revokeRow]

theorem hashes_revokeRows (ids : List Nat) (revokedAt : Int) : (s.revokeRows ids revokedAt).map (·.tokenHash) = s.rows.map (·.tokenHash) := by
  apply ext_getElem?
  intro id
  rw [getElem?_map, getElem?_map, getElem?_revokeRows, Option.map_map]
  congr 1
  funext row
  split <;> rfl

theorem Inv.revokeRows (h : Inv s) {scope : RevokeScope} {phase : RevokePhase} {ids : List Nat} (revokedAt : Int)
    (hx : s.calls[x]? = some (.revoke scope phase)) (hfree : ids.any (s.locked x) = false) :
    Inv { s with rows := s.revokeRows ids revokedAt, calls := s.calls.set x (.revoke scope .done) } := by
  have hat : ∀ {y tokenHash p}, At { s with rows := s.revokeRows ids revokedAt, calls := s.calls.set x (.revoke scope .done) }
      y tokenHash p → s.At y tokenHash p := by
    intro y tokenHash p hy
    rcases at_set hy with ⟨-, hcall⟩ | ⟨-, hy⟩
    · cases hcall
    · exact hy
  have hopened : ∀ {y tokenHash phase id row}, s.At y tokenHash phase → phase.opened = some (id, row) → ids.contains id = false := by
    intro y tokenHash phase' id row hy hphase
    rw [← Bool.not_eq_true, contains_iff_mem]
    intro hmem
    rw [any_eq_false] at hfree
    have hyx : y ≠ x := by
      rintro rfl
      rw [At, hx] at hy
      cases hy
    have hholds := locked_eq_false (Bool.eq_false_iff.2 (hfree id hmem)) hy hyx
    rw [Call.holds, RotatePhase.holds_of_opened hphase] at hholds
    cases hholds
  constructor
  · rw [hashes_revokeRows]
    exact h.nodup
  · intro y tokenHash id row at' new hy
    rw [hashes_revokeRows]
    exact h.pending (hat hy)
  · intro y z tokenHash tokenHash' id id' row row' at' at'' new new' hy hz
    exact h.pendingOnce (hat hy) (hat hz)
  · intro y tokenHash phase' id row hy hphase
    obtain ⟨r, hr, hhash, hfamily⟩ := h.found (hat hy) hphase
    rw [getElem?_revokeRows, hr]
    refine ⟨_, rfl, ?_⟩
    split
    · exact ⟨hhash, hfamily⟩
    · exact ⟨hhash, hfamily⟩
  · intro y tokenHash phase' id row r hy hphase hr
    rw [getElem?_revokeRows] at hr
    obtain ⟨r', hr', rfl⟩ := Option.map_eq_some_iff.1 hr
    rw [hopened (hat hy) hphase, if_neg Bool.false_ne_true]
    exact h.unrevoked (hat hy) hphase hr'
  · intro y z tokenHash tokenHash' p p' id row row' hy hz
    exact h.alone (hat hy) (hat hz)
  · intro y tokenHash new hy
    obtain ⟨r, hr, hhash, hrevoked⟩ := h.spent (hat hy)
    obtain ⟨row, hrow, hsame, hmono⟩ := revokeRows_mem ids revokedAt hr
    exact ⟨row, hrow, hsame.trans hhash, hmono hrevoked⟩
  · intro y z tokenHash new new' hy hz
    exact h.once (hat hy) (hat hz)
  · intro familyId hbegun
    have hbefore : s.Begun familyId := by
      rcases hbegun with hreplayed | ⟨y, tokenHash, p, hy, hp⟩
      · exact .inl hreplayed
      · exact .inr ⟨y, tokenHash, p, hat hy, hp⟩
    obtain ⟨hrevoked, hclosed⟩ := h.closed hbefore
    refine ⟨?_, fun y tokenHash p id row hy hp => hclosed y tokenHash p id row (hat hy) hp⟩
    intro row hrow hfamily
    obtain ⟨r, hr, -, hsame, hmono⟩ := mem_revokeRows hrow
    exact hmono (hrevoked r hr (hsame.trans hfamily))
  · intro familyId n y tokenHash new hmem hle hy
    exact h.noLater hmem hle (hat hy)

theorem Inv.issue (h : Inv s) {new : TokenRow} (hnew : s.taken new.tokenHash = false) (hbegun : ¬ s.Begun new.familyId) :
    Inv { s with rows := s.rows ++ [new] } := by
  obtain ⟨hrows, hcalls⟩ := taken_eq_false hnew
  have hlookup : ∀ {id : Nat} {r : TokenRow}, s.rows[id]? = some r → (s.rows ++ [new])[id]? = some r := by
    intro id r hr
    rw [getElem?_append_left (lt_length hr), hr]
  constructor
  · rw [map_append, nodup_append]
    refine ⟨h.nodup, by simp, ?_⟩
    intro a ha b hb
    obtain rfl := mem_singleton.1 hb
    rintro rfl
    exact hrows ha
  · intro y tokenHash id row at' new' hy
    obtain ⟨hfamily, hfresh⟩ := h.pending hy
    refine ⟨hfamily, ?_⟩
    rw [map_append, mem_append, not_or]
    refine ⟨hfresh, ?_⟩
    intro hmem
    have hinserts := hcalls _ (mem_of_getElem? hy)
    rw [Call.inserts, mem_singleton.1 hmem] at hinserts
    simp at hinserts
  · exact h.pendingOnce
  · intro y tokenHash phase id row hy hphase
    obtain ⟨r, hr, hsame⟩ := h.found hy hphase
    exact ⟨r, hlookup hr, hsame⟩
  · intro y tokenHash phase id row r hy hphase hr
    obtain ⟨r', hr', -⟩ := h.found hy (RotatePhase.target_of_opened hphase)
    obtain rfl := Option.some.inj ((hlookup hr').symm.trans hr)
    exact h.unrevoked hy hphase hr'
  · exact h.alone
  · intro y tokenHash new' hy
    obtain ⟨r, hr, hsame⟩ := h.spent hy
    exact ⟨r, mem_append_left _ hr, hsame⟩
  · exact h.once
  · intro familyId hfamily
    obtain ⟨hrevoked, hclosed⟩ := h.closed hfamily
    refine ⟨?_, hclosed⟩
    intro row hrow hsame
    rcases mem_append.1 hrow with hrow | hrow
    · exact hrevoked row hrow hsame
    · obtain rfl := mem_singleton.1 hrow
      rw [hsame] at hbegun
      exact absurd hfamily hbegun
  · exact h.noLater

theorem Inv.commit (h : Inv s) {id : Nat} {row new : TokenRow} {revokedAt : Int} (hx : s.At x tokenHash (.committing id row revokedAt new)) :
    Inv { s with rows := s.revokeRows [id] revokedAt ++ [new], calls := s.calls.set x (.rotate tokenHash (.exchanged new)) } := by
  obtain ⟨hnewFamily, hnewHash⟩ := h.pending hx
  obtain ⟨old, hold, hhash, -⟩ := h.found hx rfl
  have hunrevoked := h.unrevoked hx rfl hold
  have hat : ∀ {y tokenHash' p}, At { s with
      rows := s.revokeRows [id] revokedAt ++ [new], calls := s.calls.set x (.rotate tokenHash (.exchanged new)) }
      y tokenHash' p → y = x ∧ tokenHash' = tokenHash ∧ p = .exchanged new ∨ y ≠ x ∧ s.At y tokenHash' p := by
    intro y tokenHash' p hy
    rcases at_set hy with ⟨hyx, hcall⟩ | hy
    · cases hcall
      exact .inl ⟨hyx, rfl, rfl⟩
    · exact .inr hy
  have hlookup : ∀ {id' : Nat} {r : TokenRow}, s.rows[id']? = some r →
      (s.revokeRows [id] revokedAt ++ [new])[id']? = some (if [id].contains id' then revokeRow revokedAt r else r) := by
    intro id' r hr
    have hget : (s.revokeRows [id] revokedAt)[id']? = some (if [id].contains id' then revokeRow revokedAt r else r) := by
      rw [getElem?_revokeRows, hr]
      rfl
    rw [getElem?_append_left (lt_length hget), hget]
  constructor
  · rw [map_append, hashes_revokeRows, nodup_append]
    refine ⟨h.nodup, by simp, ?_⟩
    intro a ha b hb
    obtain rfl := mem_singleton.1 hb
    rintro rfl
    exact hnewHash ha
  · intro y tokenHash' id' row' at' new' hy
    rcases hat hy with ⟨-, -, hp⟩ | ⟨hyx, hy⟩
    · cases hp
    · obtain ⟨hfamily, hfresh⟩ := h.pending hy
      refine ⟨hfamily, ?_⟩
      rw [map_append, hashes_revokeRows, mem_append, not_or]
      refine ⟨hfresh, ?_⟩
      intro hmem
      exact hyx (h.pendingOnce hy hx (mem_singleton.1 hmem))
  · intro y z tokenHash' tokenHash'' id' id'' row' row'' at' at'' new' new'' hy hz
    rcases hat hy with ⟨-, -, hp⟩ | ⟨-, hy⟩
    · cases hp
    · rcases hat hz with ⟨-, -, hp⟩ | ⟨-, hz⟩
      · cases hp
      · exact h.pendingOnce hy hz
  · intro y tokenHash' phase id' row' hy hphase
    rcases hat hy with ⟨-, -, rfl⟩ | ⟨-, hy⟩
    · cases hphase
    · obtain ⟨r, hr, hsame⟩ := h.found hy hphase
      refine ⟨_, hlookup hr, ?_⟩
      split
      · exact hsame
      · exact hsame
  · intro y tokenHash' phase id' row' r hy hphase hr
    rcases hat hy with ⟨-, -, rfl⟩ | ⟨hyx, hstill⟩
    · cases hphase
    · obtain ⟨r', hr', -⟩ := h.found hstill (RotatePhase.target_of_opened hphase)
      have hid : id' ≠ id := by
        rintro rfl
        exact hyx (h.alone hstill hx hphase rfl)
      have hsame := (hlookup hr').symm.trans hr
      rw [if_neg (by simpa using hid)] at hsame
      obtain rfl := Option.some.inj hsame
      exact h.unrevoked hstill hphase hr'
  · intro y z tokenHash' tokenHash'' p p' id' row' row'' hy hz hp hp'
    rcases hat hy with ⟨-, -, rfl⟩ | ⟨-, hy⟩
    · cases hp
    · rcases hat hz with ⟨-, -, rfl⟩ | ⟨-, hz⟩
      · cases hp'
      · exact h.alone hy hz hp hp'
  · intro y tokenHash' new' hy
    rcases hat hy with ⟨-, rfl, -⟩ | ⟨-, hy⟩
    · refine ⟨_, mem_of_getElem? (hlookup hold), ?_⟩
      rw [if_pos (by simp)]
      exact ⟨hhash, rfl⟩
    · obtain ⟨r, hr, hsame, hrevoked⟩ := h.spent hy
      obtain ⟨row', hrow', hsame', hmono⟩ := revokeRows_mem [id] revokedAt hr
      exact ⟨row', mem_append_left _ hrow', hsame'.trans hsame, hmono hrevoked⟩
  · -- a token that was exchanged before is revoked, and this one is not
    have hfirst : ∀ {y new'}, ¬ s.At y tokenHash (.exchanged new') := by
      intro y new' hy
      obtain ⟨r, hr, hsame, hrevoked⟩ := h.spent hy
      obtain rfl : r = old := inj_on_of_nodup_map h.nodup hr (mem_of_getElem? hold) (hsame.trans hhash.symm)
      rw [hunrevoked] at hrevoked
      cases hrevoked
    intro y z tokenHash' new' new'' hy hz
    rcases hat hy with ⟨hyx, rfl, -⟩ | ⟨-, hy⟩
    · rcases hat hz with ⟨hzx, -, -⟩ | ⟨-, hz⟩
      · rw [hyx, hzx]
      · exact absurd hz hfirst
    · rcases hat hz with ⟨-, heq, -⟩ | ⟨-, hz⟩
      · rw [heq] at hy
        exact absurd hy hfirst
      · exact h.once hy hz
  · intro familyId hbegun
    have hbefore : s.Begun familyId := by
      rcases hbegun with hreplayed | ⟨y, tokenHash', p, hy, hp⟩
      · exact .inl hreplayed
      · rcases hat hy with ⟨-, -, rfl⟩ | ⟨-, hy⟩
        · cases hp
        · exact .inr ⟨y, tokenHash', p, hy, hp⟩
    obtain ⟨hrevoked, hclosed⟩ := h.closed hbefore
    constructor
    · intro row' hrow' hfamily
      rcases mem_append.1 hrow' with hrow' | hrow'
      · obtain ⟨r, hr, -, hsame, hmono⟩ := mem_revokeRows hrow'
        exact hmono (hrevoked r hr (hsame.trans hfamily))
      · obtain rfl := mem_singleton.1 hrow'
        exact absurd (hnewFamily.symm.trans hfamily) (hclosed x tokenHash _ id row hx rfl)
    · intro y tokenHash' p id' row' hy hp
      rcases hat hy with ⟨-, -, rfl⟩ | ⟨-, hy⟩
      · cases hp
      · exact hclosed y tokenHash' p id' row' hy hp
  · intro familyId n y tokenHash' new' hmem hle hy
    rcases hat hy with ⟨-, -, hp⟩ | ⟨-, hy⟩
    · cases hp
      rw [hnewFamily]
      exact (h.closed (.inl ⟨n, hmem⟩)).2 x tokenHash _ id row hx rfl
    · exact h.noLater hmem hle hy

/-! ## Runs -/

theorem inv_selecting (h : Inv s) {now : Int} (hx : s.At x tokenHash .selecting)
    (hclosed : ∀ familyId, s.selectToken tokenHash now = .revokingFamily familyId → s.Closed familyId) :
    Inv (s.setCall x (.rotate tokenHash (s.selectToken tokenHash now))) := by
  rcases s.selectToken_cases tokenHash now with ⟨message, heq⟩ | ⟨id, row, hrow, hhash, ⟨-, heq⟩ | ⟨-, heq⟩⟩
  · rw [heq]
    exact h.setQuiet x tokenHash rfl
  · rw [heq] at hclosed ⊢
    refine h.setRotate hx ?_ ?_ ?_ ?_ ?_
    · rintro id' row' hp
      cases hp
    · rintro id' row' hp
      cases hp
    · rintro id' row' at' new hp
      cases hp
    · rintro new hp
      cases hp
    · rintro familyId hp
      cases hp
      exact hclosed _ rfl
  · rw [heq]
    refine h.setRotate hx ?_ ?_ ?_ ?_ ?_
    · rintro id' row' hp
      cases hp
      exact ⟨row, hrow, hhash, rfl⟩
    · rintro id' row' hp
      cases hp
    · rintro id' row' at' new hp
      cases hp
    · rintro new hp
      cases hp
    · rintro familyId hp
      cases hp

theorem inv_proceedRotate (h : Inv s) (hx : s.At x tokenHash phase)
    {now : Int} (newHash : String) (hselect : phase = .selecting → ∀ familyId,
      s.selectToken tokenHash now = .revokingFamily familyId → s.Closed familyId)
    (hrevoke : ∀ id row, phase = .revoking id row → ∀ row, s.rows[id]? = some row → row.revokedAt = none) :
    Inv (s.proceedRotate refreshTtlMs x tokenHash now newHash phase) := by
  cases phase with
  | selecting => exact inv_selecting h hx (hselect rfl)
  | revoking id row =>
    rw [proceedRotate]
    split
    · exact h
    · rename_i hlocked
      obtain ⟨old, hold, hhash, hfamily⟩ := h.found hx rfl
      have hnone := hrevoke id row rfl
      refine h.setRotate hx ?_ ?_ ?_ ?_ ?_
      · rintro id' row' hp
        cases hp
        exact ⟨old, hold, hhash, hfamily⟩
      · rintro id' row' hp
        cases hp
        refine .inr ⟨hnone, Bool.eq_false_iff.2 hlocked, ?_⟩
        intro hbegun
        have hrevoked := (h.closed hbegun).1 old (mem_of_getElem? hold) hfamily
        rw [hnone old hold] at hrevoked
        cases hrevoked
      · rintro id' row' at' new hp
        cases hp
      · rintro new hp
        cases hp
      · rintro familyId hp
        cases hp
  | inserting id row revokedAt =>
    rw [proceedRotate]
    split
    · exact h.setQuiet x tokenHash rfl
    · rename_i htaken
      refine h.setRotate hx ?_ ?_ ?_ ?_ ?_
      · rintro id' row' hp
        cases hp
        exact h.found hx rfl
      · rintro id' row' hp
        cases hp
        exact .inl rfl
      · rintro id' row' at' new hp
        cases hp
        exact ⟨rfl, Bool.eq_false_iff.2 htaken⟩
      · rintro new hp
        cases hp
      · rintro familyId hp
        cases hp
  | committing id row revokedAt new => exact h.commit hx
  | revokingFamily familyId =>
    rw [proceedRotate]
    split
    · exact h
    · refine h.setRotate hx ?_ ?_ ?_ ?_ ?_
      · rintro id' row' hp
        cases hp
      · rintro id' row' hp
        cases hp
      · rintro id' row' at' new hp
        cases hp
      · rintro new hp
        cases hp
      · rintro familyId' hp
        cases hp
        exact h.closed (.inr ⟨x, tokenHash, _, hx, rfl⟩)
  | rollingBack familyId ids =>
    refine h.of_quiet rfl ?_ ?_
    · intro e he
      rcases mem_append.1 he with he | he
      · exact .inl he
      · obtain rfl := mem_singleton.1 he
        exact .inr ⟨.inr ⟨x, tokenHash, _, hx, rfl⟩, le_rfl⟩
    · intro y tokenHash' p hy
      rcases at_set hy with ⟨-, hcall⟩ | ⟨-, hy⟩
      · cases hcall
        exact .inr rfl
      · exact .inl hy
  | exchanged new => exact h
  | failed message => exact h

theorem inv_step {e : TokenEvent} (h : Inv s) (he : s.Orderly e) : Inv (step refreshTtlMs s e) := by
  cases e with
  | issue userId familyId tokenHash now =>
    rw [step]
    split
    · exact h
    · rename_i htaken
      exact h.issue (Bool.eq_false_iff.2 htaken) he
  | rotate tokenHash =>
    refine h.of_quiet rfl (fun e he => .inl he) ?_
    intro y tokenHash' p hy
    rcases getElem?_concat_cases hy with hy | ⟨-, hcall⟩
    · exact .inl hy
    · cases hcall
      exact .inr rfl
  | revoke scope =>
    refine h.of_quiet rfl (fun e he => .inl he) ?_
    intro y tokenHash' p hy
    rcases getElem?_concat_cases hy with hy | ⟨-, hcall⟩
    · exact .inl hy
    · cases hcall
  | proceed x now newHash =>
    simp only [Orderly] at he
    simp only [step]
    rcases hx : s.calls[x]? with - | ⟨tokenHash, phase⟩ | ⟨scope, phase⟩
    · exact h
    · simp only [hx] at he
      apply inv_proceedRotate h hx
      · rintro rfl
        exact he
      · rintro id row rfl
        exact he
    · cases phase with
      | starting =>
        refine h.of_quiet rfl (fun e he => .inl he) ?_
        intro y tokenHash' p hy
        rcases at_set hy with ⟨-, hcall⟩ | ⟨-, hy⟩
        · cases hcall
        · exact .inl hy
      | updating ids =>
        simp only [proceedRevoke]
        split
        · exact h
        · rename_i hfree
          exact h.revokeRows now hx (Bool.eq_false_iff.2 hfree)
      | done => exact h
  | fail x message =>
    simp only [step]
    split
    · rename_i tokenHash phase hx
      have hfailed : Inv (s.setCall x (.rotate tokenHash (.failed message))) := h.setQuiet x tokenHash rfl
      cases phase <;> first | exact h | exact hfailed
    · exact h

/-- In every state of a run whose steps are orderly, tokens are exchanged once and replayed families stay revoked. -/
theorem rotationSafe_of_orderly (refreshTtlMs : Int) (es : List TokenEvent)
    (h : Guarded (step refreshTtlMs) Orderly {} es) : (run (step refreshTtlMs) {} es).RotationSafe :=
  (run_invariant_of_guarded (step refreshTtlMs) (fun _ _ hs he => inv_step hs he) es h inv_init).rotationSafe

/-- Two rotations of one token, one after the other: the second finds a replay when the family is revoked. -/
theorem rotationSafe_of_orderly_revokedFamily :
    (run (step 1000) {} [.issue "u" "f" "a" 0, .rotate "a", .proceed 0 1 "", .proceed 0 1 "", .proceed 0 1 "b", .proceed 0 1 "",
      .revoke (.family "f"), .proceed 1 2 "", .proceed 1 2 "", .rotate "a", .proceed 2 3 "", .proceed 2 3 "",
      .proceed 2 3 ""]).RotationSafe := by
  apply rotationSafe_of_orderly
  refine ⟨?_, trivial, ?_, ?_, trivial, trivial, trivial, trivial, trivial, trivial, ?_, trivial, trivial, trivial⟩
  · rintro (⟨n, hmem⟩ | ⟨x, tokenHash, phase, hx, -⟩)
    · cases hmem
    · cases hx
  · intro familyId hselect
    cases hselect
  · intro row hrow
    cases hrow
    rfl
  · intro familyId hselect
    cases hselect
    constructor
    · decide
    · intro x tokenHash phase id row hx hphase
      match x, hx with
      | 0, hx =>
        cases hx
        cases hphase
      | 1, hx => cases hx
      | 2, hx =>
        cases hx
        cases hphase
      | n + 3, hx => cases hx

/-- Two rotations of one token that both read it before either revokes it are both answered with a new token; and a
replay leaves the other token of its family as it is. -/
theorem rotation_counterexample :
    (¬ ∀ es, (run (step 1000) {} es).RotationSafe) ∧ ¬ ∀ es, ∀ familyId, (run (step 1000) {} es).Replayed familyId →
      ∀ row ∈ (run (step 1000) {} es).rows, row.familyId = familyId → row.revokedAt.isSome := by
  constructor
  · intro h
    have hsafe := h [.issue "u" "f" "a" 0, .rotate "a", .rotate "a", .proceed 0 1 "", .proceed 1 1 "", .proceed 0 1 "",
      .proceed 0 1 "b", .proceed 0 1 "", .proceed 1 1 "", .proceed 1 1 "c", .proceed 1 1 ""]
    have := hsafe.once 0 1 "a" { tokenHash := "b", familyId := "f", userId := "u", expiresAt := 1001 }
      { tokenHash := "c", familyId := "f", userId := "u", expiresAt := 1001 } rfl rfl
    omega
  · intro h
    have hrevoked := h [.issue "u" "f" "a" 0, .rotate "a", .proceed 0 1 "", .proceed 0 1 "", .proceed 0 1 "b", .proceed 0 1 "",
      .rotate "a", .proceed 1 2 "", .proceed 1 2 "", .proceed 1 2 ""] "f" ⟨2, by decide⟩
      { tokenHash := "b", familyId := "f", userId := "u", expiresAt := 1001 } (by decide) rfl
    cases hrevoked

end TokenStore

end StreetJS.Auth
