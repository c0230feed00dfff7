/-
What every unbroken run of the audit logger keeps: the signed batches are a chain, the table holds of each batch
the rows it has stored so far, and the entries of the batches and the pending ones are those that were logged.
-/
import StreetJS.Lib.ListSet
import Mathlib.Data.List.Flatten
import StreetJS.Enterprise.AuditChain

namespace StreetJS.Enterprise

open StreetJS.Lib AuditLogger List

variable {S : Type} {cfg : AuditConfig S} {s : AuditLogger S}

/-! ## What is promised -/

def entryIds (entries : List AuditEntry) : List (Option Json) := entries.map (·.read "id")

/-- A flush that has rows to store yet. -/
def Batch.inFlight (b : Batch S) : Prop := b.failed = false ∧ b.written < b.entries.length

/-- Nothing is lost, nothing is stored twice, and the rows are verifiable. -/
structure AuditSafe (cfg : AuditConfig S) (s : AuditLogger S) : Prop where
  /-- What was logged is stored, pending, in the hands of a flush, or was reported as failed to its caller. -/
  kept : ∀ id ∈ s.logged, id ∈ s.table.map (fun row => row.1.id) ∨ id ∈ entryIds s.pendingBatch ∨
    ∃ b ∈ s.batches, id ∈ entryIds (b.entries.drop b.written) ∧ (b.failed = false ∨ b.awaited = true)
  once : (s.table.map fun row => row.1.id).Nodup
  /-- With no flush in progress the rows verify, and no other rows verify up to the same signature. -/
  verified : (∀ b ∈ s.batches, ¬ b.inFlight) → ∃ batches head, Verified cfg s.table batches head ∧
    ∀ table' batches', Verified cfg table' batches' head → table'.Perm s.table ∨ HmacCollides cfg

/-- An entry is logged in the plain form; a query fails for the first row of the batch signed last, and in a flush
that a caller awaits; and nothing is signed after a failure. -/
def Unbroken (cfg : AuditConfig S) (s : AuditLogger S) : AuditEvent → Prop
  | .log opts entityClass _ => Plain cfg.jsonb opts entityClass ∧ (batchSize ≤ s.pendingBatch.length + 1 → ∀ b ∈ s.batches, b.failed = false)
  | .flush => s.pendingBatch ≠ [] → ∀ b ∈ s.batches, b.failed = false
  | .timer => s.flushTimer = true → s.pendingBatch ≠ [] → ∀ b ∈ s.batches, b.failed = false
  | .stored _ => True
  | .failed i => ∀ b, s.batches[i]? = some b → b.inFlight → b.awaited = true ∧ b.written = 0 ∧ i + 1 = s.batches.length

/-! ## The invariant -/

/-- The entry was logged in the plain form. -/
def LoggedPlain (cfg : AuditConfig S) (e : AuditEntry) : Prop :=
  ∃ opts entityClass id createdAt, Plain cfg.jsonb opts entityClass ∧ e = batchEntry opts entityClass id createdAt

/-- The rows of a batch. -/
def Batch.rows (cfg : AuditConfig S) (b : Batch S) : List AuditRow := b.entries.map (insertRow cfg.jsonb · b.id)

structure BatchOk (cfg : AuditConfig S) (s : AuditLogger S) (b : Batch S) : Prop where
  nonempty : b.entries ≠ []
  written : b.written ≤ b.entries.length
  plain : ∀ e ∈ b.entries, ∃ e', LoggedPlain cfg e' ∧ e = e'.assign b.id
  issued : ∃ n < s.uuids, b.id = cfg.uuid n

structure AuditSound (cfg : AuditConfig S) (s : AuditLogger S) : Prop where
  pending : ∀ e ∈ s.pendingBatch, LoggedPlain cfg e
  batches : ∀ b ∈ s.batches, BatchOk cfg s b
  ids : (s.batches.map Batch.id).Nodup
  chain : Sealed (signRows cfg) (s.batches.map fun b => (b.rows cfg, b.signature)) s.previousSignature
  table : s.table.Perm (s.batches.flatMap fun b => ((b.rows cfg).take b.written).map (·, b.signature))
  accounted : (s.batches.flatMap (fun b => entryIds b.entries) ++ entryIds s.pendingBatch).Perm s.logged
  logged : s.logged.Nodup
  drawn : ∀ id ∈ s.logged, ∃ n < s.uuids, id = some (.str (cfg.uuid n))
  failed : ∀ (i : Nat) b, s.batches[i]? = some b → b.failed = true → b.awaited = true ∧ b.written = 0 ∧ i + 1 = s.batches.length

theorem auditSound_empty : AuditSound cfg ({} : AuditLogger S) := by
  constructor
  case chain => exact Sealed.empty
  all_goals simp [entryIds]

theorem read_id_assign (e : AuditEntry) (batchId : String) : (e.assign batchId).read "id" = e.read "id" := by
  unfold AuditEntry.assign
  rw [read_set, if_neg (by decide)]

theorem entryIds_assign (entries : List AuditEntry) (batchId : String) : entryIds (entries.map (·.assign batchId)) = entryIds entries := by
  unfold entryIds
  rw [map_map]
  exact map_congr_left fun e _ => read_id_assign e batchId

theorem read_id_batchEntry (opts : AuditEntry) (entityClass : Option (List String)) (id createdAt : String) :
    (batchEntry opts entityClass id createdAt).read "id" = some (.str id) := by
  show AuditEntry.read (OrderedMap.set (OrderedMap.set (OrderedMap.set (withStates opts entityClass)
    "id" _) "batchId" _) "createdAt" _) "id" = _
  rw [read_set, if_neg (by decide), read_set, if_neg (by decide), read_set, if_pos rfl]

/-! ## The steps -/

theorem BatchOk.of_uuids {t : AuditLogger S} {b : Batch S} (h : BatchOk cfg s b) (hle : s.uuids ≤ t.uuids) : BatchOk cfg t b := by
  obtain ⟨n, hn, hid⟩ := h.issued
  exact ⟨h.nonempty, h.written, h.plain, n, by omega, hid⟩

theorem signRows_of_plain {previous : Option S} {pending : List AuditEntry} {batchId : String} (h : ∀ e ∈ pending, LoggedPlain cfg e) :
    cfg.hmac cfg.signingKey (signedText previous ((pending.map (·.assign batchId)).map AuditEntry.json)) =
      signRows cfg previous ((pending.map (·.assign batchId)).map (insertRow cfg.jsonb · batchId)) := by
  congr 2
  rw [map_map, map_map, map_map]
  refine map_congr_left fun e he => ?_
  obtain ⟨opts, entityClass, id, createdAt, hplain, rfl⟩ := h e he
  exact (hplain.recovered id createdAt batchId).symm

theorem AuditSound.flush (h : AuditSound cfg s) (huuid : Function.Injective cfg.uuid) (awaited : Bool)
    (hg : s.pendingBatch ≠ [] → ∀ b ∈ s.batches, b.failed = false) : AuditSound cfg (flush cfg s awaited) := by
  unfold AuditLogger.flush
  by_cases hempty : s.pendingBatch = []
  · simp only [hempty, if_true]
    exact ⟨fun e he => (by cases he), fun b hb => (h.batches b hb).of_uuids le_rfl, h.ids, h.chain, h.table,
      hempty ▸ h.accounted, h.logged, h.drawn, h.failed⟩
  · have hnone := hg hempty
    simp only [hempty, if_false]
    constructor
    case pending =>
      intro e he
      cases he
    case batches =>
      intro b hb
      rcases mem_append.1 hb with hb | hb
      · exact (h.batches b hb).of_uuids (Nat.le_succ _)
      · obtain rfl := mem_singleton.1 hb
        refine ⟨by simpa using hempty, Nat.zero_le _, fun e he => ?_, s.uuids, Nat.lt_succ_self _, rfl⟩
        obtain ⟨e', he', rfl⟩ := mem_map.1 he
        exact ⟨e', h.pending e' he', rfl⟩
    case ids =>
      -- the new id was never drawn before
      rw [map_append, nodup_append]
      refine ⟨h.ids, by simp, fun a ha b hb heq => ?_⟩
      obtain ⟨batch, hbatch, rfl⟩ := mem_map.1 ha
      obtain rfl := mem_singleton.1 hb
      obtain ⟨n, hn, hid⟩ := (h.batches batch hbatch).issued
      have : n = s.uuids := huuid (hid.symm.trans heq)
      omega
    case chain =>
      rw [signRows_of_plain h.pending, map_append]
      exact Sealed.concat _ h.chain
    case table =>
      simpa using h.table
    case accounted =>
      have hids := h.accounted
      rw [← entryIds_assign s.pendingBatch (cfg.uuid s.uuids)] at hids
      simpa [entryIds] using hids
    case logged => exact h.logged
    case drawn =>
      intro id hid
      obtain ⟨n, hn, hdrawn⟩ := h.drawn id hid
      exact ⟨n, Nat.lt_succ_of_lt hn, hdrawn⟩
    case failed =>
      intro i b hb hf
      rcases getElem?_concat_cases hb with hb | ⟨-, rfl⟩
      · rw [hnone b (mem_of_getElem? hb)] at hf
        cases hf
      · cases hf

theorem AuditSound.push (h : AuditSound cfg s) (huuid : Function.Injective cfg.uuid) {opts : AuditEntry}
    {entityClass : Option (List String)} {createdAt : String} (hplain : Plain cfg.jsonb opts entityClass) :
    AuditSound cfg { s with
      pendingBatch := s.pendingBatch ++ [batchEntry opts entityClass (cfg.uuid s.uuids) createdAt]
      uuids := s.uuids + 1
      logged := s.logged ++ [(batchEntry opts entityClass (cfg.uuid s.uuids) createdAt).read "id"] } := by
  rw [read_id_batchEntry]
  constructor
  case pending =>
    intro e he
    rcases mem_append.1 he with he | he
    · exact h.pending e he
    · obtain rfl := mem_singleton.1 he
      exact ⟨opts, entityClass, _, createdAt, hplain, rfl⟩
  case batches => exact fun b hb => (h.batches b hb).of_uuids (Nat.le_succ _)
  case ids => exact h.ids
  case chain => exact h.chain
  case table => exact h.table
  case accounted =>
    have hnew : entryIds [batchEntry opts entityClass (cfg.uuid s.uuids) createdAt] = [some (.str (cfg.uuid s.uuids))] := by
      simp only [entryIds, map_cons, map_nil, read_id_batchEntry]
    rw [entryIds, map_append, ← append_assoc]
    exact (h.accounted.append_right _).trans (hnew ▸ List.Perm.refl _)
  case logged =>
    rw [nodup_append]
    refine ⟨h.logged, by simp, fun a ha b hb heq => ?_⟩
    obtain rfl := mem_singleton.1 hb
    obtain ⟨n, hn, rfl⟩ := h.drawn a ha
    have : n = s.uuids := huuid (Json.str.inj (Option.some.inj heq))
    omega
  case drawn =>
    intro id hid
    rcases mem_append.1 hid with hid | hid
    · obtain ⟨n, hn, hdrawn⟩ := h.drawn id hid
      exact ⟨n, Nat.lt_succ_of_lt hn, hdrawn⟩
    · exact ⟨s.uuids, Nat.lt_succ_self _, mem_singleton.1 hid⟩
  case failed => exact h.failed

theorem AuditSound.of_timer (h : AuditSound cfg s) (armed : Bool) : AuditSound cfg { s with flushTimer := armed } :=
  ⟨h.pending, fun b hb => (h.batches b hb).of_uuids le_rfl, h.ids, h.chain, h.table, h.accounted, h.logged, h.drawn, h.failed⟩

theorem AuditSound.log (h : AuditSound cfg s) (huuid : Function.Injective cfg.uuid) {opts : AuditEntry}
    {entityClass : Option (List String)} {createdAt : String} (hplain : Plain cfg.jsonb opts entityClass)
    (hg : batchSize ≤ s.pendingBatch.length + 1 → ∀ b ∈ s.batches, b.failed = false) :
    AuditSound cfg (log cfg s opts entityClass createdAt) := by
  have hpush := @AuditSound.push _ _ _ h huuid _ _ createdAt hplain
  unfold AuditLogger.log
  simp only []
  split
  · rename_i hsize
    exact hpush.flush huuid true fun _ => hg (by simpa using hsize)
  · exact hpush.of_timer true

theorem AuditSound.exchange (h : AuditSound cfg s) {i : Nat} {b c : Batch S} (hb : s.batches[i]? = some b)
    (hid : c.id = b.id) (hentries : c.entries = b.entries) (hsignature : c.signature = b.signature)
    (hwritten : c.written ≤ b.entries.length) {table : List (AuditRow × S)}
    (htable : table.Perm ((s.batches.set i c).flatMap fun b => ((b.rows cfg).take b.written).map (·, b.signature)))
    (hfailed : c.failed = true → c.awaited = true ∧ c.written = 0 ∧ i + 1 = s.batches.length) :
    AuditSound cfg { s with table := table, batches := s.batches.set i c } := by
  have hok := h.batches b (mem_of_getElem? hb)
  have hrows : c.rows cfg = b.rows cfg := by rw [Batch.rows, hentries, hid, Batch.rows]
  constructor
  case pending => exact h.pending
  case batches =>
    intro b' hb'
    rcases mem_or_eq_of_mem_set hb' with hb' | rfl
    · exact (h.batches b' hb').of_uuids le_rfl
    · exact ⟨hentries ▸ hok.nonempty, hentries ▸ hwritten, hentries ▸ hid ▸ hok.plain, hid ▸ hok.issued⟩
  case ids =>
    rw [map_set_eq hb hid]
    exact h.ids
  case chain =>
    rw [map_set_eq hb (Prod.ext hrows hsignature)]
    exact h.chain
  case table => exact htable
  case accounted =>
    show (((s.batches.set i c).map fun b => entryIds b.entries).flatten ++ entryIds s.pendingBatch).Perm s.logged
    rw [map_set_eq hb (congrArg entryIds hentries)]
    exact h.accounted
  case logged => exact h.logged
  case drawn => exact h.drawn
  case failed =>
    intro j b' hb' hf
    rw [length_set]
    rcases getElem?_set_cases hb' with ⟨rfl, rfl⟩ | ⟨-, hb'⟩
    · exact hfailed hf
    · exact h.failed j b' hb' hf

theorem AuditSound.settle (h : AuditSound cfg s) (i : Nat) (succeeds : Bool)
    (hg : succeeds = false → ∀ b, s.batches[i]? = some b → b.inFlight →
      b.awaited = true ∧ b.written = 0 ∧ i + 1 = s.batches.length) : AuditSound cfg (settle cfg s i succeeds) := by
  unfold AuditLogger.settle
  split
  · exact h
  · rename_i b hb
    split
    · rename_i entry hfailed hentry
      have hlt : b.written < b.entries.length := (lt_length hentry)
      cases succeeds with
      | true =>
        refine h.exchange (c := { b with written := b.written + 1 }) hb rfl rfl rfl hlt ?_ fun hf => by rw [hfailed] at hf; cases hf
        have hrow : (b.rows cfg)[b.written]? = some (insertRow cfg.jsonb entry b.id) := by
          unfold Batch.rows
          rw [getElem?_map, hentry]
          rfl
        refine (h.table.append_right _).trans (perm_flatMap_set _ hb ?_).symm
        show List.map _ ((b.rows cfg).take (b.written + 1)) = _
        rw [take_add_one, hrow, map_append]
        rfl
      | false =>
        refine h.exchange (c := { b with failed := true }) hb rfl rfl rfl hlt.le ?_ fun _ => hg rfl b hb ⟨hfailed, hlt⟩
        show s.table.Perm (List.flatten (List.map _ _))
        rw [map_set_eq hb (by rfl)]
        exact h.table
    · exact h

theorem AuditSound.step (huuid : Function.Injective cfg.uuid) (s : AuditLogger S) (ev : AuditEvent)
    (h : AuditSound cfg s) (hg : Unbroken cfg s ev) : AuditSound cfg (step cfg s ev) := by
  cases ev with
  | log opts entityClass createdAt => exact h.log huuid hg.1 hg.2
  | flush => exact h.flush huuid true hg
  | timer =>
    show AuditSound cfg (if s.flushTimer then _ else s)
    split
    · exact h.flush huuid false (hg ‹_›)
    · exact h
  | stored i => exact h.settle i true fun hf => by cases hf
  | failed i => exact h.settle i false fun _ => hg

/-! ## What the invariant promises -/

section

variable (h : AuditSound cfg s)
include h

theorem AuditSound.table_ids : (s.table.map fun row => row.1.id).Perm (s.batches.flatMap fun b => entryIds (b.entries.take b.written)) := by
  refine (h.table.map _).trans (.of_eq ?_)
  rw [map_flatMap]
  congr 1
  funext b
  rw [Batch.rows, ← map_take, map_map, map_map]
  rfl

theorem AuditSound.kept {id : Option Json} (hid : id ∈ s.logged) : id ∈ s.table.map (fun row => row.1.id) ∨ id ∈ entryIds s.pendingBatch ∨
      ∃ b ∈ s.batches, id ∈ entryIds (b.entries.drop b.written) ∧ (b.failed = false ∨ b.awaited = true) := by
  rcases mem_append.1 (h.accounted.mem_iff.2 hid) with hid | hid
  · obtain ⟨b, hb, hid⟩ := mem_flatMap.1 hid
    rw [← take_append_drop b.written b.entries, entryIds, map_append] at hid
    rcases mem_append.1 hid with hid | hid
    · exact Or.inl (h.table_ids.mem_iff.2 (mem_flatMap.2 ⟨b, hb, hid⟩))
    · refine Or.inr (Or.inr ⟨b, hb, hid, ?_⟩)
      obtain ⟨i, hi⟩ := mem_iff_getElem?.1 hb
      cases hf : b.failed with
      | false => exact Or.inl rfl
      | true => exact Or.inr (h.failed i b hi hf).1
  · exact Or.inr (Or.inl hid)

theorem AuditSound.once : (s.table.map fun row => row.1.id).Nodup := by
  have hall := (nodup_append.1 (h.accounted.nodup_iff.2 h.logged)).1
  refine h.table_ids.nodup_iff.2 (hall.sublist (List.Sublist.flatMap_right _ fun b _ => ?_))
  exact (take_sublist _ _).map _

theorem AuditSound.split : ∃ done rest, s.batches = done ++ rest ∧
    (∀ b ∈ done, b.failed = false) ∧ (rest = [] ∨ ∃ b, rest = [b] ∧ b.written = 0) := by
  cases hlast : s.batches.reverse with
  | nil =>
    refine ⟨[], [], reverse_eq_nil_iff.1 hlast, fun b hb => ?_, Or.inl rfl⟩
    cases hb
  | cons b before =>
    have hb : s.batches = before.reverse ++ [b] := by
      rw [← reverse_cons, ← hlast, reverse_reverse]
    -- only the last one may have failed
    have hbefore : ∀ c ∈ before.reverse, c.failed = false := fun c hc => by
      obtain ⟨i, hi⟩ := mem_iff_getElem?.1 hc
      have hlt := (lt_length hi)
      cases hf : c.failed with
      | false => rfl
      | true =>
        have hi' : s.batches[i]? = some c := by rw [hb, getElem?_append_left hlt, hi]
        have := (h.failed i c hi' hf).2.2
        rw [hb, length_append, length_singleton] at this
        omega
    cases hf : b.failed with
    | false =>
      refine ⟨s.batches, [], (append_nil _).symm, fun c hc => ?_, Or.inl rfl⟩
      rw [hb] at hc
      rcases mem_append.1 hc with hc | hc
      · exact hbefore c hc
      · rw [mem_singleton.1 hc]
        exact hf
    | true =>
      have hi : s.batches[before.reverse.length]? = some b := by rw [hb, getElem?_concat_length]
      exact ⟨before.reverse, [b], hb, hbefore, Or.inr ⟨b, rfl, (h.failed _ b hi hf).2.1⟩⟩

theorem AuditSound.verified (hrest : ∀ b ∈ s.batches, ¬ b.inFlight) : ∃ batches head, Verified cfg s.table batches head := by
  obtain ⟨done, rest, hsplit, hdone, hlast⟩ := h.split
  have hwritten : ∀ b ∈ done, b.written = b.entries.length := fun b hb => by
    have hmem : b ∈ s.batches := hsplit ▸ mem_append_left _ hb
    have hle := (h.batches b hmem).written
    have hnot : ¬ b.written < b.entries.length := fun hlt => hrest b hmem ⟨hdone b hb, hlt⟩
    omega
  have htable := h.table
  have hchain := h.chain
  have hids := h.ids
  rw [hsplit] at htable hchain hids
  rw [map_append] at hchain hids
  -- of a failed batch there is no row
  have hnone : (rest.flatMap fun b => ((b.rows cfg).take b.written).map (·, b.signature)) = [] := by
    rcases hlast with rfl | ⟨b, rfl, hzero⟩
    · rfl
    · rw [flatMap_singleton, hzero]
      rfl
  obtain ⟨head, hhead⟩ : ∃ head, Sealed (signRows cfg) (done.map fun b => (b.rows cfg, b.signature)) head := by
    rcases hlast with rfl | ⟨b, rfl, -⟩
    · exact ⟨_, by simpa using hchain⟩
    · exact hchain.init
  refine ⟨done.map fun b => (b.rows cfg, b.signature), head, ?_, hhead, ?_, ?_⟩
  · rw [flatMap_append, hnone, append_nil] at htable
    refine htable.trans (.of_eq ?_)
    rw [flatMap_map]
    refine flatMap_congr fun b hb => ?_
    rw [hwritten b hb, take_of_length_le (by rw [Batch.rows, length_map])]
  · intro c hc
    obtain ⟨b, hb, rfl⟩ := mem_map.1 hc
    have hok := h.batches b (hsplit ▸ mem_append_left _ hb)
    refine ⟨fun heq => hok.nonempty (map_eq_nil_iff.1 heq), b.id, fun r hr => ?_⟩
    obtain ⟨e, -, rfl⟩ := mem_map.1 hr
    rfl
  · rw [pairwise_map]
    refine (pairwise_map.1 (nodup_append.1 hids).1).imp fun {a b} hne r hr r' hr' heq => hne ?_
    obtain ⟨e, -, rfl⟩ := mem_map.1 hr
    obtain ⟨e', -, rfl⟩ := mem_map.1 hr'
    exact Json.str.inj (Option.some.inj heq)

theorem AuditSound.safe : AuditSafe cfg s := by
  refine ⟨fun id hid => h.kept hid, h.once, fun hrest => ?_⟩
  obtain ⟨batches, head, hverified⟩ := h.verified hrest
  exact ⟨batches, head, hverified, fun table' batches' h' => hverified.tampered h'⟩

end

/-- A signature that is the signed text, UUIDs that are counted in strokes, and a column that keeps its values. -/
def plainTextAudit : AuditConfig (List Json.Token) where
  signingKey := "key"
  hmac key text := .str key :: text.flatMap fun
    | .signature s => s
    | .token t => [t]
  uuid n := String.ofList (List.replicate n '|')
  jsonb := id

theorem uuid_injective : Function.Injective plainTextAudit.uuid := fun a b h => by
  have hlist : List.replicate a '|' = List.replicate b '|' := String.ofList_injective h
  simpa using congrArg List.length hlist

def signIn : AuditEntry := [("category", some (.str "auth")), ("action", some (.str "login"))]

theorem signIn_plain : Plain plainTextAudit.jsonb signIn none := by
  constructor
  case keys => exact List.Sublist.cons_cons _ (.cons _ (.cons_cons _ (nil_sublist _)))
  case present =>
    intro e he hnull
    rcases mem_cons.1 he with rfl | he
    · cases hnull
    · rw [mem_singleton.1 he] at hnull
      cases hnull
  all_goals
    intro state hstate
    cases hstate

end StreetJS.Enterprise
