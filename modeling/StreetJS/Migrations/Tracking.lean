/-
Whole histories of `run`, `rollback` and crashes: what the tracking table says is what stands of the
scripts executed, a run applies the pending files in name order, and `rollback(n)` undoes the last `n`
of them, latest first. The clock must move forward, the directory must not be the root, and `steps = 0`
must find nothing applied, since `slice(-0)` is the whole list.
-/
import StreetJS.Migrations.Runner
import Mathlib.Data.List.Pairwise

namespace StreetJS.Migrations

open StreetJS.Lib List
open Program (bind_of_crashed bind_of_done bind_of_threw pure_apply)

/-! ## One transaction -/

section

variable {σ : Type} (server : Server σ) (env : Env)

variable {s : Session σ}

/-- A script or a change of the tracking table, outside a transaction of its own. -/
theorem query_of_live {st : Stmt} (hst : st.isControl = false) {db : Db σ} {now : Nat} (htxn : s.txn = .live db now) :
    query server env st s = if env.crashAt = some s.issued then (.crashed, { s with txn := .idle })
      else match effect server now st db with
        | some (found, db') => (.done found, { s with issued := s.issued + 1, txn := .live db' now })
        | none => (.threw "database error", { s with issued := s.issued + 1, txn := .failed }) := by
  unfold query
  cases st <;> first | (cases hst; done) | (rw [htxn] <;> rfl)

theorem query_begin (htxn : s.txn = .idle) : query server env .begin s =
      if env.crashAt = some s.issued then (.crashed, { s with txn := .idle })
      else (.done [], { s with issued := s.issued + 1, txn := .live s.committed (env.clock s.issued) }) := by
  unfold query
  rw [htxn]

theorem query_commit {db : Db σ} {now : Nat} (htxn : s.txn = .live db now) : query server env .commit s =
      if env.crashAt = some s.issued then (.crashed, { s with txn := .idle })
      else (.done [], { s with issued := s.issued + 1, committed := db, txn := .idle }) := by
  unfold query
  rw [htxn]

theorem query_rollback (s : Session σ) : query server env .rollback s =
      if env.crashAt = some s.issued then (.crashed, { s with txn := .idle })
      else (.done [], { s with issued := s.issued + 1, txn := .idle }) := by
  rfl

theorem query_of_idle (st : Stmt) (hst : st.isControl = false) (htxn : s.txn = .idle) : query server env st s =
      if env.crashAt = some s.issued then (.crashed, { s with txn := .idle })
      else match effect server (env.clock s.issued) st s.committed with
        | some (found, db) => (.done found, { s with issued := s.issued + 1, committed := db })
        | none => (.threw "database error", { s with issued := s.issued + 1 }) := by
  unfold query
  cases st <;> first | (cases hst; done) | (rw [htxn] <;> rfl)

/-- What two statements in a transaction did: both and the commit, or nothing. -/
inductive Ended (a b : Stmt) (s : Session σ) : Outcome Unit → Session σ → Prop
  | done {s' : Session σ} (found found' : List FileName) (db : Db σ) (hlt : s.issued < s'.issued)
      (first : effect server (env.clock s.issued) a s.committed = some (found, db))
      (second : effect server (env.clock s.issued) b db = some (found', s'.committed)) : Ended a b s (.done ()) s'
  | threw {s' : Session σ} (message : String) (same : s'.committed = s.committed)
      (cause : ∀ found db, effect server (env.clock s.issued) a s.committed = some (found, db) →
        effect server (env.clock s.issued) b db = none) : Ended a b s (.threw message) s'
  | crashed {s' : Session σ} (same : s'.committed = s.committed) (cause : env.crashAt ≠ none) : Ended a b s .crashed s'

theorem crashes_of_eq {env : Env} {n : Nat} (h : env.crashAt = some n) : env.crashAt ≠ none := by
  rw [h]
  exact nofun

theorem transaction_of_threw {fn : Program σ Unit} {s' : Session σ} {m : String} (h : attempt server env fn s = (.threw m, s')) :
    (transaction server env fn s).2.txn = .idle ∧ (transaction server env fn s).2.committed = s'.committed ∧
      ((transaction server env fn s).1 = .threw m ∨ (transaction server env fn s).1 = .crashed ∧ env.crashAt ≠ none) := by
  unfold transaction
  rw [h]
  simp only [query_rollback]
  by_cases hcrash : env.crashAt = some s'.issued
  · rw [if_pos hcrash]
    exact ⟨rfl, rfl, .inr ⟨rfl, crashes_of_eq hcrash⟩⟩
  · rw [if_neg hcrash]
    exact ⟨rfl, rfl, .inl rfl⟩

theorem transaction_of_not_threw {fn : Program σ Unit} {s' : Session σ} {o : Outcome Unit}
    (h : attempt server env fn s = (o, s')) (ho : ∀ m, o ≠ .threw m) : transaction server env fn s = (o, s') := by
  unfold transaction
  rw [h]
  cases o with
  | done => rfl
  | threw m => exact absurd rfl (ho m)
  | crashed => rfl

/-- **A transaction of two statements takes effect whole or not at all.** -/
theorem transaction_ended {a b : Stmt} (ha : a.isControl = false) (hb : b.isControl = false) (htxn : s.txn = .idle) :
    let r := transaction server env (do let _ ← query server env a; let _ ← query server env b; pure ()) s
    r.2.txn = .idle ∧ Ended server env a b s r.1 r.2 := by
  intro r
  -- a statement that fails leaves what was committed as it was
  have failed : ∀ {s' : Session σ} {m : String},
      attempt server env (do let _ ← query server env a; let _ ← query server env b; pure ()) s = (.threw m, s') →
      s'.committed = s.committed →
      (∀ found db, effect server (env.clock s.issued) a s.committed = some (found, db) → effect server (env.clock s.issued) b db = none) →
      r.2.txn = .idle ∧ Ended server env a b s r.1 r.2 := by
    intro s' m h hsame hcause
    obtain ⟨hidle, hcommitted, hout | ⟨hout, hcrash⟩⟩ := transaction_of_threw server env h
    · exact ⟨hidle, by rw [hout]; exact .threw m (hcommitted.trans hsame) hcause⟩
    · exact ⟨hidle, by rw [hout]; exact .crashed (hcommitted.trans hsame) hcrash⟩
  have stopped : ∀ {s' : Session σ} {n : Nat},
      attempt server env (do let _ ← query server env a; let _ ← query server env b; pure ()) s = (.crashed, s') →
      s'.committed = s.committed → s'.txn = .idle → env.crashAt = some n →
      r.2.txn = .idle ∧ Ended server env a b s r.1 r.2 := by
    intro s' n h hsame hidle hcrash
    have hr : r = (.crashed, s') := transaction_of_not_threw server env h (fun _ => nofun)
    rw [hr]
    exact ⟨hidle, .crashed hsame (crashes_of_eq hcrash)⟩
  have hbegin := query_begin server env htxn
  by_cases h₀ : env.crashAt = some s.issued
  · rw [if_pos h₀] at hbegin
    exact stopped (bind_of_crashed hbegin) rfl rfl h₀
  rw [if_neg h₀] at hbegin
  set s₁ : Session σ := { s with issued := s.issued + 1, txn := .live s.committed (env.clock s.issued) } with hs₁
  have hfirst := query_of_live server env ha (s := s₁) rfl
  by_cases h₁ : env.crashAt = some s₁.issued
  · rw [if_pos h₁] at hfirst
    refine stopped ((bind_of_done hbegin).trans (bind_of_crashed (bind_of_crashed hfirst))) rfl rfl h₁
  rw [if_neg h₁] at hfirst
  cases hea : effect server (env.clock s.issued) a s.committed with
  | none =>
    rw [hea] at hfirst
    refine failed ((bind_of_done hbegin).trans (bind_of_threw (bind_of_threw hfirst))) rfl ?_
    intro _ _ h
    rw [hea] at h
    cases h
  | some out =>
  obtain ⟨found, db⟩ := out
  rw [hea] at hfirst
  set s₂ : Session σ := { s₁ with issued := s₁.issued + 1, txn := .live db (env.clock s.issued) } with hs₂
  have hsecond := query_of_live server env hb (s := s₂) rfl
  have hbody := fun {p : Program σ Unit} {out} (h : (p s₂ = out)) =>
    (bind_of_done (f := fun _ => p) hfirst).trans h
  by_cases h₂ : env.crashAt = some s₂.issued
  · rw [if_pos h₂] at hsecond
    exact stopped ((bind_of_done hbegin).trans (bind_of_crashed (hbody (bind_of_crashed hsecond)))) rfl rfl h₂
  rw [if_neg h₂] at hsecond
  cases heb : effect server (env.clock s.issued) b db with
  | none =>
    rw [heb] at hsecond
    refine failed ((bind_of_done hbegin).trans (bind_of_threw (hbody (bind_of_threw hsecond)))) rfl ?_
    intro _ _ h
    rw [hea] at h
    cases h
    exact heb
  | some out =>
  obtain ⟨found', db'⟩ := out
  rw [heb] at hsecond
  set s₃ : Session σ := { s₂ with issued := s₂.issued + 1, txn := .live db' (env.clock s.issued) } with hs₃
  have hfn : (do let _ ← query server env a; let _ ← query server env b; pure () : Program σ Unit) s₁
      = (.done (), s₃) := hbody ((bind_of_done hsecond).trans (pure_apply () s₃))
  have hdone : attempt server env (do let _ ← query server env a; let _ ← query server env b; pure ()) s
      = (do let _ ← query server env .commit; pure () : Program σ Unit) s₃ :=
    (bind_of_done hbegin).trans (bind_of_done hfn)
  have hcommit := query_commit server env (s := s₃) rfl
  by_cases h₃ : env.crashAt = some s₃.issued
  · rw [if_pos h₃] at hcommit
    exact stopped (hdone.trans (bind_of_crashed hcommit)) rfl rfl h₃
  rw [if_neg h₃] at hcommit
  have hr : r = _ := transaction_of_not_threw server env (hdone.trans ((bind_of_done hcommit).trans (pure_apply () _))) (fun _ => nofun)
  rw [hr]
  refine ⟨rfl, .done found found' db ?_ hea heb⟩
  simp only [hs₃, hs₂, hs₁]
  omega

end

/-! ## What stands of a history -/

/-- The files applied and not rolled back, in the order they were applied. -/
def standing (history : List Script) : List FileName :=
  history.foldl (fun files s =>
    match s with
    | .apply file => files ++ [file]
    | .undo name => files.erase name) []

theorem standing_apply (history : List Script) (file : FileName) : standing (history ++ [.apply file]) = standing history ++ [file] := by
  simp only [standing, foldl_append, foldl_cons, foldl_nil]

theorem standing_undo (history : List Script) (name : FileName) : standing (history ++ [.undo name]) = (standing history).erase name := by
  simp only [standing, foldl_append, foldl_cons, foldl_nil]

/-- The tracking table is what stands of the history, in order of application, and the times of its rows
are in that order too. -/
structure Inv {σ : Type} (db : Db σ) : Prop where
  names_eq : db.names = standing db.history
  nodup : db.names.Nodup
  ordered : db.rows.Pairwise fun a b => a.appliedAt < b.appliedAt
  safe : ∀ name ∈ db.names, safeMigrationFilename name = true

theorem Inv.fresh {σ : Type} (data : σ) : Inv (fresh data) where
  names_eq := rfl
  nodup := .nil
  ordered := .nil
  safe := nofun

/-! ## File names -/

variable {file : FileName}

theorem dotSql_suffix_of_safe (h : safeMigrationFilename file = true) : ∃ c stem, file = c :: (stem ++ dotSql) ∧ isAlphanumeric c = true ∧
      stem.all (fun c => isAlphanumeric c || c = '_' || c = '-' || c = '.') = true := by
  cases file with
  | nil => cases h
  | cons c rest =>
    simp only [safeMigrationFilename, Bool.and_eq_true, isSuffixOf_iff_suffix] at h
    obtain ⟨⟨hc, stem, rfl⟩, hall⟩ := h
    rw [all_append, Bool.and_eq_true] at hall
    exact ⟨c, stem, rfl, hc, hall.1⟩

theorem safe_rollbackFileOf (h : safeMigrationFilename file = true) : safeMigrationFilename (rollbackFileOf file) = true := by
  obtain ⟨c, stem, rfl, hc, hall⟩ := dotSql_suffix_of_safe h
  have hsuffix : dotSql.isSuffixOf (c :: (stem ++ dotSql)) = true :=
    isSuffixOf_iff_suffix.2 ⟨c :: stem, rfl⟩
  have htake : (c :: (stem ++ dotSql)).take ((c :: (stem ++ dotSql)).length - 4) = c :: stem := by
    have hlen : (c :: (stem ++ dotSql)).length - 4 = (c :: stem).length := by
      simp only [length_cons, length_append, dotSql, length_nil]
      omega
    rw [hlen, ← cons_append, take_left]
  rw [rollbackFileOf, if_pos hsuffix, htake, cons_append, safeMigrationFilename, hc, all_append, hall]
  simp only [Bool.true_and, Bool.and_eq_true, isSuffixOf_iff_suffix]
  refine ⟨⟨stem ++ ['.', 'r', 'o', 'l', 'l', 'b', 'a', 'c', 'k'], ?_⟩, by decide⟩
  rw [append_assoc]
  rfl

theorem assertFileWithinDir_of_safe {σ : Type} {dir : List Char} (hdir : dir ≠ ['/'])
    (h : safeMigrationFilename file = true) (s : Session σ) :
    assertFileWithinDir dir file s = (.done (resolvedPath dir file), s) := by
  have hpath : resolvedPath dir file = (dir ++ ['/']) ++ file := by
    rw [resolvedPath, if_neg hdir, append_assoc]
    rfl
  have hprefix : (dir ++ ['/']).isPrefixOf (resolvedPath dir file) = true := by
    rw [List.isPrefixOf_iff_prefix, hpath]
    exact prefix_append _ _
  simp only [assertFileWithinDir, h, hprefix, Bool.not_true, Bool.false_and, Bool.false_eq_true, if_false, pure_apply]

theorem readFile_of_none {σ : Type} {d : Directory} (h : d.readFile file = none)
    (message : String) (s : Session σ) : readFile d file message s = (.threw message, s) := by
  rw [readFile, h]
  rfl

theorem readFile_of_some {σ : Type} {d : Directory} {sql : String} (h : d.readFile file = some sql) (message : String) (s : Session σ) :
    readFile d file message s = (.done sql, s) := by
  rw [readFile, h]
  rfl

/-! ## One migration -/

section

variable {σ : Type} (server : Server σ) (env : Env)

variable {db : Db σ}

theorem names_of_tracking {rows : List Row} (h : db.tracking = some rows) : db.rows = rows ∧ db.names = rows.map Row.name := by
  rw [Db.names, Db.rows, h]
  exact ⟨rfl, rfl⟩

theorem Inv.applied {db₁ db₂ : Db σ} {file : FileName} {sql : String} {now : Nat} {found found' : List FileName}
    (hinv : Inv db) (hsafe : safeMigrationFilename file = true) (hclock : ∀ row ∈ db.rows, row.appliedAt < now)
    (first : effect server now (.script (.apply file) sql) db = some (found, db₁))
    (second : effect server now (.insertName file) db₁ = some (found', db₂)) :
    Inv db₂ ∧ db₂.history = db.history ++ [.apply file] ∧ db₂.names = db.names ++ [file] ∧
      db₂.tracking ≠ none ∧ ∀ row ∈ db₂.rows, row ∈ db.rows ∨ row.appliedAt = now := by
  simp only [effect, Option.map_eq_some_iff, Prod.mk.injEq] at first
  obtain ⟨data, -, -, rfl⟩ := first
  simp only [effect] at second
  cases htracking : db.tracking with
  | none =>
    rw [htracking] at second
    cases second
  | some rows =>
    rw [htracking] at second
    simp only at second
    split at second
    · cases second
    · split at second
      · cases second
      · next hnew =>
        cases second
        obtain ⟨hrows, hnames⟩ := names_of_tracking htracking
        have hnames₂ : Db.names ⟨data, some (rows ++ [⟨file, now⟩]), db.history ++ [.apply file]⟩ = db.names ++ [file] := by
          rw [hnames, Db.names, Db.rows, Option.getD_some, map_append, map_singleton]
        refine ⟨⟨?_, ?_, ?_, ?_⟩, rfl, hnames₂, nofun, ?_⟩
        · rw [hnames₂, standing_apply, hinv.names_eq]
        · rw [hnames₂, nodup_append]
          refine ⟨hinv.nodup, nodup_singleton _, ?_⟩
          rintro name hname _ hfile rfl
          rw [mem_singleton.1 hfile, hnames] at hname
          exact hnew hname
        · rw [Db.rows, Option.getD_some, pairwise_append]
          refine ⟨hrows ▸ hinv.ordered, pairwise_singleton _ _, ?_⟩
          intro row hrow row' hrow'
          rw [mem_singleton.1 hrow']
          exact hclock row (hrows ▸ hrow)
        · rw [hnames₂]
          intro name hname
          rcases mem_append.1 hname with hname | hname
          · exact hinv.safe name hname
          · rw [mem_singleton.1 hname]
            exact hsafe
        · intro row hrow
          rcases mem_append.1 hrow with hrow | hrow
          · exact .inl (hrows ▸ hrow)
          · rw [mem_singleton.1 hrow]
            exact .inr rfl

theorem insertName_ne_none {file : FileName} {now : Nat} (htracking : db.tracking ≠ none)
    (hlen : file.length ≤ 255) (hnew : file ∉ db.names) : effect server now (.insertName file) db ≠ none := by
  cases hrows : db.tracking with
  | none => exact absurd hrows htracking
  | some rows =>
    rw [(names_of_tracking hrows).2] at hnew
    simp only [effect, hrows, if_neg (not_lt.2 hlen), if_neg hnew]
    exact nofun

/-- A migration rolled back and no longer tracked. -/
theorem Inv.undone {db₁ db₂ : Db σ} {name : FileName} {sql : String} {now : Nat} {found found' : List FileName}
    (hinv : Inv db) (first : effect server now (.script (.undo name) sql) db = some (found, db₁))
    (second : effect server now (.deleteName name) db₁ = some (found', db₂)) :
    Inv db₂ ∧ db₂.history = db.history ++ [.undo name] ∧ db₂.names = db.names.filter (fun n => n ≠ name) := by
  simp only [effect, Option.map_eq_some_iff, Prod.mk.injEq] at first
  obtain ⟨data, -, -, rfl⟩ := first
  simp only [effect, Option.map_eq_some_iff, Prod.mk.injEq] at second
  obtain ⟨rows, htracking, -, rfl⟩ := second
  obtain ⟨hrows, hnames⟩ := names_of_tracking htracking
  have hnames₂ : Db.names ⟨data, some (rows.filter fun row => row.name ≠ name), db.history ++ [.undo name]⟩
      = db.names.filter fun n => n ≠ name := by
    rw [hnames, Db.names, Db.rows, Option.getD_some, filter_map]
    rfl
  refine ⟨⟨?_, ?_, ?_, ?_⟩, rfl, hnames₂⟩
  · rw [hnames₂, standing_undo, ← hinv.names_eq, hinv.nodup.erase_eq_filter]
    congr 1
    funext n
    simp only [ne_eq, decide_not, bne, Bool.beq_eq_decide_eq]
  · rw [hnames₂]
    exact hinv.nodup.filter _
  · exact (hrows ▸ hinv.ordered).filter _
  · rw [hnames₂]
    intro n hn
    exact hinv.safe n (mem_of_mem_filter hn)

end

/-! ## The loops -/

section

variable {σ : Type} (server : Server σ) (env : Env)

/-- A call that executed the scripts of the first `k` files of `todo`, each once and in this order: of all of
them if it returned; if it threw, the next one's file cannot be read or the server refuses it. -/
def Carries (d : Directory) (script : FileName → Script) (fileOf : FileName → FileName) (todo : List FileName)
    (before after : Db σ) (o : Outcome Unit) : Prop :=
  ∃ k ≤ todo.length, after.history = before.history ++ (todo.take k).map script ∧ match o with
    | .done _ => k = todo.length
    | .threw _ => ∃ name, todo[k]? = some name ∧ ∀ sql, d.readFile (fileOf name) = some sql → server.execute sql after.data = none
    | .crashed => env.crashAt ≠ none

variable {server env} {d : Directory} {script : FileName → Script} {fileOf : FileName → FileName}

theorem Carries.nil (db : Db σ) : Carries server env d script fileOf [] db db (.done ()) :=
  ⟨0, le_rfl, (append_nil _).symm, rfl⟩

variable {todo : List FileName} {before after : Db σ}

theorem Carries.threw {name : FileName} (m : String) (hsame : after = before)
    (cause : ∀ sql, d.readFile (fileOf name) = some sql → server.execute sql after.data = none) :
    Carries server env d script fileOf (name :: todo) before after (.threw m) := by
  subst hsame
  exact ⟨0, Nat.zero_le _, (append_nil _).symm, name, rfl, cause⟩

theorem Carries.crashed (hsame : after.history = before.history)
    (cause : env.crashAt ≠ none) : Carries server env d script fileOf todo before after .crashed :=
  ⟨0, Nat.zero_le _, hsame.trans (append_nil _).symm, cause⟩

theorem Carries.cons {name : FileName} {mid : Db σ} {o : Outcome Unit}
    (hmid : mid.history = before.history ++ [script name]) (h : Carries server env d script fileOf todo mid after o) :
    Carries server env d script fileOf (name :: todo) before after o := by
  obtain ⟨k, hk, hhistory, hend⟩ := h
  refine ⟨k + 1, Nat.succ_le_succ hk, ?_, ?_⟩
  · rw [hhistory, hmid, take_succ_cons, map_cons, append_assoc, singleton_append]
  · cases o with
    | done => exact congrArg (· + 1) hend
    | threw => exact hend
    | crashed => exact hend

theorem Carries.of_history_eq {before' : Db σ} {o : Outcome Unit}
    (hsame : before'.history = before.history) (h : Carries server env d script fileOf todo before after o) :
    Carries server env d script fileOf todo before' after o := by
  obtain ⟨k, hk, hhistory, hend⟩ := h
  exact ⟨k, hk, hhistory.trans (by rw [hsame]), hend⟩

variable (server env d)

/-- **The loop of `run`** applies the files that were not tracked when it began. -/
theorem applyFiles_carries (hdir : d.path ≠ ['/']) (hclock : StrictMono env.clock) (appliedSet : List FileName) :
    ∀ (files : List FileName) {s : Session σ}, s.txn = .idle → Inv s.committed → s.committed.tracking ≠ none →
      (∀ row ∈ s.committed.rows, ∀ i ≥ s.issued, row.appliedAt < env.clock i) → files.Nodup →
      (∀ file ∈ files, safeMigrationFilename file = true ∧ file.length ≤ 255) →
      (∀ file ∈ files, file ∈ appliedSet ↔ file ∈ s.committed.names) →
      let r := applyFiles server env d appliedSet files s
      Inv r.2.committed ∧ Carries server env d .apply id (files.filter fun file => file ∉ appliedSet) s.committed r.2.committed r.1
  | [], s, _, hinv, _, _, _, _, _ => ⟨hinv, .nil _⟩
  | file :: files, s, hidle, hinv, htracking, hrows, hnodup, hnames, happlied => by
    have ih := fun s => applyFiles_carries hdir hclock appliedSet files (s := s)
    have hnames' := fun f hf => hnames f (mem_cons_of_mem _ hf)
    obtain ⟨hfresh, hnodup'⟩ := nodup_cons.1 hnodup
    obtain ⟨hsafe, hlen⟩ := hnames file mem_cons_self
    by_cases hfile : file ∈ appliedSet
    · -- skipping an applied file
      rw [applyFiles, if_pos hfile, filter_cons_of_neg (by simpa using hfile)]
      exact ih s hidle hinv htracking hrows hnodup' hnames' fun f hf => happlied f (mem_cons_of_mem _ hf)
    rw [applyFiles, if_neg hfile, filter_cons_of_pos (by simpa using hfile)]
    have hnew : file ∉ s.committed.names := fun h => hfile ((happlied file mem_cons_self).2 h)
    rw [bind_of_done (assertFileWithinDir_of_safe hdir hsafe s)]
    cases hsql : d.readFile file with
    | none =>
      rw [bind_of_threw (readFile_of_none hsql _ s)]
      exact ⟨hinv, .threw _ rfl fun sql h => by rw [id, hsql] at h; cases h⟩
    | some sql =>
      rw [bind_of_done (readFile_of_some hsql _ s)]
      have hended := transaction_ended server env (a := .script (.apply file) sql) (b := .insertName file) rfl rfl hidle
      generalize hr : applyMigration server env file sql s = r
      rw [← applyMigration, hr] at hended
      obtain ⟨o, s'⟩ := r
      obtain ⟨hidle', hended⟩ := hended
      cases hended with
      | done found found' db hlt first second =>
        rw [bind_of_done hr]
        dsimp only at hlt
        obtain ⟨hinv', hhistory, hnames₂, htracking', hrows'⟩ :=
          hinv.applied server hsafe (fun row hrow => hrows row hrow _ le_rfl) first second
        have hnext := ih s' hidle' hinv' htracking' ?_ hnodup' hnames' ?_
        · exact ⟨hnext.1, hnext.2.cons hhistory⟩
        · intro row hrow i hi
          rcases hrows' row hrow with hrow | hnow
          · exact hrows row hrow i (by omega)
          · rw [hnow]
            exact hclock (by omega)
        · intro f hf
          rw [happlied f (mem_cons_of_mem _ hf), hnames₂, mem_append, mem_singleton]
          constructor
          · exact .inl
          · rintro (h | rfl)
            · exact h
            · exact absurd hf hfresh
      | threw m hsame cause =>
        rw [bind_of_threw hr]
        refine ⟨hsame ▸ hinv, .threw m hsame fun sql' h => ?_⟩
        rw [id, hsql] at h
        cases h
        rw [hsame]
        -- the insertion does not fail, so the migration's own SQL does
        cases hexec : server.execute sql s.committed.data with
        | none => rfl
        | some data =>
          refine absurd (cause [] { s.committed with data := data, history := s.committed.history ++ [.apply file] }
            ?_) (insertName_ne_none server htracking hlen hnew)
          simp only [effect, hexec, Option.map_some]
      | crashed hsame cause =>
        rw [bind_of_crashed hr]
        exact ⟨hsame ▸ hinv, .crashed (by rw [hsame]) cause⟩

/-- **The loop of `rollback`** undoes the names it is given. -/
theorem undoAll_carries (hdir : d.path ≠ ['/']) : ∀ (todo : List FileName) {s : Session σ}, s.txn = .idle → Inv s.committed → todo.Nodup →
      (∀ name ∈ todo, name ∈ s.committed.names) →
      let r := undoAll server env d todo s
      Inv r.2.committed ∧ Carries server env d .undo rollbackFileOf todo s.committed r.2.committed r.1
  | [], s, _, hinv, _, _ => ⟨hinv, .nil _⟩
  | name :: todo, s, hidle, hinv, hnodup, hnames => by
    obtain ⟨hother, hnodup'⟩ := nodup_cons.1 hnodup
    have hname := hnames name mem_cons_self
    rw [undoAll, bind_of_done (assertFileWithinDir_of_safe hdir (safe_rollbackFileOf (hinv.safe name hname)) s)]
    cases hsql : d.readFile (rollbackFileOf name) with
    | none =>
      rw [bind_of_threw (readFile_of_none hsql _ s)]
      exact ⟨hinv, .threw _ rfl fun sql h => by rw [hsql] at h; cases h⟩
    | some sql =>
      rw [bind_of_done (readFile_of_some hsql _ s)]
      have hended := transaction_ended server env (a := .script (.undo name) sql) (b := .deleteName name) rfl rfl hidle
      generalize hr : undoMigration server env name sql s = r
      rw [← undoMigration, hr] at hended
      obtain ⟨o, s'⟩ := r
      obtain ⟨hidle', hended⟩ := hended
      cases hended with
      | done found found' db hlt first second =>
        rw [bind_of_done hr]
        obtain ⟨hinv', hhistory, hnames₂⟩ := hinv.undone server first second
        have hnext := undoAll_carries hdir todo hidle' hinv' hnodup' ?_
        · exact ⟨hnext.1, hnext.2.cons hhistory⟩
        · intro n hn
          rw [hnames₂, mem_filter]
          refine ⟨hnames n (mem_cons_of_mem _ hn), decide_eq_true ?_⟩
          rintro rfl
          exact hother hn
      | threw m hsame cause =>
        rw [bind_of_threw hr]
        refine ⟨hsame ▸ hinv, .threw m hsame fun sql' h => ?_⟩
        rw [hsql] at h
        cases h
        rw [hsame]
        -- there is a tracking table, so the rollback file's own SQL fails
        cases hexec : server.execute sql s.committed.data with
        | none => rfl
        | some data =>
          have hdelete := cause [] { s.committed with data := data, history := s.committed.history ++ [.undo name] }
            (by simp only [effect, hexec, Option.map_some])
          simp only [effect, Option.map_eq_none_iff] at hdelete
          rw [Db.names, Db.rows, hdelete] at hname
          cases hname
      | crashed hsame cause =>
        rw [bind_of_crashed hr]
        exact ⟨hsame ▸ hinv, .crashed (by rw [hsame]) cause⟩

end

/-! ## The calls -/

section

variable {σ : Type} (server : Server σ)

/-- The files of a directory that are to be applied, in name order. -/
def pending (db : Db σ) (d : Directory) : List FileName :=
  (getMigrationFiles d).filter fun file => file ∉ db.names

/-- The last `n` files applied that still stand, latest first. -/
def lastApplied (db : Db σ) (n : Nat) : List FileName := (standing db.history).reverse.take n

/-- What a call is to do: a run applies the pending files, each once and in name order, a rollback undoes the
last ones, unless it stops early for a reason of its own. -/
def DoesItsTask (db : Db σ) (e : Event) : Prop :=
  match e with
  | .run d env =>
    (pending db d).Pairwise (· < ·) ∧ Carries server env d .apply id (pending db d) db (step server db e) (call server db e).1
  | .rollback d steps env =>
    db.tracking = none ∧ step server db e = db ∨
      Carries server env d .undo rollbackFileOf (lastApplied db steps) db (step server db e) (call server db e).1

/-- A file's SQL has been applied and not rolled back exactly when its name is tracked. -/
def Tracked (db : Db σ) : Prop := ∀ file, file ∈ standing db.history ↔ file ∈ db.names

/-- The conditions under which the runner does its task: the directory is not the file system's root, the
server's clock is past the tracked rows' and moves forward, and a rollback of no steps finds none applied. -/
def Forward (db : Db σ) (e : Event) : Prop :=
  match e with
  | .run d env => d.path ≠ ['/'] ∧ StrictMono env.clock ∧ ∀ row ∈ db.rows, row.appliedAt < env.clock 0
  | .rollback d steps _ => d.path ≠ ['/'] ∧ (steps = 0 → standing db.history = [])

theorem getMigrationFiles_nodup (d : Directory) : (getMigrationFiles d).Nodup :=
  ((perm_insertionSort _ _).nodup_iff).2 (d.nodup.filter _)

theorem pending_sorted (db : Db σ) (d : Directory) : (pending db d).Pairwise (· < ·) := by
  have hle : (getMigrationFiles d).Pairwise (· ≤ ·) := pairwise_insertionSort _ _
  have hlt : (getMigrationFiles d).Pairwise (· < ·) :=
    (hle.and (getMigrationFiles_nodup d)).imp fun ⟨hle, hne⟩ => lt_of_le_of_ne hle hne
  exact hlt.filter _

theorem mem_getMigrationFiles {d : Directory} {file : FileName} (h : file ∈ getMigrationFiles d) :
    safeMigrationFilename file = true ∧ file.length ≤ 255 := by
  rw [getMigrationFiles, mem_insertionSort, mem_filter, Bool.and_eq_true] at h
  obtain ⟨e, he, rfl⟩ := mem_map.1 h.1
  exact ⟨h.2.2, d.short e he⟩

theorem orderBy_of_ordered {rows : List Row} (h : rows.Pairwise fun a b => a.appliedAt < b.appliedAt) : server.orderBy rows = rows := by
  -- no two rows share an instant
  let R : Row → Row → Prop := fun a b => a.appliedAt = b.appliedAt → a = b
  have : Std.Symm R := ⟨fun _ _ hab e => (hab e.symm).symm⟩
  have hinj : ∀ a ∈ rows, ∀ b ∈ rows, R a b := fun a ha b hb =>
    (h.imp fun hlt e => absurd e (Nat.ne_of_lt hlt)).forall_of_forall (R := R) (fun _ _ _ => rfl) ha hb
  refine List.Perm.eq_of_pairwise ?_ (server.orderBy_sorted rows) (h.imp le_of_lt) (server.orderBy_perm rows)
  intro a b ha hb hab hba
  exact hinj a ((server.orderBy_perm rows).mem_iff.1 ha) b hb (le_antisymm hab hba)

theorem getApplied_apply (env : Env) (s : Session σ) (hidle : s.txn = .idle) (hinv : Inv s.committed)
    (htracking : s.committed.tracking ≠ none) :
    (env.crashAt ≠ none ∧ getApplied server env s = (.crashed, s)) ∨
      getApplied server env s = (.done s.committed.names, { s with issued := s.issued + 1 }) := by
  obtain ⟨rows, hrows⟩ := Option.ne_none_iff_exists'.1 htracking
  obtain ⟨hrows', hnames⟩ := names_of_tracking hrows
  have hq := query_of_idle server env .selectApplied rfl hidle
  by_cases hcrash : env.crashAt = some s.issued
  · rw [if_pos hcrash] at hq
    refine .inl ⟨crashes_of_eq hcrash, (bind_of_crashed hq).trans ?_⟩
    rw [← hidle]
  · rw [if_neg hcrash] at hq
    simp only [effect, hrows, Option.map_some, orderBy_of_ordered server (hrows' ▸ hinv.ordered)] at hq
    refine .inr ((bind_of_done hq).trans ?_)
    rw [pure_apply, ← hnames, filter_eq_self.2]
    intro name hname
    refine decide_eq_true ?_
    rintro rfl
    cases hinv.safe [] hname

theorem run_doesItsTask {db : Db σ} (hinv : Inv db) {d : Directory} {env : Env} (hg : Forward db (.run d env)) :
    Inv (step server db (.run d env)) ∧ DoesItsTask server db (.run d env) := by
  obtain ⟨hdir, hclock, hrows⟩ := hg
  suffices h : Inv (step server db (.run d env)) ∧ Carries server env d .apply id (pending db d) db (step server db (.run d env))
        (call server db (.run d env)).1 from ⟨h.1, pending_sorted db d, h.2⟩
  unfold step call run
  simp only
  -- creating the tracking table changes neither the tracked rows nor the history
  have hq := query_of_idle server env .createTable rfl (s := ⟨db, .idle, 0⟩) rfl
  by_cases hcrash : env.crashAt = some 0
  · rw [if_pos hcrash] at hq
    have htable : ensureTable server env ⟨db, .idle, 0⟩ = (.crashed, ⟨db, .idle, 0⟩) := bind_of_crashed hq
    rw [bind_of_crashed htable]
    exact ⟨hinv, .crashed rfl (crashes_of_eq hcrash)⟩
  rw [if_neg hcrash] at hq
  set s₁ : Session σ := ⟨{ db with tracking := some db.rows }, .idle, 0 + 1⟩ with hs₁
  have htable : ensureTable server env ⟨db, .idle, 0⟩ = (.done (), s₁) := bind_of_done hq
  have hinv₁ : Inv s₁.committed := { hinv with }
  rw [bind_of_done htable]
  rcases getApplied_apply server env s₁ rfl hinv₁ nofun with ⟨hc, h⟩ | h
  · rw [bind_of_crashed h]
    exact ⟨hinv₁, .crashed rfl hc⟩
  · rw [bind_of_done h]
    have hloop := applyFiles_carries server env d hdir hclock db.names (getMigrationFiles d)
      (s := { s₁ with issued := s₁.issued + 1 }) rfl hinv₁ nofun
      (fun row hrow i _ => Nat.lt_of_lt_of_le (hrows row hrow) (hclock.monotone (Nat.zero_le i)))
      (getMigrationFiles_nodup d) (fun file hfile => mem_getMigrationFiles hfile) (fun _ _ => Iff.rfl)
    exact ⟨hloop.1, hloop.2.of_history_eq rfl⟩

theorem sliceLast_reverse {steps : Nat} {xs : List FileName} (h : steps = 0 → xs = []) :
    (sliceLast steps xs).reverse = xs.reverse.take steps := by
  unfold sliceLast
  split
  · next h0 =>
    rw [h h0]
    simp only [reverse_nil, take_nil]
  · rw [take_reverse]

theorem rollback_doesItsTask {db : Db σ} (hinv : Inv db) {d : Directory} {steps : Nat} {env : Env} (hg : Forward db (.rollback d steps env)) :
    Inv (step server db (.rollback d steps env)) ∧ DoesItsTask server db (.rollback d steps env) := by
  obtain ⟨hdir, hsteps⟩ := hg
  unfold DoesItsTask step call rollback
  simp only
  by_cases htracking : db.tracking = none
  · -- there is no table to read the names from
    have hq := query_of_idle server env .selectApplied rfl (s := ⟨db, .idle, 0⟩) rfl
    simp only [effect, htracking, Option.map_none] at hq
    by_cases hcrash : env.crashAt = some 0
    · rw [if_pos hcrash] at hq
      have happlied : getApplied server env ⟨db, .idle, 0⟩ = _ := bind_of_crashed hq
      rw [bind_of_crashed happlied]
      exact ⟨hinv, .inl ⟨htracking, rfl⟩⟩
    · rw [if_neg hcrash] at hq
      have happlied : getApplied server env ⟨db, .idle, 0⟩ = _ := bind_of_threw hq
      rw [bind_of_threw happlied]
      exact ⟨hinv, .inl ⟨htracking, rfl⟩⟩
  · rcases getApplied_apply server env ⟨db, .idle, 0⟩ rfl hinv htracking with ⟨hc, h⟩ | h
    · rw [bind_of_crashed h]
      exact ⟨hinv, .inr (.crashed rfl hc)⟩
    · rw [bind_of_done h, lastApplied, ← hinv.names_eq, ← sliceLast_reverse (hinv.names_eq ▸ hsteps)]
      have hsub : (sliceLast steps db.names).Sublist db.names := by
        unfold sliceLast
        split
        · exact .refl _
        · exact drop_sublist _ _
      have hloop := undoAll_carries server env d hdir (sliceLast steps db.names).reverse
        (s := ⟨db, .idle, 0 + 1⟩) rfl hinv (nodup_reverse.2 (hinv.nodup.sublist hsub))
        (fun name hname => hsub.subset (mem_reverse.1 hname))
      exact ⟨hloop.1, .inr hloop.2⟩

/-- **Every call of a history does its task**, and the tracking table names exactly the files applied and not
rolled back before and after it, where every call meets `Forward`. -/
theorem doesItsTask_of_forward (data : σ) (es : List Event) (h : Guarded (step server) Forward (fresh data) es) :
    Guarded (step server) (fun db e => Tracked db ∧ DoesItsTask server db e ∧ Tracked (step server db e)) (fresh data) es := by
  have hstep : ∀ db e, Inv db → Forward db e → Inv (step server db e) ∧ DoesItsTask server db e := by
    intro db e hinv hg
    cases e with
    | run => exact run_doesItsTask server hinv hg
    | rollback => exact rollback_doesItsTask server hinv hg
  have tracked : ∀ {db : Db σ}, Inv db → Tracked db := by
    intro db hinv file
    rw [hinv.names_eq]
  exact guarded_of_invariant (step server) (fun db e hinv hg => (hstep db e hinv hg).1)
    (fun db e hinv hg => ⟨tracked hinv, (hstep db e hinv hg).2, tracked (hstep db e hinv hg).1⟩) es h (.fresh data)

end

/-! ## Two migrations -/

/-- A server that refuses no script. -/
def lenientServer : Server Unit where
  execute := fun _ data => some data
  orderBy := List.insertionSort fun a b => a.appliedAt ≤ b.appliedAt
  orderBy_perm := perm_insertionSort _
  orderBy_sorted := by
    have : Std.Total (fun a b : Row => a.appliedAt ≤ b.appliedAt) := ⟨fun a b => le_total a.appliedAt b.appliedAt⟩
    have : IsTrans Row (fun a b => a.appliedAt ≤ b.appliedAt) := ⟨fun _ _ _ hab hbc => le_trans hab hbc⟩
    exact pairwise_insertionSort _

/-- `/m` with `1.sql`, `2.sql` and their rollback files. -/
def twoMigrations : Directory where
  path := ['/', 'm']
  entries := some [("2.sql".toList, some "b"), ("1.rollback.sql".toList, some "c"), ("1.sql".toList, some "a"),
    ("2.rollback.sql".toList, some "d")]
  nodup := by decide
  short := by decide

/-- A process that does not crash, and a clock one ahead of the number of statements. -/
def steady : Env := ⟨none, fun i => i + 1⟩

theorem doesItsTask_of_forward_rollback : Guarded (step lenientServer) (fun db e => Tracked db ∧ DoesItsTask lenientServer db e ∧
      Tracked (step lenientServer db e)) (fresh ()) [.run twoMigrations steady, .rollback twoMigrations 1 steady] :=
  doesItsTask_of_forward lenientServer () _ ⟨⟨by decide, fun _ _ h => Nat.succ_lt_succ h, by decide⟩, ⟨by decide, by decide⟩, trivial⟩

/-- `rollback(dir, 0)` undoes every migration. -/
theorem rollback_zero_counterexample : ¬ Guarded (step lenientServer) (fun db e => Tracked db ∧ DoesItsTask lenientServer db e ∧
      Tracked (step lenientServer db e)) (fresh ()) [.run twoMigrations steady, .rollback twoMigrations 0 steady] := by
  intro h
  obtain ⟨-, ⟨-, htask, -⟩, -⟩ := h
  rcases htask with ⟨hnone, -⟩ | ⟨k, hk, hhistory, -⟩
  · exact absurd hnone (by decide +kernel)
  · have hk0 : k = 0 := Nat.le_zero.1 hk
    subst hk0
    exact absurd hhistory (by decide +kernel)

end StreetJS.Migrations
