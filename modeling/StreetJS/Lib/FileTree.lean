/-
A file system as a tree of directories and files, with the operations that a program calls on it and the errors they
fail with. What a path leads to, after each of them, is said for every path.
-/
import StreetJS.Lib.OrderedMap
import Mathlib.Data.List.Nodup

namespace StreetJS.Lib

open List OrderedMap

inductive Errno
  | ENOENT
  | ENOTDIR
  | EISDIR
  | EEXIST
  deriving DecidableEq

/-- A file with its content, or a directory with its entries by their names. -/
inductive FileTree (N C : Type)
  | file (content : C)
  | dir (entries : List (N × FileTree N C))

namespace FileTree

variable {N C : Type} [DecidableEq N]

def content : FileTree N C → Option C
  | .file c => some c
  | .dir _ => none

/-! ## Operations -/

/-- The file or the directory at the path. -/
def lookup : FileTree N C → List N → Except Errno (FileTree N C)
  | t, [] => .ok t
  | .file _, _ :: _ => .error .ENOTDIR
  | .dir entries, n :: p =>
    match OrderedMap.get entries n with
    | none => .error .ENOENT
    | some t => lookup t p

/-- What is at the path: a file with its content, a directory without one, or the error of reaching it. -/
def stat (t : FileTree N C) (p : List N) : Except Errno (Option C) := (lookup t p).map content

def readFile (t : FileTree N C) (p : List N) : Except Errno C :=
  match stat t p with
  | .error e => .error e
  | .ok none => .error .EISDIR
  | .ok (some c) => .ok c

/-- A file is replaced as a whole, or created in a directory that exists. -/
def writeFile (c : C) : FileTree N C → List N → Except Errno (FileTree N C)
  | .file _, [] => .ok (.file c)
  | .dir _, [] => .error .EISDIR
  | .file _, _ :: _ => .error .ENOTDIR
  | .dir entries, n :: p =>
    match OrderedMap.get entries n with
    | none => if p = [] then .ok (.dir (OrderedMap.set entries n (.file c))) else .error .ENOENT
    | some t => (writeFile c t p).map fun t' => .dir (OrderedMap.set entries n t')

/-- `mkdir` with `recursive`. -/
def mkdir : FileTree N C → List N → Except Errno (FileTree N C)
  | .dir entries, [] => .ok (.dir entries)
  | .file _, [] => .error .EEXIST
  | .file _, _ :: _ => .error .ENOTDIR
  | .dir entries, n :: p =>
    (mkdir ((OrderedMap.get entries n).getD (.dir [])) p).map fun t' => .dir (OrderedMap.set entries n t')

def unlink : FileTree N C → List N → Except Errno (FileTree N C)
  | _, [] => .error .EISDIR
  | .file _, _ :: _ => .error .ENOTDIR
  | .dir entries, n :: p =>
    match OrderedMap.get entries n with
    | none => .error .ENOENT
    | some (.file _) => if p = [] then .ok (.dir (OrderedMap.delete entries n)) else .error .ENOTDIR
    | some (.dir es) => (unlink (.dir es) p).map fun t' => .dir (OrderedMap.set entries n t')

mutual

/-- The files below, by their paths. -/
def files : FileTree N C → List (List N × C)
  | .file c => [([], c)]
  | .dir entries => entryFiles entries

def entryFiles : List (N × FileTree N C) → List (List N × C)
  | [] => []
  | (n, t) :: entries => (files t).map (fun f => (n :: f.1, f.2)) ++ entryFiles entries

end

/-! ## What a path leads to -/

@[simp] theorem stat_nil (t : FileTree N C) : t.stat [] = .ok t.content := rfl

@[simp] theorem stat_file_cons (c : C) (n : N) (p : List N) : stat (.file c) (n :: p) = .error .ENOTDIR := rfl

theorem stat_dir_cons (entries : List (N × FileTree N C)) (n : N) (p : List N) : stat (.dir entries) (n :: p) =
      match OrderedMap.get entries n with
      | none => .error .ENOENT
      | some t => t.stat p := by
  simp only [stat, lookup]
  split
  · rfl
  · rfl

/-- A path goes on from where a part of it leads. -/
theorem lookup_append : ∀ (t : FileTree N C) (p q : List N), t.lookup (p ++ q) = (t.lookup p).bind fun t' => t'.lookup q
  | _, [], _ => rfl
  | .file _, _ :: _, _ => rfl
  | .dir entries, n :: p, q => by
    simp only [cons_append, lookup]
    cases OrderedMap.get entries n with
    | none => rfl
    | some t => exact lookup_append t p q

variable {t : FileTree N C}

theorem stat_of_lookup {t' : FileTree N C} {p : List N} (h : t.lookup p = .ok t') (q : List N) : t.stat (p ++ q) = t'.stat q := by
  rw [stat, lookup_append, h]
  rfl

theorem stat_above {p q : List N} {x : Option C} (h : t.stat (p ++ q) = .ok x) (hq : q ≠ []) : t.stat p = .ok none := by
  cases hp : t.lookup p with
  | error e =>
    rw [stat, lookup_append, hp] at h
    cases h
  | ok s =>
    rw [stat_of_lookup hp] at h
    cases s with
    | dir entries => rw [stat, hp]; rfl
    | file c =>
      cases q with
      | nil => exact absurd rfl hq
      | cons n q => cases h

/-- Where a path cannot be reached, none that goes on from it can. -/
theorem stat_append_error {p : List N} {e : Errno} (h : t.stat p = .error e) (q : List N) : t.stat (p ++ q) = .error e := by
  cases hp : t.lookup p with
  | ok s =>
    rw [stat, hp] at h
    cases h
  | error e' =>
    rw [stat, hp] at h
    rw [stat, lookup_append, hp]
    exact h

theorem stat_error : ∀ {t : FileTree N C} {p : List N} {e : Errno}, t.stat p = .error e →
    e = .ENOENT ∨ e = .ENOTDIR ∧ ∃ n < p.length, ∃ c, t.stat (p.take n) = .ok (some c)
  | _, [], _, h => by cases h
  | .file c, _ :: p, e, h => by
    obtain rfl := Except.error.inj h
    exact .inr ⟨rfl, 0, Nat.succ_pos _, c, rfl⟩
  | .dir entries, n :: p, e, h => by
    rw [stat_dir_cons] at h
    cases hget : OrderedMap.get entries n with
    | none =>
      rw [hget] at h
      obtain rfl := Except.error.inj h
      exact .inl rfl
    | some t =>
      rw [hget] at h
      rcases stat_error h with rfl | ⟨rfl, k, hk, c, hc⟩
      · exact .inl rfl
      · refine .inr ⟨rfl, k + 1, Nat.succ_lt_succ hk, c, ?_⟩
        rw [take_succ_cons, stat_dir_cons, hget]
        exact hc

theorem map_eq_ok {α β : Type*} {x : Except Errno α} {f : α → β} {b : β} (h : x.map f = .ok b) : ∃ a, x = .ok a ∧ f a = b := by
  cases x with
  | error e => cases h
  | ok a => exact ⟨a, rfl, Except.ok.inj h⟩

theorem stat_writeFile {c : C} : ∀ {t t' : FileTree N C} {p : List N}, writeFile c t p = .ok t' → ∀ q,
    t'.stat q = if q = p then .ok (some c) else if p <+: q then .error .ENOTDIR else t.stat q
  | .file _, t', [], h, q => by
    obtain rfl := Except.ok.inj h
    cases q with
    | nil => rfl
    | cons n q => simp
  | .dir _, _, [], h, _ => by cases h
  | .file _, _, _ :: _, h, _ => by cases h
  | .dir entries, t', n :: p, h, q => by
    simp only [writeFile] at h
    cases hget : OrderedMap.get entries n with
    | none =>
      simp only [hget] at h
      split at h
      case isFalse => cases h
      case isTrue hp =>
        subst hp
        obtain rfl := Except.ok.inj h
        cases q with
        | nil => simp [content]
        | cons m q =>
          rw [stat_dir_cons, stat_dir_cons, get_set]
          by_cases hm : m = n
          · subst hm
            cases q <;> simp [content]
          · simp [hm, Ne.symm hm]
    | some t =>
      simp only [hget] at h
      obtain ⟨s, hw, rfl⟩ := map_eq_ok h
      cases q with
      | nil => simp [content]
      | cons m q =>
        rw [stat_dir_cons, stat_dir_cons, get_set]
        by_cases hm : m = n
        · subst hm
          simp only [if_true, hget, stat_writeFile hw q, List.cons.injEq, true_and, cons_prefix_cons]
        · simp [hm, Ne.symm hm]

theorem stat_mkdir : ∀ {t t' : FileTree N C} {p : List N}, mkdir t p = .ok t' → ∀ q, t'.stat q = if q <+: p then .ok none else t.stat q
  | .dir entries, t', [], h, q => by
    obtain rfl := Except.ok.inj h
    split
    case isTrue hq =>
      obtain rfl := prefix_nil.1 hq
      rfl
    case isFalse => rfl
  | .file _, _, [], h, _ => by cases h
  | .file _, _, _ :: _, h, _ => by cases h
  | .dir entries, t', n :: p, h, q => by
    simp only [mkdir] at h
    obtain ⟨s, hm, rfl⟩ := map_eq_ok h
    cases q with
    | nil => simp [content]
    | cons m q =>
      rw [stat_dir_cons, stat_dir_cons, get_set]
      by_cases hmn : m = n
      · subst hmn
        simp only [if_true, stat_mkdir hm q, cons_prefix_cons, true_and]
        cases hget : OrderedMap.get entries m with
        | some t => rfl
        | none =>
          -- a new directory has nothing below
          split
          · rfl
          case isFalse hq =>
            cases q with
            | nil => exact absurd (List.nil_prefix) hq
            | cons k q => rfl
      · simp [hmn, cons_prefix_cons]

theorem stat_unlink : ∀ {t t' : FileTree N C} {p : List N}, unlink t p = .ok t' → ∀ q,
    t'.stat q = if p <+: q then .error .ENOENT else t.stat q
  | _, _, [], h, _ => by cases h
  | .file _, _, _ :: _, h, _ => by cases h
  | .dir entries, t', n :: p, h, q => by
    simp only [unlink] at h
    cases hget : OrderedMap.get entries n with
    | none =>
      rw [hget] at h
      cases h
    | some s =>
      rw [hget] at h
      cases s with
      | file c =>
        simp only at h
        split at h
        case isFalse => cases h
        case isTrue hp =>
          subst hp
          obtain rfl := Except.ok.inj h
          cases q with
          | nil => simp [content]
          | cons m q =>
            rw [stat_dir_cons, stat_dir_cons, get_delete]
            by_cases hm : m = n
            · subst hm
              simp
            · simp [hm, Ne.symm hm]
      | dir es =>
        simp only at h
        obtain ⟨s', hu, rfl⟩ := map_eq_ok h
        cases q with
        | nil => simp [content]
        | cons m q =>
          rw [stat_dir_cons, stat_dir_cons, get_set]
          by_cases hm : m = n
          · subst hm
            simp only [if_true, hget, stat_unlink hu q, cons_prefix_cons, true_and]
          · simp [hm, cons_prefix_cons, Ne.symm hm]

/-! ## When an operation succeeds -/

theorem writeFile_ok {c : C} {n : N} : ∀ {t : FileTree N C} {p : List N}, t.stat p = .ok none →
    t.stat (p ++ [n]) ≠ .ok none → ∃ t', writeFile c t (p ++ [n]) = .ok t'
  | .file _, [], h, _ => by cases h
  | .file _, _ :: _, h, _ => by cases h
  | .dir entries, [], _, hn => by
    simp only [nil_append, stat_dir_cons] at hn
    simp only [nil_append, writeFile]
    cases hget : OrderedMap.get entries n with
    | none => exact ⟨_, rfl⟩
    | some t =>
      cases t with
      | file c' => exact ⟨_, rfl⟩
      | dir es =>
        rw [hget] at hn
        exact absurd rfl hn
  | .dir entries, m :: p, h, hn => by
    simp only [cons_append, stat_dir_cons] at h hn
    simp only [cons_append, writeFile]
    cases hget : OrderedMap.get entries m with
    | none =>
      rw [hget] at h
      cases h
    | some t =>
      rw [hget] at h hn
      obtain ⟨t', ht'⟩ := writeFile_ok (c := c) h hn
      exact ⟨_, by simp only [ht']; rfl⟩

theorem mkdir_ok : ∀ {t : FileTree N C} {p : List N}, (∀ q c, q <+: p → t.stat q ≠ .ok (some c)) → ∃ t', mkdir t p = .ok t'
  | .file c, p, h => absurd rfl (h [] c List.nil_prefix)
  | .dir entries, [], _ => ⟨_, rfl⟩
  | .dir entries, n :: p, h => by
    have hbelow : ∀ q c, q <+: p → ((OrderedMap.get entries n).getD (.dir [])).stat q ≠ .ok (some c) := by
      intro q c hq
      have hn := h (n :: q) c (cons_prefix_cons.2 ⟨rfl, hq⟩)
      rw [stat_dir_cons] at hn
      cases hget : OrderedMap.get entries n with
      | some t =>
        rw [hget] at hn
        exact hn
      | none =>
        cases q with
        | nil => simp [content]
        | cons k q => simp [stat_dir_cons]
    obtain ⟨t', ht'⟩ := mkdir_ok hbelow
    exact ⟨_, by rw [mkdir, ht']; rfl⟩

theorem unlink_ok : ∀ {t : FileTree N C} {p : List N} {c : C}, p ≠ [] → t.stat p = .ok (some c) → ∃ t', unlink t p = .ok t'
  | _, [], _, hp, _ => absurd rfl hp
  | .file _, _ :: _, _, _, h => by cases h
  | .dir entries, n :: p, c, _, h => by
    rw [stat_dir_cons] at h
    simp only [unlink]
    cases hget : OrderedMap.get entries n with
    | none =>
      rw [hget] at h
      cases h
    | some t =>
      rw [hget] at h
      cases t with
      | file c' =>
        cases p with
        | nil => exact ⟨_, rfl⟩
        | cons m p => cases h
      | dir es =>
        have hp : p ≠ [] := by
          rintro rfl
          cases h
        obtain ⟨t', ht'⟩ := unlink_ok hp h
        exact ⟨_, by simp only [ht']; rfl⟩

theorem unlink_error : ∀ {t : FileTree N C} {p : List N} {e : Errno}, t.stat p = .error e → unlink t p = .error e
  | _, [], _, h => by cases h
  | .file _, _ :: _, _, h => by
    obtain rfl := Except.error.inj h
    rfl
  | .dir entries, n :: p, e, h => by
    rw [stat_dir_cons] at h
    simp only [unlink]
    cases hget : OrderedMap.get entries n with
    | none =>
      rw [hget] at h
      obtain rfl := Except.error.inj h
      rfl
    | some t =>
      rw [hget] at h
      cases t with
      | file c =>
        cases p with
        | nil => cases h
        | cons m p =>
          obtain rfl := Except.error.inj h
          rfl
      | dir es =>
        have hu : unlink (.dir es) p = .error e := unlink_error h
        simp only [hu]
        rfl

/-! ## All files -/

/-- No directory has two entries of one name. -/
inductive Distinct : FileTree N C → Prop
  | file (c : C) : Distinct (.file c)
  | dir {entries : List (N × FileTree N C)} : (entries.map Prod.fst).Nodup → (∀ e ∈ entries, Distinct e.2) → Distinct (.dir entries)

theorem Distinct.get {entries : List (N × FileTree N C)} (h : Distinct (.dir entries)) {n : N}
    (hget : OrderedMap.get entries n = some t) : Distinct t := by
  cases h with
  | dir _ hsub => exact hsub (n, t) (get_mem hget)

theorem Distinct.lookup : ∀ {t t' : FileTree N C} {p : List N}, Distinct t → lookup t p = .ok t' → Distinct t'
  | _, _, [], h, hl => by
    obtain rfl := Except.ok.inj hl
    exact h
  | .file _, _, _ :: _, _, hl => by cases hl
  | .dir entries, _, n :: p, h, hl => by
    simp only [FileTree.lookup] at hl
    cases hget : OrderedMap.get entries n with
    | none =>
      rw [hget] at hl
      cases hl
    | some t =>
      rw [hget] at hl
      exact Distinct.lookup (h.get hget) hl

theorem Distinct.set {entries : List (N × FileTree N C)} (h : Distinct (.dir entries)) (n : N)
    (ht : Distinct t) : Distinct (.dir (OrderedMap.set entries n t)) := by
  cases h with
  | dir hnodup hsub =>
    refine .dir (keys_set_nodup hnodup n t) fun e he => ?_
    rcases mem_set he with he | rfl
    · exact hsub e he
    · exact ht

theorem Distinct.writeFile {c : C} : ∀ {t t' : FileTree N C} {p : List N}, Distinct t → writeFile c t p = .ok t' → Distinct t'
  | .file _, _, [], _, h => by
    obtain rfl := Except.ok.inj h
    exact .file c
  | .dir _, _, [], _, h => by cases h
  | .file _, _, _ :: _, _, h => by cases h
  | .dir entries, t', n :: p, hd, h => by
    simp only [FileTree.writeFile] at h
    cases hget : OrderedMap.get entries n with
    | none =>
      simp only [hget] at h
      split at h
      · obtain rfl := Except.ok.inj h
        exact hd.set n (.file c)
      · cases h
    | some t =>
      simp only [hget] at h
      obtain ⟨s, hw, rfl⟩ := map_eq_ok h
      exact hd.set n (Distinct.writeFile (hd.get hget) hw)

theorem Distinct.mkdir : ∀ {t t' : FileTree N C} {p : List N}, Distinct t → mkdir t p = .ok t' → Distinct t'
  | .dir entries, _, [], hd, h => by
    obtain rfl := Except.ok.inj h
    exact hd
  | .file _, _, [], _, h => by cases h
  | .file _, _, _ :: _, _, h => by cases h
  | .dir entries, t', n :: p, hd, h => by
    simp only [FileTree.mkdir] at h
    have hsub : Distinct ((OrderedMap.get entries n).getD (.dir [])) := by
      cases hget : OrderedMap.get entries n with
      | none => exact .dir nodup_nil nofun
      | some t => exact hd.get hget
    obtain ⟨s, hm, rfl⟩ := map_eq_ok h
    exact hd.set n (Distinct.mkdir hsub hm)

theorem Distinct.unlink : ∀ {t t' : FileTree N C} {p : List N}, Distinct t → unlink t p = .ok t' → Distinct t'
  | _, _, [], _, h => by cases h
  | .file _, _, _ :: _, _, h => by cases h
  | .dir entries, t', n :: p, hd, h => by
    simp only [FileTree.unlink] at h
    cases hget : OrderedMap.get entries n with
    | none =>
      rw [hget] at h
      cases h
    | some s =>
      rw [hget] at h
      cases s with
      | file c =>
        simp only at h
        split at h
        · obtain rfl := Except.ok.inj h
          cases hd with
          | dir hnodup hsub =>
            exact .dir (keys_delete_nodup hnodup n) fun e he => hsub e (mem_delete.1 he).1
        · cases h
      | dir es =>
        simp only at h
        obtain ⟨s', hu, rfl⟩ := map_eq_ok h
        exact hd.set n (Distinct.unlink (hd.get hget) hu)

omit [DecidableEq N] in
theorem mem_entryFiles {f : List N × C} : ∀ {entries : List (N × FileTree N C)},
    f ∈ entryFiles entries ↔ ∃ e ∈ entries, ∃ g ∈ e.2.files, f = (e.1 :: g.1, g.2)
  | [] => by simp [entryFiles]
  | (n, t) :: entries => by
    have ih : f ∈ entryFiles entries ↔ _ := mem_entryFiles
    simp only [entryFiles, mem_append, mem_map, ih, mem_cons, exists_eq_or_imp]
    refine or_congr ?_ Iff.rfl
    constructor
    · rintro ⟨g, hg, rfl⟩
      exact ⟨g, hg, rfl⟩
    · rintro ⟨g, hg, rfl⟩
      exact ⟨g, hg, rfl⟩

theorem mem_files (h : Distinct t) : ∀ {p : List N} {c : C}, (p, c) ∈ t.files ↔ t.stat p = .ok (some c) := by
  induction h with
  | file c' =>
    intro p c
    cases p with
    | nil => simp [files, content, eq_comm]
    | cons n p => simp [files]
  | dir hnodup _ ih =>
    intro p c
    rw [files, mem_entryFiles]
    constructor
    · rintro ⟨e, he, g, hg, heq⟩
      obtain ⟨rfl, rfl⟩ := Prod.mk.inj heq
      rw [stat_dir_cons, get_of_mem hnodup he]
      exact (ih e he).1 hg
    · intro hs
      cases p with
      | nil => cases hs
      | cons n p =>
        rw [stat_dir_cons] at hs
        split at hs
        · cases hs
        · next t hget =>
          have hmem := get_mem hget
          exact ⟨(n, t), hmem, (p, c), (ih (n, t) hmem).2 hs, rfl⟩

omit [DecidableEq N] in
theorem entryFiles_nodup : ∀ {entries : List (N × FileTree N C)}, (entries.map Prod.fst).Nodup →
    (∀ e ∈ entries, (e.2.files.map Prod.fst).Nodup) → ((entryFiles entries).map Prod.fst).Nodup
  | [], _, _ => nodup_nil
  | e :: entries, hnodup, hsub => by
    rw [map_cons, nodup_cons] at hnodup
    rw [entryFiles, map_append, nodup_append]
    refine ⟨?_, entryFiles_nodup hnodup.2 (fun e' he' => hsub e' (mem_cons_of_mem _ he')), ?_⟩
    · have h := (hsub e mem_cons_self).map (f := List.cons e.1) cons_injective
      simpa only [map_map, Function.comp_def] using h
    · intro a ha b hb hab
      obtain ⟨f, hf, rfl⟩ := mem_map.1 hb
      obtain ⟨e', he', g, -, rfl⟩ := mem_entryFiles.1 hf
      simp only [map_map, mem_map, Function.comp_apply] at ha
      obtain ⟨g', -, rfl⟩ := ha
      have hname := (List.cons.inj hab).1
      exact hnodup.1 (hname ▸ mem_map_of_mem he')

omit [DecidableEq N] in
theorem files_nodup (h : Distinct t) : (t.files.map Prod.fst).Nodup := by
  induction h with
  | file c => exact nodup_singleton _
  | dir hnodup _ ih => exact entryFiles_nodup hnodup ih

end FileTree

end StreetJS.Lib
