/-
The local driver answers as the in-memory one does, operation by operation, as long as keys are plain paths that do not
meet a directory or a file in their way, and no stream fails: how the map of the one lies in the tree of the other.
-/
import StreetJS.Storage.Drivers

namespace StreetJS.Storage

open StreetJS.Lib OrderedMap List

/-! ## Keys as paths -/

/-- A path of proper names, of which the last is not that of a sidecar. -/
def Plain (key : Key) : Prop :=
  (∀ segment ∈ key.splitOn '/', segment ≠ [] ∧ segment ≠ ['.'] ∧ segment ≠ ['.', '.']) ∧ ¬ metaSuffix <:+ key

instance (key : Key) : Decidable (Plain key) := inferInstanceAs (Decidable (_ ∧ _))

theorem pushSegment_plain (path : List Name) {segment : Name}
    (h : segment ≠ [] ∧ segment ≠ ['.'] ∧ segment ≠ ['.', '.']) : pushSegment path segment = path ++ [segment] := by
  rw [pushSegment, if_neg (not_or.2 ⟨h.1, h.2.1⟩), if_neg h.2.2]

theorem foldl_pushSegment : ∀ (segments path : List Name), (∀ segment ∈ segments, segment ≠ [] ∧ segment ≠ ['.'] ∧ segment ≠ ['.', '.']) →
      segments.foldl pushSegment path = path ++ segments
  | [], path, _ => by simp
  | segment :: segments, path, h => by
    rw [foldl_cons, pushSegment_plain path (h segment mem_cons_self),
      foldl_pushSegment segments _ fun s hs => h s (mem_cons_of_mem _ hs), append_assoc, singleton_append]

theorem resolve_plain (root : List Name) {path : List Char}
    (h : ∀ segment ∈ path.splitOn '/', segment ≠ [] ∧ segment ≠ ['.'] ∧ segment ≠ ['.', '.']) :
    resolve root path = root ++ path.splitOn '/' := by
  have hrelative : path.head? ≠ some '/' := by
    intro hhead
    cases path with
    | nil => cases hhead
    | cons c path =>
      obtain rfl := Option.some.inj hhead
      have hmem : ([] : Name) ∈ ('/' :: path).splitOn '/' := by simp [splitOn_cons_eq_if_modifyHead]
      exact (h [] hmem).1 rfl
  rw [resolve, if_neg hrelative, foldl_pushSegment _ _ h]

theorem joined (key : Key) : ['/'].intercalate (key.splitOn '/') = key := intercalate_splitOn '/'

theorem splitOn_append {suffix : List Char} (hs : '/' ∉ suffix) : ∀ (key : List Char),
    ∃ segments last, key.splitOn '/' = segments ++ [last] ∧ (key ++ suffix).splitOn '/' = segments ++ [last ++ suffix] ∧ last <:+ key
  | [] => ⟨[], [], by simp, by simpa using splitOn_eq_singleton hs, suffix_refl _⟩
  | c :: key => by
    obtain ⟨segments, last, hkey, happ, hlast⟩ := splitOn_append hs key
    rw [cons_append, splitOn_cons_eq_if_modifyHead, splitOn_cons_eq_if_modifyHead, hkey, happ]
    split
    · exact ⟨[] :: segments, last, rfl, rfl, hlast.trans (suffix_cons _ _)⟩
    · cases segments with
      | nil =>
        -- the last segment is the only one, so it is the key
        have hall : last = key := by
          have hjoin := joined key
          rw [hkey] at hjoin
          simpa using hjoin
        subst hall
        exact ⟨[], c :: last, rfl, rfl, suffix_refl _⟩
      | cons s segments => exact ⟨(c :: s) :: segments, last, rfl, rfl, hlast.trans (suffix_cons _ _)⟩

theorem metaSuffix_plain : '/' ∉ metaSuffix := by decide

theorem splitOn_injective {a b : Key} (h : a.splitOn '/' = b.splitOn '/') : a = b := by
  rw [← joined a, h, joined b]

/-- The paths below the root that the object and the sidecar of a plain key have. -/
structure Located (key : Key) (directory : List Name) (name : Name) : Prop where
  object : key.splitOn '/' = directory ++ [name]
  sidecar : (key ++ metaSuffix).splitOn '/' = directory ++ [name ++ metaSuffix]
  suffix : name <:+ key

theorem located (key : Key) : ∃ directory name, Located key directory name := by
  obtain ⟨directory, name, h₁, h₂, h₃⟩ := splitOn_append metaSuffix_plain key
  exact ⟨directory, name, h₁, h₂, h₃⟩

variable {key : Key}

theorem Plain.sidecar (h : Plain key) :
    ∀ segment ∈ (key ++ metaSuffix).splitOn '/', segment ≠ [] ∧ segment ≠ ['.'] ∧ segment ≠ ['.', '.'] := by
  obtain ⟨directory, name, hl⟩ := located key
  intro segment hmem
  rw [hl.sidecar, mem_append, mem_singleton] at hmem
  rcases hmem with hmem | rfl
  · exact h.1 segment (by rw [hl.object]; exact mem_append_left _ hmem)
  · have hlen : 10 ≤ (name ++ metaSuffix).length := by
      rw [length_append]
      exact Nat.le_add_left _ _
    refine ⟨?_, ?_, ?_⟩ <;> (intro heq; rw [heq] at hlen; simp at hlen)

theorem Plain.ne_sidecar (h : Plain key) (key' : Key) : key.splitOn '/' ≠ (key' ++ metaSuffix).splitOn '/' := by
  intro heq
  obtain rfl := splitOn_injective heq
  exact h.2 (suffix_append _ _)

theorem sidecar_injective {a b : Key} (h : (a ++ metaSuffix).splitOn '/' = (b ++ metaSuffix).splitOn '/') : a = b :=
  append_cancel_right (splitOn_injective h)

/-! ## The condition on an operation -/

variable {cfg : LocalConfig}

def isFile (tree : FileTree Name Contents) (path : List Name) : Bool :=
  match tree.stat path with
  | .ok (some _) => true
  | _ => false

def isDirectory (tree : FileTree Name Contents) (path : List Name) : Bool :=
  match tree.stat path with
  | .ok none => true
  | _ => false

/-- Where the object of a plain key lies. -/
def objectAt (cfg : LocalConfig) (key : Key) : List Name := cfg.root ++ key.splitOn '/'

def sidecarAt (cfg : LocalConfig) (key : Key) : List Name := cfg.root ++ (key ++ metaSuffix).splitOn '/'

/-- No directory lies where the object or the sidecar does, and no file above them. -/
structure Free (cfg : LocalConfig) (tree : FileTree Name Contents) (key : Key) : Prop where
  object : isDirectory tree (objectAt cfg key) = false
  sidecar : isDirectory tree (sidecarAt cfg key) = false
  above : ∀ n < (objectAt cfg key).length, isFile tree ((objectAt cfg key).take n) = false

instance (tree : FileTree Name Contents) (key : Key) : Decidable (Free cfg tree key) :=
  decidable_of_iff (isDirectory tree (objectAt cfg key) = false ∧ isDirectory tree (sidecarAt cfg key) = false ∧
      ∀ n < (objectAt cfg key).length, isFile tree ((objectAt cfg key).take n) = false)
    ⟨fun ⟨h₁, h₂, h₃⟩ => ⟨h₁, h₂, h₃⟩, fun ⟨h₁, h₂, h₃⟩ => ⟨h₁, h₂, h₃⟩⟩

def Agreeable (cfg : LocalConfig) (d : LocalStorageDriver) : DriverOperation → Prop
  | .put key _ _ | .delete key | .get key | .stat key => Plain key ∧ Free cfg d.tree key
  | .putStream key _ fails _ => fails = false ∧ Plain key ∧ Free cfg d.tree key
  | .exists key => Plain key ∧ isDirectory d.tree (objectAt cfg key) = false
  | .list _ _ | .clock _ => True

instance (d : LocalStorageDriver) (op : DriverOperation) : Decidable (Agreeable cfg d op) :=
  match op with
  | .put key _ _ | .delete key | .get key | .stat key => inferInstanceAs (Decidable (Plain key ∧ Free cfg d.tree key))
  | .putStream key _ fails _ => inferInstanceAs (Decidable (fails = false ∧ Plain key ∧ Free cfg d.tree key))
  | .exists key => inferInstanceAs (Decidable (Plain key ∧ isDirectory d.tree (objectAt cfg key) = false))
  | .list _ _ | .clock _ => .isTrue trivial

variable {tree : FileTree Name Contents} {path : List Name}

theorem stat_ne_file (h : isFile tree path = false) (c : Contents) : tree.stat path ≠ .ok (some c) := by
  intro hc
  simp [isFile, hc] at h

theorem isFile_of_ne (h : ∀ c, tree.stat path ≠ .ok (some c)) : isFile tree path = false := by
  rw [isFile]
  split
  · next c hc => exact absurd hc (h c)
  · rfl

theorem stat_ne_directory (h : isDirectory tree path = false) : tree.stat path ≠ .ok none := by
  intro hc
  simp [isDirectory, hc] at h

/-! ## The map in the tree -/

/-- Every object lies where its key says, its metadata beside it, and nothing else lies below the root. -/
structure Agrees (cfg : LocalConfig) (d : LocalStorageDriver) (m : MemoryStorageDriver) : Prop where
  now : d.now = m.now
  distinct : d.tree.Distinct
  nodup : (m.store.map Prod.fst).Nodup
  root : ∀ n ≤ cfg.root.length, isFile d.tree (cfg.root.take n) = false
  stored : ∀ key entry, m.store.get key = some entry → Plain key ∧ d.tree.stat (objectAt cfg key) = .ok (some (.bytes entry.bytes)) ∧
      d.tree.stat (sidecarAt cfg key) = .ok (some (.json entry.metadata))
  only : ∀ p c, d.tree.stat (cfg.root ++ p) = .ok (some c) → ∃ key entry, m.store.get key = some entry ∧
    (p = key.splitOn '/' ∨ p = (key ++ metaSuffix).splitOn '/')

variable {d : LocalStorageDriver} {m : MemoryStorageDriver}

theorem objectPath_plain (h : Plain key) : LocalStorageDriver.objectPath cfg key = .ok (objectAt cfg key) := by
  have hres := resolve_plain cfg.root h.1
  simp only [LocalStorageDriver.objectPath, LocalStorageDriver.resolveContained, append_nil, hres, prefix_append, if_true, objectAt]

theorem metaPath_plain (h : Plain key) : LocalStorageDriver.metaPath cfg key = .ok (sidecarAt cfg key) := by
  have hres := resolve_plain cfg.root h.sidecar
  simp only [LocalStorageDriver.metaPath, LocalStorageDriver.resolveContained, hres, prefix_append, if_true, sidecarAt]

theorem paths (cfg : LocalConfig) (key : Key) : ∃ directory name, objectAt cfg key = directory ++ [name] ∧
    sidecarAt cfg key = directory ++ [name ++ metaSuffix] ∧ cfg.root <+: directory := by
  obtain ⟨directory, name, h⟩ := located key
  refine ⟨cfg.root ++ directory, name, ?_, ?_, prefix_append _ _⟩
  · rw [objectAt, h.object, append_assoc]
  · rw [sidecarAt, h.sidecar, append_assoc]

theorem stat_free (hdir : isDirectory tree path = false) (habove : ∀ n < path.length, isFile tree (path.take n) = false) :
    tree.stat path = .error .ENOENT ∨ ∃ c, tree.stat path = .ok (some c) := by
  cases hs : tree.stat path with
  | ok x =>
    cases x with
    | none => exact absurd hs (stat_ne_directory hdir)
    | some c => exact .inr ⟨c, rfl⟩
  | error e =>
    rcases FileTree.stat_error hs with rfl | ⟨rfl, n, hn, c, hc⟩
    · exact .inl rfl
    · exact absurd hc (stat_ne_file (habove n hn) c)

theorem Free.sidecar_above (h : Free cfg tree key) : ∀ n < (sidecarAt cfg key).length, isFile tree ((sidecarAt cfg key).take n) = false := by
  obtain ⟨directory, name, ho, hs, -⟩ := paths cfg key
  intro n hn
  have habove := h.above n
  rw [ho] at habove
  rw [hs] at hn ⊢
  simp only [length_append, length_singleton] at habove hn
  rw [take_append_of_le_length (by omega)] at habove ⊢
  exact habove hn

theorem Agrees.object_none (h : Agrees cfg d m) (hp : Plain key) (hnone : m.store.get key = none)
    (c : Contents) : d.tree.stat (objectAt cfg key) ≠ .ok (some c) := by
  intro hc
  obtain ⟨key', entry, hget, heq | heq⟩ := h.only _ c hc
  · obtain rfl := splitOn_injective heq
    rw [hnone] at hget
    cases hget
  · exact hp.ne_sidecar key' heq

theorem Agrees.sidecar_none (h : Agrees cfg d m) (hnone : m.store.get key = none)
    (c : Contents) : d.tree.stat (sidecarAt cfg key) ≠ .ok (some c) := by
  intro hc
  obtain ⟨key', entry, hget, heq | heq⟩ := h.only _ c hc
  · exact (h.stored key' entry hget).1.ne_sidecar key heq.symm
  · obtain rfl := sidecar_injective heq
    rw [hnone] at hget
    cases hget

/-! ## Reading -/

theorem readMeta_of_stored {entry : StoredEntry} (h : Agrees cfg d m) (hget : m.store.get key = some entry) :
    d.readMeta cfg key = .ok (some entry.metadata) := by
  obtain ⟨hp, -, hs⟩ := h.stored key entry hget
  simp only [LocalStorageDriver.readMeta, metaPath_plain hp, FileTree.readFile, hs]

theorem readMeta_eq (h : Agrees cfg d m) (hp : Plain key) (hf : Free cfg d.tree key) : d.readMeta cfg key = m.readMeta key := by
  cases hget : m.store.get key with
  | some entry => simp [readMeta_of_stored h hget, MemoryStorageDriver.readMeta, hget]
  | none =>
    rcases stat_free hf.sidecar hf.sidecar_above with hs | ⟨c, hc⟩
    · simp only [LocalStorageDriver.readMeta, metaPath_plain hp, FileTree.readFile, hs, MemoryStorageDriver.readMeta, hget, Option.map_none]
    · exact absurd hc (h.sidecar_none hget c)

theorem get_eq (h : Agrees cfg d m) (hp : Plain key) (hf : Free cfg d.tree key) : d.get cfg key = .ok (.object (m.store.get key)) := by
  have hmeta := readMeta_eq h hp hf
  simp only [LocalStorageDriver.get, hmeta, MemoryStorageDriver.readMeta]
  cases hget : m.store.get key with
  | none => rfl
  | some entry =>
    obtain ⟨-, ho, -⟩ := h.stored key entry hget
    simp only [Option.map_some, objectPath_plain hp, FileTree.readFile, ho]

theorem exists_eq (h : Agrees cfg d m) (hp : Plain key)
    (hdir : isDirectory d.tree (objectAt cfg key) = false) : d.exists_ cfg key = m.store.has key := by
  simp only [LocalStorageDriver.exists_, objectPath_plain hp, OrderedMap.has]
  cases hget : m.store.get key with
  | some entry => simp [(h.stored key entry hget).2.1, Except.toOption]
  | none =>
    cases hs : d.tree.stat (objectAt cfg key) with
    | error e => rfl
    | ok x =>
      cases x with
      | none => exact absurd hs (stat_ne_directory hdir)
      | some c => exact absurd hs (h.object_none hp hget c)

/-! ## Writing and deleting -/

theorem not_prefix_concat {a b : List Name} {x : Name} (h : a <+: b) : ¬ (b ++ [x]) <+: a := by
  intro h'
  have hle := h.length_le
  have hle' := h'.length_le
  rw [length_append, length_singleton] at hle'
  omega

theorem not_prefix_of_file {q : List Name} {c : Contents}
    (hpath : tree.stat path ≠ .ok none) (hne : q ≠ path) (h : tree.stat q = .ok (some c)) : ¬ path <+: q := by
  rintro ⟨rest, rfl⟩
  refine hpath (FileTree.stat_above h ?_)
  rintro rfl
  exact hne (append_nil path)

theorem write_tree (hf : Free cfg tree key) (object sidecar : Contents) :
    ∃ t₁ t₂ t₃, tree.mkdir (objectAt cfg key).dropLast = .ok t₁ ∧ t₁.writeFile object (objectAt cfg key) = .ok t₂ ∧
      t₂.writeFile sidecar (sidecarAt cfg key) = .ok t₃ ∧ (tree.Distinct → t₃.Distinct) ∧
      t₃.stat (objectAt cfg key) = .ok (some object) ∧ t₃.stat (sidecarAt cfg key) = .ok (some sidecar) ∧
      ∀ q c, q ≠ objectAt cfg key → q ≠ sidecarAt cfg key → (t₃.stat q = .ok (some c) ↔ tree.stat q = .ok (some c)) := by
  obtain ⟨directory, name, ho, hs, hroot⟩ := paths cfg key
  have hname : name ≠ name ++ metaSuffix := by
    intro heq
    have hlen := congrArg List.length heq
    rw [length_append] at hlen
    have : metaSuffix.length = 10 := rfl
    omega
  have hapart : ∀ {a b : Name}, a ≠ b → ¬ (directory ++ [a]) <+: (directory ++ [b]) := by
    intro a b hab hpre
    exact hab (singleton_inj.1 (append_cancel_left (hpre.eq_of_length (by simp))))
  have habove : ∀ q c, q <+: directory → tree.stat q ≠ .ok (some c) := by
    intro q c hq
    have hlen : q.length ≤ directory.length := hq.length_le
    have htake : (objectAt cfg key).take q.length = q := by
      rw [ho, take_append_of_le_length hlen]
      exact (prefix_iff_eq_take.1 hq).symm
    have hn := hf.above q.length (by rw [ho, length_append, length_singleton]; omega)
    rw [htake] at hn
    exact stat_ne_file hn c
  -- the directory exists after `mkdir`, and neither path leads to one
  obtain ⟨t₁, hmk⟩ := FileTree.mkdir_ok habove
  have h₁ := FileTree.stat_mkdir hmk
  have hdir₁ : t₁.stat directory = .ok none := by rw [h₁, if_pos (prefix_refl _)]
  have hobj₁ : t₁.stat (directory ++ [name]) ≠ .ok none := by
    rw [h₁, if_neg (not_prefix_concat (prefix_refl _)), ← ho]
    exact stat_ne_directory hf.object
  obtain ⟨t₂, hw₂⟩ := FileTree.writeFile_ok (c := object) hdir₁ hobj₁
  have h₂ := FileTree.stat_writeFile hw₂
  have hdir₂ : t₂.stat directory = .ok none := by
    rw [h₂, if_neg (by simp : ¬ directory = directory ++ [name]), if_neg (not_prefix_concat (prefix_refl _)), hdir₁]
  have hside₂ : t₂.stat (directory ++ [name ++ metaSuffix]) ≠ .ok none := by
    rw [h₂, if_neg (fun heq => hname (singleton_inj.1 (append_cancel_left heq)).symm), if_neg (hapart hname), h₁,
      if_neg (not_prefix_concat (prefix_refl _)), ← hs]
    exact stat_ne_directory hf.sidecar
  obtain ⟨t₃, hw₃⟩ := FileTree.writeFile_ok (c := sidecar) hdir₂ hside₂
  have h₃ := FileTree.stat_writeFile hw₃
  refine ⟨t₁, t₂, t₃, ?_, ho ▸ hw₂, hs ▸ hw₃, fun hd => ((hd.mkdir hmk).writeFile hw₂).writeFile hw₃, ?_, ?_, ?_⟩
  · rw [ho, dropLast_concat]
    exact hmk
  · rw [ho, h₃, if_neg (fun heq => hname (singleton_inj.1 (append_cancel_left heq))), if_neg (hapart hname.symm), h₂, if_pos rfl]
  · rw [hs, h₃, if_pos rfl]
  · intro q c hqo hqs
    rw [h₃, ← hs, if_neg hqs, h₂, ← ho, if_neg hqo, h₁]
    constructor
    · intro h
      split at h
      · cases h
      · split at h
        · cases h
        · split at h
          · cases h
          · exact h
    · intro h
      rw [if_neg (not_prefix_of_file (stat_ne_directory hf.sidecar) hqs h),
        if_neg (not_prefix_of_file (stat_ne_directory hf.object) hqo h), if_neg (fun hq => habove q c hq h)]
      exact h

theorem objectAt_injective {a b : Key} (h : objectAt cfg a = objectAt cfg b) : a = b :=
  splitOn_injective (append_cancel_left h)

theorem sidecarAt_injective {a b : Key} (h : sidecarAt cfg a = sidecarAt cfg b) : a = b :=
  sidecar_injective (append_cancel_left h)

theorem Plain.object_ne_sidecar (h : Plain key) (key' : Key) : objectAt cfg key ≠ sidecarAt cfg key' :=
  fun heq => h.ne_sidecar key' (append_cancel_left heq)

theorem root_take_ne (key : Key) {n : Nat} (hn : n ≤ cfg.root.length) :
    cfg.root.take n ≠ objectAt cfg key ∧ cfg.root.take n ≠ sidecarAt cfg key := by
  obtain ⟨directory, name, ho, hs, hroot⟩ := paths cfg key
  have hle := hroot.length_le
  constructor
  · intro heq
    have hlen := congrArg List.length heq
    rw [ho, length_take, length_append, length_singleton] at hlen
    omega
  · intro heq
    have hlen := congrArg List.length heq
    rw [hs, length_take, length_append, length_singleton] at hlen
    omega

theorem put_agrees (h : Agrees cfg d m) (hp : Plain key) (hf : Free cfg d.tree key) (bytes : Bytes) (metadata : WriteMetadata) :
    (d.write cfg key bytes false metadata).2 = (m.put cfg.sha256Hex key bytes metadata).2 ∧
      Agrees cfg (d.write cfg key bytes false metadata).1 (m.put cfg.sha256Hex key bytes metadata).1 := by
  have hmeta := readMeta_eq h hp hf
  have hmd : d.objectMetadata cfg ((m.store.get key).map StoredEntry.metadata) key bytes metadata =
      (m.store.entry cfg.sha256Hex m.now key bytes metadata).metadata := by
    simp only [LocalStorageDriver.objectMetadata, Store.entry, h.now, Option.map_map]
    rfl
  obtain ⟨t₁, t₂, t₃, hmk, hw₂, hw₃, hd, ho, hs, hrest⟩ := write_tree hf (.bytes bytes)
    (.json (m.store.entry cfg.sha256Hex m.now key bytes metadata).metadata)
  have hwrite : d.write cfg key bytes false metadata = ({ d with tree := t₃ },
      .ok (.metadata (m.store.entry cfg.sha256Hex m.now key bytes metadata).metadata)) := by
    simp only [LocalStorageDriver.write, hmeta, MemoryStorageDriver.readMeta, objectPath_plain hp, hmk, hw₂,
      Bool.false_eq_true, if_false, metaPath_plain hp, hmd, hw₃]
  rw [hwrite]
  refine ⟨rfl, h.now, hd h.distinct, keys_set_nodup h.nodup _ _, ?_, ?_, ?_⟩
  · intro n hn
    refine isFile_of_ne fun c hc => ?_
    obtain ⟨hno, hns⟩ := root_take_ne key hn
    exact stat_ne_file (h.root n hn) c ((hrest _ c hno hns).1 hc)
  · intro key' entry hget
    simp only [MemoryStorageDriver.put, Store.put, get_set] at hget
    split at hget
    case isTrue heq =>
      subst heq
      obtain rfl := Option.some.inj hget
      exact ⟨hp, ho, hs⟩
    case isFalse hne =>
      obtain ⟨hp', ho', hs'⟩ := h.stored key' entry hget
      refine ⟨hp', ?_, ?_⟩
      · exact (hrest _ _ (fun heq => hne (objectAt_injective heq)) (hp'.object_ne_sidecar key)).2 ho'
      · exact (hrest _ _ (hp.object_ne_sidecar key').symm (fun heq => hne (sidecarAt_injective heq))).2 hs'
  · intro p c hc
    simp only [MemoryStorageDriver.put, Store.put, get_set]
    by_cases hpo : cfg.root ++ p = objectAt cfg key
    · exact ⟨key, _, if_pos rfl, .inl (append_cancel_left hpo)⟩
    · by_cases hps : cfg.root ++ p = sidecarAt cfg key
      · exact ⟨key, _, if_pos rfl, .inr (append_cancel_left hps)⟩
      · obtain ⟨key', entry, hget, heq⟩ := h.only p c ((hrest _ c hpo hps).1 hc)
        by_cases hkey : key' = key
        · subst hkey
          exact ⟨key', _, if_pos rfl, heq⟩
        · exact ⟨key', entry, by rw [if_neg hkey]; exact hget, heq⟩

/-- What is not a directory, and not below a file, is gone after `unlinkIfExists`. -/
theorem unlinkIfExists_spec (d : LocalStorageDriver) (hne : path ≠ [])
    (hs : d.tree.stat path = .error .ENOENT ∨ ∃ c, d.tree.stat path = .ok (some c)) :
    ∃ tree, d.unlinkIfExists (.ok path) = ({ d with tree := tree }, .ok ()) ∧ (d.tree.Distinct → tree.Distinct) ∧
      ∀ q, tree.stat q = if path <+: q then .error .ENOENT else d.tree.stat q := by
  rcases hs with hs | ⟨c, hs⟩
  · refine ⟨d.tree, ?_, id, fun q => ?_⟩
    · simp only [LocalStorageDriver.unlinkIfExists, FileTree.unlink_error hs]
    · split
      case isTrue hq =>
        obtain ⟨rest, rfl⟩ := hq
        exact FileTree.stat_append_error hs rest
      case isFalse => rfl
  · obtain ⟨tree, hu⟩ := FileTree.unlink_ok hne hs
    refine ⟨tree, ?_, fun hd => hd.unlink hu, FileTree.stat_unlink hu⟩
    simp only [LocalStorageDriver.unlinkIfExists, hu]

theorem delete_agrees (h : Agrees cfg d m) (hp : Plain key) (hf : Free cfg d.tree key) : (d.delete cfg key).2 = .ok .done ∧
      Agrees cfg (d.delete cfg key).1 { m with store := m.store.delete key } := by
  obtain ⟨directory, name, ho, hs, -⟩ := paths cfg key
  have hapart : ¬ objectAt cfg key <+: sidecarAt cfg key := by
    intro hpre
    refine hp.object_ne_sidecar key (hpre.eq_of_length ?_)
    rw [ho, hs, length_append, length_append, length_singleton, length_singleton]
  obtain ⟨t₁, hu₁, hd₁, h₁⟩ := unlinkIfExists_spec d (by rw [ho]; simp) (stat_free hf.object hf.above)
  have hside : t₁.stat (sidecarAt cfg key) = d.tree.stat (sidecarAt cfg key) := by rw [h₁, if_neg hapart]
  obtain ⟨t₂, hu₂, hd₂, h₂⟩ := unlinkIfExists_spec { d with tree := t₁ } (show sidecarAt cfg key ≠ [] by rw [hs]; simp) (by
      rw [hside]
      exact stat_free hf.sidecar hf.sidecar_above)
  have hdelete : d.delete cfg key = ({ d with tree := t₂ }, .ok .done) := by
    simp only [LocalStorageDriver.delete, objectPath_plain hp, metaPath_plain hp, hu₁, hu₂]
  have hstat : ∀ q, t₂.stat q = if sidecarAt cfg key <+: q then .error .ENOENT
      else if objectAt cfg key <+: q then .error .ENOENT else d.tree.stat q := by
    intro q
    rw [h₂]
    rw [h₁]
  have hgone : ∀ {q c}, t₂.stat q = .ok (some c) → ¬ sidecarAt cfg key <+: q ∧ ¬ objectAt cfg key <+: q ∧ d.tree.stat q = .ok (some c) := by
    intro q c hc
    rw [hstat] at hc
    split at hc
    · cases hc
    · split at hc
      · cases hc
      · exact ⟨‹_›, ‹_›, hc⟩
  have hkept : ∀ {q c}, q ≠ objectAt cfg key → q ≠ sidecarAt cfg key → d.tree.stat q = .ok (some c) → t₂.stat q = .ok (some c) := by
    intro q c hqo hqs hc
    rw [hstat, if_neg (not_prefix_of_file (stat_ne_directory hf.sidecar) hqs hc),
      if_neg (not_prefix_of_file (stat_ne_directory hf.object) hqo hc), hc]
  rw [hdelete]
  refine ⟨rfl, h.now, hd₂ (hd₁ h.distinct), keys_delete_nodup h.nodup _, ?_, ?_, ?_⟩
  · intro n hn
    exact isFile_of_ne fun c hc => stat_ne_file (h.root n hn) c (hgone hc).2.2
  · intro key' entry hget
    simp only [get_delete] at hget
    split at hget
    case isTrue => cases hget
    case isFalse hne =>
      obtain ⟨hp', ho', hs'⟩ := h.stored key' entry hget
      refine ⟨hp', ?_, ?_⟩
      · exact hkept (fun heq => hne (objectAt_injective heq)) (hp'.object_ne_sidecar key) ho'
      · exact hkept (hp.object_ne_sidecar key').symm (fun heq => hne (sidecarAt_injective heq)) hs'
  · intro p c hc
    obtain ⟨hns, hno, hc'⟩ := hgone hc
    obtain ⟨key', entry, hget, heq⟩ := h.only p c hc'
    refine ⟨key', entry, ?_, heq⟩
    -- the files of the deleted key are gone
    have hne : key' ≠ key := by
      rintro rfl
      rcases heq with rfl | rfl
      · exact hno (prefix_refl _)
      · exact hns (prefix_refl _)
    simp only [get_delete, if_neg hne]
    exact hget

/-! ## Listing -/

theorem collect_congr {read read' : Key → Except DriverError (Option StorageObjectMetadata)} (keyPrefix : Key)
    (options : ListOptions) : ∀ (keys seen : List Key) (items : List StorageListItem), (∀ key ∈ keys, read key = read' key) →
        collect read keyPrefix options keys seen items = collect read' keyPrefix options keys seen items
  | [], _, _, _ => rfl
  | key :: keys, seen, items, h => by
    have hkeys := fun key' hmem => h key' (mem_cons_of_mem key hmem)
    simp only [collect, h key mem_cons_self, collect_congr keyPrefix options keys _ _ hkeys]

theorem matchedKeys_mem {allKeys : List Key} {keyPrefix : Key} {options : ListOptions}
    (h : key ∈ matchedKeys allKeys keyPrefix options) : key ∈ allKeys := by
  simp only [matchedKeys] at h
  split at h
  · rw [mem_sortOn] at h
    exact (mem_filter.1 h).1
  · have hmem := (mem_filter.1 h).1
    rw [mem_sortOn] at hmem
    exact (mem_filter.1 hmem).1

theorem matchedKeys_perm {l l' : List Key} (h : l.Perm l') (keyPrefix : Key) (options : ListOptions) :
    matchedKeys l keyPrefix options = matchedKeys l' keyPrefix options := by
  simp only [matchedKeys, sortOn_eq_of_perm (fun _ _ => units_injective) (h.filter _)]

theorem collectKeys_perm (h : Agrees cfg d m) : ∃ keys, d.collectKeys cfg = .ok keys ∧ keys.Perm (m.store.map Prod.fst) := by
  have hroot := stat_ne_file (h.root cfg.root.length le_rfl)
  rw [take_length] at hroot
  simp only [LocalStorageDriver.collectKeys]
  cases hl : d.tree.lookup cfg.root with
  | error e =>
    refine ⟨[], rfl, ?_⟩
    -- no object lies under a root that is not there
    have hempty : m.store.map Prod.fst = [] := by
      refine eq_nil_iff_forall_not_mem.2 fun key hmem => ?_
      obtain ⟨⟨key', entry⟩, hentry, rfl⟩ := mem_map.1 hmem
      obtain ⟨-, ho, -⟩ := h.stored key' entry (get_of_mem h.nodup hentry)
      have herr : d.tree.stat cfg.root = .error e := by rw [FileTree.stat, hl]; rfl
      rw [objectAt, FileTree.stat_append_error herr] at ho
      cases ho
    rw [hempty]
  | ok t =>
    cases t with
    | file c => exact absurd (by rw [FileTree.stat, hl]; rfl) (hroot c)
    | dir entries =>
      refine ⟨_, rfl, ?_⟩
      have hdistinct := h.distinct.lookup hl
      have hfile : ∀ {p c}, (p, c) ∈ (FileTree.dir entries).files ↔ d.tree.stat (cfg.root ++ p) = .ok (some c) := by
        intro p c
        rw [FileTree.mem_files hdistinct, FileTree.stat_of_lookup hl]
      -- what is listed are the paths of the stored keys
      have hlisted : ∀ f ∈ (FileTree.dir entries).files, ¬ metaSuffix <:+ f.1.getLastD [] →
          ∃ key entry, m.store.get key = some entry ∧ f.1 = key.splitOn '/' := by
        rintro ⟨p, c⟩ hf hsuffix
        obtain ⟨key, entry, hget, rfl | rfl⟩ := h.only p c (hfile.1 hf)
        · exact ⟨key, entry, hget, rfl⟩
        · obtain ⟨directory, name, hlocated⟩ := located key
          refine absurd ?_ hsuffix
          rw [hlocated.sidecar, getLastD_concat]
          exact suffix_append _ _
      refine (perm_ext_iff_of_nodup ?_ h.nodup).2 fun key => ?_
      · refine List.Nodup.map_on ?_ ((List.Nodup.of_map Prod.fst (FileTree.files_nodup hdistinct)).filter _)
        intro f hf g hg heq
        rw [mem_filter, decide_eq_true_eq] at hf hg
        obtain ⟨a, ea, ha, hfa⟩ := hlisted f hf.1 hf.2
        obtain ⟨b, eb, hb, hgb⟩ := hlisted g hg.1 hg.2
        rw [hfa, hgb, intercalate_splitOn, intercalate_splitOn] at heq
        refine inj_on_of_nodup_map (FileTree.files_nodup hdistinct) hf.1 hg.1 ?_
        rw [hfa, hgb, heq]
      · rw [← has_iff_mem_keys, OrderedMap.has, Option.isSome_iff_exists, mem_map]
        constructor
        · rintro ⟨f, hf, rfl⟩
          rw [mem_filter, decide_eq_true_eq] at hf
          obtain ⟨a, ea, ha, hfa⟩ := hlisted f hf.1 hf.2
          rw [hfa, intercalate_splitOn]
          exact ⟨ea, ha⟩
        · rintro ⟨entry, hget⟩
          obtain ⟨hp, ho, -⟩ := h.stored key entry hget
          obtain ⟨directory, name, hlocated⟩ := located key
          refine ⟨(key.splitOn '/', .bytes entry.bytes), ?_, intercalate_splitOn '/'⟩
          rw [mem_filter, decide_eq_true_eq]
          refine ⟨hfile.2 ho, fun hsuffix => hp.2 ?_⟩
          rw [hlocated.object, getLastD_concat] at hsuffix
          exact hsuffix.trans hlocated.suffix

theorem list_eq (h : Agrees cfg d m) (keyPrefix : Key) (options : ListOptions) :
    d.list cfg keyPrefix options = (m.perform cfg.sha256Hex (.list keyPrefix options)).2 := by
  obtain ⟨keys, hkeys, hperm⟩ := collectKeys_perm h
  simp only [LocalStorageDriver.list, hkeys, MemoryStorageDriver.perform, matchedKeys_perm hperm]
  refine congrArg (Except.map DriverResult.items) (collect_congr keyPrefix options _ _ _ fun key hmem => ?_)
  have hstored := has_iff_mem_keys.2 (matchedKeys_mem hmem)
  obtain ⟨entry, hget⟩ := Option.isSome_iff_exists.1 hstored
  rw [readMeta_of_stored h hget, MemoryStorageDriver.readMeta, hget]
  rfl

/-! ## Runs -/

theorem perform_agrees (h : Agrees cfg d m) {op : DriverOperation} (hop : Agreeable cfg d op) :
    (d.perform cfg op).2 = (m.perform cfg.sha256Hex op).2 ∧ Agrees cfg (d.perform cfg op).1 (m.perform cfg.sha256Hex op).1 := by
  cases op with
  | put key bytes metadata => exact put_agrees h hop.1 hop.2 bytes metadata
  | putStream key chunks fails metadata =>
    obtain ⟨rfl, hp, hf⟩ := hop
    exact put_agrees h hp hf chunks.flatten metadata
  | get key => exact ⟨get_eq h hop.1 hop.2, h⟩
  | «exists» key =>
    refine ⟨?_, h⟩
    simp only [LocalStorageDriver.perform, MemoryStorageDriver.perform, exists_eq h hop.1 hop.2]
  | delete key => exact delete_agrees h hop.1 hop.2
  | stat key =>
    refine ⟨?_, h⟩
    simp only [LocalStorageDriver.perform, MemoryStorageDriver.perform, readMeta_eq h hop.1 hop.2, MemoryStorageDriver.readMeta]
    rfl
  | list keyPrefix options => exact ⟨list_eq h keyPrefix options, h⟩
  | clock now => exact ⟨rfl, rfl, h.distinct, h.nodup, h.root, h.stored, h.only⟩

def localStep (cfg : LocalConfig) (d : LocalStorageDriver) (op : DriverOperation) : LocalStorageDriver :=
  (d.perform cfg op).1

def memoryStep (sha256Hex : Bytes → String) (m : MemoryStorageDriver) (op : DriverOperation) : MemoryStorageDriver :=
  (m.perform sha256Hex op).1

/-- What each operation of a run is answered. -/
def localAnswers (cfg : LocalConfig) : LocalStorageDriver → List DriverOperation → List Answer :=
  observe (localStep cfg) fun d op => some (d.perform cfg op).2

def memoryAnswers (sha256Hex : Bytes → String) : MemoryStorageDriver → List DriverOperation → List Answer :=
  observe (memoryStep sha256Hex) fun m op => some (m.perform sha256Hex op).2

theorem answers_eq : ∀ (ops : List DriverOperation) {d : LocalStorageDriver} {m : MemoryStorageDriver},
    Agrees cfg d m → Guarded (localStep cfg) (Agreeable cfg) d ops → localAnswers cfg d ops = memoryAnswers cfg.sha256Hex m ops ∧
        Agrees cfg (run (localStep cfg) d ops) (run (memoryStep cfg.sha256Hex) m ops)
  | [], _, _, h, _ => ⟨rfl, h⟩
  | op :: ops, d, m, h, hops => by
    obtain ⟨hanswer, hstep⟩ := perform_agrees h hops.1
    obtain ⟨hanswers, hrun⟩ := answers_eq ops hstep hops.2
    refine ⟨?_, hrun⟩
    simp only [localAnswers, memoryAnswers, observe] at hanswers ⊢
    rw [hanswer]
    exact congrArg (List.append [_]) hanswers

/-- A root with no file at it, above it or below it. -/
structure Fresh (cfg : LocalConfig) (tree : FileTree Name Contents) : Prop where
  distinct : tree.Distinct
  root : ∀ n ≤ cfg.root.length, isFile tree (cfg.root.take n) = false
  below : ∀ p, isFile tree (cfg.root ++ p) = false

theorem Fresh.agrees (h : Fresh cfg tree) (now : Int) : Agrees cfg ⟨tree, now⟩ ⟨[], now⟩ := by
  refine ⟨rfl, h.distinct, nodup_nil, h.root, nofun, ?_⟩
  intro p c hc
  exact absurd hc (stat_ne_file (h.below p) c)

/-- Along a run whose operations meet the condition both drivers answer the same, and at its end the files below the
root are the stored objects with their metadata. -/
theorem drivers_agree (cfg : LocalConfig) (tree : FileTree Name Contents) (now : Int) (ops : List DriverOperation)
    (hfresh : Fresh cfg tree) (hops : Guarded (localStep cfg) (Agreeable cfg) ⟨tree, now⟩ ops) :
    localAnswers cfg ⟨tree, now⟩ ops = memoryAnswers cfg.sha256Hex ⟨[], now⟩ ops ∧
      Agrees cfg (run (localStep cfg) ⟨tree, now⟩ ops) (run (memoryStep cfg.sha256Hex) ⟨[], now⟩ ops) :=
  answers_eq ops (hfresh.agrees now) hops

def dataConfig : LocalConfig where
  sha256Hex bytes := String.ofList (bytes.map fun b => Char.ofNat b.toNat)
  root := ["data".toList]
  jsonText metadata := metadata.checksum.toList.map fun c => UInt8.ofNat c.toNat
  jsonParse _ := none

theorem dataConfig_fresh : Fresh dataConfig (.dir []) := by
  refine ⟨.dir nodup_nil nofun, by decide, fun p => ?_⟩
  rfl

def plainOptions : WriteMetadata := ⟨none, none, none, none, none⟩

/-- Objects in nested directories, one of them overwritten and one deleted. -/
def nestedOps : List DriverOperation :=
  [.put "a/b".toList [1] plainOptions, .put "c".toList [2] plainOptions, .clock 5,
    .putStream "a/b".toList [[3], [4]] false plainOptions, .get "a/b".toList, .put "a/d/e".toList [] plainOptions,
    .exists "a/x".toList, .list "a/".toList ⟨none, none, true⟩, .delete "a/b".toList, .stat "a/b".toList,
    .list [] ⟨some "a/c".toList, some 2, false⟩]

theorem drivers_agree_nested : localAnswers dataConfig ⟨.dir [], 0⟩ nestedOps = memoryAnswers dataConfig.sha256Hex ⟨[], 0⟩ nestedOps :=
  (drivers_agree dataConfig (.dir []) 0 nestedOps dataConfig_fresh (by simp only [nestedOps, Guarded]; decide +kernel)).1

/-- A stream that fails leaves a part of an object, two keys share one path, a key is a directory, and a key is that of
a sidecar. -/
theorem drivers_counterexample : (∃ ops, ops = [.putStream "a".toList [[1]] true plainOptions, .exists "a".toList] ∧
      localAnswers dataConfig ⟨.dir [], 0⟩ ops ≠ memoryAnswers dataConfig.sha256Hex ⟨[], 0⟩ ops) ∧
    (∃ ops, ops = [.put "a//b".toList [1] plainOptions, .get "a/b".toList] ∧
      localAnswers dataConfig ⟨.dir [], 0⟩ ops ≠ memoryAnswers dataConfig.sha256Hex ⟨[], 0⟩ ops) ∧
    (∃ ops, ops = [.put "a/b".toList [1] plainOptions, .exists "a".toList] ∧
      localAnswers dataConfig ⟨.dir [], 0⟩ ops ≠ memoryAnswers dataConfig.sha256Hex ⟨[], 0⟩ ops) ∧
    (∃ ops, ops = [.put "a".toList [1] plainOptions, .exists "a.meta.json".toList] ∧
      localAnswers dataConfig ⟨.dir [], 0⟩ ops ≠ memoryAnswers dataConfig.sha256Hex ⟨[], 0⟩ ops) := by
  refine ⟨⟨_, rfl, ?_⟩, ⟨_, rfl, ?_⟩, ⟨_, rfl, ?_⟩, ⟨_, rfl, ?_⟩⟩ <;> decide +kernel

end StreetJS.Storage
