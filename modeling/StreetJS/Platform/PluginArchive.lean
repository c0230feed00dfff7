/-
`_extractTarball`: a walk over the headers of a plugin archive, a check of every entry, and then the writes. Nothing is
written outside the destination, and nothing at all once an entry is refused; the walk goes forward and ends exactly
when no header that it reads has a size of −512 or less.
-/
import StreetJS.Postgres.Message
import StreetJS.Storage.Drivers

namespace StreetJS.Platform

open StreetJS.Lib StreetJS.Postgres
open StreetJS.Storage (Name resolve pushSegment)

/-! ## Headers -/

structure TarEntry where
  name : Text
  typeFlag : Char
  size : Int
  dataOffset : Int
  deriving DecidableEq

/-- An index of `slice`: a negative one counts from the end. -/
def clampIndex (length : Nat) (index : Int) : Nat := if index < 0 then (length + index).toNat else min index.toNat length

def slice (tar : Bytes) (start stop : Int) : Bytes :=
  (tar.take (clampIndex tar.length stop)).drop (clampIndex tar.length start)

def isOctal (c : Char) : Bool := '0' ≤ c && c ≤ '7'

/-- `parseInt(text.trim(), 8) || 0` -/
def parseOctal (text : Text) : Int :=
  let (sign, digits) := match text.dropWhile isSpace with
    | '-' :: rest => (-1, rest)
    | '+' :: rest => (1, rest)
    | text => (1, text)
  sign * (digits.takeWhile isOctal).foldl (fun (n : Int) c => n * 8 + (c.toNat - 48 : Nat)) 0

def withoutNul (text : Text) : Text := text.filter (· ≠ '\x00')

/-- What the walk reads at an offset, if it goes on there. -/
def readHeader (tar : Bytes) (offset : Int) : Option TarEntry :=
  let header := slice tar offset (offset + 512)
  if tar.length < offset + 512 ∨ header.all (· = 0) then none
  else some {
    name := withoutNul (toText (header.take 100))
    typeFlag := Char.ofNat (header.getD 156 0).toNat
    size := parseOctal (withoutNul (toText ((header.take 136).drop 124)))
    dataOffset := offset + 512 }

/-- Past the entry's data: `Math.ceil(size / 512)` blocks. -/
def TarEntry.next (entry : TarEntry) : Int := entry.dataOffset + -(-entry.size / 512) * 512

/-- The first pass, when it takes fewer than `fuel` headers. -/
def walk (tar : Bytes) : Nat → Int → List TarEntry → Option (List TarEntry)
  | 0, _, _ => none
  | fuel + 1, offset, entries =>
    match readHeader tar offset with
    | none => some entries
    | some entry => walk tar fuel entry.next (if entry.name = [] then entries else entries ++ [entry])

/-! ## Checks and writes -/

/-- The text of a resolved path. -/
def absolute (path : List Name) : Text := if path = [] then ['/'] else path.flatMap ('/' :: ·)

def stripLeading (start name : Text) : Text := if start <+: name then name.drop start.length else name

variable (destDir : List Name)

/-- `destDir` is resolved already. -/
def resolveContained (entryName : Text) : Option (List Name) :=
  let sanitized := stripLeading ['/'] (stripLeading ['.', '/'] entryName)
  if sanitized.head? = some '/' then none
  else if ['.', '.'] ∈ sanitized.splitOnP fun c => c = '\\' || c = '/' then none
  else
    let resolved := resolve destDir sanitized
    if absolute resolved = absolute destDir ∨ absolute destDir ++ ['/'] <+: absolute resolved then some resolved else none

inductive ExtractError where
  | refused (message : Text)
  | errno (e : Errno)

/-- The second pass: where the entries go. -/
def validate : List TarEntry → Except ExtractError (List (List Name))
  | [] => .ok []
  | entry :: entries =>
    if entry.typeFlag = '1' ∨ entry.typeFlag = '2' then
      .error (.refused ("Refusing link entry \"".toList ++ entry.name ++ "\" (type ".toList ++ [entry.typeFlag] ++
        ") in plugin archive".toList))
    else
      match resolveContained destDir entry.name with
      | none => .error (.refused ("Refusing path-traversal entry \"".toList ++ entry.name ++ "\" outside plugin directory".toList))
      | some safe => (validate entries).map (safe :: ·)

abbrev Disk := FileTree Name Bytes

def writeEntry (tar : Bytes) (disk : Disk) (entry : TarEntry) (safePath : List Name) : Disk × Except Errno Unit :=
  if entry.typeFlag = '0' ∨ entry.typeFlag = '\x00' then
    match disk.mkdir safePath.dropLast with
    | .error e => (disk, .error e)
    | .ok disk =>
      match disk.writeFile (slice tar entry.dataOffset (entry.dataOffset + entry.size)) safePath with
      | .error e => (disk, .error e)
      | .ok disk => (disk, .ok ())
  else if entry.typeFlag = '5' then
    match disk.mkdir safePath with
    | .error e => (disk, .error e)
    | .ok disk => (disk, .ok ())
  else (disk, .ok ())

/-- The third pass. -/
def writeEntries (tar : Bytes) : Disk → List (TarEntry × List Name) → Disk × Except ExtractError Unit
  | disk, [] => (disk, .ok ())
  | disk, (entry, safePath) :: rest =>
    match writeEntry tar disk entry safePath with
    | (disk, .error e) => (disk, .error (.errno e))
    | (disk, .ok ()) => writeEntries tar disk rest

def extractTarball (tar : Bytes) (disk : Disk) (fuel : Nat) : Option (Disk × Except ExtractError Unit) :=
  (walk tar fuel 0 []).map fun entries =>
    match validate destDir entries with
    | .error e => (disk, .error e)
    | .ok safePaths => writeEntries tar disk (entries.zip safePaths)

/-! ## The walk -/

/-- The offsets at which the walk looks for a header. -/
inductive Reached (tar : Bytes) : Int → Prop
  | start : Reached tar 0
  | next {offset : Int} {entry : TarEntry} : Reached tar offset → readHeader tar offset = some entry → Reached tar entry.next

/-- No header that the walk reads has a size of −512 or less. -/
def SizesForward (tar : Bytes) : Prop :=
  ∀ offset entry, Reached tar offset → readHeader tar offset = some entry → -512 < entry.size

variable {tar : Bytes} {destDir}

theorem readHeader_spec {offset : Int} {entry : TarEntry} (h : readHeader tar offset = some entry) :
    offset + 512 ≤ tar.length ∧ entry.dataOffset = offset + 512 := by
  unfold readHeader at h
  dsimp only at h
  split at h
  · cases h
  · rename_i hgo
    obtain rfl := Option.some.inj h
    exact ⟨Int.not_lt.1 fun hlt => hgo (.inl hlt), rfl⟩

theorem lt_next_iff {offset : Int} {entry : TarEntry} (h : readHeader tar offset = some entry) : offset < entry.next ↔ -512 < entry.size := by
  have hdata := (readHeader_spec h).2
  unfold TarEntry.next
  omega

/-- The offset goes up by a block at least. -/
theorem walk_terminates (hsizes : SizesForward tar) : ∀ (fuel : Nat) (offset : Int) (entries : List TarEntry),
    Reached tar offset → tar.length < offset + fuel → (walk tar (fuel + 1) offset entries).isSome
  | fuel, offset, entries, hreached, hlt => by
    unfold walk
    split
    · rfl
    · rename_i entry hread
      have hle := (readHeader_spec hread).1
      have hnext := (lt_next_iff hread).2 (hsizes offset entry hreached hread)
      cases fuel with
      | zero => omega
      | succ fuel => exact walk_terminates hsizes fuel _ _ (hreached.next hread) (by omega)

/-! ## What is written -/

/-- A split at more characters splits the segments. -/
theorem splitOnP_flatMap {p q : Char → Bool} (hle : ∀ c, p c = true → q c = true) :
    ∀ text : Text, text.splitOnP q = (text.splitOnP p).flatMap (List.splitOnP q)
  | [] => by simp
  | c :: text => by
    have ih := splitOnP_flatMap hle text
    obtain ⟨segment, rest, hp⟩ := List.exists_cons_of_ne_nil (List.splitOnP_ne_nil p text)
    obtain ⟨first, firsts, hq⟩ := List.exists_cons_of_ne_nil (List.splitOnP_ne_nil q segment)
    rw [List.splitOnP_cons_eq_if_modifyHead, List.splitOnP_cons_eq_if_modifyHead, ih]
    by_cases hc : p c = true
    · rw [if_pos hc, if_pos (hle c hc), List.flatMap_cons, List.splitOnP_nil]
      rfl
    · rw [if_neg hc, hp, List.modifyHead_cons, List.flatMap_cons, List.flatMap_cons, List.splitOnP_cons_eq_if_modifyHead, hq]
      split <;> rfl

theorem push_contained {segments : List Name} (path : List Name) (h : ['.', '.'] ∉ segments) : path <+: segments.foldl pushSegment path := by
  induction segments generalizing path with
  | nil => exact List.prefix_rfl
  | cons segment segments ih =>
    obtain ⟨hne, hrest⟩ := List.ne_and_not_mem_of_not_mem_cons h
    refine List.IsPrefix.trans ?_ (ih (pushSegment path segment) hrest)
    unfold pushSegment
    split
    · exact List.prefix_rfl
    · rw [if_neg hne.symm]
      exact List.prefix_append _ _

theorem resolveContained_spec {entryName : Text} {safe : List Name} (h : resolveContained destDir entryName = some safe) :
    destDir <+: safe := by
  unfold resolveContained at h
  dsimp only at h
  split at h
  · cases h
  · rename_i hhead
    split at h
    · cases h
    · rename_i hparent
      split at h
      · obtain rfl := Option.some.inj h
        unfold resolve
        rw [if_neg hhead]
        refine push_contained _ fun hmem => hparent ?_
        rw [splitOnP_flatMap (p := (· == '/')) (fun c hc => by simp [eq_of_beq hc])]
        exact List.mem_flatMap.2 ⟨_, hmem, by decide⟩
      · cases h

/-- Outside the destination everything is as before. -/
def Kept (destDir : List Name) (before after : Disk) : Prop := ∀ q, ¬destDir <+: q → after.stat q = before.stat q

/-- The directories above the destination are there already. -/
theorem Kept.mkdir {before disk disk' : Disk} (h : Kept destDir before disk) (hdir : before.stat destDir = .ok none)
    {path safePath : List Name} (hsafe : destDir <+: safePath) (hpath : path <+: safePath)
    (hmkdir : disk.mkdir path = .ok disk') : Kept destDir before disk' := by
  intro q hq
  rw [FileTree.stat_mkdir hmkdir]
  split
  · rename_i hmade
    obtain ⟨rest, rfl⟩ := (List.prefix_or_prefix_of_prefix hsafe (hmade.trans hpath)).resolve_left hq
    refine (FileTree.stat_above hdir ?_).symm
    rintro rfl
    exact hq (by simp)
  · exact h q hq

theorem Kept.writeFile {before disk disk' : Disk} (h : Kept destDir before disk) {path : List Name}
    (hpath : destDir <+: path) {data : Bytes} (hwrite : disk.writeFile data path = .ok disk') :
    Kept destDir before disk' := by
  intro q hq
  have hne : q ≠ path := fun heq => hq (heq ▸ hpath)
  have hbelow : ¬path <+: q := fun hbelow => hq (hpath.trans hbelow)
  rw [FileTree.stat_writeFile hwrite, if_neg hne, if_neg hbelow]
  exact h q hq

theorem Kept.writeEntry {before disk : Disk} (h : Kept destDir before disk) (hdir : before.stat destDir = .ok none)
    {entry : TarEntry} {safePath : List Name} (hsafe : destDir <+: safePath) :
    Kept destDir before (writeEntry tar disk entry safePath).1 := by
  unfold Platform.writeEntry
  split
  · split
    · exact h
    · rename_i hmkdir
      have hmade := h.mkdir hdir hsafe (List.dropLast_prefix _) hmkdir
      split
      · exact hmade
      · rename_i hwrite
        exact hmade.writeFile hsafe hwrite
  · split
    · split
      · exact h
      · rename_i hmkdir
        exact h.mkdir hdir hsafe List.prefix_rfl hmkdir
    · exact h

theorem Kept.writeEntries {before : Disk} (hdir : before.stat destDir = .ok none) :
    ∀ {disk : Disk} {entries : List (TarEntry × List Name)}, Kept destDir before disk →
      (∀ e ∈ entries, destDir <+: e.2) → Kept destDir before (writeEntries tar disk entries).1
  | disk, [], h, _ => h
  | disk, (entry, safePath) :: rest, h, hsafe => by
    have hone : Kept destDir before (Platform.writeEntry tar disk entry safePath).1 :=
      h.writeEntry hdir (hsafe _ List.mem_cons_self)
    rw [Platform.writeEntries]
    split
    · rename_i heq
      rwa [heq] at hone
    · rename_i heq
      rw [heq] at hone
      exact writeEntries hdir hone fun e he => hsafe e (List.mem_cons_of_mem _ he)

/-! ## Refused entries -/

/-- A link, or an entry whose path leaves the destination. -/
def Refused (destDir : List Name) (entry : TarEntry) : Prop :=
  entry.typeFlag = '1' ∨ entry.typeFlag = '2' ∨ resolveContained destDir entry.name = none

theorem validate_spec : ∀ {entries : List TarEntry} {safePaths : List (List Name)},
    validate destDir entries = .ok safePaths → (∀ entry ∈ entries, ¬Refused destDir entry) ∧ ∀ safe ∈ safePaths, destDir <+: safe
  | [], safePaths, h => by
    obtain rfl := Except.ok.inj h
    exact ⟨nofun, nofun⟩
  | entry :: entries, safePaths, h => by
    unfold validate at h
    split at h
    · cases h
    · rename_i hlink
      split at h
      · cases h
      · rename_i safe hsafe
        cases hrest : validate destDir entries with
        | error e =>
          rw [hrest] at h
          cases h
        | ok rest =>
          rw [hrest] at h
          obtain rfl := Except.ok.inj h
          obtain ⟨hentries, hpaths⟩ := validate_spec hrest
          refine ⟨List.forall_mem_cons.2 ⟨?_, hentries⟩, List.forall_mem_cons.2 ⟨resolveContained_spec hsafe, hpaths⟩⟩
          rintro (hone | htwo | hnone)
          · exact hlink (.inl hone)
          · exact hlink (.inr htwo)
          · exact absurd (hsafe.symm.trans hnone) nofun

/-! ## Extraction -/

/-- The walk goes forward and ends, nothing is written outside the destination, and nothing at all when an entry is
refused; no entry that is written is a link. -/
structure Extracts (destDir : List Name) (tar : Bytes) (disk : Disk) : Prop where
  forward : ∀ offset entry, Reached tar offset → readHeader tar offset = some entry → offset < entry.next
  ends : ∃ fuel, (extractTarball destDir tar disk fuel).isSome
  contained : ∀ fuel result, extractTarball destDir tar disk fuel = some result → Kept destDir disk result.1
  refused : ∀ fuel entries entry, walk tar fuel 0 [] = some entries → entry ∈ entries → Refused destDir entry →
    ∃ e, extractTarball destDir tar disk fuel = some (disk, .error e)

/-- **An archive is extracted safely exactly when no header that the walk reads has a size of −512 or less.** -/
theorem extracts_iff (destDir : List Name) (tar : Bytes) (disk : Disk) (hdir : disk.stat destDir = .ok none) :
    Extracts destDir tar disk ↔ SizesForward tar := by
  constructor
  · intro h offset entry hreached hread
    exact (lt_next_iff hread).1 (h.forward offset entry hreached hread)
  · intro h
    refine ⟨fun offset entry hreached hread => (lt_next_iff hread).2 (h offset entry hreached hread),
      ⟨tar.length + 2, ?_⟩, fun fuel result hresult => ?_, fun fuel entries entry hwalk hentry hrefused => ?_⟩
    · rw [extractTarball, Option.isSome_map]
      exact walk_terminates h (tar.length + 1) 0 [] .start (by omega)
    · obtain ⟨entries, -, rfl⟩ := Option.map_eq_some_iff.1 hresult
      split
      · exact fun _ _ => rfl
      · rename_i safePaths hvalid
        exact Kept.writeEntries hdir (fun _ _ => rfl) fun e he => (validate_spec hvalid).2 _ (List.of_mem_zip he).2
    · rw [extractTarball, hwalk]
      dsimp only [Option.map_some]
      split
      · exact ⟨_, rfl⟩
      · rename_i safePaths hvalid
        exact absurd hrefused ((validate_spec hvalid).1 entry hentry)

/-- One header of the name `a`, with the text of its size. -/
def archive (size : Bytes) : Bytes := 97 :: (List.replicate 123 0 ++ size ++ List.replicate (388 - size.length) 0)

theorem extracts_iff_empty_file : Extracts [['p']] (archive [48]) (.dir [(['p'], .dir [])]) ↔ SizesForward (archive [48]) :=
  extracts_iff [['p']] (archive [48]) (.dir [(['p'], .dir [])]) rfl

/-- The size is `-1000`, which is −512: the walk stays where it is. -/
theorem extracts_counterexample : (FileTree.dir [(['p'], FileTree.dir [])] : Disk).stat [['p']] = .ok none ∧
      ¬Extracts [['p']] (archive [45, 49, 48, 48, 48]) (.dir [(['p'], .dir [])]) :=
  ⟨rfl, fun h => absurd (h.forward 0 ⟨['a'], '\x00', -512, 512⟩ .start (by decide +kernel)) (by decide)⟩

end StreetJS.Platform
