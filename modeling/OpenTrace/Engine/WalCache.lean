import OpenTrace.Wal.Scanner

/-!
# The parsed-WAL cache

`engine/walcache.go`: queries read the unsealed WAL files through a cache that keeps the parsed
entries of a file and, on the next read, parses only the bytes appended since. A file that does not
fit the cache's budget is streamed from the start instead.

A cached file is `Aligned` when the bytes it has parsed are still the file's and hold whole records.
`forEach_eq` says that a read of an aligned cache visits exactly the entries that parsing the file
from its first byte gives, and that the cache is aligned afterwards.
-/

namespace OpenTrace.Engine

open Library Encoding Chunk Wal List

/-- The files as the operating system shows them: the file a path names, and the bytes of a file,
which an open handle reads also when no path names it any more. -/
structure Files (Path : Type) where
  inodeAt : Path → Option ℕ
  content : ℕ → Bytes

/-- `WALCacheMaxEntries` and `WALCacheBytes`. -/
structure CacheBudget where
  maxEntries : ℕ
  maxBytes : ℕ

structure WalCacheFile where
  inode : ℕ
  /-- Bytes of the file already parsed into `entries`. -/
  offset : ℕ
  entries : List Entry
  bytes : ℕ

structure WalCache (Path : Type) where
  files : List (Path × WalCacheFile)
  used : ℕ

/-- `entryMemoryBytes`: the fixed struct, its strings and its body. -/
def entryMemoryBytes (entry : Entry) : ℕ :=
  600 + entry.body.length + (StrField.all.map fun field ↦ (entry.str field).length).sum

def entriesMemoryBytes (entries : List Entry) : ℕ := (entries.map entryMemoryBytes).sum

/-- Parses what was appended to a file since the last read. -/
def WalCacheFile.extend (zstd : Zstd) (content : Bytes) (file : WalCacheFile) : WalCacheFile :=
  let added := readEntriesFrom zstd (content.drop file.offset)
  { file with
    offset := file.offset + added.consumed
    entries := file.entries ++ added.entries
    bytes := file.bytes + entriesMemoryBytes added.entries }

variable {Path : Type}

def newWALCache : WalCache Path := ⟨[], 0⟩

section

variable [DecidableEq Path]

/-- The path still names the file that is held open, and the file has not shrunk below what was
parsed. -/
def WalCacheFile.sameFileAs (files : Files Path) (path : Path) (file : WalCacheFile) : Bool :=
  file.offset ≤ (files.content file.inode).length && files.inodeAt path = some file.inode

namespace WalCache

section

variable (cache : WalCache Path) (path : Path)

def find : Option WalCacheFile := cache.files.lookup path

/-- `removeLocked`. -/
def remove : WalCache Path :=
  match cache.find path with
  | none => cache
  | some file => ⟨cache.files.filter fun held ↦ held.1 ≠ path, cache.used - file.bytes⟩

def put (file : WalCacheFile) : WalCache Path :=
  { cache with files := (path, file) :: cache.files.filter fun held ↦ held.1 ≠ path }

end

/-- `evictDeletedLocked`. -/
def evictDeleted (files : Files Path) (keep : Path) (cache : WalCache Path) : WalCache Path :=
  cache.files.foldl
    (fun kept held ↦
      if held.1 = keep ∨ (files.inodeAt held.1).isSome then kept else kept.remove held.1) cache

/-- Opens the file a path names and holds it, with nothing parsed yet. -/
def openFile (files : Files Path) (cache : WalCache Path) (path : Path) :
    WalCache Path × Option WalCacheFile :=
  match files.inodeAt path with
  | none => (cache, none)
  | some inode =>
    let file : WalCacheFile := ⟨inode, 0, [], 0⟩
    ((cache.put path file).evictDeleted files path, some file)

/-- The held file of a path, opened anew if none is held or the path names another file now. -/
def acquire (files : Files Path) (cache : WalCache Path) (path : Path) :
    WalCache Path × Option WalCacheFile :=
  match cache.find path with
  | some file =>
    if file.sameFileAs files path then (cache, some file) else (cache.remove path).openFile files path
  | none => cache.openFile files path

/-- `cached`: the parse of a path, or nothing when the file should be streamed. -/
def cached (zstd : Zstd) (budget : CacheBudget) (files : Files Path) (cache : WalCache Path)
    (path : Path) : WalCache Path × Option (List Entry) :=
  if budget.maxEntries = 0 ∨ budget.maxBytes = 0 then (cache, none)
  else
    match cache.acquire files path with
    | (cache, none) => (cache, none)
    | (cache, some file) =>
      let content := files.content file.inode
      if budget.maxBytes < cache.used + (content.length - file.offset) then (cache.remove path, none)
      else
        let read := file.extend zstd content
        let cache : WalCache Path :=
          { cache.put path read with used := cache.used + (read.bytes - file.bytes) }
        if budget.maxEntries < read.entries.length ∨ budget.maxBytes < cache.used then
          (cache.remove path, none)
        else (cache, some read.entries)

/-- The entries of a path, parsed from its first byte. A missing file yields nothing. -/
def streamWALFile (zstd : Zstd) (files : Files Path) (path : Path) : List Entry :=
  match files.inodeAt path with
  | none => []
  | some inode => (readEntriesFrom zstd (files.content inode)).entries

/-- `forEach`: the entries it visits, in order. -/
def forEach (zstd : Zstd) (budget : CacheBudget) (files : Files Path) (cache : WalCache Path)
    (path : Path) : WalCache Path × List Entry :=
  match cache.cached zstd budget files path with
  | (cache, some entries) => (cache, entries)
  | (cache, none) => (cache, streamWALFile zstd files path)

end WalCache

end

/-! ### Coherence -/

/-- What was parsed of a file is a whole number of records at its start. -/
def WalCacheFile.Aligned (zstd : Zstd) (files : Files Path) (file : WalCacheFile) : Prop :=
  file.offset ≤ (files.content file.inode).length ∧
    Parses zstd scannerLength ((files.content file.inode).take file.offset) file.entries

namespace WalCache

variable {zstd : Zstd} {files : Files Path} {cache : WalCache Path} {path : Path}

def Aligned (zstd : Zstd) (files : Files Path) (cache : WalCache Path) : Prop :=
  ∀ held ∈ cache.files, held.2.Aligned zstd files

theorem aligned_newWALCache : (newWALCache : WalCache Path).Aligned zstd files := by
  simp [newWALCache, Aligned]

theorem Aligned.mono {other : WalCache Path} (hcache : cache.Aligned zstd files)
    (hsubset : other.files ⊆ cache.files) : other.Aligned zstd files :=
  fun held hheld ↦ hcache held (hsubset hheld)

theorem extend_aligned {file : WalCacheFile} (hfile : file.Aligned zstd files) :
    (file.extend zstd (files.content file.inode)).Aligned zstd files ∧
      (file.extend zstd (files.content file.inode)).entries =
        (readEntriesFrom zstd (files.content file.inode)).entries := by
  obtain ⟨hoffset, hparsed⟩ := hfile
  have hsplit := hparsed.scan_append scannerLength_local
    ((files.content file.inode).drop file.offset)
  rw [take_append_drop, length_take, min_eq_left hoffset] at hsplit
  constructor
  · have hend := @consumed_le_length zstd scannerLength (files.content file.inode)
    have hconsumed := @parses_take_consumed zstd scannerLength scannerLength_local
      (files.content file.inode)
    rw [hsplit] at hconsumed hend
    exact ⟨hend, hconsumed⟩
  · rw [readEntriesFrom, hsplit]
    rfl

section

variable [DecidableEq Path]

theorem Aligned.find (hcache : cache.Aligned zstd files) {file : WalCacheFile}
    (hfile : cache.find path = some file) : file.Aligned zstd files := by
  obtain ⟨before, after, hfiles, -⟩ := lookup_eq_some_iff.mp hfile
  exact hcache (path, file) (hfiles ▸ by simp)

theorem remove_subset (cache : WalCache Path) (path : Path) :
    (cache.remove path).files ⊆ cache.files := by
  unfold WalCache.remove
  split
  · exact Subset.refl _
  · exact filter_subset_self _

theorem evictDeleted_subset (files : Files Path) (keep : Path) (cache : WalCache Path) :
    (cache.evictDeleted files keep).files ⊆ cache.files := by
  have hfold : ∀ (visited : List (Path × WalCacheFile)) (kept : WalCache Path),
      (visited.foldl (fun kept held ↦
        if held.1 = keep ∨ (files.inodeAt held.1).isSome then kept else kept.remove held.1)
        kept).files ⊆ kept.files := by
    intro visited
    induction visited with
    | nil => exact fun kept ↦ Subset.refl _
    | cons held visited ih =>
      intro kept
      rw [foldl_cons]
      split_ifs
      · exact ih kept
      · exact Subset.trans (ih _) (kept.remove_subset held.1)
  exact hfold cache.files cache

theorem Aligned.remove (hcache : cache.Aligned zstd files) (path : Path) :
    (cache.remove path).Aligned zstd files :=
  hcache.mono (cache.remove_subset path)

theorem Aligned.put (hcache : cache.Aligned zstd files) {file : WalCacheFile}
    (hfile : file.Aligned zstd files) (path : Path) : (cache.put path file).Aligned zstd files := by
  intro held hheld
  rcases mem_cons.mp hheld with rfl | hother
  · exact hfile
  · exact hcache held (mem_filter.mp hother).1

/-- What acquiring a file guarantees about the file and the cache. -/
structure Acquired (zstd : Zstd) (files : Files Path) (path : Path)
    (result : WalCache Path × Option WalCacheFile) : Prop where
  aligned : result.1.Aligned zstd files
  held : ∀ file, result.2 = some file →
    files.inodeAt path = some file.inode ∧ file.Aligned zstd files

theorem acquired_openFile (hcache : cache.Aligned zstd files) (path : Path) :
    Acquired zstd files path (cache.openFile files path) := by
  unfold WalCache.openFile
  cases hinode : files.inodeAt path with
  | none => exact ⟨hcache, fun _ hfile ↦ by cases hfile⟩
  | some inode =>
    have hfresh : (⟨inode, 0, [], 0⟩ : WalCacheFile).Aligned zstd files :=
      ⟨Nat.zero_le _, parses_nil⟩
    refine ⟨(hcache.put hfresh path).mono (evictDeleted_subset files path _), fun file hfile ↦ ?_⟩
    cases hfile
    exact ⟨hinode, hfresh⟩

theorem acquired_acquire (hcache : cache.Aligned zstd files) (path : Path) :
    Acquired zstd files path (cache.acquire files path) := by
  unfold WalCache.acquire
  cases hfind : cache.find path with
  | none => exact acquired_openFile hcache path
  | some file =>
    by_cases hsame : file.sameFileAs files path
    · simp only [if_pos hsame]
      simp only [WalCacheFile.sameFileAs, Bool.and_eq_true, decide_eq_true_eq] at hsame
      refine ⟨hcache, fun other hother ↦ ?_⟩
      cases hother
      exact ⟨hsame.2, hcache.find hfind⟩
    · simp only [if_neg hsame]
      exact acquired_openFile (hcache.remove path) path

section

variable (budget : CacheBudget) (hcache : cache.Aligned zstd files) (path : Path)

include hcache

theorem cached_spec : (cache.cached zstd budget files path).1.Aligned zstd files ∧
      ∀ entries, (cache.cached zstd budget files path).2 = some entries →
        entries = streamWALFile zstd files path := by
  have hacquired := acquired_acquire hcache path
  unfold WalCache.cached
  split_ifs with hdisabled
  · exact ⟨hcache, fun _ hentries ↦ by cases hentries⟩
  · split
    · next cache' hacquire =>
      rw [hacquire] at hacquired
      exact ⟨hacquired.aligned, fun _ hentries ↦ by cases hentries⟩
    · next cache' file hacquire =>
      rw [hacquire] at hacquired
      obtain ⟨hinode, hfile⟩ := hacquired.held file rfl
      obtain ⟨hextended, hentries⟩ := extend_aligned hfile
      have hput : ∀ used : ℕ, WalCache.Aligned zstd files
          { cache'.put path (file.extend zstd (files.content file.inode)) with used := used } :=
        fun _ ↦ hacquired.aligned.put hextended path
      dsimp only
      split_ifs
      · exact ⟨hacquired.aligned.remove path, fun _ hnone ↦ by cases hnone⟩
      · exact ⟨(hput _).remove path, fun _ hnone ↦ by cases hnone⟩
      · refine ⟨hput _, fun entries hsome ↦ ?_⟩
        rw [← Option.some.inj hsome, hentries, streamWALFile, hinode]

/-- A read of an aligned cache visits exactly what parsing the named file from its first byte gives,
and leaves the cache aligned. -/
theorem forEach_eq : (cache.forEach zstd budget files path).1.Aligned zstd files ∧
      (cache.forEach zstd budget files path).2 = streamWALFile zstd files path := by
  have hread := cached_spec budget hcache path
  unfold WalCache.forEach
  split
  · next cache' entries hcached =>
    rw [hcached] at hread
    exact ⟨hread.1, hread.2 entries rfl⟩
  · next cache' hcached =>
    rw [hcached] at hread
    exact ⟨hread.1, rfl⟩

end

theorem inode_acquire {held : Path × WalCacheFile}
    (hheld : held ∈ (cache.acquire files path).1.files) :
    held ∈ cache.files ∨ files.inodeAt path = some held.2.inode := by
  have hopen : ∀ before : WalCache Path, held ∈ (before.openFile files path).1.files →
      held ∈ before.files ∨ files.inodeAt path = some held.2.inode := by
    intro before hopened
    unfold WalCache.openFile at hopened
    cases hinode : files.inodeAt path with
    | none => exact .inl (by simpa only [hinode] using hopened)
    | some inode =>
      simp only [hinode] at hopened
      rcases mem_cons.mp (evictDeleted_subset files path _ hopened) with rfl | hother
      · exact .inr rfl
      · exact .inl (mem_filter.mp hother).1
  unfold WalCache.acquire at hheld
  cases hfind : cache.find path with
  | none => exact hopen cache (by simpa only [hfind] using hheld)
  | some file =>
    simp only [hfind] at hheld
    split_ifs at hheld
    · exact .inl hheld
    · exact (hopen _ hheld).imp_left fun hkept ↦ cache.remove_subset path hkept

/-- A file held after a read was held before it, or is the file the path names. -/
theorem inode_forEach (budget : CacheBudget) (hcache : cache.Aligned zstd files)
    {held : Path × WalCacheFile} (hheld : held ∈ (cache.forEach zstd budget files path).1.files) :
    held ∈ cache.files ∨ files.inodeAt path = some held.2.inode := by
  have hacquired := acquired_acquire hcache path
  have hkept := @inode_acquire Path files cache path _ held
  have hread : held ∈ (cache.cached zstd budget files path).1.files := by
    unfold WalCache.forEach at hheld
    split at hheld
    · next cache' entries hcached => rwa [hcached]
    · next cache' hcached => rwa [hcached]
  unfold WalCache.cached at hread
  split_ifs at hread
  · exact .inl hread
  · split at hread
    · next cache' hacquire =>
      rw [hacquire] at hkept
      exact hkept hread
    · next cache' file hacquire =>
      rw [hacquire] at hkept hacquired
      have hput : ∀ used : ℕ, held ∈ ({ cache'.put path (file.extend zstd
          (files.content file.inode)) with used := used } : WalCache Path).files →
          held ∈ cache.files ∨ files.inodeAt path = some held.2.inode := by
        intro used hmem
        rcases mem_cons.mp hmem with rfl | hother
        · exact .inr (hacquired.held file rfl).1
        · exact hkept (mem_filter.mp hother).1
      dsimp only at hread
      split_ifs at hread
      · exact hkept (cache'.remove_subset path hread)
      · exact hput _ (remove_subset _ path hread)
      · exact hput _ hread

end

/-- Appending to the files keeps a cache aligned. -/
theorem Aligned.append {files' : Files Path} (hcache : cache.Aligned zstd files)
    (hgrown : ∀ inode, files.content inode <+: files'.content inode) :
    cache.Aligned zstd files' := by
  intro held hheld
  obtain ⟨hoffset, hparsed⟩ := hcache held hheld
  obtain ⟨appended, happended⟩ := hgrown held.2.inode
  refine ⟨?_, ?_⟩
  · rw [← happended, length_append]
    omega
  · rwa [← happended, take_append_of_le_length hoffset]

end WalCache

end OpenTrace.Engine
