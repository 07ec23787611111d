import Savr.Daemon.Computer

/-!
# Restoring on a disk

`run_restore` of `savr-daemon/src/restore.rs` with every file it touches: the pre-restore
backup, the archives it downloads and unpacks into its scratch directory, the swap into place
through temporary names, and the deletion of what the target no longer has.

## Main results

* `prepare_confined`, `prepare_spec` — up to the swap only the scratch directory and the blob
  cache are touched; then the merged files are staged below the scratch directory and the
  stored snapshot lists what was collected before.
* `runRestore_confined` — a restore stays inside its directories, whatever the server sends.

## Design notes

The server is hostile: the history, the archives and the answer to the upload are part of the
environment of a call, and so is the order in which the merged files are iterated.  A directory
that cannot be read is skipped by `walk_rel`: the environment says which files are missed.
-/

namespace Savr

open Hoare

/-- A resolved restore request. -/
structure RestoreRequest where
  gameId : GameId
  versionId : VersionId
  anchor : PathBuf
  patterns : List String
  registryKeys : List String
  deriving DecidableEq, Repr

/-- The job of the pre-restore backup: it carries no excludes. -/
def RestoreRequest.preJob (req : RestoreRequest) : SaveJob where
  gameId := req.gameId
  patterns := req.patterns
  registryKeys := req.registryKeys
  anchor := req.anchor
  excludes := []

/-- The directories of the daemon. -/
structure DataDirs where
  blobCache : PathBuf
  scratch : PathBuf

/-- The merged files of a chain: where each is staged. -/
abbrev Merged := AList fun _ : String => PathBuf

/-- What the environment decides about one call of `run_restore`: every answer of the server,
what the walk gets to see, and the order of the hash map that is iterated. -/
structure RestoreEnv where
  /-- About the pre-restore backup. -/
  backup : DiskEnv
  /-- The answer to `list_versions`. -/
  versions : Option (List Version)
  /-- The archive that is sent for a version. -/
  blob : VersionId → Option Bytes
  /-- `walk_rel` does not get to see this file of a staged version. -/
  hidden : VersionId → String → Bool
  /-- The order in which the merged files are iterated. -/
  order : List (String × PathBuf) → List (String × PathBuf)
  order_perm : ∀ files, (order files).Perm files

/-- `full_every` is `u32::MAX` for a pre-restore backup. -/
def RestoreEnv.preEnv (env : RestoreEnv) : DiskEnv :=
  { env.backup with draws := { env.backup.draws with fullEvery := 2 ^ 32 - 1 } }

/-- `Path::with_extension` of a path that ends in a name. -/
def withExtensionPath (path : PathBuf) (extension : String) : PathBuf :=
  match path.getLast? with
  | some (.normal name) => path.dropLast ++ [.normal (withExtension name extension)]
  | _ => path

/-- Where a file is copied to before it is renamed into place. -/
def tmpFor (dest : PathBuf) : PathBuf := withExtensionPath dest "savr-restore-tmp"

section Program

variable [Blake3] (fmt : SavrFormat) (g : GlobCrate) (pf : Platform) (dirs : DataDirs)

/-- `blob_get_to_file`. -/
def blobGetToFile (body : Option Bytes) (dest : PathBuf) : Io PUnit := do
  let bytes ← Prog.ofOption .network body
  match parent dest with
  | some dir => createDirAll pf dir
  | none => pure ⟨⟩
  createFile pf dest bytes

/-- `verify_blob`: read the archive again and compare its digest. -/
def verifyBlob (path : PathBuf) (expected : Blake3Hash) : Io PUnit := do
  let bytes ← readFile pf path
  let got := Blake3.ofBytes bytes
  if got = expected then pure ⟨⟩
  else Prog.throw (.bail ("archive integrity check failed: got " ++ got.toHex ++ ", expected " ++
    expected.toHex))

/-- All file paths under `dir`, relative to `dir`, with forward slashes. -/
def walkRel (t : Tree) (dir : PathBuf) (hidden : String → Bool) : List String :=
  (((filesBelow pf t dir).filter fun f => f.1 ≠ dir).map fun f => relPath pf.style f.1 dir).filter
    fun rel => !hidden rel

/-- Changed files override; deletions drop entries. -/
def Merged.apply (merged : Merged) (rels : List String) (staged : PathBuf)
    (deletions : List String) : Merged :=
  deletions.foldl (fun merged rel => AList.erase rel merged)
    (rels.foldl (fun merged rel => merged.insert rel (push pf.style staged rel)) merged)

/-- Download, verify and unpack the archive of one version, and merge its files. Each version
has a directory of its own, so nothing staged is written over. -/
def stageVersion (env : RestoreEnv) (merged : Merged) (version : Version) : Io Merged := do
  let staged := push pf.style dirs.scratch (Uuid.text version.id)
  let archivePath := push pf.style dirs.scratch (archiveName version.blobHash)
  blobGetToFile pf (env.blob version.id) archivePath
  verifyBlob pf archivePath version.blobHash
  let bytes ← readFile pf archivePath
  let unpacked ← unpack fmt pf bytes staged
  let s ← Prog.get
  pure (Merged.apply pf merged (walkRel pf s.tree staged (env.hidden version.id)) staged
    unpacked.metadata.deletions)

/-- `build_chain`, with its messages: the history may lack a parent, or end without a full
backup. A history with a cycle keeps the loop going for ever. -/
def loadChain (env : RestoreEnv) (target : VersionId) : DaemonIo (List Version) := do
  let versions ← Prog.ofOption .network env.versions
  match buildChain versions target with
  | none => Prog.throw .endless
  | some (.error (.missing id)) =>
      Prog.throw (.bail ("version " ++ Uuid.text id ++ " missing from history"))
  | some (.error (.neverFull target)) =>
      Prog.throw (.bail ("differential chain for " ++ Uuid.text target ++
        " never reaches a full backup"))
  | some (.ok chain) => pure chain

/-- Build the chain and stage its archives, oldest first: the merged files, and the chain. -/
def stageChain (req : RestoreRequest) (env : RestoreEnv) : DaemonIo (Merged × List Version) := do
  let chain ← loadChain env req.versionId
  disk (createDirAll pf dirs.scratch)
  let merged ← disk (chain.foldlM (stageVersion fmt pf dirs env) ∅)
  pure (merged, chain)

/-- Everything before the saves are touched. -/
def prepare (req : RestoreRequest) (env : RestoreEnv) : DaemonIo (Merged × List Version) := do
  let _ ← Prog.orElse (Computer.runBackup fmt g pf dirs.blobCache req.preJob env.preEnv)
    (.bail "pre-restore backup failed, aborting restore")
  stageChain fmt pf dirs req env

/-- Write one file through a temporary name. -/
def swapFile (anchor : PathBuf) (f : String × PathBuf) : Io PUnit := do
  let dest := push pf.style anchor f.1
  match parent dest with
  | some dir => createDirAll pf dir
  | none => pure ⟨⟩
  copy pf f.2 (tmpFor dest)
  rename pf (tmpFor dest) dest

/-- `remove_file(anchor.join(rel))`: there is no file at a path that ends in a separator. -/
def removeRel (anchor : PathBuf) (rel : String) : Io PUnit :=
  if namesFile pf.style rel then removeFile pf (push pf.style anchor rel)
  else Prog.throw .notFound

/-- Delete the files of the last snapshot that the target no longer has. -/
def deleteStale (anchor : PathBuf) (merged : Merged) (last : Option StoredSnapshot) :
    Io PUnit :=
  match last with
  | none => pure ⟨⟩
  | some last => (last.files.filter fun f => f.relPath ∉ merged).forM fun f =>
      Prog.attempt (removeRel pf anchor f.relPath)

/-- The merged files, as they are iterated. -/
def Merged.files (merged : Merged) : List (String × PathBuf) :=
  merged.entries.map fun e => (e.1, e.2)

/-- Swap the merged files into place, delete what is stale, and record the target. A file
that cannot be deleted stays without an error; one that cannot be swapped ends the restore.
-/
def finish (req : RestoreRequest) (env : RestoreEnv) (merged : Merged) (chain : List Version) :
    DaemonIo PUnit := do
  disk ((env.order merged.files).forM (swapFile pf req.anchor))
  let d ← load
  disk (deleteStale pf req.anchor merged (d.state.snapshots req.gameId))
  match chain.getLast? with
  | none => Prog.throw (.bail "empty restore chain")
  | some target =>
      store (.putSnapshot req.gameId target.files target.createdAt (some target.id))

/-- Restore `req.versionId` for a game. A running game and a job with nothing to back up are
refused before anything is touched. -/
def Computer.runRestore (req : RestoreRequest) (gameRunning : Bool) (env : RestoreEnv) :
    DaemonIo PUnit :=
  if gameRunning then
    Prog.throw (.bail ("refusing to restore " ++ Uuid.text req.gameId ++ ": game is running"))
  else if req.patterns.isEmpty && req.registryKeys.isEmpty then
    Prog.throw (.bail ("refusing to restore " ++ Uuid.text req.gameId ++
      ": no known save paths for this game"))
  else do
    let prepared ← prepare fmt g pf dirs req env
    finish pf req env prepared.1 prepared.2

end Program

/-! ## Names -/

section Names

variable {style : PathStyle} {pf : Platform} {t : Tree} {dir path : PathBuf} {rel : String}
  {hidden : String → Bool}

/-- A path that names files is a list of file names. -/
theorem names_of_namesFiles (h : namesFiles style path) :
    ∃ names : List String, path = names.map .normal ∧ ∀ name ∈ names, FileName style name := by
  have hall : ∀ c ∈ path, ∃ name, c = .normal name ∧ FileName style name := by
    intro c hc
    have hname := List.all_eq_true.mp h c hc
    cases c with
    | normal name => exact ⟨name, rfl, isFileName_iff.mp hname⟩
    | _ => cases hname
  have hnormal : ∀ c ∈ path, c.isNormal := by
    intro c hc
    obtain ⟨name, rfl, -⟩ := hall c hc
    rfl
  obtain ⟨names, rfl⟩ := exists_names hnormal
  refine ⟨names, rfl, fun name hname => ?_⟩
  obtain ⟨name', heq, hfile⟩ := hall _ (List.mem_map_of_mem hname)
  cases heq
  exact hfile

/-- What a walk finds are relative paths made of file names. -/
theorem relName_of_mem_walkRel (h : rel ∈ walkRel pf t dir hidden) : RelName pf.style rel := by
  obtain ⟨hmem, -⟩ := List.mem_filter.mp h
  obtain ⟨⟨q, content⟩, hf, rfl⟩ := List.mem_map.mp hmem
  obtain ⟨hbelow, hne⟩ := List.mem_filter.mp hf
  obtain ⟨k, entry, -, -, -, hnames, rfl⟩ := mem_filesBelow.mp hbelow
  obtain ⟨names, hrest, hfile⟩ := names_of_namesFiles hnames
  rw [hrest] at hne ⊢
  refine ⟨names, ?_, hfile, relPath_names pf.style dir names⟩
  rintro rfl
  simp at hne

theorem RelName.below_push (h : RelName style rel) (dir : PathBuf) :
    Below dir (push style dir rel) :=
  Savr.below_push dir h.safe h.namesFile

theorem tmpFor_append (dir : PathBuf) (name : String) :
    tmpFor (dir ++ [.normal name])
      = dir ++ [.normal (withExtension name "savr-restore-tmp")] := by
  rw [tmpFor, withExtensionPath, List.getLast?_concat, List.dropLast_concat]

/-- The temporary name is in the same directory. -/
theorem below_tmpFor (h : Below dir path) : Below dir (tmpFor path) := by
  obtain ⟨names, hne, rfl⟩ := h
  obtain ⟨front, last, rfl⟩ := (List.eq_nil_or_concat' names).resolve_left hne
  refine ⟨front ++ [withExtension last "savr-restore-tmp"], by simp, ?_⟩
  rw [List.map_append, ← List.append_assoc, List.map_singleton, tmpFor_append, List.append_assoc,
    List.map_append, List.map_singleton]

end Names

/-! ## What a restore touches -/

section Touched

variable [Blake3] {fmt : SavrFormat} {g : GlobCrate} {pf : Platform} {dirs : DataDirs}
  {req : RestoreRequest} {env : RestoreEnv} {Allowed : PathBuf → Prop} {merged : Merged}

/-- The merged files have proper names and are staged in the scratch directory. -/
def Merged.Staged (pf : Platform) (scratch : PathBuf) (merged : Merged) : Prop :=
  ∀ rel src, merged.lookup rel = some src → RelName pf.style rel ∧ Below scratch src

omit [Blake3] in
/-- A file merged from the scratch directory is staged. -/
theorem Merged.Staged.insert {scratch src : PathBuf} {rel : String} (h : merged.Staged pf scratch)
    (hrel : RelName pf.style rel) (hsrc : Below scratch src) :
    Staged pf scratch (AList.insert rel src merged) := by
  intro rel' src' hlookup
  by_cases heq : rel' = rel
  · subst heq
    rw [AList.lookup_insert] at hlookup
    cases hlookup
    exact ⟨hrel, hsrc⟩
  · rw [AList.lookup_insert_ne heq] at hlookup
    exact h rel' src' hlookup

omit [Blake3] in
/-- A deletion leaves the other files staged. -/
theorem Merged.Staged.erase {scratch : PathBuf} (h : merged.Staged pf scratch) (rel : String) :
    Staged pf scratch (AList.erase rel merged) := by
  intro rel' src' hlookup
  by_cases heq : rel' = rel
  · subst heq
    rw [AList.lookup_erase] at hlookup
    cases hlookup
  · rw [AList.lookup_erase_ne heq] at hlookup
    exact h rel' src' hlookup

omit [Blake3] in
/-- Merging one more version keeps everything staged. -/
theorem Merged.Staged.apply {scratch staged : PathBuf} {rels : List String}
    (h : merged.Staged pf scratch) (hrels : ∀ rel ∈ rels, RelName pf.style rel)
    (hstaged : Below scratch staged) (deletions : List String) :
    (merged.apply pf rels staged deletions).Staged pf scratch := by
  rw [Merged.apply]
  have hinsert : Staged pf scratch (rels.foldl
      (fun merged rel => merged.insert rel (push pf.style staged rel)) merged) := by
    induction rels generalizing merged with
    | nil => exact h
    | cons rel rels ih =>
        obtain ⟨hrel, hrels⟩ := List.forall_mem_cons.mp hrels
        exact ih (h.insert hrel (hstaged.trans (hrel.below_push staged))) hrels
  have herase : ∀ merged : Merged, merged.Staged pf scratch → Staged pf scratch
      (deletions.foldl (fun merged rel => AList.erase rel merged) merged) := by
    induction deletions with
    | nil => exact fun _ hmerged => hmerged
    | cons rel deletions ih => exact fun _ hmerged => ih _ (hmerged.erase rel)
  exact herase _ hinsert

omit [Blake3] in
/-- Where a merged file is staged, if nothing was deleted. -/
theorem Merged.lookup_apply {rels : List String} {staged : PathBuf} {rel : String} :
     (merged.apply pf rels staged []).lookup rel =
      if rel ∈ rels then some (push pf.style staged rel) else merged.lookup rel := by
  change (rels.foldl (fun merged rel => merged.insert rel (push pf.style staged rel)) merged).lookup
    rel = _
  induction rels generalizing merged with
  | nil => rfl
  | cons first rels ih =>
      rw [List.foldl_cons, ih]
      by_cases hrels : rel ∈ rels
      · rw [if_pos hrels, if_pos (List.mem_cons_of_mem first hrels)]
      · rw [if_neg hrels]
        by_cases hfirst : rel = first
        · subst hfirst
          rw [AList.lookup_insert, if_pos (List.mem_cons_self ..)]
        · rw [AList.lookup_insert_ne hfirst, if_neg (by simp [hfirst, hrels])]

omit [Blake3] in
theorem keeps_blobGetToFile {dest : PathBuf} (body : Option Bytes) (allowed : Allowed dest) :
    Keeps (Fs.Confined pf Allowed) (blobGetToFile pf body dest) := by
  refine keeps_bind (keeps_ofOption _ _) fun bytes => ?_
  cases parent dest with
  | none => exact keeps_createFile allowed
  | some dir => exact keeps_bind keeps_createDirAll fun _ => keeps_createFile allowed

theorem keeps_verifyBlob {path : PathBuf} {expected : Blake3Hash} :
    Keeps (Fs.Confined pf Allowed) (verifyBlob pf path expected) := by
  refine keeps_bind keeps_readFile fun bytes => ?_
  dsimp only
  split_ifs
  · exact keeps_pure _
  · exact keeps_throw _

omit [Blake3] in
theorem below_scratch_staged (pf : Platform) (dirs : DataDirs) (id : VersionId) :
    Below dirs.scratch (push pf.style dirs.scratch (Uuid.text id)) :=
  (fileName_uuid pf.style id).below_push dirs.scratch

/-- Staging a version writes below the scratch directory alone. -/
theorem keeps_stageVersion (allowed : ∀ p, Below dirs.scratch p → Allowed p) (merged : Merged)
    (version : Version) :
    Keeps (Fs.Confined pf Allowed) (stageVersion fmt pf dirs env merged version) := by
  have harchive := allowed _
    ((fileName_archiveName pf.style version.blobHash).below_push dirs.scratch)
  refine keeps_bind (keeps_blobGetToFile _ harchive) fun _ => keeps_bind keeps_verifyBlob fun _ =>
    keeps_bind keeps_readFile fun bytes => keeps_bind (keeps_unpack ?_ bytes) fun unpacked =>
      keeps_bind keeps_get fun s => keeps_pure _
  exact fun p hp => allowed p ((below_scratch_staged pf dirs version.id).trans hp)

/-- What a version adds to the merge is staged. -/
theorem stageVersion_staged (h : merged.Staged pf dirs.scratch) (version : Version) :
    Triple (fun _ => True) (stageVersion fmt pf dirs env merged version)
      (fun merged' _ => merged'.Staged pf dirs.scratch) fun _ => True := by
  refine triple_bind triple_any fun _ => triple_bind triple_any fun _ =>
    triple_bind triple_any fun bytes => triple_bind triple_any fun unpacked =>
      triple_bind triple_any fun s => triple_pure fun _ _ => ?_
  exact h.apply (fun rel hrel => relName_of_mem_walkRel hrel)
    (below_scratch_staged pf dirs version.id) _

omit [Blake3] in
/-- Building the chain touches nothing. -/
theorem keepsQuiet_loadChain {target : VersionId} :
    Keeps (Computer.Quiet pf Allowed) (loadChain env target) := by
  refine keeps_bind (keeps_ofOption _ _) fun versions => ?_
  rcases buildChain versions target with _ | (⟨id⟩ | ⟨id⟩) | chain
  · exact keeps_throw _
  · exact keeps_throw _
  · exact keeps_throw _
  · exact keeps_pure _

theorem keepsQuiet_stageChain (allowed : ∀ p, Below dirs.scratch p → Allowed p) :
    Keeps (Computer.Quiet pf Allowed) (stageChain fmt pf dirs req env) :=
  keeps_bind keepsQuiet_loadChain fun _ =>
    keeps_bind (keepsQuiet_disk keeps_createDirAll) fun _ =>
      keeps_bind (keepsQuiet_disk (keeps_foldlM fun merged v _ =>
        keeps_stageVersion allowed merged v)) fun _ => keeps_pure _

theorem prepare_confined
    (allowed : ∀ p, Below dirs.scratch p ∨ Below dirs.blobCache p → Allowed p) :
    Keeps (Computer.Confined pf Allowed) (prepare fmt g pf dirs req env) := by
  refine keeps_bind (keeps_orElse (runBackup_confined fun p hp => allowed p (.inr hp))) fun _ => ?_
  exact (keepsQuiet_stageChain fun p hp => allowed p (.inl hp)).mono fun _ _ hm => hm.confined

/-- The state right before the swap: only the scratch directory and the cache were written
to, and the stored snapshot lists the saves as they were found. -/
structure Prepared (g : GlobCrate) (pf : Platform) (dirs : DataDirs) (req : RestoreRequest)
    (env : RestoreEnv) (m₀ : Computer) (merged : Merged) (m : Computer) : Prop where
  confined : m₀.Confined pf (fun p => Below dirs.scratch p ∨ Below dirs.blobCache p) m
  staged : merged.Staged pf dirs.scratch
  listed : ∃ saves snap,
    collect g pf req.patterns [] req.anchor env.backup.mtime m₀.fs.tree = some saves ∧
    m.device.state.snapshots req.gameId = some snap ∧
    fileMap snap.files = fileMap (saves.files.map SaveFile.entry)

/-- The merged files of a chain are staged, whatever the archives hold. -/
theorem stageChain_staged : Triple (fun _ => True) (stageChain fmt pf dirs req env)
    (fun r _ => r.1.Staged pf dirs.scratch) fun _ => True := by
  have hloop : ∀ chain : List Version, Triple (fun _ => True)
      (chain.foldlM (stageVersion fmt pf dirs env) ∅)
      (fun merged _ => Merged.Staged pf dirs.scratch merged) fun _ => True := by
    intro chain
    refine (triple_foldlM (fun _ merged _ => Merged.Staged pf dirs.scratch merged) ?_).conseq
      (fun _ _ => ?_) (fun _ _ h => h) fun _ h => h
    · intro _ version _ merged _
      exact triple_of_state fun s hs => (stageVersion_staged hs version).conseq
        (fun _ _ => trivial) (fun _ _ h => h) fun _ h => h
    · intro rel src hlookup
      cases hlookup
  refine triple_bind triple_any fun chain => triple_bind triple_any fun _ =>
    triple_bind (R := fun merged _ => Merged.Staged pf dirs.scratch merged) ?_ fun merged =>
      triple_pure fun _ h => h
  refine triple_zoom fun m _ => ?_
  exact (hloop chain).conseq (fun _ _ => trivial) (fun _ _ h => h) fun _ h => h

/-- **Before the swap**, if the restore gets there. -/
theorem prepare_spec {m₀ : Computer}
    (targets : ¬ (req.patterns = [] ∧ req.registryKeys = [])) :
    Triple (fun m => m = m₀) (prepare fmt g pf dirs req env)
      (fun r m => Prepared g pf dirs req env m₀ r.1 m) fun _ => True := by
  have hbackup : Triple (fun m => m = m₀)
      (Prog.orElse (Computer.runBackup fmt g pf dirs.blobCache req.preJob env.preEnv)
        (.bail "pre-restore backup failed, aborting restore"))
      (fun _ m => ∃ saves snap,
        collect g pf req.patterns [] req.anchor env.backup.mtime m₀.fs.tree = some saves ∧
        m.device.state.snapshots req.gameId = some snap ∧
        fileMap snap.files = fileMap (saves.files.map SaveFile.entry)) fun _ => True := by
    refine (triple_orElse (runBackup_backedUp targets)).conseq (fun _ h => h) ?_ fun _ h => h
    rintro _ m ⟨saves, hsaves, hbacked⟩
    obtain ⟨snap, hsnap, hmap⟩ := hbacked.snapshot targets
    exact ⟨saves, snap, hsaves, hsnap, hmap⟩
  have hstage : ∀ m₁ : Computer, Triple (fun m => m = m₁) (stageChain fmt pf dirs req env)
      (fun r m => r.1.Staged pf dirs.scratch ∧ m.device = m₁.device) fun _ => True := by
    intro m₁
    have hquiet : Keeps (Computer.Quiet pf fun _ => True) (stageChain fmt pf dirs req env) :=
      keepsQuiet_stageChain fun _ _ => trivial
    refine ((stageChain_staged.conseq (fun _ _ => trivial) (fun _ _ h => h) fun _ h => h).and
      hquiet.triple).conseq (fun _ h => h) (fun _ _ h => ⟨h.1, h.2.device⟩) fun _ _ => trivial
  have hlisted : Triple (fun m => m = m₀) (prepare fmt g pf dirs req env)
      (fun r m => Merged.Staged pf dirs.scratch r.1 ∧ ∃ saves snap,
        collect g pf req.patterns [] req.anchor env.backup.mtime m₀.fs.tree = some saves ∧
        m.device.state.snapshots req.gameId = some snap ∧
        fileMap snap.files = fileMap (saves.files.map SaveFile.entry)) fun _ => True :=
    triple_bind hbackup fun _ => triple_of_state fun m₁ hm₁ => (hstage m₁).conseq (fun _ h => h)
      (fun r m h => ⟨h.1, by rw [h.2]; exact hm₁⟩) fun _ h => h
  refine (hlisted.and (prepare_confined fun _ h => h).triple).conseq (fun _ h => h) ?_
    fun _ _ => trivial
  rintro r m ⟨⟨hstaged, hsaves⟩, hconfined⟩
  exact ⟨hconfined, hstaged, hsaves⟩

omit [Blake3] in
/-- The files that are swapped are the entries of the merged map. -/
theorem mem_files_iff {rel : String} {src : PathBuf} :
    (rel, src) ∈ merged.files ↔ merged.lookup rel = some src := by
  rw [Merged.files, List.mem_map]
  constructor
  · rintro ⟨entry, hentry, heq⟩
    obtain ⟨rfl, rfl⟩ := Prod.mk.inj heq
    exact AList.mem_lookup_iff.mpr hentry
  · intro hlookup
    exact ⟨⟨rel, src⟩, AList.mem_lookup_iff.mp hlookup, rfl⟩

omit [Blake3] in
/-- The swap of a file stays below the anchor. -/
theorem keeps_swapFile {anchor : PathBuf} (allowed : ∀ p, Below anchor p → Allowed p)
    {f : String × PathBuf} (hrel : RelName pf.style f.1) :
    Keeps (Fs.Confined pf Allowed) (swapFile pf anchor f) := by
  have hdest := hrel.below_push anchor
  have hwrite : Keeps (Fs.Confined pf Allowed) (do
      copy pf f.2 (tmpFor (push pf.style anchor f.1))
      rename pf (tmpFor (push pf.style anchor f.1)) (push pf.style anchor f.1)) :=
    keeps_bind (keeps_copy (allowed _ (below_tmpFor hdest))) fun _ =>
      keeps_rename (allowed _ (below_tmpFor hdest)) (allowed _ hdest)
  rw [swapFile]
  dsimp only
  cases parent (push pf.style anchor f.1) with
  | none => exact hwrite
  | some dir => exact keeps_bind keeps_createDirAll fun _ => hwrite

omit [Blake3] in
/-- The deletions touch what the last snapshot lists. -/
theorem keeps_deleteStale_of {anchor : PathBuf} {last : Option StoredSnapshot}
    (allowed : ∀ snap, last = some snap → ∀ f ∈ snap.files, namesFile pf.style f.relPath = true →
      Allowed (push pf.style anchor f.relPath)) :
    Keeps (Fs.Confined pf Allowed) (deleteStale pf anchor merged last) := by
  cases last with
  | none => exact keeps_pure _
  | some snap =>
      refine keeps_forM fun f hf => keeps_attempt ?_
      rw [removeRel]
      split_ifs with hfile
      · exact keeps_removeFile (allowed snap rfl f (List.mem_of_mem_filter hf) hfile)
      · exact keeps_throw _

omit [Blake3] in
/-- What the swap and the deletions touch. -/
theorem finish_confined_of {chain : List Version} {m₀ : Computer}
    (allowed : ∀ p, Below req.anchor p → Allowed p) (hnames : ∀ rel ∈ merged, RelName pf.style rel)
    (hstale : ∀ snap, m₀.device.state.snapshots req.gameId = some snap → ∀ f ∈ snap.files,
      namesFile pf.style f.relPath = true → Allowed (push pf.style req.anchor f.relPath)) :
    m₀.Confined pf Allowed (finish pf req env merged chain m₀).2 := by
  have hswap : Keeps (Computer.Quiet pf Allowed)
      (disk ((env.order merged.files).forM (swapFile pf req.anchor))) := by
    refine keepsQuiet_disk (keeps_forM fun f hf => keeps_swapFile allowed (hnames f.1 ?_))
    have hmem := mem_files_iff.mp ((env.order_perm merged.files).mem_iff.mp hf)
    exact AList.lookup_isSome.mp (hmem ▸ rfl)
  have hload : Triple (fun m => m₀.Quiet pf Allowed m) load
      (fun d m => d = m₀.device ∧ m₀.Confined pf Allowed m) fun m => m₀.Confined pf Allowed m := by
    have hdevice : Triple (fun m => m₀.Quiet pf Allowed m) load
        (fun d m => d = m₀.device ∧ m.device = m₀.device) fun _ => True :=
      load_device.conseq (fun _ h => h.device) (fun _ _ h => h) fun _ h => h
    exact (hdevice.and keepsQuiet_load.triple_from).conseq (fun _ h => h)
      (fun _ _ h => ⟨h.1.1, h.2.confined⟩) fun _ h => h.2.confined
  refine Triple.final (triple_bind (hswap.triple.conseq (fun _ h => h) (fun _ _ h => h)
    fun _ h => h.confined) fun _ => triple_bind hload fun d => ?_)
  rintro m ⟨rfl, hm⟩
  refine triple_bind (keeps_disk (keeps_deleteStale_of hstale)).triple_from (fun _ => ?_) m hm
  cases chain.getLast? with
  | none => exact (keeps_throw _).triple_from
  | some target => exact (keeps_store _).triple_from

omit [Blake3] in
/-- The swap and the deletions stay below the anchor if the snapshot lists safe paths. -/
theorem finish_confined {chain : List Version} {m₀ : Computer}
    (allowed : ∀ p, Below req.anchor p → Allowed p) (hnames : ∀ rel ∈ merged, RelName pf.style rel)
    (safe : ∀ snap, m₀.device.state.snapshots req.gameId = some snap →
      ∀ f ∈ snap.files, isSafeRelPath pf.style f.relPath = true) :
    m₀.Confined pf Allowed (finish pf req env merged chain m₀).2 :=
  finish_confined_of allowed hnames fun snap hsnap f hf hfile =>
    allowed _ (Savr.below_push req.anchor (safe snap hsnap f hf) hfile)

/-- Which files a restore of the request may touch. -/
def RestoreRequest.Inside (req : RestoreRequest) (dirs : DataDirs) (p : PathBuf) : Prop :=
  Below req.anchor p ∨ Below dirs.scratch p ∨ Below dirs.blobCache p

/-- The patterns and the anchor make every collected `rel_path` a safe relative path. -/
def RestoreRequest.CollectsSafely (g : GlobCrate) (pf : Platform) (req : RestoreRequest) : Prop :=
  ∀ t mtime saves, collect g pf req.patterns [] req.anchor mtime t = some saves →
    ∀ f ∈ saves.files, isSafeRelPath pf.style f.relPath = true

/-- The snapshot a pre-restore backup leaves behind lists collected paths, whatever was stored
before. -/
theorem Prepared.safe {m₀ m : Computer} (h : Prepared g pf dirs req env m₀ merged m)
    (safe : req.CollectsSafely g pf) :
    ∀ snap, m.device.state.snapshots req.gameId = some snap →
      ∀ f ∈ snap.files, isSafeRelPath pf.style f.relPath = true := by
  intro snap hsnap f hf
  obtain ⟨saves, snap', hsaves, hsnap', hmap⟩ := h.listed
  obtain rfl : snap = snap' := Option.some.inj (hsnap.symm.trans hsnap')
  have hmem : f.relPath ∈ (saves.files.map SaveFile.entry).map FileEntry.relPath := by
    by_contra hnot
    rw [← fileMap_eq_none_iff, ← hmap, fileMap_eq_none_iff] at hnot
    exact hnot (List.mem_map_of_mem hf)
  rw [List.map_map] at hmem
  obtain ⟨file, hfile, hpath⟩ := List.mem_map.mp hmem
  rw [← hpath]
  exact safe _ _ saves hsaves file hfile

/-- **A restore stays inside its directories**, however it ends. -/
theorem runRestore_confined (safe : req.CollectsSafely g pf) (gameRunning : Bool) :
    Keeps (Computer.Confined pf (req.Inside dirs))
      (Computer.runRestore fmt g pf dirs req gameRunning env) := by
  rw [Computer.runRestore]
  split_ifs with hrunning hempty
  · exact keeps_throw _
  · exact keeps_throw _
  · have htargets : ¬ (req.patterns = [] ∧ req.registryKeys = []) := by
      simpa [List.isEmpty_iff] using hempty
    refine keeps_bind_of (prepare_confined fun p hp => .inr hp) fun m₀ prepared m hrun => ?_
    have hprepared := (prepare_spec htargets).ok rfl hrun
    refine finish_confined (fun p hp => .inl hp) (fun rel hrel => ?_) (hprepared.safe safe)
    obtain ⟨src, hsrc⟩ := Option.isSome_iff_exists.mp (AList.lookup_isSome.mpr hrel)
    exact (hprepared.staged rel src hsrc).1

/-- One call of `run_restore`. -/
structure RestoreCall where
  req : RestoreRequest
  gameRunning : Bool
  env : RestoreEnv

/-- The state after a sequence of restores, each of which may fail. -/
def Computer.restores (fmt : SavrFormat) (g : GlobCrate) (pf : Platform) (dirs : DataDirs)
    (m : Computer) (calls : List RestoreCall) : Computer :=
  calls.foldl (fun m call =>
    (Computer.runRestore fmt g pf dirs call.req call.gameRunning call.env m).2) m

/-- **A hostile server cannot lead a restore out of its directories.**  Along every sequence of
restores, from every local state and with every answer of the server, each restore touches
files below its anchor, the scratch directory or the blob cache only; all other files are
unchanged. -/
theorem restores_stay_inside (fmt : SavrFormat) (g : GlobCrate) (pf : Platform) (dirs : DataDirs)
    (m : Computer) (calls : List RestoreCall)
    (safe : ∀ call ∈ calls, call.req.CollectsSafely g pf)
    (before : List RestoreCall) (call : RestoreCall) (after : List RestoreCall)
    (split : calls = before ++ call :: after) :
    (m.restores fmt g pf dirs before).Confined pf (call.req.Inside dirs)
      (m.restores fmt g pf dirs (before ++ [call])) := by
  have hsafe : call.req.CollectsSafely g pf := safe call (by rw [split]; simp)
  rw [Computer.restores, Computer.restores, List.foldl_append]
  exact runRestore_confined hsafe call.gameRunning _

end Touched

section Example

local instance restoreDigest : Blake3 := plainDigest

/-- A request for the saves in `/game`. -/
def gameRequest : RestoreRequest where
  gameId := 10
  versionId := 101
  anchor := exampleDir ["game"]
  patterns := ["/game/*"]
  registryKeys := []

/-- The pattern of the example matches the files right below the directory. -/
theorem gameRequest_covers {path : PathBuf}
    (h : (matchesPath (components .unix "/game/*") path && properPath path) = true) :
    ∃ name, FileName .unix name ∧ path = exampleDir ["game"] ++ [.normal name] := by
  have hread : components .unix "/game/*" = [.rootDir, .normal "game", .normal "*"] := by decide
  rw [hread, Bool.and_eq_true] at h
  obtain ⟨hmatch, hproper⟩ := h
  rw [matchesPath, Bool.and_eq_true, decide_eq_true_eq] at hmatch
  obtain ⟨hlen, hall⟩ := hmatch
  obtain ⟨a, b, c, rfl⟩ := List.length_eq_three.mp hlen.symm
  simp only [List.zip_cons_cons, List.zip_nil_right, List.all_cons, List.all_nil,
    Bool.and_true, Bool.and_eq_true] at hall
  obtain ⟨ha, hb, hc⟩ := hall
  cases a with
  | rootDir =>
      cases b with
      | normal dir =>
          cases c with
          | normal name =>
              obtain rfl : "game" = dir := String.toList_inj.mp (of_decide_eq_true hb)
              refine ⟨name, ?_, rfl⟩
              rw [← isFileName_iff]
              exact List.all_eq_true.mp hproper (.normal name) (by simp)
          | _ => simp at hc
      | _ => simp at hb
  | _ => simp at ha

/-- What the example collects has safe names. -/
theorem gameRequest_safe : gameRequest.CollectsSafely segmentGlob linux := by
  intro t mtime saves hsaves f hf
  obtain ⟨files, hfound, rfl⟩ := Option.map_eq_some_iff.mp hsaves
  obtain ⟨content, hread⟩ := Option.isSome_iff_exists.mp
    (Option.isSome_iff_ne_none.mpr fun hnone =>
      SaveSet.read_eq_none_iff.mp hnone (List.mem_map_of_mem hf))
  obtain ⟨-, q, hq, hrel⟩ := of_read_ofFound hread
  obtain ⟨yss, hyss, rfl⟩ := Option.map_eq_some_iff.mp hfound
  obtain ⟨path, hpath, hmem⟩ := List.mem_flatMap.mp hq
  obtain ⟨p, hp, paths, hpaths, hin⟩ := (mem_flatten_mapM hyss).mp hpath
  obtain rfl := List.mem_singleton.mp hp
  obtain ⟨name, hname, rfl⟩ := gameRequest_covers
    ((segmentGlob_lawful.mem_glob _ t paths hpaths path).mp hin).1
  obtain ⟨k, entry, -, -, -, hnames, rfl⟩ := mem_filesBelow.mp hmem
  obtain ⟨names, hrest, hfile⟩ := names_of_namesFiles hnames
  rw [hrest, List.append_assoc, List.singleton_append, ← List.map_cons] at hrel
  rw [hrel]
  refine RelName.safe ⟨name :: names, List.cons_ne_nil _ _, ?_, relPath_names _ _ _⟩
  exact List.forall_mem_cons.mpr ⟨hname, hfile⟩

theorem inOrder_perm (files : List (String × PathBuf)) : (id files).Perm files :=
  List.Perm.refl files

/-- A server that lists a file outside of the game's directory, and sends the same bytes for
every version. -/
def hostileEnv : RestoreEnv where
  backup :=
    { draws := exampleBackup .empty true .none 1
      mtime := fun _ => 0
      packingId := 1
      reply := none }
  versions := some [⟨101, 10, 22, none, .full,
    [⟨"../victim", 1, 0, plainDigest.ofBytes [7]⟩], plainDigest.ofBytes [9], 1, 1, 1⟩]
  blob := fun _ => some [9]
  hidden := fun _ _ => false
  order := id
  order_perm := inOrder_perm

/-- A device with one save, and a file beside the game's directory. -/
def gameComputer : Computer where
  fs := exampleFs [(["game", "save"], [1]), (["victim"], [7])]
  device := newMachine.device

/-- Two restores from such a server, one after the other. -/
theorem hostile_restores_stay_inside :
    (gameComputer.restores (tableFormat [] []) segmentGlob linux
        ⟨exampleDir ["cache"], exampleDir ["scratch"]⟩
        [⟨gameRequest, false, hostileEnv⟩]).Confined linux
      (gameRequest.Inside ⟨exampleDir ["cache"], exampleDir ["scratch"]⟩)
      (gameComputer.restores (tableFormat [] []) segmentGlob linux
        ⟨exampleDir ["cache"], exampleDir ["scratch"]⟩
        [⟨gameRequest, false, hostileEnv⟩, ⟨gameRequest, false, hostileEnv⟩]) := by
  refine restores_stay_inside (tableFormat [] []) segmentGlob linux _ gameComputer
    [⟨gameRequest, false, hostileEnv⟩, ⟨gameRequest, false, hostileEnv⟩] ?_
    [⟨gameRequest, false, hostileEnv⟩] ⟨gameRequest, false, hostileEnv⟩ [] rfl
  intro call hcall
  have hreq : call.req = gameRequest := by
    rcases List.mem_cons.mp hcall with rfl | hcall
    · rfl
    · rw [List.mem_singleton.mp hcall]
  rw [hreq]
  exact gameRequest_safe

end Example

end Savr
