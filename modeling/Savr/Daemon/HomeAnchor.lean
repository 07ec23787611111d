import Savr.Core.Subtree
import Savr.Daemon.EngineRestore

/-!
# Restoring a game that is anchored at the home directory

A game that no pattern is left for is anchored at the home directory (`compute_anchor` of
`savr-daemon/src/paths.rs`), and `run_restore` refuses to restore it — unless it has registry
keys.  With a registry key the restore goes on: the pre-restore backup finds no file and
succeeds, and a version that was made where the saves of the game were known is swapped into
the home directory.

The run is followed below the home directory, whatever it is, with the data of the daemon
below it as well.

## Main results

* `runBackup_under` — a backup of registry keys alone succeeds.
* `runRestore_under` — and a restore then creates a file in the anchor.
* `home_untouched_iff` — when the home directory is left alone.
-/

namespace Savr

open Hoare

/-! ## A backup of registry keys alone -/

section Backup

variable {pf : Platform} {dir : PathBuf} {below : PathBuf → Option Node}

theorem disk_under {α : Type} {c : Io α} {Q : α → Fs → Prop}
    (h : Triple (fun s => s.Under pf dir below) c Q fun _ => False) :
    Triple (fun m : Computer => m.fs.Under pf dir below) (disk c) (fun a m => Q a m.fs)
      fun _ => False :=
  triple_zoom fun _ hm => h.conseq (fun _ hs => hs ▸ hm) (fun _ _ hq => hq) fun _ hs => hs

/-- Loading the database leaves the directory as it is. -/
theorem load_under : Triple (fun m : Computer => m.fs.Under pf dir below) load
    (fun _ m => m.fs.Under pf dir below) fun _ => False := by
  refine triple_bind (disk_under nextFate_under) fun fate => ?_
  refine triple_get_bind fun m₀ hm₀ => ?_
  rw [if_pos hm₀.1]
  refine triple_pure ?_
  rintro m rfl
  exact hm₀.2

theorem store_under (w : Write) : Triple (fun m : Computer => m.fs.Under pf dir below) (store w)
    (fun _ m => m.fs.Under pf dir below) fun _ => False := by
  refine triple_bind (disk_under nextFate_under) fun fate => triple_of_state fun m₀ hm₀ => ?_
  rw [if_pos hm₀.1]
  refine triple_modify ?_
  rintro m rfl
  exact hm₀.2

theorem modify_under (f : Device → Device) :
    Triple (fun m : Computer => m.fs.Under pf dir below)
      (Prog.modify fun m => { m with device := f m.device } : DaemonIo PUnit)
      (fun _ m => m.fs.Under pf dir below) fun _ => False :=
  triple_modify fun _ hm => hm

/-- Queueing a backup leaves the directory as it is. -/
theorem performQueue_under (cache : PathBuf) (gameId : GameId) (p : Packed) (draws : BackupEnv) :
    Triple (fun m : Computer => m.fs.Under pf dir below)
      ((queueBackup gameId p draws).forM (perform pf cache))
      (fun _ m => m.fs.Under pf dir below) fun _ => False := by
  refine triple_forM_of_invariant fun a ha => ?_
  rw [queueBackup] at ha
  simp only [List.mem_cons, List.not_mem_nil, or_false] at ha
  rcases ha with rfl | rfl | rfl
  · exact store_under _
  · exact store_under _
  · exact store_under _

theorem push_sub {style : PathStyle} {name : String} (h : FileName style name) (sub : String) :
    push style (dir ++ [.normal sub]) name = dir ++ [.normal sub, .normal name] := by
  rw [h.push_eq, List.append_assoc]
  rfl

variable [Blake3] {fmt : SavrFormat} {g : GlobCrate} {job : SaveJob} {env : DiskEnv}

/-- A backup that collects nothing packs nothing. -/
theorem payload_eq_nil {d : Device} {anchor : PathBuf} {excludes : List String}
    {mtime : PathBuf → ℤ} {draws : BackupEnv} {p : Packed}
    (h : packBackup d job.toBackupJob
      { draws with saves := .ofFound g pf excludes anchor mtime [] } = some p) :
    p.archive.payload = [] := by
  have hread : ∀ path, (SaveSet.ofFound g pf excludes anchor mtime []).read path = none := by
    intro path
    rw [read_ofFound]
    rfl
  have hnone : ∀ files, buildPayload (.ofFound g pf excludes anchor mtime []) files = [] := by
    intro files
    rw [buildPayload, List.filterMap_eq_nil_iff]
    intro f _
    rw [hread]
    rfl
  unfold packBackup at h
  split at h
  · cases h
  · obtain ⟨⟨changed, deleted⟩, -, rfl⟩ := Option.map_eq_some_iff.mp h
    exact hnone _

/-- It packs its archive below the directory. -/
theorem packToFile_under (sensitive : pf.CaseSensitive) {p : Packed} {anchor : PathBuf}
    {name : String} (hpayload : p.archive.payload = []) (h : FlatDir "cache" below) :
    Triple (fun s => s.Under pf dir below)
      (packToFile fmt pf anchor p (dir ++ [.normal "cache", .normal name]))
      (fun _ s => ∃ content, s.Under pf dir
        (Function.update below [.normal "cache", .normal name] (some (.file content))))
      fun _ => False := by
  rw [packToFile, hpayload]
  refine triple_bind (createFile_sub sensitive h) fun _ => ?_
  refine triple_bind (R := fun _ s => s.Under pf dir (Function.update below
    [.normal "cache", .normal name] (some (.file [])))) (triple_pure fun _ hs => hs)
    fun payload => ?_
  refine triple_bind (createFile_sub sensitive (h.update name (by simp))) fun _ => ?_
  rw [Function.update_idem]
  refine triple_bind (readFile_under sensitive (by simp) (Function.update_self ..)) fun _ => ?_
  exact triple_pure fun _ hs => ⟨_, hs.2⟩

/-- And uploads it from there; only the cache is touched. -/
theorem packAndUpload_under (sensitive : pf.CaseSensitive) {p : Packed}
    (hpayload : p.archive.payload = []) (hreply : env.reply = none) (d : Device) :
    Triple (fun m : Computer => m.fs.Under pf dir fun _ => none)
      (packAndUpload fmt pf (dir ++ [.normal "cache"]) job env d p)
      (fun _ m => ∃ below, OnlyIn ["cache"] below ∧ m.fs.Under pf dir below) fun _ => False := by
  have hempty : ∀ names, OnlyIn names fun _ => none := fun _ _ _ => rfl
  have hcache : "cache" ∈ ["cache"] := List.mem_singleton_self _
  have hflat : FlatDir "cache" (withDirs (fun _ => none) [.normal "cache"]) :=
    ((hempty []).emptySub (by simp)).flat
  rw [packAndUpload]
  refine triple_bind (disk_under (createDirAll_under sensitive (by simp))) fun _ => ?_
  dsimp only
  rw [push_sub (fileName_packingName pf.style env.packingId)]
  refine triple_bind (disk_under (packToFile_under sensitive hpayload hflat)) fun p' => ?_
  refine triple_of_state fun m₀ hm₀ => ?_
  obtain ⟨content, hm₀⟩ := hm₀
  rw [push_sub (fileName_archiveName pf.style p'.create.blobHash)]
  refine triple_bind (disk_under (rename_sub sensitive (hflat.update _ (by simp))
    (Function.update_self ..) _)) (fun _ => ?_) |>.conseq (fun _ hm => hm ▸ hm₀)
    (fun _ _ hm => hm) fun _ hm => hm
  refine triple_bind (modify_under fun d =>
    (Write.cacheArchive p'.create.blobHash p'.archive).apply d) fun _ => ?_
  rw [hreply]
  refine triple_bind (performQueue_under _ _ _ _) fun _ => triple_pure fun m hm => ⟨_, ?_, hm⟩
  have honly := (hempty ["cache"]).withDirs hcache []
  exact ((honly.update hcache _ _).update hcache _ _).update hcache _ _

/-- **A backup of registry keys alone** succeeds below a directory that is empty. -/
theorem runBackup_under (sensitive : pf.CaseSensitive) (hpatterns : job.patterns = [])
    (hkeys : job.registryKeys ≠ []) (hreply : env.reply = none) :
    Triple (fun m : Computer => m.fs.Under pf dir fun _ => none)
      (Computer.runBackup fmt g pf (dir ++ [.normal "cache"]) job env)
      (fun _ m => ∃ below, OnlyIn ["cache"] below ∧ m.fs.Under pf dir below) fun _ => False := by
  rw [Computer.runBackup, if_neg (by simp [hkeys])]
  have hbuild : Triple (fun s => s.Under pf dir fun _ => none) (snapshotBuild g pf job env.mtime)
      (fun saves s => saves = .ofFound g pf job.excludes job.anchor env.mtime [] ∧
        s.Under pf dir fun _ => none) fun _ => False := by
    refine triple_bind nextFate_under fun fate => triple_get_bind fun s₀ hs₀ => ?_
    rw [if_pos hs₀.1, hpatterns]
    refine triple_pure ?_
    rintro s rfl
    exact ⟨rfl, hs₀.2⟩
  refine triple_bind (disk_under hbuild) fun saves => triple_of_state fun m₀ hm₀ => ?_
  obtain ⟨rfl, hm₀⟩ := hm₀
  refine triple_bind (load_under.conseq (fun _ hm => hm ▸ hm₀) (fun _ _ hm => hm) fun _ hm => hm)
    fun d => ?_
  cases hpacked : packBackup d job.toBackupJob
      { env.draws with saves := .ofFound g pf job.excludes job.anchor env.mtime [] } with
  | none =>
      obtain ⟨-, hnone⟩ | ⟨hnone, -⟩ := packBackup_eq_none_iff.mp hpacked
      · exact absurd hnone hkeys
      · exact absurd hnone hkeys
  | some p => exact packAndUpload_under sensitive (payload_eq_nil hpacked) hreply d

end Backup

/-! ## Staging a version with one file -/

section Stage

variable {pf : Platform} {dir : PathBuf} {below : PathBuf → Option Node} {sub name : String}
  {bytes : Bytes}

/-- An archive is downloaded below the directory. -/
theorem blobGetToFile_under (sensitive : pf.CaseSensitive) (h : FlatDir sub below) :
    Triple (fun s => s.Under pf dir below)
      (blobGetToFile pf (some bytes) (dir ++ [.normal sub, .normal name]))
      (fun _ s => s.Under pf dir
        (Function.update below [.normal sub, .normal name] (some (.file bytes))))
      fun _ => False := by
  have hparent : parent (dir ++ [.normal sub, .normal name]) = some (dir ++ [.normal sub]) := by
    simp [parent]
  have hmkdir : Triple (fun s => s.Under pf dir below) (createDirAll pf (dir ++ [.normal sub]))
      (fun _ s => s.Under pf dir below) fun _ => False := by
    refine (createDirAll_under sensitive (no_file_at_sub ?_)).conseq (fun _ hs => hs)
      (fun _ s hs => ?_) fun _ hs => hs
    · rw [h.dir]
      simp
    · rw [withDirs_of_dir h.dir] at hs
      exact hs
  rw [blobGetToFile]
  refine triple_bind (R := fun b s => b = bytes ∧ s.Under pf dir below)
    (triple_pure fun _ hs => ⟨rfl, hs⟩) fun b => triple_of_state fun s₀ hs₀ => ?_
  obtain ⟨rfl, hs₀⟩ := hs₀
  rw [hparent]
  exact (triple_bind hmkdir fun _ => createFile_sub sensitive h).conseq (fun _ hs => hs ▸ hs₀)
    (fun _ _ hs => hs) fun _ hs => hs

theorem fileName_save {style : PathStyle} : FileName style "save" :=
  isFileName_iff.mp (by cases style <;> decide)

theorem relName_save {style : PathStyle} : RelName style "save" :=
  relName_of_isFileName (isFileName_iff.mpr fileName_save)

/-- Where the save is staged, below the directory. -/
def stagedRest : PathBuf := [.normal "scratch", .normal (Uuid.text 101)]

variable {fmt : SavrFormat} {metadata : ArchiveMeta} {c : Bytes}

/-- It is unpacked there. -/
theorem unpack_under (sensitive : pf.CaseSensitive) (h : EmptySub "scratch" below)
    {hash : Blake3Hash} {b : Bytes} :
    Triple (fun s => s.Under pf dir (Function.update below
        [.normal "scratch", .normal (archiveName hash)] (some (.file b))))
      (unpack fmt pf (fmt.write (packEntries fmt metadata [("save", c)] none)) (dir ++ stagedRest))
      (fun r s => r = ⟨metadata, none⟩ ∧ s.Under pf dir (Function.update (withDirs
        (Function.update below [.normal "scratch", .normal (archiveName hash)] (some (.file b)))
        stagedRest) (stagedRest ++ [.normal "save"]) (some (.file c)))) fun _ => False := by
  have hne : archiveName hash ≠ Uuid.text 101 := archiveName_ne_uuid hash 101
  have hpush : push pf.style (dir ++ stagedRest) "save" =
      dir ++ (stagedRest ++ [.normal "save"]) := by
    rw [fileName_save.push_eq, List.append_assoc]
  refine under_ok (keeps_unpack (fun _ _ => trivial) _) fun touched => ?_
  refine (unpack_ok (by simpa using relName_save) (List.pairwise_singleton _ _) ?_).conseq
    (fun _ hs => hs) ?_ fun _ hs => hs
  · rw [sensitive.key_eq]
    constructor
    · rintro k ⟨rest, rfl⟩ hk
      have hrest : rest ≠ [] := by
        rintro rfl
        exact hk (List.append_nil _)
      rw [List.append_assoc, underDir_append (by simp [stagedRest]), Function.update_of_ne]
      · exact h.empty _ (List.cons_ne_nil _ _)
      · intro heq
        have hlength := congrArg List.length heq
        simp [stagedRest, hrest] at hlength
    · refine underDir_no_file ?_
      intro k hk hbegins
      obtain ⟨first, rest, rfl⟩ := List.exists_cons_of_ne_nil hk
      obtain ⟨rfl, hrest⟩ := List.cons_prefix_cons.mp hbegins
      cases rest with
      | nil =>
          rw [Function.update_of_ne (by simp), h.dir]
          simp
      | cons second rest =>
          obtain ⟨rfl, -⟩ := List.cons_prefix_cons.mp hrest
          rw [Function.update_of_ne (by simp [hne.symm]), h.empty _ (List.cons_ne_nil _ _)]
          simp
  · rintro r s ⟨rfl, nodes, touched', his, hlaid⟩
    refine ⟨rfl, touched', ?_⟩
    rw [laidKeys, List.map_singleton, sensitive.key_eq, hpush] at hlaid
    have hnodes := hlaid.single (by simp [stagedRest])
    rw [hnodes] at his
    rw [← underDir_update (by simp [stagedRest]), ← underDir_withDirs]
    rw [← List.append_assoc, List.dropLast_concat, List.append_assoc] at his
    exact his

end Stage

section Restore

variable [Blake3] {pf : Platform} {dir : PathBuf} {below : PathBuf → Option Node}
  {fmt : SavrFormat} {g : GlobCrate}

/-- The directories of a daemon whose data is below the home directory. -/
def homeDirs (home : PathBuf) : DataDirs where
  blobCache := home ++ [.normal "cache"]
  scratch := home ++ [.normal "scratch"]

/-- The archive of a version of a game with one file. -/
def homeArchive (fmt : SavrFormat) (gameId : GameId) : Bytes :=
  fmt.write (packEntries fmt ⟨gameId, 22, none, .full, [], [], 1⟩ [("save", [2])] none)

/-- The version of the game, made where its saves were known. -/
def homeVersion (fmt : SavrFormat) (gameId : GameId) : Version :=
  ⟨101, gameId, 22, none, .full, [⟨"save", 1, 0, Blake3.ofBytes [2]⟩],
    Blake3.ofBytes (homeArchive fmt gameId), 1, 1, 1⟩

/-- A server with that version, which answers every request. The backup before the restore is
the one of an empty disk. -/
def homeEnv (fmt : SavrFormat) (gameId : GameId) : RestoreEnv where
  backup :=
    { draws := exampleBackup .empty true .none 1
      mtime := fun _ => 0
      packingId := 1
      reply := none }
  versions := some [homeVersion fmt gameId]
  blob := fun _ => some (homeArchive fmt gameId)
  hidden := fun _ _ => false
  order := id
  order_perm := inOrder_perm

/-- The save is staged, and nothing is where it goes. -/
structure StagedSave (dir : PathBuf) (below : PathBuf → Option Node) (merged : Merged) :
    Prop where
  only : OnlyIn ["scratch", "cache"] below
  file : below (stagedRest ++ [.normal "save"]) = some (.file [2])
  keys : ∀ rel ∈ merged, rel = "save"
  lookup : merged.lookup "save" = some (dir ++ (stagedRest ++ [.normal "save"]))

/-- A file with the right content passes the check, and nothing changes. -/
theorem verifyBlob_under {r : PathBuf} {content : Bytes} (sensitive : pf.CaseSensitive)
    (hr : r ≠ []) (hfile : below r = some (.file content)) :
    Triple (fun s => s.Under pf dir below) (verifyBlob pf (dir ++ r) (Blake3.ofBytes content))
      (fun _ s => s.Under pf dir below) fun _ => False := by
  refine triple_bind (readFile_under sensitive hr hfile) fun bytes => ?_
  rintro s ⟨rfl, hs⟩
  dsimp only
  rw [if_pos rfl]
  exact triple_pure (P := fun s => s.Under pf dir below) (fun _ hs => hs) s hs

omit [Blake3] in
/-- The merge finds the one file that was unpacked. -/
theorem stagedSave_apply (sensitive : pf.CaseSensitive) {s : Fs}
    (honly : OnlyIn ["scratch", "cache"] below) (hfile : below (stagedRest ++ [.normal "save"]) =
      some (.file [2]))
    (hother : ∀ rest, rest ≠ [] → rest ≠ [.normal "save"] → below (stagedRest ++ rest) = none)
    (hs : s.Under pf dir below) :
    StagedSave dir below (Merged.apply pf ∅
      (walkRel pf s.tree (dir ++ stagedRest) fun _ => false) (dir ++ stagedRest) []) := by
  have hplace : push pf.style (dir ++ stagedRest) "save" =
      dir ++ (stagedRest ++ [.normal "save"]) := by
    rw [fileName_save.push_eq, List.append_assoc]
  have hwalk : ∀ rel, rel ∈ walkRel pf s.tree (dir ++ stagedRest) (fun _ => false) ↔
      rel = "save" := by
    intro rel
    rw [mem_walkRel sensitive hs.spelled, hs.nodes]
    constructor
    · rintro ⟨hrel, -, c, hnode⟩
      have hne : components pf.style rel ≠ [] := by
        obtain ⟨names, hne, -, hread⟩ := components_relName hrel
        simpa [hread] using hne
      rw [hrel.push_eq, List.append_assoc, underDir_append (by simp [stagedRest])] at hnode
      by_contra hrelne
      rw [hother _ hne] at hnode
      · cases hnode
      · intro heq
        have hsame : push pf.style (dir ++ stagedRest) rel =
            push pf.style (dir ++ stagedRest) "save" := by
          rw [hplace, hrel.push_eq, heq, List.append_assoc]
        exact hrelne (hrel.push_inj relName_save hsame)
    · rintro rfl
      refine ⟨relName_save, rfl, [2], ?_⟩
      rw [hplace, underDir_append (by simp [stagedRest]), hfile]
  refine ⟨honly, hfile, ?_, ?_⟩
  · intro rel hrel
    rw [← AList.lookup_isSome, Merged.lookup_apply] at hrel
    split_ifs at hrel with hmem
    · exact (hwalk rel).mp hmem
    · cases hrel
  · rw [Merged.lookup_apply, if_pos ((hwalk "save").mpr rfl), hplace]

/-- The version is staged below the directory. -/
theorem stageVersion_under (sensitive : pf.CaseSensitive) (gameId : GameId)
    (honly : OnlyIn ["scratch", "cache"] below) (h : EmptySub "scratch" below) :
    Triple (fun s => s.Under pf dir below)
      (stageVersion fmt pf (homeDirs dir) (homeEnv fmt gameId) ∅ (homeVersion fmt gameId))
      (fun merged s => ∃ below', StagedSave dir below' merged ∧ s.Under pf dir below')
      fun _ => False := by
  have hstaged : push pf.style (homeDirs dir).scratch (Uuid.text (homeVersion fmt gameId).id) =
      dir ++ stagedRest := push_sub (fileName_uuid pf.style 101) "scratch"
  have harchive : push pf.style (homeDirs dir).scratch
      (archiveName (homeVersion fmt gameId).blobHash) = dir ++ [.normal "scratch", .normal
        (archiveName (homeVersion fmt gameId).blobHash)] :=
    push_sub (fileName_archiveName pf.style _) "scratch"
  rw [stageVersion, hstaged, harchive]
  refine triple_bind (blobGetToFile_under sensitive h.flat) fun _ => ?_
  refine triple_bind (verifyBlob_under sensitive (by simp) (Function.update_self ..)) fun _ => ?_
  refine triple_bind (readFile_under sensitive (by simp) (Function.update_self ..)) fun bytes => ?_
  rintro s ⟨rfl, hs⟩
  refine triple_bind (unpack_under sensitive h) (fun unpacked => ?_) s hs
  refine triple_get_bind fun s₀ hs₀ => triple_pure ?_
  rintro s' rfl
  obtain ⟨rfl, hs₀⟩ := hs₀
  refine ⟨_, stagedSave_apply sensitive ?_ (Function.update_self ..) ?_ hs₀, hs₀⟩
  · have hscratch : "scratch" ∈ ["scratch", "cache"] := List.mem_cons_self ..
    exact ((honly.update hscratch _ _).withDirs hscratch _).update hscratch _ _
  · intro rest hne hsave
    rw [Function.update_of_ne fun heq => hsave (List.append_cancel_left heq), withDirs,
      if_neg fun hbegins => not_append_prefix stagedRest hne hbegins.2, Function.update_of_ne]
    · exact h.empty _ (List.cons_ne_nil _ _)
    · intro heq
      have hlength := congrArg List.length heq
      simp [stagedRest, hne] at hlength

variable {req : RestoreRequest} {merged : Merged} {chain : List Version}

/-- And so is its chain, which is this version alone. -/
theorem stageChain_under (sensitive : pf.CaseSensitive) (gameId : GameId)
    (hversion : req.versionId = 101) (honly : OnlyIn ["cache"] below) :
    Triple (fun m : Computer => m.fs.Under pf dir below)
      (stageChain fmt pf (homeDirs dir) req (homeEnv fmt gameId))
      (fun r m => ∃ below', StagedSave dir below' r.1 ∧ m.fs.Under pf dir below')
      fun _ => False := by
  have hload : loadChain (homeEnv fmt gameId) req.versionId = pure [homeVersion fmt gameId] := by
    rw [loadChain, hversion]
    rfl
  have hfree : ∀ c, below [.normal "scratch"] ≠ some (.file c) := by
    rw [honly _ (by simp)]
    simp
  have hmkdir : Triple (fun s => s.Under pf dir below)
      (createDirAll pf (homeDirs dir).scratch)
      (fun _ s => s.Under pf dir (withDirs below [.normal "scratch"])) fun _ => False :=
    createDirAll_under sensitive (no_file_at_sub hfree)
  rw [stageChain, hload, pure_bind]
  refine triple_bind (disk_under hmkdir) fun _ => ?_
  have hscratch : "scratch" ∈ ["scratch", "cache"] := List.mem_cons_self ..
  have honly' : OnlyIn ["scratch", "cache"] below := honly.mono (by simp)
  have hstage : Triple (fun s => s.Under pf dir (withDirs below [.normal "scratch"]))
      ([homeVersion fmt gameId].foldlM
        (stageVersion fmt pf (homeDirs dir) (homeEnv fmt gameId)) ∅)
      (fun merged s => ∃ below', StagedSave dir below' merged ∧ s.Under pf dir below')
      fun _ => False := by
    rw [List.foldlM_cons]
    exact triple_bind (stageVersion_under sensitive gameId (honly'.withDirs hscratch [])
      (honly.emptySub (by simp))) fun merged => triple_pure fun _ hs => hs
  exact triple_bind (disk_under hstage) fun merged => triple_pure fun _ hm => hm

/-- **The restore gets to the swap**, with the save staged. -/
theorem prepare_under (sensitive : pf.CaseSensitive) (gameId : GameId)
    (hversion : req.versionId = 101) (hpatterns : req.patterns = [])
    (hkeys : req.registryKeys ≠ []) :
    Triple (fun m : Computer => m.fs.Under pf dir fun _ => none)
      (prepare fmt g pf (homeDirs dir) req (homeEnv fmt gameId))
      (fun r m => ∃ below, StagedSave dir below r.1 ∧ m.fs.Under pf dir below)
      fun _ => False := by
  refine triple_bind (triple_orElse (runBackup_under sensitive hpatterns hkeys rfl)) fun _ => ?_
  refine triple_of_state fun m₀ hm₀ => ?_
  obtain ⟨below, honly, hm₀⟩ := hm₀
  exact (stageChain_under sensitive gameId hversion honly).conseq (fun _ hm => hm ▸ hm₀)
    (fun _ _ hm => hm) fun _ hm => hm

omit [Blake3] in
/-- The swap touches the file in the directory itself. -/
theorem swapFile_under (sensitive : pf.CaseSensitive) (h : StagedSave dir below merged) :
    Triple (fun s => s.Under pf dir below)
      (swapFile pf dir ("save", dir ++ (stagedRest ++ [.normal "save"])))
      (fun _ s => dir ++ [.normal "save"] ∈ s.touched) fun _ => False := by
  have htmp : tmpFor (dir ++ [.normal "save"]) = dir ++ [.normal "save.savr-restore-tmp"] := by
    rw [tmpFor_append]
    rfl
  have hparent : parent (dir ++ [.normal "save"]) = some (dir ++ []) := by
    simp [parent]
  have hfree : ∀ name, name ≠ "scratch" → name ≠ "cache" → below [.normal name] = none := by
    intro name hscratch hcache
    exact h.only _ (by simp [hscratch, hcache])
  rw [swapFile, fileName_save.push_eq]
  dsimp only
  rw [hparent, htmp]
  have hmkdir : Triple (fun s => s.Under pf dir below) (createDirAll pf (dir ++ []))
      (fun _ s => s.Under pf dir below) fun _ => False := by
    refine (createDirAll_under sensitive ?_).conseq (fun _ hs => hs) (fun _ s hs => ?_)
      fun _ hs => hs
    · intro k hne hbegins
      exact absurd (List.prefix_nil.mp hbegins) hne
    · rw [withDirs_nil] at hs
      exact hs
  have hcopy : Triple (fun s => s.Under pf dir below)
      (copy pf (dir ++ (stagedRest ++ [.normal "save"]))
        (dir ++ [.normal "save.savr-restore-tmp"]))
      (fun _ s => s.Under pf dir (Function.update below [.normal "save.savr-restore-tmp"]
        (some (.file [2])))) fun _ => False := by
    refine triple_bind (readFile_under sensitive (by simp) h.file) fun content => ?_
    rintro s ⟨rfl, hs⟩
    refine createFile_under sensitive (by simp) ?_ (.inl rfl) s hs
    rw [hfree _ (by decide) (by decide)]
    simp
  refine triple_bind hmkdir fun _ => triple_bind hcopy fun _ => triple_of_state fun s₀ hs₀ => ?_
  have hsrc : underDir dir (Function.update below [.normal "save.savr-restore-tmp"]
      (some (.file [2]))) (pf.key (dir ++ [.normal "save.savr-restore-tmp"])) =
      some (.file [2]) := by
    rw [sensitive.key_eq, underDir_append (by simp), Function.update_self]
  refine (@rename_ok pf _ s₀.touched _ _ _ hsrc (by simp) ?_ ?_).conseq ?_ (fun _ s hs => ?_)
    fun _ hs => hs
  · rw [sensitive.key_eq, underDir_append (by simp), Function.update_of_ne (by simp),
      hfree _ (by decide) (by decide)]
    simp
  · rw [sensitive.key_eq]
    exact underDir_parent (by simp) (.inl rfl)
  · rintro s rfl
    exact hs₀.is
  · rw [hs.touched]
    simp

/-- The swap touches the file in the home directory, however it ends. -/
theorem finish_under (sensitive : pf.CaseSensitive) (gameId : GameId) (hanchor : req.anchor = dir)
    (h : StagedSave dir below merged) :
    Triple (fun m : Computer => m.fs.Under pf dir below)
      (finish pf req (homeEnv fmt gameId) merged chain)
      (fun _ m => dir ++ [.normal "save"] ∈ m.fs.touched)
      fun m => dir ++ [.normal "save"] ∈ m.fs.touched := by
  have hfiles : ∀ f ∈ merged.files, f = ("save", dir ++ (stagedRest ++ [.normal "save"])) := by
    intro f hf
    have hlookup := mem_files_iff.mp hf
    have hsave := h.keys f.1 (AList.lookup_isSome.mp (hlookup ▸ rfl))
    rw [hsave, h.lookup] at hlookup
    exact Prod.ext hsave (Option.some.inj hlookup).symm
  have hswap : Triple (fun s => s.Under pf dir below) (merged.files.forM (swapFile pf dir))
      (fun _ s => dir ++ [.normal "save"] ∈ s.touched)
      fun s => dir ++ [.normal "save"] ∈ s.touched := by
    have hmem := mem_files_iff.mpr h.lookup
    obtain ⟨f, rest, hsplit⟩ := List.exists_cons_of_ne_nil (List.ne_nil_of_mem hmem)
    rw [hsplit] at hfiles ⊢
    obtain ⟨rfl, hrest⟩ := List.forall_mem_cons.mp hfiles
    change Triple _ (swapFile pf dir _ >>= fun _ => rest.forM (swapFile pf dir)) _ _
    refine triple_bind ((swapFile_under sensitive h).conseq (fun _ hs => hs) (fun _ _ hs => hs)
      fun _ hs => hs.elim) fun _ => ?_
    refine Keeps.invariant (keeps_forM fun f hf => keeps_swapFile (fun _ _ => trivial) ?_)
      fun _ _ hs => hs.mem_touched
    rw [hrest f hf]
    exact relName_save
  have hkept : ∀ {α : Type} {c : DaemonIo α}, Keeps (Computer.Confined pf fun _ => True) c →
      Triple (fun m : Computer => dir ++ [.normal "save"] ∈ m.fs.touched) c
        (fun _ m => dir ++ [.normal "save"] ∈ m.fs.touched)
        fun m => dir ++ [.normal "save"] ∈ m.fs.touched := fun hkeeps =>
    hkeeps.invariant fun _ _ hm => Fs.Confined.mem_touched hm
  rw [finish, hanchor]
  refine triple_bind (triple_zoom fun m hm => hswap.conseq (fun _ hs => hs ▸ hm)
    (fun _ _ hs => hs) fun _ hs => hs) fun _ => triple_bind (hkept keeps_load) fun d =>
      triple_bind (hkept (keeps_disk (keeps_deleteStale_of fun _ _ _ _ _ => trivial))) fun _ => ?_
  cases chain.getLast? with
  | none => exact hkept (keeps_throw _)
  | some target => exact hkept (keeps_store _)

/-- **A restore of registry keys alone creates a file in the anchor.** -/
theorem runRestore_under (sensitive : pf.CaseSensitive) (gameId : GameId)
    (hversion : req.versionId = 101) (hpatterns : req.patterns = [])
    (hkeys : req.registryKeys ≠ []) {m : Computer}
    (hm : m.fs.Under pf req.anchor fun _ => none) :
    req.anchor ++ [.normal "save"] ∈ (Computer.runRestore fmt g pf (homeDirs req.anchor) req false
      (homeEnv fmt gameId) m).2.fs.touched := by
  have hrun : Triple (fun m : Computer => m.fs.Under pf req.anchor fun _ => none)
      (Computer.runRestore fmt g pf (homeDirs req.anchor) req false (homeEnv fmt gameId))
      (fun _ m => req.anchor ++ [.normal "save"] ∈ m.fs.touched)
      fun m => req.anchor ++ [.normal "save"] ∈ m.fs.touched := by
    rw [Computer.runRestore, if_neg (by simp), if_neg (by simp [hkeys])]
    refine triple_bind ((prepare_under sensitive gameId hversion hpatterns hkeys).conseq
      (fun _ hm => hm) (fun _ _ hm => hm) fun _ hm => hm.elim) fun r => ?_
    refine triple_of_state fun m₀ hm₀ => ?_
    obtain ⟨below, hstaged, hm₀⟩ := hm₀
    exact (finish_under sensitive gameId rfl hstaged).conseq (fun _ hm => hm ▸ hm₀)
      (fun _ _ hm => hm) fun _ hm => hm
  exact Triple.final (hrun.conseq (fun _ heq => heq ▸ hm) (fun _ _ hm => hm) fun _ hm => hm)

omit [Blake3] in
/-- A disk with nothing but a directory. -/
theorem exists_under (sensitive : pf.CaseSensitive) (dir : PathBuf) :
    ∃ s : Fs, s.Under pf dir (fun _ => none) ∧ s.touched = [] := by
  have hempty : Fs.Is ⟨∅, [], [], fun _ => false⟩ (fun _ => none) [] :=
    ⟨rfl, rfl, rfl⟩
  have hspelled : Tree.Spelled pf ∅ := fun k entry hlookup => by cases hlookup
  have hmkdir : Triple (fun s => s.Is (fun _ => none) []) (createDirAll pf dir)
      (fun _ s => s.Is (withDirs (fun _ => none) (pf.key dir)) []) fun _ => False :=
    createDirAll_ok fun k _ _ c hfile => by cases hfile
  obtain ⟨_, s, hrun, his⟩ := hmkdir.returns hempty
  have hconfined : Fs.Confined pf (fun _ => True) ⟨∅, [], [], fun _ => false⟩ s := by
    have hkeeps : Fs.Confined pf (fun _ => True) ⟨∅, [], [], fun _ => false⟩
        (createDirAll pf dir ⟨∅, [], [], fun _ => false⟩).2 := keeps_createDirAll _
    rw [hrun] at hkeeps
    exact hkeeps
  refine ⟨s, ⟨his.fates, his.nodes.trans (funext fun k => ?_), hconfined.spelled hspelled⟩,
    his.touched⟩
  rw [sensitive.key_eq, withDirs, underDir, ite_self]

end Restore

/-! ## The home directory -/

section Home

variable [Blake3]

/-- No restore of the game touches a file below the directory, apart from those the daemon keeps
for itself. -/
def LeavesAlone (fmt : SavrFormat) (g : GlobCrate) (style : PathStyle) (gameId : GameId)
    (resolved : ResolvedGame) (dir : PathBuf) : Prop :=
  ∀ (pf : Platform) (dirs : DataDirs) (games : GameId → Option ResolvedGame)
    (running : GameId → Bool) (versionId : VersionId) (env : RestoreEnv) (m₀ : Computer),
    pf.style = style → games gameId = some resolved →
      m₀.Confined pf (fun p => Below dir p → Below dirs.scratch p ∨ Below dirs.blobCache p)
        (Computer.engineRestore fmt g pf dirs games running gameId versionId env m₀).2

variable (fmt : SavrFormat) (g : GlobCrate)

/-- A restore of a game without save targets is refused before anything happens. -/
theorem engineRestore_refused {pf : Platform} {dirs : DataDirs}
    {games : GameId → Option ResolvedGame} {running : GameId → Bool} {gameId : GameId}
    {versionId : VersionId} {env : RestoreEnv} {resolved : ResolvedGame}
    (hgame : games gameId = some resolved) (hpatterns : resolved.patterns = [])
    (hkeys : resolved.registryKeys = []) (m₀ : Computer) :
    (Computer.engineRestore fmt g pf dirs games running gameId versionId env m₀).2 = m₀ := by
  have hempty : ((resolved.request gameId versionId).patterns.isEmpty &&
      (resolved.request gameId versionId).registryKeys.isEmpty) = true := by
    simp [ResolvedGame.request, hpatterns, hkeys]
  rw [Computer.engineRestore, hgame]
  dsimp only
  rw [Computer.runRestore]
  split_ifs
  · rfl
  · rfl

/-- A game without patterns that has registry keys is restored into its anchor. -/
theorem not_leavesAlone {style : PathStyle} {gameId : GameId} {resolved : ResolvedGame}
    (hpatterns : resolved.patterns = []) (hkeys : resolved.registryKeys ≠ []) :
    ¬ LeavesAlone fmt g style gameId resolved resolved.anchor := by
  intro halone
  have hsensitive : Platform.CaseSensitive ⟨style, id⟩ := fun _ => rfl
  obtain ⟨s, hs, htouched⟩ := exists_under hsensitive resolved.anchor
  obtain ⟨new, hnew, hallowed, -⟩ := (halone ⟨style, id⟩ (homeDirs resolved.anchor)
    (fun _ => some resolved) (fun _ => false) 101 (homeEnv fmt gameId) ⟨s, newMachine.device⟩ rfl
    rfl).touched
  have hmem := @runRestore_under _ _ fmt g (resolved.request gameId 101) hsensitive gameId rfl
    hpatterns hkeys ⟨s, newMachine.device⟩ hs
  have hsave : resolved.anchor ++ [.normal "save"] ∈ new := by
    rw [htouched, List.append_nil] at hnew
    rw [← hnew]
    exact hmem
  have happart : ∀ name, name ≠ "save" →
      ¬ Below (resolved.anchor ++ [.normal name]) (resolved.anchor ++ [.normal "save"]) := by
    intro name hname hbelow
    have hbegins := (List.prefix_append_right_inj _).mp hbelow.isPrefix
    simp [hname] at hbegins
  rcases hallowed _ hsave (below_normal _ _) with hbelow | hbelow
  · exact happart "scratch" (by decide) hbelow
  · exact happart "cache" (by decide) hbelow

variable (game : Game) (overrides : List PathOverride) (ctx : ResolveContext)
  (baseOverride : Option String)

omit [Blake3] in
/-- A game without patterns is anchored at the home directory. -/
theorem anchor_of_no_patterns
    (hpatterns : (resolveGame game overrides ctx baseOverride).patterns = []) :
    (resolveGame game overrides ctx baseOverride).anchor =
      components ctx.style ctx.roots.home := by
  change computeAnchor ctx.style
    (resolveGame game overrides ctx baseOverride).patterns ctx.roots = _
  rw [hpatterns]
  rfl

/-- **When no restore of a game without patterns touches the home directory**: exactly when
the game has no registry keys either.  Then every restore is refused before anything
happens. -/
theorem home_untouched_iff
    (hpatterns : (resolveGame game overrides ctx baseOverride).patterns = []) :
    (LeavesAlone fmt g ctx.style game.id (resolveGame game overrides ctx baseOverride)
        (components ctx.style ctx.roots.home) ↔ game.registryKeys overrides = []) ∧
    (game.registryKeys overrides = [] →
      ∀ (pf : Platform) (dirs : DataDirs) (games : GameId → Option ResolvedGame)
        (running : GameId → Bool) (versionId : VersionId) (env : RestoreEnv) (m₀ : Computer),
        games game.id = some (resolveGame game overrides ctx baseOverride) →
          (Computer.engineRestore fmt g pf dirs games running game.id versionId env m₀).2 =
            m₀) := by
  rw [← anchor_of_no_patterns game overrides ctx baseOverride hpatterns]
  refine ⟨⟨fun halone => ?_, fun hkeys pf dirs games running versionId env m₀ _ hgame => ?_⟩,
    fun hkeys pf dirs games running versionId env m₀ hgame => ?_⟩
  · by_contra hkeys
    exact not_leavesAlone fmt g hpatterns hkeys halone
  · rw [engineRestore_refused fmt g hgame hpatterns hkeys]
    exact Fs.Confined.refl m₀.fs
  · exact engineRestore_refused fmt g hgame hpatterns hkeys m₀

end Home

/-! ## A game with one registry key -/

section Example

local instance homeDigest : Blake3 := plainDigest

/-- A game that keeps its saves in the registry. -/
def keyedGame : Game where
  id := 10
  title := "Game"
  source := .manifest
  steamAppid := none
  saveTargets := [⟨"HKEY_CURRENT_USER/Software/Game", [.save], none, true⟩]

/-- A Linux user without Steam. -/
def keyedContext : ResolveContext where
  style := .unix
  roots :=
    { home := "/home/u", winAppData := none, winLocalAppData := none, winDocuments := none,
      xdgData := none, xdgConfig := none, osUserName := none }
  steamLibs := []

/-- The archives that are written out as few bytes: the one that is restored, and that of the
pre-restore backup. -/
noncomputable def keyedFormat : SavrFormat :=
  tableFormat [[("meta.json", [1]), ("files/notes", [2])], [("meta.json", [1, 1])]]
    [⟨10, 22, none, .full, [], [], 1⟩, ⟨10, 21, none, .full, [], [], 1⟩]

/-- A device with notes in the home directory. -/
def notesComputer : Computer where
  fs := exampleFs [(["home", "u", "notes"], [7])]
  device := newMachine.device

/-- What a restore of a version with a file `notes` leaves. -/
noncomputable def restoredKeyed : Except Failure PUnit × Computer :=
  Computer.engineRestore keyedFormat segmentGlob linux (homeDirs (exampleDir ["home", "u"]))
    (fun _ => some (resolveGame keyedGame [] keyedContext none)) (fun _ => false) 10 101
    (oneVersionEnv [("notes", [2])]) notesComputer

/-- The notes are overwritten, by a restore of a game that has no file there. -/
theorem notes_overwritten :
    (resolveGame keyedGame [] keyedContext none).patterns = [] ∧
    (resolveGame keyedGame [] keyedContext none).anchor = exampleDir ["home", "u"] ∧
    restoredKeyed.1 = .ok ⟨⟩ ∧
    Below (exampleDir ["home", "u"]) (exampleDir ["home", "u", "notes"]) ∧
    ¬ Below (homeDirs (exampleDir ["home", "u"])).scratch (exampleDir ["home", "u", "notes"]) ∧
    ¬ Below (homeDirs (exampleDir ["home", "u"])).blobCache (exampleDir ["home", "u", "notes"]) ∧
    notesComputer.fs.files (exampleDir ["home", "u", "notes"]) = some [7] ∧
    restoredKeyed.2.fs.files (exampleDir ["home", "u", "notes"]) = some [2] := by
  refine ⟨by decide +kernel, by decide +kernel, by decide +kernel, below_normal _ _, ?_, ?_,
    by decide +kernel, by decide +kernel⟩
  · intro hbelow
    exact absurd hbelow.isPrefix (by decide +kernel)
  · intro hbelow
    exact absurd hbelow.isPrefix (by decide +kernel)

/-- Without its registry key the game is never restored. -/
theorem home_untouched_without_keys :
    (resolveGame { keyedGame with saveTargets := [] } [] keyedContext none).patterns = [] ∧
    LeavesAlone keyedFormat segmentGlob .unix 10
      (resolveGame { keyedGame with saveTargets := [] } [] keyedContext none)
      (components .unix "/home/u") :=
  ⟨by decide +kernel, (home_untouched_iff keyedFormat segmentGlob
    { keyedGame with saveTargets := [] } [] keyedContext none (by decide +kernel)).1.mpr rfl⟩

end Example

end Savr
