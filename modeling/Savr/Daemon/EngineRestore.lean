import Savr.Daemon.Restored
import Savr.Daemon.SaveRoots

/-!
# Restoring through the engine

`Engine::restore` of `savr-daemon/src/engine.rs`: the request is made of the resolved save
targets of the game, without its excludes.

So the pre-restore backup collects the excluded files as well, and the snapshot it stores is
the one whose files are deleted where the target version has no such file.  An excluded file
survives exactly when the includes do not find it.

## Main results

* `custom_keepsExcluded_iff` — when a restore leaves the excluded files of a game alone.
-/

namespace Savr

open Hoare KeyedMap Placing

/-- The request for a version of a game: its excludes are not part of it. -/
def ResolvedGame.request (resolved : ResolvedGame) (gameId : GameId) (versionId : VersionId) :
    RestoreRequest where
  gameId := gameId
  versionId := versionId
  anchor := resolved.anchor
  patterns := resolved.patterns
  registryKeys := resolved.registryKeys

/-- `Engine::restore`, over the catalog and the games that are running. -/
def Computer.engineRestore [Blake3] (fmt : SavrFormat) (g : GlobCrate) (pf : Platform)
    (dirs : DataDirs) (games : GameId → Option ResolvedGame) (running : GameId → Bool)
    (gameId : GameId) (versionId : VersionId) (env : RestoreEnv) : DaemonIo PUnit :=
  match games gameId with
  | none => Prog.throw (.bail ("unknown game " ++ Uuid.text gameId))
  | some resolved =>
      Computer.runRestore fmt g pf dirs (resolved.request gameId versionId) (running gameId) env

/-! ## Excluded files -/

section Excluded

/-- A file below the save root, named as its directories spell it, that an exclude glob
matches. -/
structure ExcludedFile (g : GlobCrate) (pf : Platform) (resolved : ResolvedGame) (m : Computer)
    (rel : String) (c : Bytes) : Prop where
  relName : RelName pf.style rel
  onDisk : ∃ entry, m.fs.tree.lookup (pf.key (push pf.style resolved.anchor rel)) = some entry ∧
    entry.node = .file c ∧
    entry.spelled.drop resolved.anchor.length = components pf.style rel
  matched : excluded g resolved.excludes rel = true

/-- Every excluded file is still there, with its content. -/
def KeepsExcluded (g : GlobCrate) (pf : Platform) (resolved : ResolvedGame) (m₀ m : Computer) :
    Prop :=
  ∀ rel c, ExcludedFile g pf resolved m₀ rel c →
    m.fs.files (pf.key (push pf.style resolved.anchor rel)) = some c

/-- The patterns of the game find a file whose `rel_path` leads to this key. -/
def ResolvedGame.Finds (g : GlobCrate) (pf : Platform) (resolved : ResolvedGame) (t : Tree)
    (k : PathBuf) : Prop :=
  ∃ files, found g pf resolved.patterns t = some files ∧ ∃ f ∈ files,
    namesFile pf.style (relPath pf.style f.1 resolved.anchor) = true ∧
      k = pf.key (push pf.style resolved.anchor (relPath pf.style f.1 resolved.anchor))

/-- The version is of a backup with the excludes of the game, wherever it was made, and its
chain merges to the files it lists. -/
structure MadeWithout (g : GlobCrate) (excludes : List String) (merged : Merged)
    (chain : List Version) (target : Version) : Prop where
  last : chain.getLast? = some target
  collected : ∃ pf patterns anchor mtime t saves,
    collect g pf patterns excludes anchor mtime t = some saves ∧
      target.files.map FileEntry.relPath = saves.files.map SaveFile.relPath
  merges : ∀ rel, rel ∈ merged ↔ rel ∈ target.files.map FileEntry.relPath

/-- The restore has no business with the excluded files: for the file system none of them is
a file of the version or its temporary copy, and those that the patterns find cannot be
deleted. -/
def SparesExcluded (g : GlobCrate) (pf : Platform) (resolved : ResolvedGame) (m₀ : Computer)
    (target : Version) : Prop :=
  ∀ rel c, ExcludedFile g pf resolved m₀ rel c →
    (∀ f ∈ target.files,
      pf.key (push pf.style resolved.anchor f.relPath) ≠
          pf.key (push pf.style resolved.anchor rel) ∧
        pf.key (tmpFor (push pf.style resolved.anchor f.relPath)) ≠
          pf.key (push pf.style resolved.anchor rel)) ∧
    (resolved.Finds g pf m₀.fs.tree (pf.key (push pf.style resolved.anchor rel)) →
      m₀.fs.locked (pf.key (push pf.style resolved.anchor rel)) = true)

theorem ExcludedFile.files {g : GlobCrate} {pf : Platform} {resolved : ResolvedGame}
    {m : Computer} {rel : String} {c : Bytes} (h : ExcludedFile g pf resolved m rel c) :
    m.fs.files (pf.key (push pf.style resolved.anchor rel)) = some c := by
  obtain ⟨entry, hentry, hnode, -⟩ := h.onDisk
  rw [Fs.files_eq_some_iff, Tree.nodeAt, hentry, Option.map_some, hnode]

/-- No merged name of a version made without the excludes is excluded. -/
theorem MadeWithout.not_excluded {g : GlobCrate} {excludes : List String} {merged : Merged}
    {chain : List Version} {target : Version} (h : MadeWithout g excludes merged chain target)
    {rel : String} (hrel : rel ∈ merged) : excluded g excludes rel = false := by
  obtain ⟨pf, patterns, anchor, mtime, t, saves, hsaves, hfiles⟩ := h.collected
  obtain ⟨files, -, rfl⟩ := Option.map_eq_some_iff.mp hsaves
  have hmem := (h.merges rel).mp hrel
  rw [hfiles] at hmem
  exact (mem_relPaths_ofFound.mp hmem).1

end Excluded

/-! ## When they are left alone -/

section Restore

variable [Blake3] {fmt : SavrFormat} {g : GlobCrate} {pf : Platform} {dirs : DataDirs}
  {games : GameId → Option ResolvedGame} {running : GameId → Bool} {gameId : GameId}
  {versionId : VersionId} {resolved : ResolvedGame} {env : RestoreEnv} {merged : Merged}
  {chain : List Version} {target : Version} {m₀ m₁ m : Computer} {rel : String} {c : Bytes}

/-- A restore through the engine that returned, of a game whose files are apart from the
directories of the daemon: the states before it, right before the swap, and after it. -/
structure EngineRestored (fmt : SavrFormat) (g : GlobCrate) (pf : Platform) (dirs : DataDirs)
    (games : GameId → Option ResolvedGame) (running : GameId → Bool) (gameId : GameId)
    (versionId : VersionId) (resolved : ResolvedGame) (env : RestoreEnv) (m₀ : Computer)
    (merged : Merged) (chain : List Version) (m₁ m : Computer) : Prop where
  game : games gameId = some resolved
  prepared : prepare fmt g pf dirs (resolved.request gameId versionId) env m₀ =
    (.ok (merged, chain), m₁)
  returned : Computer.engineRestore fmt g pf dirs games running gameId versionId env m₀ =
    (.ok ⟨⟩, m)
  scratch : Apart (pf.key dirs.scratch) (pf.key resolved.anchor)
  blobCache : Apart (pf.key dirs.blobCache) (pf.key resolved.anchor)

omit [Blake3] in
/-- What is below a directory is not below one that is apart from it. -/
theorem Apart.not_prefix {k l p : PathBuf} (h : Apart k l) (hp : l <+: p) : ¬ k <+: p := fun hk =>
  (List.prefix_or_prefix_of_prefix hk hp).elim h.1 h.2

namespace EngineRestored

variable (h : EngineRestored fmt g pf dirs games running gameId versionId resolved env m₀ merged
  chain m₁ m)

include h

/-- The restored files of an engine's request lie outside the scratch directory. -/
theorem outside (staged : merged.Staged pf dirs.scratch) :
    OutsideScratch pf dirs (resolved.request gameId versionId) merged := by
  intro rel hrel
  obtain ⟨src, hsrc⟩ := Option.isSome_iff_exists.mp (AList.lookup_isSome.mpr hrel)
  have hbelow := (staged rel src hsrc).1.below_push resolved.anchor
  have hkey : ∀ p, Below resolved.anchor p → pf.key resolved.anchor <+: pf.key p :=
    fun p hp => hp.isPrefix.map _
  exact ⟨h.scratch.not_prefix (hkey _ hbelow), h.scratch.not_prefix (hkey _ (below_tmpFor hbelow))⟩

/-- A restore that returns passes through a prepared state, and the rest of it is the swap. -/
theorem before_swap : Prepared g pf dirs (resolved.request gameId versionId) env m₀ merged m₁ ∧
    Finished pf (resolved.request gameId versionId) env merged chain m₁ m := by
  have hrun := h.returned
  rw [Computer.engineRestore, h.game] at hrun
  obtain ⟨-, merged', chain', m₁', hprepare, hprepared, hfinish⟩ := runRestore_ok hrun
  obtain ⟨⟨rfl, rfl⟩, rfl⟩ : (merged = merged' ∧ chain = chain') ∧ m₁ = m₁' := by
    rw [h.prepared] at hprepare
    simpa using hprepare
  have hundisturbed := hprepared.undisturbed (h.outside hprepared.staged)
  exact ⟨hprepared, (finish_spec hundisturbed).ok rfl hfinish⟩

theorem relName (hrel : rel ∈ merged) : RelName pf.style rel := by
  obtain ⟨src, hsrc⟩ := Option.isSome_iff_exists.mp (AList.lookup_isSome.mpr hrel)
  exact (h.before_swap.1.staged rel src hsrc).1

/-- What is below the save root is the same before the swap. -/
theorem files_before (hrel : RelName pf.style rel) :
    m₁.fs.files (pf.key (push pf.style resolved.anchor rel)) =
      m₀.fs.files (pf.key (push pf.style resolved.anchor rel)) := by
  refine Fs.Confined.files h.before_swap.1.confined ?_
  intro p hp heq
  have hanchor := (hrel.below_push resolved.anchor).isPrefix.map pf.foldComponent
  rw [← Platform.key, ← Platform.key, ← heq] at hanchor
  rcases hp with hp | hp
  · exact h.scratch.not_prefix hanchor (hp.isPrefix.map _)
  · exact h.blobCache.not_prefix hanchor (hp.isPrefix.map _)

theorem files_after : m.fs.files = deleted
    (swapped pf resolved.anchor m₁.fs.files (env.order merged.files)) m₀.fs.locked
    (staleKeys pf resolved.anchor merged (m₁.device.state.snapshots gameId)) := by
  have hfiles := h.before_swap.2.files
  rw [h.before_swap.1.confined.locked] at hfiles
  exact hfiles

/-- What is deleted are files that the patterns find. -/
theorem mem_stale_iff {k : PathBuf} :
    k ∈ staleKeys pf resolved.anchor merged (m₁.device.state.snapshots gameId) ↔
      ∃ files, found g pf resolved.patterns m₀.fs.tree = some files ∧ ∃ f ∈ files,
        relPath pf.style f.1 resolved.anchor ∉ merged ∧
        namesFile pf.style (relPath pf.style f.1 resolved.anchor) = true ∧
          k = pf.key (push pf.style resolved.anchor (relPath pf.style f.1 resolved.anchor)) := by
  have hstale := @Prepared.mem_staleKeys_iff _ _ _ _ _ _ _ _ _ h.before_swap.1 k
  refine hstale.trans ⟨?_, ?_⟩
  · rintro ⟨saves, hsaves, f, hf, hnot, hnames, rfl⟩
    obtain ⟨files, hfound, rfl⟩ := Option.map_eq_some_iff.mp hsaves
    obtain ⟨-, q, hq, hpath⟩ := mem_relPaths_ofFound.mp (List.mem_map_of_mem hf)
    rw [← hpath] at hnot hnames ⊢
    exact ⟨files, hfound, q, hq, hnot, hnames, rfl⟩
  · rintro ⟨files, hfound, q, hq, hnot, hnames, rfl⟩
    have hcollected : collect g pf resolved.patterns [] resolved.anchor env.backup.mtime
        m₀.fs.tree = some (.ofFound g pf [] resolved.anchor env.backup.mtime files) := by
      rw [collect, hfound, Option.map_some]
    have hmem : relPath pf.style q.1 resolved.anchor ∈ (SaveSet.ofFound g pf [] resolved.anchor
        env.backup.mtime files).files.map SaveFile.relPath :=
      mem_relPaths_ofFound.mpr ⟨rfl, q, hq, rfl⟩
    obtain ⟨f, hf, hpath⟩ := List.mem_map.mp hmem
    rw [← hpath] at hnot hnames ⊢
    exact ⟨_, hcollected, f, hf, hnot, hnames, rfl⟩

/-- What the restore has no business with is left alone. -/
theorem keepsExcluded_of_spares (made : MadeWithout g resolved.excludes merged chain target)
    (spares : SparesExcluded g pf resolved m₀ target) : KeepsExcluded g pf resolved m₀ m := by
  intro rel c hfile
  obtain ⟨hversion, hfinds⟩ := spares rel c hfile
  have hswapped : swapped pf resolved.anchor m₁.fs.files (env.order merged.files)
      (pf.key (push pf.style resolved.anchor rel)) = some c := by
    rw [swapped, placeAll_of_untouched, h.files_before hfile.relName, hfile.files]
    intro f hf huses
    have hmem : f.1 ∈ merged := AList.lookup_isSome.mp (lookup_of_mem_order hf ▸ rfl)
    obtain ⟨listed, hlisted, hpath⟩ := List.mem_map.mp ((made.merges f.1).mp hmem)
    obtain ⟨hdest, htmp⟩ := hversion listed hlisted
    rw [hpath] at hdest htmp
    exact huses.elim hdest htmp
  rw [h.files_after]
  by_cases hstale : pf.key (push pf.style resolved.anchor rel) ∈
      staleKeys pf resolved.anchor merged (m₁.device.state.snapshots gameId)
  · obtain ⟨files, hfound, q, hq, -, hnames, hk⟩ := h.mem_stale_iff.mp hstale
    rw [deleted_of_locked (hfinds ⟨files, hfound, q, hq, hnames, hk⟩), hswapped]
  · rw [deleted_of_not_mem hstale, hswapped]

/-- Where all names are told apart, an excluded file is lost as a temporary copy or as a file
that the patterns find. -/
theorem spares_of_keepsExcluded (made : MadeWithout g resolved.excludes merged chain target)
    (sensitive : pf.CaseSensitive) (kept : KeepsExcluded g pf resolved m₀ m) :
    SparesExcluded g pf resolved m₀ target := by
  intro rel c hfile
  have hnot : rel ∉ merged := by
    intro hrel
    have hincluded := made.not_excluded hrel
    rw [hfile.matched] at hincluded
    cases hincluded
  have hdest : ∀ rel' ∈ merged, pf.key (push pf.style resolved.anchor rel') ≠
      pf.key (push pf.style resolved.anchor rel) := by
    intro rel' hrel' heq
    rw [sensitive.key_eq, sensitive.key_eq] at heq
    exact hnot ((h.relName hrel').push_inj hfile.relName heq ▸ hrel')
  have hkept := kept rel c hfile
  rw [h.files_after] at hkept
  refine ⟨fun f hf => ?_, ?_⟩
  · have hmem : f.relPath ∈ merged := (made.merges f.relPath).mpr (List.mem_map_of_mem hf)
    refine ⟨hdest f.relPath hmem, fun htmp => ?_⟩
    -- the last file that is copied to this name is renamed away from it
    obtain ⟨src, hsrc⟩ := Option.isSome_iff_exists.mp (AList.lookup_isSome.mpr hmem)
    obtain ⟨before, last, after, hsplit, huses, hafter⟩ :=
      exists_last (destKey pf resolved.anchor) (tmpKey pf resolved.anchor)
        ⟨(f.relPath, src), @mem_order env _ _ _ hsrc, .inr htmp⟩
    have hlast : last ∈ env.order merged.files := by
      rw [hsplit]
      simp
    have hother : destKey pf resolved.anchor last ≠ pf.key (push pf.style resolved.anchor rel) :=
      hdest last.1 (AList.lookup_isSome.mp (lookup_of_mem_order hlast ▸ rfl))
    have hgone : swapped pf resolved.anchor m₁.fs.files (env.order merged.files)
        (pf.key (push pf.style resolved.anchor rel)) = none := by
      rw [swapped, hsplit, placeAll_of_last huses hafter, if_neg hother]
    rw [deleted, hgone, ite_self] at hkept
    cases hkept
  · rintro ⟨files, hfound, q, hq, hnames, hk⟩
    by_contra hfree
    have hstale := h.mem_stale_iff.mpr
      ⟨files, hfound, q, hq, fun hmem => hdest _ hmem hk.symm, hnames, hk⟩
    rw [deleted_of_mem hstale (by simpa using hfree)] at hkept
    cases hkept

end EngineRestored

/-- **When a restore leaves the excluded files of a hand-registered game alone**: it is enough
that it has no business with them, and where all names are told apart there is no other way. -/
theorem custom_keepsExcluded_iff {saveRoot : String} {includes excludes : List String}
    (h : EngineRestored fmt g pf dirs games running gameId versionId
      (resolveCustom pf.style saveRoot includes excludes) env m₀ merged chain m₁ m)
    (made : MadeWithout g (resolveCustom pf.style saveRoot includes excludes).excludes merged
      chain target) :
    (SparesExcluded g pf (resolveCustom pf.style saveRoot includes excludes) m₀ target →
      KeepsExcluded g pf (resolveCustom pf.style saveRoot includes excludes) m₀ m) ∧
    (pf.CaseSensitive →
      (KeepsExcluded g pf (resolveCustom pf.style saveRoot includes excludes) m₀ m ↔
        SparesExcluded g pf (resolveCustom pf.style saveRoot includes excludes) m₀ target)) :=
  ⟨h.keepsExcluded_of_spares made, fun sensitive =>
    ⟨h.spares_of_keepsExcluded made sensitive, h.keepsExcluded_of_spares made⟩⟩

end Restore

/-! ## A log among the saves -/

section Example

local instance engineRestoreDigest : Blake3 := plainDigest

/-- A hand-registered game with this include, whose logs are excluded. -/
def loggedGame (glob : String) : ResolvedGame := resolveCustom .unix "/game" [glob] ["*.log"]

/-- A disk with a save that is listed and a log. -/
def loggedComputer : Computer :=
  syncedComputer [(["game", "a.sav"], [1]), (["game", "x.log"], [9])] [("a.sav", [1])]

/-- The archives that are written out as few bytes: the one that is restored, and that of a
pre-restore backup which finds the log. -/
noncomputable def loggedFormat : SavrFormat :=
  tableFormat
    [[("meta.json", [1]), ("files/a.sav", [2])], [("meta.json", [1, 1]), ("files/x.log", [9])]]
    [⟨10, 22, none, .full, [], [], 1⟩,
     ⟨10, 21, some 100, .differential,
      [⟨"a.sav", 1, 0, plainDigest.ofBytes [1]⟩, ⟨"x.log", 1, 0, plainDigest.ofBytes [9]⟩], [], 1⟩]

/-- What a restore of another content of the save prepares, and what it leaves. -/
noncomputable def preparedLogged (glob : String) :
    Except Failure (Merged × List Version) × Computer :=
  prepare loggedFormat segmentGlob linux exampleDirs ((loggedGame glob).request 10 101)
    (oneVersionEnv [("a.sav", [2])]) loggedComputer

/-- A restore of a version with `a.sav`, where the game excludes this glob. -/
noncomputable def restoredLogged (glob : String) : Except Failure PUnit × Computer :=
  Computer.engineRestore loggedFormat segmentGlob linux exampleDirs
    (fun _ => some (loggedGame glob)) (fun _ => false) 10 101 (oneVersionEnv [("a.sav", [2])])
    loggedComputer

theorem loggedGame_anchor (glob : String) : (loggedGame glob).anchor = exampleDir ["game"] := by
  change components .unix (customRoot "/game") = _
  decide

theorem loggedGame_excludes (glob : String) : (loggedGame glob).excludes = ["*.log"] := by
  change ["*.log"].map slashed = _
  decide

section Logged

variable {glob : String} {merged : Merged} {chain : List Version} {target : Version}

/-- What is prepared for the restore of the save. -/
structure LoggedPrepared (glob : String) (merged : Merged) (chain : List Version)
    (target : Version) : Prop where
  prepared : (preparedLogged glob).1 = .ok (merged, chain)
  keys : merged.keys = ["a.sav"]
  last : chain.getLast? = some target
  listed : target.files.map FileEntry.relPath = ["a.sav"]

/-- The example reaches the swap. -/
theorem exists_loggedPrepared (h : (preparedLogged glob).1.toOption.map (fun r => (r.1.keys,
      r.2.getLast?.map fun v => v.files.map FileEntry.relPath))
      = some (["a.sav"], some ["a.sav"])) :
    ∃ merged chain target, LoggedPrepared glob merged chain target := by
  obtain ⟨⟨merged, chain⟩, hprepared, hresult⟩ := exists_ok_of_toOption h
  obtain ⟨hkeys, hlast⟩ := Prod.mk.inj hresult
  obtain ⟨target, htarget, hlisted⟩ := Option.map_eq_some_iff.mp hlast
  exact ⟨merged, chain, target, hprepared, hkeys, htarget, hlisted⟩

/-- The example is a restore of the engine. -/
theorem LoggedPrepared.restored (h : LoggedPrepared glob merged chain target)
    (hreturned : (restoredLogged glob).1 = .ok ⟨⟩) :
    EngineRestored loggedFormat segmentGlob linux exampleDirs (fun _ => some (loggedGame glob))
      (fun _ => false) 10 101 (loggedGame glob) (oneVersionEnv [("a.sav", [2])]) loggedComputer
      merged chain (preparedLogged glob).2 (restoredLogged glob).2 where
  game := rfl
  prepared := eq_mk_of_fst h.prepared
  returned := eq_mk_of_fst hreturned
  scratch := by
    rw [loggedGame_anchor]
    decide +kernel
  blobCache := by
    rw [loggedGame_anchor]
    decide +kernel

/-- The version is what a backup makes of a disk with another content of the save. -/
theorem LoggedPrepared.made (h : LoggedPrepared glob merged chain target) :
    MadeWithout segmentGlob (loggedGame glob).excludes merged chain target where
  last := h.last
  collected := by
    have hcollected : (collect segmentGlob linux ["/game/*"] ["*.log"] (exampleDir ["game"])
        (fun _ => 0) (exampleTree [(["game", "a.sav"], [2]), (["game", "x.log"], [9])])).map
        (fun saves => saves.files.map SaveFile.relPath) = some ["a.sav"] := by decide +kernel
    obtain ⟨saves, hsaves, hpaths⟩ := Option.map_eq_some_iff.mp hcollected
    exact ⟨_, _, _, _, _, saves, hsaves, h.listed.trans hpaths.symm⟩
  merges := by
    intro rel
    rw [AList.mem_keys, h.keys, h.listed]

end Logged

/-- The excluded log. -/
theorem excluded_log (glob : String) :
    ExcludedFile segmentGlob linux (loggedGame glob) loggedComputer "x.log" [9] where
  relName := relName_of_isFileName (by decide)
  onDisk := by
    rw [loggedGame_anchor]
    exact ⟨⟨exampleDir ["game", "x.log"], .file [9]⟩, by decide +kernel, rfl, by decide +kernel⟩
  matched := by
    rw [loggedGame_excludes]
    decide +kernel

/-- The only excluded file. -/
theorem eq_log_of_excluded {glob rel : String} {c : Bytes}
    (h : ExcludedFile segmentGlob linux (loggedGame glob) loggedComputer rel c) :
    rel = "x.log" := by
  have hplaces : ∀ k ∈ loggedComputer.fs.tree.keys, loggedComputer.fs.files k ≠ none →
      k = push .unix (exampleDir ["game"]) "a.sav" ∨
        k = push .unix (exampleDir ["game"]) "x.log" := by
    decide +kernel
  have hfile := h.files
  rw [loggedGame_anchor, Platform.CaseSensitive.key_eq fun _ => rfl] at hfile
  have hplace := hplaces _ (mem_keys_of_nodeAt (Fs.files_eq_some_iff.mp hfile))
    (by rw [hfile]; simp)
  rcases hplace with hsame | hsame
  · -- the save is not excluded
    obtain rfl := h.relName.push_inj (relName_of_isFileName (by decide)) hsame
    have hmatched := h.matched
    rw [loggedGame_excludes] at hmatched
    exact absurd hmatched (by decide +kernel)
  · exact h.relName.push_inj (relName_of_isFileName (by decide)) hsame

/-- A log that the include does not find survives the restore. -/
theorem log_outside_includes_is_kept :
    (restoredLogged "*.sav").1 = .ok ⟨⟩ ∧
    (restoredLogged "*.sav").2.fs.files (exampleDir ["game", "a.sav"]) = some [2] ∧
    (restoredLogged "*.sav").2.fs.files (linux.key
      (push linux.style (loggedGame "*.sav").anchor "x.log")) = some [9] := by
  obtain ⟨merged, chain, target, hlogged⟩ := @exists_loggedPrepared "*.sav" (by decide +kernel)
  have hreturned : (restoredLogged "*.sav").1 = .ok ⟨⟩ := by decide +kernel
  have hspares : SparesExcluded segmentGlob linux (loggedGame "*.sav") loggedComputer target := by
    intro rel c hfile
    obtain rfl := eq_log_of_excluded hfile
    rw [loggedGame_anchor]
    refine ⟨fun f hf => ?_, ?_⟩
    · have hpath : f.relPath = "a.sav" :=
        List.mem_singleton.mp (hlogged.listed ▸ List.mem_map_of_mem hf)
      rw [hpath]
      decide +kernel
    · rintro ⟨files, hfound, f, hf, -, hk⟩
      have honly : found segmentGlob linux (loggedGame "*.sav").patterns loggedComputer.fs.tree =
          some [(exampleDir ["game", "a.sav"], [1])] := by decide +kernel
      obtain rfl := Option.some.inj (honly.symm.trans hfound)
      rw [List.mem_singleton.mp hf, loggedGame_anchor] at hk
      exact absurd hk (by decide +kernel)
  have hkept := (custom_keepsExcluded_iff (hlogged.restored hreturned) hlogged.made).1 hspares
  exact ⟨hreturned, by decide +kernel, hkept "x.log" [9] (excluded_log "*.sav")⟩

/-- A log that the include finds is deleted, though it is excluded and the version was made
without it. -/
theorem excluded_log_is_deleted :
    ∃ merged chain target,
      EngineRestored loggedFormat segmentGlob linux exampleDirs (fun _ => some (loggedGame "*"))
        (fun _ => false) 10 101 (loggedGame "*") (oneVersionEnv [("a.sav", [2])]) loggedComputer
        merged chain (preparedLogged "*").2 (restoredLogged "*").2 ∧
      MadeWithout segmentGlob (loggedGame "*").excludes merged chain target ∧
      ExcludedFile segmentGlob linux (loggedGame "*") loggedComputer "x.log" [9] ∧
      (restoredLogged "*").2.fs.files (exampleDir ["game", "x.log"]) = none ∧
      ¬ KeepsExcluded segmentGlob linux (loggedGame "*") loggedComputer (restoredLogged "*").2 := by
  obtain ⟨merged, chain, target, hlogged⟩ := @exists_loggedPrepared "*" (by decide +kernel)
  have hreturned : (restoredLogged "*").1 = .ok ⟨⟩ := by decide +kernel
  have hgone : (restoredLogged "*").2.fs.files (exampleDir ["game", "x.log"]) = none := by
    decide +kernel
  have hplace : linux.key (push linux.style (exampleDir ["game"]) "x.log") =
      exampleDir ["game", "x.log"] := by decide +kernel
  refine ⟨merged, chain, target, hlogged.restored hreturned, hlogged.made, excluded_log "*",
    hgone, fun hkept => ?_⟩
  have hlog := hkept "x.log" [9] (excluded_log "*")
  rw [loggedGame_anchor, hplace, hgone] at hlog
  cases hlog

end Example

end Savr
