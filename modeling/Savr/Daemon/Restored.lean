import Savr.Core.PathText
import Savr.Daemon.Swap

/-!
# The disk after a restore

What every path holds once `run_restore` has returned, on a file system that tells all names
apart, and what a backup right afterwards makes of it.

The swap writes through temporary names, and these are the only paths with the extension
`savr-restore-tmp` that it uses (`extensionOf_tmpFor`).  A path without it is written as a
merged file or not at all, so the order of the files does not matter.

## Main results

* `Returned.of_merged`, `of_stale`, `of_other` — a path holds its merged content, is deleted, or is
  unchanged.
* `Returned.read_collected` — what a backup collects afterwards are the merged files.
* `restored_exactly` — both, and that the backup has nothing to do.
-/

namespace Savr

open Hoare Placing

/-! ## Extensions -/

/-- `Path::extension` of a file name: what follows its last dot.  A leading dot starts no
extension. -/
def nameExtension (name : String) : Option String :=
  match name.toList.reverse.dropWhile (· ≠ '.') with
  | [] | [_] => none
  | _ => some (String.ofList (name.toList.reverse.takeWhile (· ≠ '.')).reverse)

/-- `Path::extension`. -/
def extensionOf (path : PathBuf) : Option String :=
  match path.getLast? with
  | some (.normal name) => nameExtension name
  | _ => none

section Extensions

variable {style : PathStyle} {name extension rel : String}

/-- The name without its extension is not empty. -/
theorem withExtension_eq (h : FileName style name) : ∃ stem : List Char, stem ≠ [] ∧
    (withExtension name extension).toList = stem ++ '.' :: extension.toList := by
  have hslash : ∀ c ∈ name.toList.reverse, decide (c ≠ '/') = true := by
    intro c hc
    rw [decide_eq_true_eq]
    rintro rfl
    exact h.noSlash (List.mem_reverse.mp hc)
  have htake : name.toList.reverse.takeWhile (· ≠ '/') = name.toList.reverse :=
    List.takeWhile_eq_self_iff.mpr hslash
  have hdrop : name.toList.reverse.dropWhile (· ≠ '/') = [] :=
    List.dropWhile_eq_nil_iff.mpr hslash
  have hne : name.toList.reverse ≠ [] := by
    simpa using toList_ne_nil h.ne_empty
  rw [withExtension, String.toList_ofList, htake, hdrop]
  rw [List.append_nil]
  refine ⟨_, ?_, rfl⟩
  rw [ne_eq, List.reverse_eq_nil_iff]
  split
  · exact hne
  · exact hne
  · rename_i hnot _
    rintro rfl
    exact hnot rfl

/-- The new extension is read back. -/
theorem nameExtension_withExtension (h : FileName style name) (hdot : '.' ∉ extension.toList) :
    nameExtension (withExtension name extension) = some extension := by
  obtain ⟨stem, hstem, heq⟩ := @withExtension_eq style name extension h
  have hreverse : (withExtension name extension).toList.reverse =
      extension.toList.reverse ++ '.' :: stem.reverse := by
    rw [heq]
    simp
  have hext : ∀ c ∈ extension.toList.reverse, decide (c ≠ '.') = true := by
    intro c hc
    rw [decide_eq_true_eq]
    rintro rfl
    exact hdot (List.mem_reverse.mp hc)
  have htake : (withExtension name extension).toList.reverse.takeWhile (· ≠ '.') =
      extension.toList.reverse := by
    rw [hreverse, List.takeWhile_append_of_pos hext]
    simp
  have hdrop : (withExtension name extension).toList.reverse.dropWhile (· ≠ '.') =
      '.' :: stem.reverse := by
    rw [hreverse, List.dropWhile_append_of_pos hext]
    simp
  rw [nameExtension, hdrop, htake, List.reverse_reverse, String.ofList_toList]
  cases hcases : stem.reverse with
  | nil => exact absurd (List.reverse_eq_nil_iff.mp hcases) hstem
  | cons c rest => rfl

/-- The temporary name of a file has the extension of temporary names. -/
theorem extensionOf_tmpFor (h : RelName style rel) (anchor : PathBuf) :
    extensionOf (tmpFor (push style anchor rel)) = some "savr-restore-tmp" := by
  obtain ⟨names, hne, hnames, hread⟩ := components_relName h
  obtain ⟨front, last, rfl⟩ := (List.eq_nil_or_concat' names).resolve_left hne
  have hlast : FileName style last := hnames last (by simp)
  rw [h.push_eq, hread, List.map_append, ← List.append_assoc, List.map_singleton, tmpFor_append,
    extensionOf, List.getLast?_concat]
  exact nameExtension_withExtension hlast (by decide)

end Extensions

/-! ## Relative names -/

section RelNames

variable {style : PathStyle} {rel other : String} {anchor : PathBuf}

/-- Different relative names are different places. -/
theorem RelName.push_inj (h : RelName style rel) (hother : RelName style other)
    (heq : push style anchor rel = push style anchor other) : rel = other := by
  rw [h.push_eq, hother.push_eq, List.append_cancel_left_eq] at heq
  obtain ⟨names, -, hnames, rfl⟩ := h
  obtain ⟨names', -, hnames', rfl⟩ := hother
  rw [components_joined hnames, components_joined hnames'] at heq
  have hsame : names = names' :=
    List.map_injective_iff.mpr (fun _ _ => Component.normal.inj) heq
  rw [hsame]

/-- A relative name is read back from its place. -/
theorem RelName.relPath_push (h : RelName style rel) (anchor : PathBuf) :
    relPath style (push style anchor rel) anchor = rel := by
  rw [h.push_eq]
  obtain ⟨names, -, hnames, rfl⟩ := h
  rw [components_joined hnames, relPath_names]

theorem relName_of_isFileName {name : String} (h : isFileName style name = true) :
    RelName style name :=
  ⟨[name], List.cons_ne_nil _ _, by simpa using isFileName_iff.mp h, rfl⟩

theorem RelName.namesFiles (h : RelName style rel) :
    namesFiles style (components style rel) := by
  obtain ⟨names, -, hnames, hread⟩ := components_relName h
  rw [hread, Savr.namesFiles, List.all_map, List.all_eq_true]
  exact fun name hname => isFileName_iff.mpr (hnames name hname)

/-- What a walk finds, where all names are told apart. -/
theorem mem_walkRel {pf : Platform} {t : Tree} {dir : PathBuf} {hidden : String → Bool}
    (sensitive : pf.CaseSensitive) (spelled : t.Spelled pf) :
    rel ∈ walkRel pf t dir hidden ↔ RelName pf.style rel ∧ hidden rel = false ∧
      ∃ c, t.nodeAt (push pf.style dir rel) = some (.file c) := by
  constructor
  · intro hrel
    have hname := relName_of_mem_walkRel hrel
    obtain ⟨hmem, hseen⟩ := List.mem_filter.mp hrel
    obtain ⟨⟨q, c⟩, hf, rfl⟩ := List.mem_map.mp hmem
    obtain ⟨rest, rfl, hnames, hnode⟩ :=
      (mem_filesBelow_iff sensitive spelled).mp (List.mem_of_mem_filter hf)
    obtain ⟨names, rfl, hfile⟩ := names_of_namesFiles hnames
    refine ⟨hname, by simpa using hseen, c, ?_⟩
    rw [hname.push_eq, relPath_names, components_joined hfile]
    exact hnode
  · rintro ⟨hrel, hseen, c, hnode⟩
    have hmem : (push pf.style dir rel, c) ∈ filesBelow pf t dir :=
      (mem_filesBelow_iff sensitive spelled).mpr
        ⟨components pf.style rel, hrel.push_eq dir, hrel.namesFiles, hnode⟩
    rw [walkRel, List.mem_filter, List.mem_map]
    refine ⟨⟨_, List.mem_filter.mpr ⟨hmem, ?_⟩, hrel.relPath_push dir⟩, by simp [hseen]⟩
    simpa using (hrel.push_ne dir).1

end RelNames

/-! ## After a restore -/

section Restored

variable [Blake3] {fmt : SavrFormat} {g : GlobCrate} {pf : Platform} {dirs : DataDirs}
  {req : RestoreRequest} {env : RestoreEnv} {merged : Merged} {chain : List Version}
  {matching : String → PathBuf → Prop} {m₀ m₁ m : Computer} {p q : PathBuf}

/-- The files of a disk have absolute paths. -/
def Tree.OnDisk (style : PathStyle) (t : Tree) : Prop :=
  ∀ k c, t.nodeAt k = some (.file c) → DiskPath style k

/-- The `rel_path` of the file leads back to it, as the path of a file. -/
structure RestoreRequest.Names (style : PathStyle) (req : RestoreRequest) (q : PathBuf) : Prop where
  file : namesFile style (relPath style q req.anchor) = true
  place : push style req.anchor (relPath style q req.anchor) = q

/-- The path is in the stored snapshot. -/
def Computer.Lists (style : PathStyle) (req : RestoreRequest) (m : Computer) (p : PathBuf) :
    Prop :=
  ∃ snap, m.device.state.snapshots req.gameId = some snap ∧
    ∃ f ∈ snap.files, push style req.anchor f.relPath = p

/-- The path is in the merged chain. -/
def Merged.Has (style : PathStyle) (req : RestoreRequest) (merged : Merged) (p : PathBuf) : Prop :=
  ∃ rel ∈ merged, push style req.anchor rel = p

/-- The restore does not use the path for itself: it is not in the scratch directory or in the
blob cache, and has not the extension of temporary names. -/
structure DataDirs.Free (dirs : DataDirs) (p : PathBuf) : Prop where
  scratch : ¬ Below dirs.scratch p
  blobCache : ¬ Below dirs.blobCache p
  extension : extensionOf p ≠ some "savr-restore-tmp"

/-- A restore that returned, on a file system that tells all names apart: the states before it,
right before the swap, and after it. -/
structure Returned (fmt : SavrFormat) (g : GlobCrate) (pf : Platform) (dirs : DataDirs)
    (req : RestoreRequest) (env : RestoreEnv) (matching : String → PathBuf → Prop)
    (m₀ : Computer) (merged : Merged) (chain : List Version) (m₁ m : Computer) : Prop where
  sensitive : pf.CaseSensitive
  spelled : m₀.fs.tree.Spelled pf
  onDisk : m₀.fs.tree.OnDisk pf.style
  /-- The anchor is a path, on the disk or not. -/
  anchor : ∃ text, components pf.style text = req.anchor
  lawful : g.Lawful matching
  prepared : prepare fmt g pf dirs req env m₀ = (.ok (merged, chain), m₁)
  returned : ∃ gameRunning,
    Computer.runRestore fmt g pf dirs req gameRunning env m₀ = (.ok ⟨⟩, m)
  undisturbed : Undisturbed pf req.anchor merged.files

namespace Returned

/-- A restore that returns has prepared and finished. -/
theorem before_swap (h : Returned fmt g pf dirs req env matching m₀ merged chain m₁ m) :
    Prepared g pf dirs req env m₀ merged m₁ ∧ Finished pf req env merged chain m₁ m := by
  obtain ⟨gameRunning, hrun⟩ := h.returned
  obtain ⟨-, merged', chain', m₁', hprepare, hprepared, hfinish⟩ := runRestore_ok hrun
  obtain ⟨⟨rfl, rfl⟩, rfl⟩ : (merged = merged' ∧ chain = chain') ∧ m₁ = m₁' := by
    have := h.prepared
    rw [hprepare] at this
    simpa [eq_comm] using this
  have horder : ∀ f, f ∈ env.order merged.files ↔ f ∈ merged.files :=
    fun f => (env.order_perm merged.files).mem_iff
  have hundisturbed : Undisturbed pf req.anchor (env.order merged.files) := fun f hf f' hf' =>
    h.undisturbed f ((horder f).mp hf) f' ((horder f').mp hf')
  exact ⟨hprepared, (finish_spec hundisturbed).ok rfl hfinish⟩

variable (h : Returned fmt g pf dirs req env matching m₀ merged chain m₁ m)

include h

theorem relName {rel : String} (hrel : rel ∈ merged) : RelName pf.style rel := by
  obtain ⟨src, hsrc⟩ := Option.isSome_iff_exists.mp (AList.lookup_isSome.mpr hrel)
  exact (h.before_swap.1.staged rel src hsrc).1

/-- What a path outside of the directories of the daemon holds is the same before the swap. -/
theorem files_before (hscratch : ¬ Below dirs.scratch p) (hcache : ¬ Below dirs.blobCache p) :
    m₁.fs.files p = m₀.fs.files p := by
  refine Fs.Confined.files h.before_swap.1.confined ?_
  intro q hq heq
  rw [h.sensitive.key_eq] at heq
  subst heq
  exact hq.elim hscratch hcache

/-- The snapshot that is current before the swap lists the covered files on disk, by their
`rel_path`s. -/
theorem lists_iff {rel : String} :
    (∃ snap, m₁.device.state.snapshots req.gameId = some snap ∧
      ∃ f ∈ snap.files, f.relPath = rel) ↔
    ∃ q c, Covers matching pf.style req.patterns q ∧ m₀.fs.tree.nodeAt q = some (.file c) ∧
      relPath pf.style q req.anchor = rel := by
  obtain ⟨saves, snap, hsaves, hsnap, hmap⟩ := h.before_swap.1.listed
  obtain ⟨files, hfound, rfl⟩ := Option.map_eq_some_iff.mp hsaves
  have hlisted : (∃ f ∈ snap.files, f.relPath = rel) ↔ rel ∈ (SaveSet.ofFound g pf [] req.anchor
      env.backup.mtime files).files.map SaveFile.relPath := by
    rw [← List.mem_map, ← not_iff_not, ← fileMap_eq_none_iff, hmap, fileMap_eq_none_iff,
      List.map_map]
    rfl
  have hcurrent : (∃ snap', m₁.device.state.snapshots req.gameId = some snap' ∧
      ∃ f ∈ snap'.files, f.relPath = rel) ↔ ∃ f ∈ snap.files, f.relPath = rel := by
    rw [hsnap]
    simp
  rw [hcurrent, hlisted, mem_relPaths_ofFound]
  constructor
  · rintro ⟨-, f, hf, rfl⟩
    obtain ⟨hcovers, hnode⟩ := (mem_found h.lawful h.sensitive h.spelled hfound).mp hf
    exact ⟨f.1, f.2, hcovers, hnode, rfl⟩
  · rintro ⟨q, c, hcovers, hnode, rfl⟩
    exact ⟨by simp [excluded], (q, c),
      (mem_found h.lawful h.sensitive h.spelled hfound).mpr ⟨hcovers, hnode⟩, rfl⟩

/-- Below the anchor a listed path is the path of the file that is listed. -/
theorem of_listed {snap : StoredSnapshot} {f : FileEntry}
    (hsnap : m₁.device.state.snapshots req.gameId = some snap) (hf : f ∈ snap.files)
    (hplace : push pf.style req.anchor f.relPath = p) (hbelow : Below req.anchor p) :
    RelName pf.style f.relPath ∧ relPath pf.style p req.anchor = f.relPath := by
  obtain ⟨q, c, -, hnode, hrel⟩ := h.lists_iff.mp ⟨snap, hsnap, f, hf, rfl⟩
  obtain ⟨text, htext⟩ := h.anchor
  obtain ⟨names, hne, rfl⟩ := hbelow
  rw [← hrel, ← htext] at hplace
  obtain ⟨hq, hnames⟩ := (h.onDisk q c hnode).eq_of_push hplace
  rw [htext] at hq
  rw [hq, relPath_names] at hrel
  rw [relPath_names]
  exact ⟨⟨names, hne, hnames, hrel.symm⟩, hrel⟩

/-- What is deleted below the anchor is listed and not in the chain. -/
theorem mem_stale_iff (hbelow : Below req.anchor p) :
    p ∈ staleKeys pf req.anchor merged (m₁.device.state.snapshots req.gameId) ↔
      m₁.Lists pf.style req p ∧ ¬ merged.Has pf.style req p := by
  rw [mem_staleKeys]
  constructor
  · rintro ⟨snap, hsnap, f, hf, hnot, -, hp⟩
    rw [h.sensitive.key_eq] at hp
    refine ⟨⟨snap, hsnap, f, hf, hp.symm⟩, ?_⟩
    rintro ⟨rel, hrel, heq⟩
    have hread := (h.of_listed hsnap hf hp.symm hbelow).2
    rw [← heq, (h.relName hrel).relPath_push] at hread
    exact hnot (hread ▸ hrel)
  · rintro ⟨⟨snap, hsnap, f, hf, hp⟩, hnot⟩
    refine ⟨snap, hsnap, f, hf, fun hmem => hnot ⟨f.relPath, hmem, hp⟩,
      (h.of_listed hsnap hf hp hbelow).1.namesFile, ?_⟩
    rw [h.sensitive.key_eq, hp]

theorem files_after : m.fs.files = deleted
    (swapped pf req.anchor m₁.fs.files (env.order merged.files)) m₀.fs.locked
    (staleKeys pf req.anchor merged (m₁.device.state.snapshots req.gameId)) := by
  rw [h.before_swap.2.files, h.before_swap.1.confined.locked]

theorem destKey_eq (f : String × PathBuf) :
    destKey pf req.anchor f = push pf.style req.anchor f.1 := h.sensitive.key_eq _

/-- No temporary copy is where a path without their extension is. -/
theorem tmpKey_ne {f : String × PathBuf} (hf : f ∈ env.order merged.files)
    (hp : extensionOf p ≠ some "savr-restore-tmp") : tmpKey pf req.anchor f ≠ p := by
  rintro rfl
  have hrel : f.1 ∈ merged := AList.lookup_isSome.mp (lookup_of_mem_order hf ▸ rfl)
  rw [tmpKey, h.sensitive.key_eq] at hp
  exact hp (extensionOf_tmpFor (h.relName hrel) req.anchor)

/-- **A merged file is in place** with the content it was staged with. -/
theorem of_merged {rel : String} {src : PathBuf} (hlookup : merged.lookup rel = some src)
    (hp : extensionOf (push pf.style req.anchor rel) ≠ some "savr-restore-tmp") :
    ∃ c, m₁.fs.files src = some c ∧ m.fs.files (push pf.style req.anchor rel) = some c := by
  have hrel : rel ∈ merged := AList.lookup_isSome.mp (hlookup ▸ rfl)
  obtain ⟨c, hc⟩ := h.before_swap.2.readable (rel, src) (mem_files_iff.mpr hlookup)
  rw [h.sensitive.key_eq] at hc
  have hmem : ∀ f ∈ env.order merged.files, f.1 ∈ merged := fun f hf =>
    AList.lookup_isSome.mp (lookup_of_mem_order hf ▸ rfl)
  have hswapped : swapped pf req.anchor m₁.fs.files (env.order merged.files)
      (push pf.style req.anchor rel) = some c := by
    rw [swapped, ← h.destKey_eq (rel, src), placeAll_of_mem (mem_order hlookup), stagedContent,
      h.sensitive.key_eq, hc]
    · intro f hf heq
      rw [h.destKey_eq, h.destKey_eq] at heq
      have hsame := (h.relName (hmem f hf)).push_inj (h.relName hrel) heq
      have hlookup' := lookup_of_mem_order hf
      rw [hsame, hlookup] at hlookup'
      exact Prod.ext hsame (Option.some.inj hlookup').symm
    · intro f hf heq
      rw [h.destKey_eq] at heq
      exact absurd heq (h.tmpKey_ne hf hp)
  refine ⟨c, hc, ?_⟩
  rw [h.files_after, deleted_of_not_mem, hswapped]
  rw [h.mem_stale_iff ((h.relName hrel).below_push req.anchor)]
  exact fun hstale => hstale.2 ⟨rel, hrel, rfl⟩

/-- A path that is not in the chain is not written. -/
theorem not_written (hnot : ¬ merged.Has pf.style req p) :
    ∀ f ∈ env.order merged.files, destKey pf req.anchor f ≠ p := by
  intro f hf heq
  rw [h.destKey_eq] at heq
  exact hnot ⟨f.1, AList.lookup_isSome.mp (lookup_of_mem_order hf ▸ rfl), heq⟩

/-- **A listed path that the chain does not have is deleted**, if it can be. -/
theorem of_stale (hbelow : Below req.anchor p) (hnot : ¬ merged.Has pf.style req p)
    (hlists : m₁.Lists pf.style req p) (hfree : m₀.fs.locked p = false) :
    m.fs.files p = none := by
  rw [h.files_after, deleted_of_mem ((h.mem_stale_iff hbelow).mpr ⟨hlists, hnot⟩) hfree]

/-- **Every other path is unchanged.** -/
theorem of_other (hbelow : Below req.anchor p) (hp : dirs.Free p)
    (hnot : ¬ merged.Has pf.style req p)
    (hkept : ¬ m₁.Lists pf.style req p ∨ m₀.fs.locked p = true) :
    m.fs.files p = m₀.fs.files p := by
  have hswapped : swapped pf req.anchor m₁.fs.files (env.order merged.files) p = m₀.fs.files p := by
    rw [swapped, placeAll_of_untouched, h.files_before hp.scratch hp.blobCache]
    intro f hf huses
    exact huses.elim (h.not_written hnot f hf) (h.tmpKey_ne hf hp.extension)
  rw [h.files_after]
  rcases hkept with hlists | hlocked
  · rw [deleted_of_not_mem fun hmem => hlists ((h.mem_stale_iff hbelow).mp hmem).1, hswapped]
  · rw [deleted_of_locked hlocked, hswapped]

/-- No file appears outside of the chain and of the directories of the daemon. -/
theorem of_absent (hscratch : ¬ Below dirs.scratch p) (hcache : ¬ Below dirs.blobCache p)
    (hnot : ¬ merged.Has pf.style req p) (habsent : m₀.fs.files p = none) :
    m.fs.files p = none := by
  have hswapped : swapped pf req.anchor m₁.fs.files (env.order merged.files) p = none :=
    placeAll_eq_none (h.not_written hnot) (by rw [h.files_before hscratch hcache, habsent])
  rw [h.files_after, deleted]
  split_ifs
  · rfl
  · exact hswapped

/-- It keeps the names as they are spelled. -/
theorem spelled_after : m.fs.tree.Spelled pf := by
  obtain ⟨hprepared, -⟩ := h.before_swap
  obtain ⟨gameRunning, hrun⟩ := h.returned
  obtain ⟨-, merged', chain', m₁', hprepare, -, hfinish⟩ := runRestore_ok hrun
  rw [h.prepared] at hprepare
  obtain ⟨⟨rfl, rfl⟩, rfl⟩ : (merged = merged' ∧ chain = chain') ∧ m₁ = m₁' := by
    simpa using hprepare
  have hconfined : m₁.Confined pf (fun _ => True) (finish pf req env merged chain m₁).2 := by
    exact finish_confined_of (fun _ _ => trivial) (fun rel hrel => h.relName hrel)
      fun _ _ _ _ _ => trivial
  rw [hfinish] at hconfined
  exact hconfined.spelled (hprepared.confined.spelled h.spelled)

end Returned

/-- The chain merges to what its target declares, the patterns cover what is restored, and none of
the covered files, restored or on the disk, has a temporary name. -/
structure Declares (pf : Platform) (req : RestoreRequest) (matching : String → PathBuf → Prop)
    (m₀ : Computer) (merged : Merged) (chain : List Version) (m₁ : Computer) : Prop where
  declared : ∀ target, chain.getLast? = some target → ∀ rel,
    fileMap target.files rel = ((merged.lookup rel).bind m₁.fs.files).map Blake3.ofBytes
  covered : ∀ rel ∈ merged, Covers matching pf.style req.patterns (push pf.style req.anchor rel)
  extension : ∀ q, Covers matching pf.style req.patterns q →
    merged.Has pf.style req q ∨ (∃ c, m₀.fs.files q = some c) →
      extensionOf q ≠ some "savr-restore-tmp"

/-- The restore replaces everything that the patterns cover: what they cover is apart from the
directories of the daemon, and can be removed by its `rel_path` where it is not restored. -/
structure Replaces (pf : Platform) (dirs : DataDirs) (req : RestoreRequest)
    (matching : String → PathBuf → Prop) (m₀ : Computer) (merged : Merged)
    (chain : List Version) (m₁ : Computer) : Prop
    extends Declares pf req matching m₀ merged chain m₁ where
  apart : ∀ q, Covers matching pf.style req.patterns q →
    ¬ Below dirs.scratch q ∧ ¬ Below dirs.blobCache q
  removable : ∀ q, Covers matching pf.style req.patterns q → ¬ merged.Has pf.style req q →
    (∃ c, m₀.fs.files q = some c) → m₀.fs.locked q = false ∧ req.Names pf.style q

namespace Returned

variable (h : Returned fmt g pf dirs req env matching m₀ merged chain m₁ m)

include h

/-- No covered file is left that the chain does not have. -/
theorem gone (replaces : Replaces pf dirs req matching m₀ merged chain m₁)
    (hcovers : Covers matching pf.style req.patterns p) (hnot : ¬ merged.Has pf.style req p) :
    m.fs.files p = none := by
  obtain ⟨hscratch, hcache⟩ := replaces.apart p hcovers
  cases hfile : m₀.fs.files p with
  | none => exact h.of_absent hscratch hcache hnot hfile
  | some c =>
      obtain ⟨hfree, hnames⟩ := replaces.removable p hcovers hnot ⟨c, hfile⟩
      obtain ⟨snap, hsnap, f, hf, hpath⟩ :=
        h.lists_iff.mpr ⟨p, c, hcovers, Fs.files_eq_some_iff.mp hfile, rfl⟩
      have hmissing : f.relPath ∉ merged := fun hmem =>
        hnot ⟨f.relPath, hmem, by rw [hpath, hnames.place]⟩
      rw [h.files_after, deleted_of_mem _ hfree]
      refine mem_staleKeys.mpr ⟨snap, hsnap, f, hf, hmissing, hpath ▸ hnames.file, ?_⟩
      rw [h.sensitive.key_eq, hpath, hnames.place]

/-- **What a backup collects afterwards** are the merged files. -/
theorem read_collected (replaces : Replaces pf dirs req matching m₀ merged chain m₁)
    {mtime : PathBuf → ℤ} {saves : SaveSet}
    (hsaves : collect g pf req.patterns [] req.anchor mtime m.fs.tree = some saves)
    (rel : String) : saves.read rel = (merged.lookup rel).bind m₁.fs.files := by
  obtain ⟨files, hfound, rfl⟩ := Option.map_eq_some_iff.mp hsaves
  -- everything that is found is in the chain, and has its name there
  have hmerged : ∀ q c, (q, c) ∈ files → relPath pf.style q req.anchor ∈ merged ∧
      push pf.style req.anchor (relPath pf.style q req.anchor) = q ∧ m.fs.files q = some c := by
    intro q c hq
    obtain ⟨hcovers, hnode⟩ := (mem_found h.lawful h.sensitive h.spelled_after hfound).mp hq
    have hfile := Fs.files_eq_some_iff.mpr hnode
    by_cases hhas : merged.Has pf.style req q
    · obtain ⟨rel, hrel, rfl⟩ := hhas
      rw [(h.relName hrel).relPath_push]
      exact ⟨hrel, rfl, hfile⟩
    · rw [h.gone replaces hcovers hhas] at hfile
      cases hfile
  have hread : ∀ c, (SaveSet.ofFound g pf [] req.anchor mtime files).read rel = some c ↔
      rel ∈ merged ∧ m.fs.files (push pf.style req.anchor rel) = some c := by
    intro c
    constructor
    · intro hsome
      obtain ⟨-, q, hq, rfl⟩ := of_read_ofFound hsome
      obtain ⟨hrel, hplace, hfile⟩ := hmerged q c hq
      exact ⟨hrel, hplace.symm ▸ hfile⟩
    · rintro ⟨hrel, hfile⟩
      have hmem := (mem_found h.lawful h.sensitive h.spelled_after hfound).mpr
        ⟨replaces.covered rel hrel, Fs.files_eq_some_iff.mp hfile⟩
      have hread := @read_ofFound_of_mem g pf [] req.anchor _ mtime c files hmem
      rw [(h.relName hrel).relPath_push] at hread
      refine hread (by simp [excluded]) fun f hf heq => ?_
      obtain ⟨-, hplace, hfile'⟩ := hmerged f.1 f.2 hf
      rw [← hplace, heq, hfile] at hfile'
      exact (Option.some.inj hfile').symm
  cases hlookup : merged.lookup rel with
  | some src =>
      have hrel : rel ∈ merged := AList.lookup_isSome.mp (hlookup ▸ rfl)
      obtain ⟨c, hc, hfile⟩ := h.of_merged hlookup
        (replaces.extension _ (replaces.covered rel hrel) (.inl ⟨rel, hrel, rfl⟩))
      rw [Option.bind_some, hc]
      exact (hread c).mpr ⟨hrel, hfile⟩
  | none =>
      rw [Option.bind_none]
      cases hsome : (SaveSet.ofFound g pf [] req.anchor mtime files).read rel with
      | none => rfl
      | some c =>
          have hrel := ((hread c).mp hsome).1
          rw [← AList.lookup_isSome, hlookup] at hrel
          cases hrel

end Returned

/-! ## The backup afterwards -/

/-- The machine grants everything to come. -/
def Fs.Granting (s : Fs) : Prop := ∀ fate ∈ s.fates, fate = .granted

omit [Blake3] in
/-- A granting machine grants the next operation. -/
theorem nextFate_granting {s : Fs} (hs : s.Granting) :
    ∃ fates, nextFate s = (.ok .granted, { s with fates }) ∧
      Fs.Granting { s with fates } := by
  obtain ⟨tree, touched, fates, locked⟩ := s
  cases fates with
  | nil => exact ⟨[], rfl, hs⟩
  | cons fate fates =>
      obtain ⟨rfl, hrest⟩ := List.forall_mem_cons.mp hs
      exact ⟨fates, rfl, hrest⟩

omit [Blake3] in
theorem disk_run {α : Type} {c : Io α} {m : Computer} {r : Except Failure α} {s : Fs}
    (hrun : c m.fs = (r, s)) : disk c m = (r, { m with fs := s }) := by
  change ((c m.fs).1, { m with fs := (c m.fs).2 }) = _
  rw [hrun]

omit [Blake3] in
/-- On a granting machine a snapshot collects what is there. -/
theorem snapshotBuild_granting {job : SaveJob} {mtime : PathBuf → ℤ} {s : Fs} {saves : SaveSet}
    (hs : s.Granting)
    (hsaves : collect g pf job.patterns job.excludes job.anchor mtime s.tree = some saves) :
    ∃ fates, snapshotBuild g pf job mtime s = (.ok saves, { s with fates }) ∧
      Fs.Granting { s with fates } := by
  obtain ⟨fates, hfate, hgranting⟩ := nextFate_granting hs
  refine ⟨fates, ?_, hgranting⟩
  rw [snapshotBuild, bind_of_ok hfate, get_bind, if_pos rfl]
  dsimp only
  rw [hsaves]
  rfl

omit [Blake3] in
theorem load_granting {m : Computer} (hm : m.fs.Granting) :
    ∃ fates, load m = (.ok m.device, { m with fs := { m.fs with fates } }) := by
  obtain ⟨fates, hfate, -⟩ := nextFate_granting hm
  refine ⟨fates, ?_⟩
  rw [load, bind_of_ok (disk_run hfate), get_bind, if_pos rfl]
  rfl

/-- A backup that finds the files of the stored snapshot changes nothing. -/
theorem runBackup_of_same {job : SaveJob} {denv : DiskEnv} {m : Computer} {saves : SaveSet}
    {snap : StoredSnapshot} (cache : PathBuf) (hm : m.fs.Granting)
    (hkeys : job.registryKeys = [])
    (hsaves : collect g pf job.patterns job.excludes job.anchor denv.mtime m.fs.tree = some saves)
    (hsnap : m.device.state.snapshots job.gameId = some snap)
    (hsame : fileMap snap.files = fileMap (saves.files.map SaveFile.entry)) :
    ∃ fates, Computer.runBackup fmt g pf cache job denv m =
      (.ok .noChange, { m with fs := { m.fs with fates } }) := by
  rw [Computer.runBackup]
  split_ifs
  · exact ⟨m.fs.fates, rfl⟩
  · obtain ⟨fates, hbuild, hgranting⟩ := snapshotBuild_granting hm hsaves
    obtain ⟨fates', hload⟩ := @load_granting { m with fs := { m.fs with fates } } hgranting
    have hpack : packBackup m.device job.toBackupJob { denv.draws with saves } = none :=
      packBackup_eq_none_iff.mpr (.inr ⟨hkeys, snap, hsnap, hsame⟩)
    refine ⟨fates', ?_⟩
    rw [bind_of_ok (disk_run hbuild), bind_of_ok hload]
    dsimp only
    rw [hpack]
    rfl

/-- **A restore writes exactly the target.**  Every path below the anchor that the restore does
not use for itself holds its merged content, is deleted or is unchanged; and where the chain
merges to what its target declares and the restore replaces all that the patterns cover, a backup
right afterwards finds nothing to do. -/
theorem restored_exactly
    (h : Returned fmt g pf dirs req env matching m₀ merged chain m₁ m) :
    (∀ p, Below req.anchor p → dirs.Free p →
      (∀ rel src, merged.lookup rel = some src → push pf.style req.anchor rel = p →
        ∃ c, m₁.fs.files src = some c ∧ m.fs.files p = some c) ∧
      (¬ merged.Has pf.style req p → m₁.Lists pf.style req p → m₀.fs.locked p = false →
        m.fs.files p = none) ∧
      (¬ merged.Has pf.style req p → ¬ m₁.Lists pf.style req p ∨ m₀.fs.locked p = true →
        m.fs.files p = m₀.fs.files p)) ∧
    (Replaces pf dirs req matching m₀ merged chain m₁ → req.registryKeys = [] →
      m.fs.Granting → ∀ denv, ∃ fates,
        Computer.runBackup fmt g pf dirs.blobCache req.preJob denv m =
          (.ok .noChange, { m with fs := { m.fs with fates } })) := by
  refine ⟨fun p hbelow hp => ⟨?_, h.of_stale hbelow, h.of_other hbelow hp⟩,
    fun replaces hkeys hm denv => ?_⟩
  · rintro rel src hlookup rfl
    exact h.of_merged hlookup hp.extension
  · obtain ⟨target, hlast, hdevice⟩ := h.before_swap.2.recorded
    obtain ⟨saves₀, -, hsaves₀, -⟩ := h.before_swap.1.listed
    obtain ⟨files₀, hfound₀, -⟩ := Option.map_eq_some_iff.mp hsaves₀
    obtain ⟨files, hfound⟩ := exists_found h.lawful hfound₀ m.fs.tree
    have hsaves : collect g pf req.patterns [] req.anchor denv.mtime m.fs.tree =
        some (.ofFound g pf [] req.anchor denv.mtime files) := by
      rw [collect, hfound, Option.map_some]
    have hsnap : m.device.state.snapshots req.gameId =
        some ⟨target.files, target.createdAt, some target.id⟩ := by
      rw [hdevice]
      simp [Write.apply, LocalState.putSnapshot]
    refine runBackup_of_same dirs.blobCache hm hkeys hsaves hsnap (funext fun rel => ?_)
    rw [replaces.declared target hlast, SaveSet.fileMap_entries,
      h.read_collected replaces hsaves]

end Restored

/-! ## Restores on a small disk -/

section Example

local instance restoredDigest : Blake3 := plainDigest

theorem spelled_exampleTree (files : List (List String × Bytes)) :
    (exampleTree files).Spelled linux := by
  rw [exampleTree]
  refine List.foldlRecOn files _ (fun k entry hlookup => by cases hlookup) ?_
  intro t ht f _
  refine Tree.Spelled.put ?_ _ _
  exact List.foldlRecOn _ _ ht fun t ht p _ => ht.put p .dir

/-- How the paths of a closed example are checked. -/
theorem onDisk_of_keys {t : Tree}
    (h : ∀ k ∈ t.keys, k.head? = some .rootDir ∧ namesFiles .unix k.tail) : t.OnDisk .unix := by
  intro k c hnode
  obtain ⟨hhead, hnames⟩ := h k (mem_keys_of_nodeAt hnode)
  obtain ⟨names, htail, hfile⟩ := names_of_namesFiles hnames
  refine ⟨[], [.rootDir], names, .unix, hfile, ?_⟩
  rw [← htail]
  exact (List.cons_head?_tail hhead).symm

/-- What `segmentGlob` matches. -/
def segmentMatching (p : String) (q : PathBuf) : Prop :=
  (matchesPath (components .unix p) q && properPath q) = true

/-- The request for the saves covers what is below `/game`. -/
theorem below_of_covers {q : PathBuf}
    (h : Covers segmentMatching .unix gameRequest.patterns q) : Below (exampleDir ["game"]) q := by
  obtain ⟨p, hp, path, rest, rfl, hmatches, hrest⟩ := h
  obtain rfl := List.mem_singleton.mp hp
  obtain ⟨name, -, rfl⟩ := gameRequest_covers hmatches
  obtain ⟨names, rfl, -⟩ := names_of_namesFiles hrest
  exact ⟨name :: names, List.cons_ne_nil _ _, by simp⟩

/-- The saves are apart from the directories of the daemon. -/
theorem apart_of_below_game {q : PathBuf} (h : Below (exampleDir ["game"]) q) :
    ¬ Below exampleDirs.scratch q ∧ ¬ Below exampleDirs.blobCache q := by
  have hother : ∀ dir : PathBuf, dir.length = 2 → dir ≠ exampleDir ["game"] → ¬ Below dir q := by
    intro dir hlength hne hdir
    have hsame := (List.prefix_of_prefix_length_le hdir.isPrefix h.isPrefix
      (by rw [hlength]; rfl)).eq_of_length (by rw [hlength]; rfl)
    exact hne hsame
  exact ⟨hother _ rfl (by decide), hother _ rfl (by decide)⟩

theorem place_save : push .unix gameRequest.anchor "save" = exampleDir ["game", "save"] := by
  decide

/-- The inputs of a restore that returns on a system that tells all names apart. -/
structure LinuxRestore where
  fmt : SavrFormat
  dirs : DataDirs
  req : RestoreRequest
  env : RestoreEnv
  start : Computer
  returned : (Computer.runRestore fmt segmentGlob linux dirs req false env start).1 = .ok ⟨⟩

namespace LinuxRestore

/-- The restore up to the swap. -/
noncomputable def prepared (r : LinuxRestore) : Except Failure (Merged × List Version) × Computer :=
  prepare r.fmt segmentGlob linux r.dirs r.req r.env r.start

/-- The whole restore. -/
noncomputable def restored (r : LinuxRestore) : Except Failure PUnit × Computer :=
  Computer.runRestore r.fmt segmentGlob linux r.dirs r.req false r.env r.start

/-- The backup right afterwards. -/
noncomputable def backedUp (r : LinuxRestore) : Except Failure BackupOutcome × Computer :=
  Computer.runBackup r.fmt segmentGlob linux r.dirs.blobCache r.req.preJob r.env.backup r.restored.2

/-- The restore gets to its end, with these merged files. -/
def Returns (r : LinuxRestore) (merged : Merged) (chain : List Version) : Prop :=
  Returned r.fmt segmentGlob linux r.dirs r.req r.env segmentMatching r.start merged chain
    r.prepared.2 r.restored.2

/-- The chain is merged to the file `save` with this content, which is staged here. -/
structure Saves (r : LinuxRestore) (staged : PathBuf) (content : Bytes) (merged : Merged)
    (chain : List Version) : Prop where
  prepared : r.prepared.1 = .ok (merged, chain)
  files : merged.files = [("save", staged)]
  staged : r.prepared.2.fs.files staged = some content
  declared : ∀ target, chain.getLast? = some target →
    target.files = [⟨"save", content.length, 0, plainDigest.ofBytes content⟩]

variable {r : LinuxRestore} {staged : PathBuf} {content : Bytes} {merged : Merged}
  {chain : List Version}

/-- How a closed example is seen to return. -/
theorem returns_of (hspelled : r.start.fs.tree.Spelled linux)
    (hdisk : ∀ k ∈ r.start.fs.tree.keys, k.head? = some .rootDir ∧ namesFiles .unix k.tail)
    (hanchor : r.req.anchor = exampleDir ["game"]) (hprepared : r.prepared.1 = .ok (merged, chain))
    (undisturbed : Undisturbed linux r.req.anchor merged.files) :
    r.Returns merged chain where
  sensitive := fun _ => rfl
  spelled := hspelled
  onDisk := onDisk_of_keys hdisk
  anchor := ⟨"/game", hanchor ▸ by decide⟩
  lawful := segmentGlob_lawful
  prepared := eq_mk_of_fst hprepared
  returned := ⟨false, eq_mk_of_fst r.returned⟩
  undisturbed := undisturbed

/-- How what is prepared in a closed example is read off. -/
theorem exists_saves (hrun : r.prepared.1.toOption.map
      (fun p => (p.1.files, p.2.getLast?.map fun v => v.files))
      = some ([("save", staged)],
          some [⟨"save", content.length, 0, plainDigest.ofBytes content⟩]))
    (hstaged : r.prepared.2.fs.files staged = some content) :
    ∃ merged chain, r.Saves staged content merged chain := by
  obtain ⟨⟨merged, chain⟩, hprepared, hresult⟩ := exists_ok_of_toOption hrun
  obtain ⟨hfiles, hdeclared⟩ := Prod.mk.inj hresult
  refine ⟨merged, chain, hprepared, hfiles, hstaged, ?_⟩
  intro target htarget
  dsimp only at hdeclared
  rw [htarget, Option.map_some] at hdeclared
  exact Option.some.inj hdeclared

namespace Saves

theorem lookup (h : r.Saves staged content merged chain) : merged.lookup "save" = some staged := by
  refine mem_files_iff.mp ?_
  rw [h.files]
  exact List.mem_singleton_self _

theorem keys (h : r.Saves staged content merged chain) {rel : String} (hrel : rel ∈ merged) :
    rel = "save" := by
  obtain ⟨src, hsrc⟩ := Option.isSome_iff_exists.mp (AList.lookup_isSome.mpr hrel)
  have hmem := mem_files_iff.mpr hsrc
  rw [h.files] at hmem
  exact congrArg Prod.fst (List.mem_singleton.mp hmem)

/-- The example's version has the one save. -/
theorem has_iff (h : r.Saves staged content merged chain)
    (hanchor : r.req.anchor = exampleDir ["game"]) {p : PathBuf} :
    merged.Has .unix r.req p ↔ p = exampleDir ["game", "save"] := by
  constructor
  · rintro ⟨rel, hrel, rfl⟩
    rw [h.keys hrel, hanchor]
    exact place_save
  · rintro rfl
    refine ⟨"save", AList.lookup_isSome.mp (h.lookup ▸ rfl), ?_⟩
    rw [hanchor]
    exact place_save

/-- The only file of the example does not go where it is staged. -/
theorem undisturbed (h : r.Saves staged content merged chain)
    (hanchor : r.req.anchor = exampleDir ["game"]) (hsave : exampleDir ["game", "save"] ≠ staged)
    (htmp : exampleDir ["game", "save.savr-restore-tmp"] ≠ staged) :
    Undisturbed linux r.req.anchor merged.files := by
  rw [h.files, hanchor]
  intro f hf f' hf'
  obtain rfl := List.mem_singleton.mp hf
  obtain rfl := List.mem_singleton.mp hf'
  have hkey : linux.key staged = staged := Platform.CaseSensitive.key_eq (fun _ => rfl) staged
  have hdest : linux.key (push .unix (exampleDir ["game"]) "save")
      = exampleDir ["game", "save"] := by decide
  have hcopy : linux.key (tmpFor (push .unix (exampleDir ["game"]) "save"))
      = exampleDir ["game", "save.savr-restore-tmp"] := by decide
  rintro (heq | heq)
  · exact hsave (hdest.symm.trans (heq.trans hkey))
  · exact htmp (hcopy.symm.trans (heq.trans hkey))

/-- The example merges to what its target declares. -/
theorem declares (h : r.Saves staged content merged chain)
    (hanchor : r.req.anchor = exampleDir ["game"])
    (hpatterns : r.req.patterns = gameRequest.patterns)
    (hextension : ∀ q c, r.start.fs.files q = some c → extensionOf q ≠ some "savr-restore-tmp") :
    Declares linux r.req segmentMatching r.start merged chain r.prepared.2 where
  declared := by
    intro target htarget rel
    rw [h.declared target htarget]
    by_cases hrel : rel = "save"
    · have hdistinct : DistinctPaths
          [⟨"save", content.length, 0, plainDigest.ofBytes content⟩] :=
        List.nodup_singleton "save"
      have hfile := fileMap_of_mem hdistinct (List.mem_singleton.mpr rfl)
      rw [hrel, h.lookup, Option.bind_some, h.staged, Option.map_some]
      exact hfile
    · have hnone : merged.lookup rel = none := by
        rw [AList.lookup_eq_none]
        exact fun hmem => hrel (h.keys hmem)
      rw [hnone, fileMap_eq_none_iff.mpr (by simpa using hrel)]
      rfl
  covered := by
    intro rel hrel
    rw [h.keys hrel, hanchor, hpatterns]
    refine ⟨"/game/*", List.mem_singleton.mpr rfl, exampleDir ["game", "save"], [], ?_, ?_, rfl⟩
    · rw [List.append_nil]
      exact place_save
    · change (_ && _) = true
      decide
  extension := by
    rintro q - (hhas | ⟨c, hc⟩)
    · rw [(h.has_iff hanchor).mp hhas]
      decide
    · exact hextension q c hc

end Saves

end LinuxRestore

/-- A disk with a save that is restored over, and a file that only the old snapshot lists. -/
def staleComputer : Computer :=
  syncedComputer [(["game", "save"], [1]), (["game", "old"], [3])] [("old", [3]), ("save", [1])]

theorem eq_of_staleFile {q : PathBuf} {c : Bytes} (h : staleComputer.fs.files q = some c) :
    q = exampleDir ["game", "save"] ∨ q = exampleDir ["game", "old"] := by
  have hkeys : ∀ k ∈ staleComputer.fs.tree.keys, staleComputer.fs.files k ≠ none →
      k = exampleDir ["game", "save"] ∨ k = exampleDir ["game", "old"] := by decide +kernel
  refine hkeys q (mem_keys_of_nodeAt (Fs.files_eq_some_iff.mp h)) ?_
  rw [h]
  exact Option.some_ne_none c

theorem extension_staleFile {q : PathBuf} {c : Bytes} (h : staleComputer.fs.files q = some c) :
    extensionOf q ≠ some "savr-restore-tmp" := by
  rcases eq_of_staleFile h with rfl | rfl
  · decide
  · decide

/-- A differential version on top of a full one.  The archive `[1]` is full, with a save and a
log; the archive `[1, 1]` replaces the save and deletes the log. -/
noncomputable def chainRestore : LinuxRestore where
  fmt := tableFormat [[("meta.json", [1]), ("files/save", [2]), ("files/log", [4])],
      [("meta.json", [1, 1]), ("files/save", [5])]]
    [⟨10, 22, none, .full, [], [], 1⟩, ⟨10, 22, some 101, .differential, [], ["log"], 2⟩]
  dirs := exampleDirs
  req := { gameRequest with versionId := 102 }
  env :=
    { oneVersionEnv [] with
      versions := some
        [⟨101, 10, 22, none, .full,
            [⟨"log", 1, 0, plainDigest.ofBytes [4]⟩, ⟨"save", 1, 0, plainDigest.ofBytes [2]⟩],
            plainDigest.ofBytes [1], 1, 1, 1⟩,
          ⟨102, 10, 22, some 101, .differential, [⟨"save", 1, 0, plainDigest.ofBytes [5]⟩],
            plainDigest.ofBytes [1, 1], 2, 2, 2⟩]
      blob := fun id => some (if id = 101 then [1] else [1, 1]) }
  start := staleComputer
  returned := by decide +kernel

/-- Where the save of the differential version is staged. -/
def chainStaged : PathBuf := exampleDir ["scratch", Uuid.text 102, "save"]

theorem chain_saves : ∃ merged chain, chainRestore.Saves chainStaged [5] merged chain :=
  LinuxRestore.exists_saves (by decide +kernel) (by decide +kernel)

theorem chain_returns {merged : Merged} {chain : List Version}
    (h : chainRestore.Saves chainStaged [5] merged chain) : chainRestore.Returns merged chain :=
  LinuxRestore.returns_of (spelled_exampleTree _) (by decide +kernel) rfl h.prepared
    (h.undisturbed rfl (by decide) (by decide))

/-- The save has the content of the differential version, the file that only the old snapshot
lists is gone, and a backup right afterwards has nothing to do. -/
theorem restored_save_settles :
    chainRestore.restored.1 = .ok ⟨⟩ ∧
    chainRestore.restored.2.fs.files (exampleDir ["game", "save"]) = some [5] ∧
    chainRestore.restored.2.fs.files (exampleDir ["game", "old"]) = none ∧
    chainRestore.backedUp.1 = .ok .noChange := by
  obtain ⟨merged, chain, hsaves⟩ := chain_saves
  obtain ⟨hpaths, hbackup⟩ := restored_exactly (chain_returns hsaves)
  have hsave : Below (exampleDir ["game"]) (exampleDir ["game", "save"]) := ⟨["save"], by simp, rfl⟩
  have hold : Below (exampleDir ["game"]) (exampleDir ["game", "old"]) := ⟨["old"], by simp, rfl⟩
  have hfree : ∀ q, Below (exampleDir ["game"]) q → extensionOf q ≠ some "savr-restore-tmp" →
      exampleDirs.Free q := fun q hq hextension =>
    ⟨(apart_of_below_game hq).1, (apart_of_below_game hq).2, hextension⟩
  have hgone : ¬ merged.Has .unix chainRestore.req (exampleDir ["game", "old"]) := by
    rw [hsaves.has_iff rfl]
    decide
  have hgranting : chainRestore.restored.2.fs.Granting := by
    have hfates : chainRestore.restored.2.fs.fates = [] := by decide +kernel
    intro fate hfate
    rw [hfates] at hfate
    cases hfate
  refine ⟨chainRestore.returned, ?_, ?_, ?_⟩
  · obtain ⟨c, hc, hfile⟩ :=
      (hpaths _ hsave (hfree _ hsave (by decide))).1 "save" _ hsaves.lookup place_save
    rw [hsaves.staged] at hc
    rw [hfile, ← hc]
  · refine (hpaths _ hold (hfree _ hold (by decide))).2.1 hgone ?_ rfl
    have hlisted : (chainRestore.prepared.2.device.state.snapshots chainRestore.req.gameId).map
        (fun snap => snap.files.any fun f => f.relPath = "old") = some true := by decide +kernel
    obtain ⟨snap, hsnap, hany⟩ := Option.map_eq_some_iff.mp hlisted
    obtain ⟨f, hf, hrel⟩ := List.any_eq_true.mp hany
    refine ⟨snap, hsnap, f, hf, ?_⟩
    rw [of_decide_eq_true hrel]
    decide
  · have replaces : Replaces linux exampleDirs chainRestore.req segmentMatching staleComputer merged
        chain chainRestore.prepared.2 :=
      { toDeclares := hsaves.declares rfl rfl fun q c => extension_staleFile
        apart := fun q hcovers => apart_of_below_game (below_of_covers hcovers)
        removable := by
          rintro q - hnot ⟨c, hc⟩
          rcases eq_of_staleFile hc with rfl | rfl
          · exact absurd ((hsaves.has_iff rfl).mpr rfl) hnot
          · exact ⟨rfl, by decide, by decide⟩ }
    obtain ⟨fates, hrun⟩ := hbackup replaces rfl hgranting chainRestore.env.backup
    exact congrArg Prod.fst hrun

/-! ## What a restore leaves behind -/

namespace LinuxRestore

/-- What a restore leaves if it did nothing but write the target: below the anchor a path holds its
merged content, is absent if it was listed, and is unchanged otherwise. -/
def WritesTarget (r : LinuxRestore) (merged : Merged) : Prop :=
  ∀ p, Below r.req.anchor p → extensionOf p ≠ some "savr-restore-tmp" →
    (∀ rel src, merged.lookup rel = some src → push .unix r.req.anchor rel = p →
      r.restored.2.fs.files p = r.prepared.2.fs.files src) ∧
    (¬ merged.Has .unix r.req p → r.prepared.2.Lists .unix r.req p →
      r.restored.2.fs.files p = none) ∧
    (¬ merged.Has .unix r.req p → ¬ r.prepared.2.Lists .unix r.req p →
      r.restored.2.fs.files p = r.start.fs.files p)

/-- What the restore promises of a backup right afterwards. -/
def Settles (r : LinuxRestore) (merged : Merged) (chain : List Version) : Prop :=
  Declares linux r.req segmentMatching r.start merged chain r.prepared.2 →
    r.req.registryKeys = [] → r.backedUp.1 = .ok .noChange

/-- A backup has work to do if it collects a file that the snapshot does not list. -/
theorem backedUp_ne_noChange {r : LinuxRestore} (rel : String)
    (hpatterns : r.req.patterns ≠ [])
    (hcollected : (collect segmentGlob linux r.req.patterns [] r.req.anchor r.env.backup.mtime
      r.restored.2.fs.tree).map (fun saves => saves.files.any fun f => f.relPath = rel) = some true)
    (hlisted : (r.restored.2.device.state.snapshots r.req.gameId).map
      (fun snap => snap.files.any fun f => f.relPath = rel) = some false) :
    r.backedUp.1 ≠ .ok .noChange := by
  intro hidle
  obtain ⟨saves, snap, hsaves, hsnap, hsame⟩ :=
    of_runBackup_noChange (fun targets => hpatterns targets.1) (eq_mk_of_fst hidle)
  obtain ⟨saves', hsaves', hany⟩ := Option.map_eq_some_iff.mp hcollected
  obtain rfl := Option.some.inj (hsaves'.symm.trans hsaves)
  obtain ⟨snap', hsnap', hnone⟩ := Option.map_eq_some_iff.mp hlisted
  obtain rfl := Option.some.inj (hsnap'.symm.trans hsnap)
  obtain ⟨f, hf, hrel⟩ := List.any_eq_true.mp hany
  have hmissing : fileMap snap'.files rel = none := by
    rw [fileMap_eq_none_iff, List.mem_map]
    rintro ⟨g, hg, rfl⟩
    exact List.any_eq_false.mp hnone g hg (decide_eq_true rfl)
  rw [hsame, fileMap_eq_none_iff, List.map_map] at hmissing
  exact hmissing (of_decide_eq_true hrel ▸ List.mem_map_of_mem hf)

end LinuxRestore

/-- The directories of the daemon are among the saves, and the save was played on. What is
downloaded stays there and is collected by the next backup. -/
noncomputable def nestedRestore : LinuxRestore where
  fmt := tableFormat [[("meta.json", [1]), ("files/save", [2])],
      [("meta.json", [1, 1]), ("files/save", [3])]]
    [⟨10, 22, none, .full, [], [], 1⟩,
      ⟨10, 21, some 100, .differential, [⟨"save", 1, 0, plainDigest.ofBytes [3]⟩], [], 1⟩]
  dirs := { blobCache := exampleDir ["game", "cache"], scratch := exampleDir ["game", "scratch"] }
  req := gameRequest
  env := oneVersionEnv [("save", [2])]
  start := syncedComputer [(["game", "save"], [3])] [("save", [1])]
  returned := by decide +kernel

/-- Where its save is staged, among the saves. -/
def nestedStaged : PathBuf := exampleDir ["game", "scratch", Uuid.text 101, "save"]

/-- The archive of the version is left in the scratch directory, the one of the backup before the
restore in the blob cache. -/
def leftArchives : List PathBuf :=
  [exampleDir ["game", "scratch", archiveName (plainDigest.ofBytes [1])],
    exampleDir ["game", "cache", archiveName (plainDigest.ofBytes [1, 1])]]

/-- **The archives stay below the anchor** where the directories of the daemon are there. -/
theorem nested_leaves_archives : ∃ merged chain, nestedRestore.Returns merged chain ∧
    ¬ nestedRestore.WritesTarget merged ∧ ¬ nestedRestore.Settles merged chain ∧
    ∀ p ∈ leftArchives, ¬ merged.Has .unix gameRequest p ∧
      ¬ nestedRestore.prepared.2.Lists .unix gameRequest p ∧
      nestedRestore.start.fs.files p = none ∧ nestedRestore.restored.2.fs.files p ≠ none := by
  obtain ⟨merged, chain, hsaves⟩ :
      ∃ merged chain, nestedRestore.Saves nestedStaged [2] merged chain :=
    LinuxRestore.exists_saves (by decide +kernel) (by decide +kernel)
  have hreturns : nestedRestore.Returns merged chain :=
    LinuxRestore.returns_of (spelled_exampleTree _) (by decide +kernel) rfl hsaves.prepared
      (hsaves.undisturbed rfl (by decide) (by decide))
  have hleft : ∀ p ∈ leftArchives, Below gameRequest.anchor p ∧
      extensionOf p ≠ some "savr-restore-tmp" ∧ p ≠ exampleDir ["game", "save"] ∧
      nestedRestore.start.fs.files p = none ∧ nestedRestore.restored.2.fs.files p ≠ none := by
    have hbelow : ∀ p ∈ leftArchives, Below gameRequest.anchor p := by
      intro p hp
      rcases List.mem_pair.mp hp with rfl | rfl
      · exact ⟨_, List.cons_ne_nil _ _, rfl⟩
      · exact ⟨_, List.cons_ne_nil _ _, rfl⟩
    have hrest : ∀ p ∈ leftArchives,
        extensionOf p ≠ some "savr-restore-tmp" ∧ p ≠ exampleDir ["game", "save"] ∧
        nestedRestore.start.fs.files p = none ∧ nestedRestore.restored.2.fs.files p ≠ none := by
      decide +kernel
    exact fun p hp => ⟨hbelow p hp, hrest p hp⟩
  have hlists : ∀ p, p ≠ exampleDir ["game", "save"] →
      ¬ nestedRestore.prepared.2.Lists .unix gameRequest p := by
    rintro p hp ⟨snap, hsnap, f, hf, rfl⟩
    have hlisted : (nestedRestore.prepared.2.device.state.snapshots gameRequest.gameId).map
        (fun snap => snap.files.map FileEntry.relPath) = some ["save"] := by decide +kernel
    rw [hsnap, Option.map_some, Option.some.injEq] at hlisted
    have hsave : f.relPath = "save" := List.mem_singleton.mp (hlisted ▸ List.mem_map_of_mem hf)
    rw [hsave, place_save] at hp
    exact hp rfl
  have hhas : ∀ p, p ≠ exampleDir ["game", "save"] → ¬ merged.Has .unix gameRequest p :=
    fun p hp hhas => hp ((hsaves.has_iff rfl).mp hhas)
  refine ⟨merged, chain, hreturns, ?_, ?_, ?_⟩
  · intro hwrites
    obtain ⟨hbelow, hextension, hother, habsent, hfile⟩ := hleft _ (List.mem_cons_self ..)
    refine hfile ?_
    rw [(hwrites _ hbelow hextension).2.2 (hhas _ hother) (hlists _ hother), habsent]
  · intro hsettles
    refine LinuxRestore.backedUp_ne_noChange
      ("scratch/" ++ archiveName (plainDigest.ofBytes [1])) (List.cons_ne_nil _ _)
      (by decide +kernel) (by decide +kernel)
      (hsettles (hsaves.declares rfl rfl ?_) rfl)
    have hkeys : ∀ k ∈ nestedRestore.start.fs.tree.keys,
        extensionOf k ≠ some "savr-restore-tmp" := by decide +kernel
    exact fun q c hc => hkeys q (mem_keys_of_nodeAt (Fs.files_eq_some_iff.mp hc))
  · intro p hp
    obtain ⟨-, -, hother, habsent, hfile⟩ := hleft p hp
    exact ⟨hhas p hother, hlists p hother, habsent, hfile⟩

/-- A file that only the old snapshot lists cannot be removed. The restore returns all the same. -/
noncomputable def lockedRestore : LinuxRestore where
  fmt := oneArchive [("save", [2])]
  dirs := exampleDirs
  req := gameRequest
  env := oneVersionEnv [("save", [2])]
  start := { staleComputer with
    fs := { staleComputer.fs with locked := fun p => p = exampleDir ["game", "old"] } }
  returned := by decide +kernel

/-- **A file that cannot be removed stays.** -/
theorem locked_stays : ∃ merged chain, lockedRestore.Returns merged chain ∧
    ¬ lockedRestore.WritesTarget merged ∧ ¬ lockedRestore.Settles merged chain := by
  obtain ⟨merged, chain, hsaves⟩ : ∃ merged chain,
      lockedRestore.Saves (exampleDir ["scratch", Uuid.text 101, "save"]) [2] merged chain :=
    LinuxRestore.exists_saves (by decide +kernel) (by decide +kernel)
  refine ⟨merged, chain, ?_, ?_, ?_⟩
  · exact LinuxRestore.returns_of (spelled_exampleTree _) (by decide +kernel) rfl hsaves.prepared
      (hsaves.undisturbed rfl (by decide) (by decide))
  · intro hwrites
    have hold : Below lockedRestore.req.anchor (exampleDir ["game", "old"]) :=
      ⟨["old"], List.cons_ne_nil _ _, rfl⟩
    have hlisted : (lockedRestore.prepared.2.device.state.snapshots lockedRestore.req.gameId).map
        (fun snap => snap.files.any fun f => f.relPath = "old") = some true := by decide +kernel
    have hstays : lockedRestore.restored.2.fs.files (exampleDir ["game", "old"]) ≠ none := by
      decide +kernel
    refine hstays ((hwrites _ hold (by decide)).2.1 ?_ ?_)
    · rw [hsaves.has_iff rfl]
      decide
    · obtain ⟨snap, hsnap, hany⟩ := Option.map_eq_some_iff.mp hlisted
      obtain ⟨f, hf, hrel⟩ := List.any_eq_true.mp hany
      refine ⟨snap, hsnap, f, hf, ?_⟩
      rw [of_decide_eq_true hrel]
      decide
  · intro hsettles
    exact LinuxRestore.backedUp_ne_noChange "old" (List.cons_ne_nil _ _) (by decide +kernel)
      (by decide +kernel)
      (hsettles (hsaves.declares rfl rfl fun q c hc => extension_staleFile hc) rfl)

/-- A file of the version goes where the file `x` of the version is staged. -/
def crossedName : String := "scratch/" ++ Uuid.text 101 ++ "/x"

/-- The restore of that version; the file that goes to the staging place is swapped first.
The other file is then restored with its content. -/
noncomputable def crossedRestore : LinuxRestore where
  fmt := oneArchive [("x", [1]), (crossedName, [9])]
  dirs := { exampleDirs with scratch := exampleDir ["game", "scratch"] }
  req := gameRequest
  env :=
    { oneVersionEnv [("x", [1]), (crossedName, [9])] with
      order := List.reverse
      order_perm := fun files => files.reverse_perm }
  start := syncedComputer [] []
  returned := by decide +kernel

/-- Where the file `x` is staged, among the saves. -/
def crossedStaged : PathBuf := exampleDir ["game", "scratch", Uuid.text 101, "x"]

/-- **A staged file is written over** if another file of the chain is swapped in there first. -/
theorem crossed_overwrites : ∃ merged chain,
    crossedRestore.prepared.1 = .ok (merged, chain) ∧ crossedRestore.restored.1 = .ok ⟨⟩ ∧
    ¬ crossedRestore.WritesTarget merged := by
  have hlookup : crossedRestore.prepared.1.toOption.map (fun p => p.1.lookup "x")
      = some (some crossedStaged) := by decide +kernel
  obtain ⟨⟨merged, chain⟩, hprepared, hlookup⟩ := exists_ok_of_toOption hlookup
  refine ⟨merged, chain, hprepared, crossedRestore.returned, fun hwrites => ?_⟩
  have hx : Below crossedRestore.req.anchor (exampleDir ["game", "x"]) :=
    ⟨["x"], List.cons_ne_nil _ _, rfl⟩
  have hplace : push .unix crossedRestore.req.anchor "x" = exampleDir ["game", "x"] := by decide
  have hother : crossedRestore.restored.2.fs.files (exampleDir ["game", "x"])
      ≠ crossedRestore.prepared.2.fs.files crossedStaged := by decide +kernel
  exact hother ((hwrites _ hx (by decide)).1 "x" _ hlookup hplace)

/-- The pattern is a file, which an empty version replaces. -/
noncomputable def fileRestore : LinuxRestore where
  fmt := oneArchive []
  dirs := exampleDirs
  req := { gameRequest with patterns := ["/game"] }
  env := oneVersionEnv []
  start := syncedComputer [(["game"], [1])] [("", [1])]
  returned := by decide +kernel

/-- **A file at the anchor stays**: its `rel_path` is empty. -/
theorem file_at_anchor_stays : ∃ merged chain, fileRestore.Returns merged chain ∧
    ¬ fileRestore.Settles merged chain := by
  have hprepare : fileRestore.prepared.1.toOption.map
      (fun p => (p.1.files, p.2.getLast?.map fun v => v.files)) = some ([], some []) := by
    decide +kernel
  obtain ⟨⟨merged, chain⟩, hprepared, hresult⟩ := exists_ok_of_toOption hprepare
  obtain ⟨hfiles, hdeclared⟩ := Prod.mk.inj hresult
  have hempty : ∀ rel, merged.lookup rel = none := by
    intro rel
    cases hlookup : merged.lookup rel with
    | none => rfl
    | some src =>
        have hmem := mem_files_iff.mpr hlookup
        rw [show merged.files = [] from hfiles] at hmem
        cases hmem
  refine ⟨merged, chain, ?_, fun hsettles => ?_⟩
  · refine LinuxRestore.returns_of (spelled_exampleTree _) (by decide +kernel) rfl hprepared ?_
    rw [show merged.files = [] from hfiles]
    exact fun f hf => absurd hf List.not_mem_nil
  · refine LinuxRestore.backedUp_ne_noChange "" (List.cons_ne_nil _ _) (by decide +kernel)
      (by decide +kernel) (hsettles ⟨?_, ?_, ?_⟩ rfl)
    · intro target htarget rel
      have htarget' : target.files = [] := by
        dsimp only at hdeclared
        rw [htarget, Option.map_some] at hdeclared
        exact Option.some.inj hdeclared
      rw [htarget', hempty]
      rfl
    · intro rel hrel
      rw [← AList.lookup_isSome, hempty] at hrel
      cases hrel
    · rintro q - (⟨rel, hrel, -⟩ | ⟨c, hc⟩)
      · rw [← AList.lookup_isSome, hempty] at hrel
        cases hrel
      · have hkeys : ∀ k ∈ fileRestore.start.fs.tree.keys,
            extensionOf k ≠ some "savr-restore-tmp" := by decide +kernel
        exact hkeys q (mem_keys_of_nodeAt (Fs.files_eq_some_iff.mp hc))

/-- The machine refuses the first operation after the restore, which is the backup's first read. -/
noncomputable def refusedRestore : LinuxRestore where
  fmt := oneArchive [("save", [2])]
  dirs := exampleDirs
  req := gameRequest
  env := oneVersionEnv [("save", [2])]
  start := { staleComputer with
    fs := { staleComputer.fs with fates := List.replicate 15 .granted ++ [.refused] } }
  returned := by decide +kernel

/-- **A backup that cannot read answers nothing.** -/
theorem refused_backup_fails : ∃ merged chain, refusedRestore.Returns merged chain ∧
    refusedRestore.restored.2.fs.fates = [.refused] ∧ ¬ refusedRestore.Settles merged chain := by
  obtain ⟨merged, chain, hsaves⟩ : ∃ merged chain,
      refusedRestore.Saves (exampleDir ["scratch", Uuid.text 101, "save"]) [2] merged chain :=
    LinuxRestore.exists_saves (by decide +kernel) (by decide +kernel)
  refine ⟨merged, chain, ?_, by decide +kernel, fun hsettles => ?_⟩
  · exact LinuxRestore.returns_of (spelled_exampleTree _) (by decide +kernel) rfl hsaves.prepared
      (hsaves.undisturbed rfl (by decide) (by decide))
  · have hfails : refusedRestore.backedUp.1 ≠ .ok .noChange := by decide +kernel
    exact hfails (hsettles (hsaves.declares rfl rfl fun q c hc => extension_staleFile hc) rfl)

/-- **A restore does not write exactly the target**: archives are left below the anchor, a file
that cannot be removed or lies at the anchor stays, and a staged file may be written over. -/
theorem restores_not_exact :
    (∃ merged chain, nestedRestore.Returns merged chain ∧
      ¬ nestedRestore.WritesTarget merged ∧ ¬ nestedRestore.Settles merged chain ∧
      ∀ p ∈ leftArchives, ¬ merged.Has .unix gameRequest p ∧
        ¬ nestedRestore.prepared.2.Lists .unix gameRequest p ∧
        nestedRestore.start.fs.files p = none ∧ nestedRestore.restored.2.fs.files p ≠ none) ∧
    (∃ merged chain, lockedRestore.Returns merged chain ∧
      ¬ lockedRestore.WritesTarget merged ∧ ¬ lockedRestore.Settles merged chain) ∧
    (∃ merged chain, crossedRestore.prepared.1 = .ok (merged, chain) ∧
      crossedRestore.restored.1 = .ok ⟨⟩ ∧ ¬ crossedRestore.WritesTarget merged) ∧
    (∃ merged chain, fileRestore.Returns merged chain ∧ ¬ fileRestore.Settles merged chain) ∧
    (∃ merged chain, refusedRestore.Returns merged chain ∧
      refusedRestore.restored.2.fs.fates = [.refused] ∧
      ¬ refusedRestore.Settles merged chain) :=
  ⟨nested_leaves_archives, locked_stays, crossed_overwrites, file_at_anchor_stays,
    refused_backup_fails⟩

end Example

end Savr
