import Savr.Daemon.DiskRestore
import Savr.Lib.Placing

/-!
# The swap of a restore

What is on disk once `run_restore` has put the merged files into place and deleted what the
target no longer has.

## Main results

* `finish_spec` — the files after the swap and the deletions, in terms of those before.
* `runRestore_ok` — a restore that returns has staged its files and swapped them in.
-/

namespace Savr

open Hoare Placing

/-! ## The specification -/

section Spec

variable (pf : Platform) (anchor : PathBuf)

/-- Where a merged file goes, as the file system sees it. -/
def destKey (f : String × PathBuf) : PathBuf := pf.key (push pf.style anchor f.1)

/-- Where it is copied to first. -/
def tmpKey (f : String × PathBuf) : PathBuf := pf.key (tmpFor (push pf.style anchor f.1))

/-- The content it is staged with. -/
def stagedContent (files : PathBuf → Option Bytes) (f : String × PathBuf) : Option Bytes :=
  files (pf.key f.2)

/-- No file is swapped in where another one is staged. -/
def Undisturbed (fs : List (String × PathBuf)) : Prop :=
  ∀ f ∈ fs, ∀ h ∈ fs, ¬ Uses (destKey pf anchor) (tmpKey pf anchor) h (pf.key f.2)

/-- The files after a swap. -/
def swapped (files : PathBuf → Option Bytes) (fs : List (String × PathBuf)) :
    PathBuf → Option Bytes :=
  placeAll (destKey pf anchor) (tmpKey pf anchor) (stagedContent pf files) files fs

/-- The file a `rel_path` leads to, if it can be a file's. -/
def relKeys (rel : String) : List PathBuf :=
  if namesFile pf.style rel then [pf.key (push pf.style anchor rel)] else []

/-- The files that are to be deleted after a swap. -/
def staleKeys (merged : Merged) : Option StoredSnapshot → List PathBuf
  | none => []
  | some last => (last.files.filter fun f => f.relPath ∉ merged).flatMap
      fun f => relKeys pf anchor f.relPath

/-- The files after these were deleted, as far as they can be. -/
def deleted (files : PathBuf → Option Bytes) (locked : PathBuf → Bool) (keys : List PathBuf) :
    PathBuf → Option Bytes :=
  fun k => if k ∈ keys ∧ locked k = false then none else files k

end Spec

section Swap

variable {pf : Platform} {anchor src dst : PathBuf} {s₀ : Fs} {f : String × PathBuf}
  {fs : List (String × PathBuf)} {merged : Merged}

/-- A copy that succeeds has put the content of its source. -/
theorem copy_spec : Triple (fun s => s = s₀) (copy pf src dst)
    (fun _ s => ∃ c, s₀.files (pf.key src) = some c ∧
      s.files = Function.update s₀.files (pf.key dst) (some c) ∧ s.locked = s₀.locked)
    fun _ => True := by
  refine triple_bind (readFile_spec.conseq (fun _ h => h) (fun _ _ h => h) fun _ _ => trivial) ?_
  refine fun content => triple_of_state fun s₁ hs₁ => ?_
  refine createFile_spec.conseq (fun _ h => h) (fun _ s hs => ?_) fun _ _ => trivial
  refine ⟨content, hs₁.1, ?_, hs.locked.trans hs₁.2.locked⟩
  rw [hs.files, hs₁.2.files]

/-- Copying under a temporary name and renaming it places the file. -/
theorem copyRename_spec : Triple (fun s => s = s₀)
    (copy pf f.2 (tmpFor (push pf.style anchor f.1)) >>= fun _ =>
      rename pf (tmpFor (push pf.style anchor f.1)) (push pf.style anchor f.1))
    (fun _ s => (∃ c, s₀.files (pf.key f.2) = some c) ∧
      s.files = place (destKey pf anchor) (tmpKey pf anchor) (stagedContent pf s₀.files)
        s₀.files f ∧ s.locked = s₀.locked) fun _ => True := by
  refine triple_bind copy_spec fun _ => triple_of_state fun s₁ hs₁ => ?_
  obtain ⟨c, hc, hfiles, hlocked⟩ := hs₁
  refine rename_spec.conseq (fun _ h => h) ?_ fun _ _ => trivial
  rintro _ s ⟨c', hc', hs⟩
  rw [hfiles, Function.update_self] at hc'
  refine ⟨⟨c, hc⟩, ?_, hs.locked.trans hlocked⟩
  rw [hs.files, hfiles, Function.update_idem, place, stagedContent, hc, hc']
  rfl

/-- The swap of one file. -/
theorem swapFile_spec : Triple (fun s => s = s₀) (swapFile pf anchor f)
    (fun _ s => (∃ c, s₀.files (pf.key f.2) = some c) ∧
      s.files = place (destKey pf anchor) (tmpKey pf anchor) (stagedContent pf s₀.files)
        s₀.files f ∧ s.locked = s₀.locked) fun _ => True := by
  rw [swapFile]
  dsimp only
  cases parent (push pf.style anchor f.1) with
  | none => exact copyRename_spec
  | some dir =>
      refine triple_bind (createDirAll_spec.conseq (fun _ h => h) (fun _ _ h => h)
        fun _ _ => trivial) fun _ => triple_of_state fun s₁ hs₁ => ?_
      refine copyRename_spec.conseq (fun _ h => h) ?_ fun _ h => h
      rintro _ s ⟨hc, hfiles, hlocked⟩
      rw [hs₁.files] at hc hfiles
      exact ⟨hc, hfiles, hlocked.trans hs₁.locked⟩

/-- **The swap**, if it succeeds: every file is staged, and ends up as `swapped` says. -/
theorem swap_spec (undisturbed : Undisturbed pf anchor fs) :
    Triple (fun s => s = s₀) (fs.forM (swapFile pf anchor))
      (fun _ s => (∀ f ∈ fs, ∃ c, s₀.files (pf.key f.2) = some c) ∧
        s.files = swapped pf anchor s₀.files fs ∧ s.locked = s₀.locked) fun _ => True := by
  refine (triple_forM (fun done s => (∀ f ∈ done, ∃ c, s₀.files (pf.key f.2) = some c) ∧
    s.files = swapped pf anchor s₀.files done ∧ s.locked = s₀.locked) ?_).conseq ?_
    (fun _ _ h => h) fun _ h => h
  · intro done x rest hsplit
    refine triple_of_state fun s₁ hs₁ => ?_
    obtain ⟨hdone, hfiles, hlocked⟩ := hs₁
    -- what is swapped in so far is not where the next file is staged
    have hsource : s₁.files (pf.key x.2) = s₀.files (pf.key x.2) := by
      rw [hfiles]
      refine placeAll_of_untouched fun h hh => undisturbed x (by rw [hsplit]; simp) h ?_
      rw [hsplit]
      exact List.mem_append_left _ hh
    refine swapFile_spec.conseq (fun _ h => h) ?_ fun _ h => h
    rintro _ s ⟨hc, hplace, hlocked'⟩
    rw [hsource] at hc
    refine ⟨?_, ?_, hlocked'.trans hlocked⟩
    · intro f hf
      rcases List.mem_append.mp hf with hf | hf
      · exact hdone f hf
      · rw [List.mem_singleton.mp hf]
        exact hc
    · have hstep : swapped pf anchor s₀.files (done ++ [x]) = place (destKey pf anchor)
          (tmpKey pf anchor) (stagedContent pf s₀.files) (swapped pf anchor s₀.files done) x := by
        rw [swapped, placeAll, List.foldl_append]
        rfl
      rw [hplace, hstep, ← hfiles, place, place, stagedContent, hsource]
      rfl
  · rintro s rfl
    exact ⟨fun _ hf => absurd hf List.not_mem_nil, rfl, rfl⟩

theorem deleted_of_mem {files : PathBuf → Option Bytes} {locked : PathBuf → Bool}
    {keys : List PathBuf} {k : PathBuf} (hk : k ∈ keys) (hfree : locked k = false) :
    deleted files locked keys k = none :=
  if_pos ⟨hk, hfree⟩

theorem deleted_of_not_mem {files : PathBuf → Option Bytes} {locked : PathBuf → Bool}
    {keys : List PathBuf} {k : PathBuf} (hk : k ∉ keys) : deleted files locked keys k = files k :=
  if_neg fun h => hk h.1

theorem deleted_of_locked {files : PathBuf → Option Bytes} {locked : PathBuf → Bool}
    {keys : List PathBuf} {k : PathBuf} (hk : locked k = true) :
    deleted files locked keys k = files k :=
  if_neg fun h => by rw [h.2] at hk; cases hk

theorem deleted_append (files : PathBuf → Option Bytes) (locked : PathBuf → Bool)
    (keys more : List PathBuf) :
    deleted (deleted files locked keys) locked more = deleted files locked (keys ++ more) := by
  funext k
  simp only [deleted, List.mem_append]
  split_ifs <;> tauto

/-- The deletion of one file, which may fail. -/
theorem removeRel_spec {rel : String} : Triple (fun s => s = s₀)
    (Prog.attempt (removeRel pf anchor rel))
    (fun _ s => s.files = deleted s₀.files s₀.locked (relKeys pf anchor rel) ∧
      s.locked = s₀.locked) fun _ => False := by
  refine triple_attempt ?_
  rw [removeRel, relKeys]
  split_ifs with hfile
  · refine removeFile_spec.conseq (fun _ h => h) ?_ ?_
    · rintro _ s ⟨hlocked, hs⟩
      refine ⟨hs.files.trans (funext fun k => ?_), hs.locked⟩
      by_cases hk : k = pf.key (push pf.style anchor rel)
      · subst hk
        rw [deleted_of_mem (List.mem_singleton_self _) hlocked, Function.update_self]
      · rw [deleted_of_not_mem (List.mem_singleton.not.mpr hk), Function.update_of_ne hk]
    · rintro s ⟨hwhy, hs⟩
      refine ⟨hs.files.trans (funext fun k => ?_), hs.locked⟩
      by_cases hk : k = pf.key (push pf.style anchor rel)
      · subst hk
        rcases hlocked : s₀.locked (pf.key (push pf.style anchor rel)) with _ | _
        · rw [deleted_of_mem (List.mem_singleton_self _) hlocked]
          refine hwhy.resolve_right fun htrue => ?_
          rw [hlocked] at htrue
          cases htrue
        · rw [deleted_of_locked hlocked]
      · rw [deleted_of_not_mem (List.mem_singleton.not.mpr hk)]
  · refine triple_throw ?_
    rintro s rfl
    exact ⟨funext fun k => (deleted_of_not_mem List.not_mem_nil).symm, rfl⟩

/-- **The deletions.**  They cannot fail. -/
theorem deleteStale_spec {last : Option StoredSnapshot} :
    Triple (fun s => s = s₀) (deleteStale pf anchor merged last)
      (fun _ s => s.files = deleted s₀.files s₀.locked (staleKeys pf anchor merged last) ∧
        s.locked = s₀.locked) fun _ => False := by
  have hnone : s₀.files = deleted s₀.files s₀.locked [] :=
    funext fun k => (deleted_of_not_mem List.not_mem_nil).symm
  cases last with
  | none =>
      refine triple_pure ?_
      rintro s rfl
      exact ⟨hnone, rfl⟩
  | some snap =>
      refine (triple_forM (fun done s => s.files = deleted s₀.files s₀.locked
        (done.flatMap fun f : FileEntry => relKeys pf anchor f.relPath) ∧
        s.locked = s₀.locked) ?_).conseq ?_ (fun _ _ h => h) fun _ h => h
      · intro done f rest _
        refine triple_of_state fun s₁ hs₁ => ?_
        refine removeRel_spec.conseq (fun _ h => h) ?_ fun _ h => h
        rintro _ s ⟨hfiles, hlocked⟩
        refine ⟨?_, hlocked.trans hs₁.2⟩
        rw [hfiles, hs₁.1, hs₁.2, deleted_append, List.flatMap_append, List.flatMap_singleton]
      · rintro s rfl
        exact ⟨hnone, rfl⟩

/-- What is stale: listed by the last snapshot, and not merged. -/
theorem mem_staleKeys {last : Option StoredSnapshot} {k : PathBuf} :
    k ∈ staleKeys pf anchor merged last ↔ ∃ snap, last = some snap ∧ ∃ f ∈ snap.files,
      f.relPath ∉ merged ∧ namesFile pf.style f.relPath = true ∧
        k = pf.key (push pf.style anchor f.relPath) := by
  cases last with
  | none => simp [staleKeys]
  | some snap =>
      rw [staleKeys, List.mem_flatMap]
      constructor
      · rintro ⟨f, hf, hk⟩
        obtain ⟨hmem, hnot⟩ := List.mem_filter.mp hf
        rw [relKeys] at hk
        split_ifs at hk with hfile
        · exact ⟨snap, rfl, f, hmem, of_decide_eq_true hnot, hfile, List.mem_singleton.mp hk⟩
        · cases hk
      · rintro ⟨_, heq, f, hf, hnot, hfile, rfl⟩
        obtain rfl := Option.some.inj heq
        refine ⟨f, List.mem_filter.mpr ⟨hf, decide_eq_true hnot⟩, ?_⟩
        rw [relKeys, if_pos hfile]
        exact List.mem_singleton_self _

end Swap

/-! ## A restore that returns -/

section Restore

variable [Blake3] {fmt : SavrFormat} {g : GlobCrate} {pf : Platform} {dirs : DataDirs}
  {req : RestoreRequest} {env : RestoreEnv} {merged : Merged} {chain : List Version}
  {m₀ m : Computer}

/-- The state after the swap and the deletions: the merged files are in place, what could be
deleted is gone, and the snapshot is that of the target. -/
structure Finished (pf : Platform) (req : RestoreRequest) (env : RestoreEnv) (merged : Merged)
    (chain : List Version) (m₀ m : Computer) : Prop where
  readable : ∀ f ∈ merged.files, ∃ c, m₀.fs.files (pf.key f.2) = some c
  files : m.fs.files = deleted (swapped pf req.anchor m₀.fs.files (env.order merged.files))
    m₀.fs.locked (staleKeys pf req.anchor merged (m₀.device.state.snapshots req.gameId))
  locked : m.fs.locked = m₀.fs.locked
  recorded : ∃ target, chain.getLast? = some target ∧ m.device =
    (Write.putSnapshot req.gameId target.files target.createdAt (some target.id)).apply m₀.device

omit [Blake3] in
/-- Where nothing may be touched, nothing changes. -/
theorem Computer.Confined.files_eq {m₁ : Computer} (h : m₀.Confined pf (fun _ => False) m₁) :
    m₁.fs.files = m₀.fs.files :=
  funext fun _ => Fs.Confined.files h fun _ hp => hp.elim

omit [Blake3] in
/-- Loading gives the database and changes neither it nor the files. -/
theorem load_spec (pf : Platform) : Triple (fun m => m = m₀) load
    (fun d m => d = m₀.device ∧ m.device = m₀.device ∧ m.fs.files = m₀.fs.files ∧
      m.fs.locked = m₀.fs.locked) fun _ => True := by
  have hquiet : Keeps (Computer.Quiet pf fun _ => False) load := keepsQuiet_load
  have hdevice : Triple (fun m => m = m₀) load
      (fun d m => d = m₀.device ∧ m.device = m₀.device) fun _ => True :=
    load_device.conseq (fun _ h => congrArg Computer.device h) (fun _ _ h => h) fun _ h => h
  refine (hdevice.and hquiet.triple).conseq (fun _ h => h) ?_ fun _ _ => trivial
  rintro d m ⟨⟨hd, hm⟩, hquiet⟩
  exact ⟨hd, hm, hquiet.confined.files_eq, hquiet.confined.locked⟩

omit [Blake3] in
/-- A write changes the database and no file. -/
theorem store_spec (pf : Platform) (w : Write) : Triple (fun m => m = m₀) (store w)
    (fun _ m => m.device = w.apply m₀.device ∧ m.fs.files = m₀.fs.files ∧
      m.fs.locked = m₀.fs.locked) fun _ => True := by
  have hconfined : Keeps (Computer.Confined pf fun _ => False) (store w) := keeps_store w
  have hdevice : Triple (fun m => m = m₀) (store w) (fun _ m => m.device = w.apply m₀.device)
      fun _ => True :=
    (store_device w).conseq (fun _ h => congrArg Computer.device h) (fun _ _ h => h) fun _ h => h
  refine (hdevice.and hconfined.triple).conseq (fun _ h => h) ?_ fun _ _ => trivial
  rintro _ m ⟨hd, hconfined⟩
  exact ⟨hd, hconfined.files_eq, hconfined.locked⟩

omit [Blake3] in
/-- **What the swap and the deletions do**, if they succeed. -/
theorem finish_spec (undisturbed : Undisturbed pf req.anchor (env.order merged.files)) :
    Triple (fun m => m = m₀) (finish pf req env merged chain)
      (fun _ m => Finished pf req env merged chain m₀ m) fun _ => True := by
  have hswap : Triple (fun m => m = m₀)
      (disk ((env.order merged.files).forM (swapFile pf req.anchor)))
      (fun _ m => m.device = m₀.device ∧
        (∀ f ∈ env.order merged.files, ∃ c, m₀.fs.files (pf.key f.2) = some c) ∧
        m.fs.files = swapped pf req.anchor m₀.fs.files (env.order merged.files) ∧
        m.fs.locked = m₀.fs.locked) fun _ => True := by
    refine triple_zoom ?_
    rintro m rfl
    exact (swap_spec undisturbed).conseq (fun _ h => h) (fun _ _ h => ⟨rfl, h⟩) fun _ h => h
  refine triple_bind hswap fun _ => triple_of_state fun m₁ hm₁ => ?_
  obtain ⟨hdevice₁, hreadable, hfiles₁, hlocked₁⟩ := hm₁
  refine triple_bind (load_spec pf) fun d => triple_of_state fun m₂ hm₂ => ?_
  obtain ⟨rfl, hdevice₂, hfiles₂, hlocked₂⟩ := hm₂
  rw [hdevice₁]
  have hdelete : Triple (fun m => m = m₂) (disk (deleteStale pf req.anchor merged
      (m₀.device.state.snapshots req.gameId)))
      (fun _ m => m.device = m₀.device ∧ m.fs.files =
        deleted (swapped pf req.anchor m₀.fs.files (env.order merged.files)) m₀.fs.locked
          (staleKeys pf req.anchor merged (m₀.device.state.snapshots req.gameId)) ∧
        m.fs.locked = m₀.fs.locked) fun _ => True := by
    refine triple_zoom ?_
    rintro m rfl
    refine deleteStale_spec.conseq (fun _ h => h) ?_ fun _ _ => trivial
    rintro _ s ⟨hfiles, hlocked⟩
    refine ⟨hdevice₂.trans hdevice₁, ?_, hlocked.trans (hlocked₂.trans hlocked₁)⟩
    rw [← hfiles₁, ← hlocked₁, ← hfiles₂, ← hlocked₂]
    exact hfiles
  refine triple_bind hdelete fun _ => triple_of_state fun m₃ hm₃ => ?_
  obtain ⟨hdevice₃, hfiles₃, hlocked₃⟩ := hm₃
  cases hlast : chain.getLast? with
  | none => exact triple_throw fun _ _ => trivial
  | some target =>
      refine (store_spec pf _).conseq (fun _ h => h) ?_ fun _ h => h
      rintro _ m ⟨hdevice, hfiles, hlocked⟩
      refine ⟨?_, hfiles.trans hfiles₃, hlocked.trans hlocked₃, target, hlast, ?_⟩
      · exact fun f hf => hreadable f ((env.order_perm merged.files).mem_iff.mpr hf)
      · rw [hdevice, hdevice₃]

/-- A restore that returns was prepared and finished. -/
theorem runRestore_ok {gameRunning : Bool}
    (hrun : Computer.runRestore fmt g pf dirs req gameRunning env m₀ = (.ok ⟨⟩, m)) :
    ¬ (req.patterns = [] ∧ req.registryKeys = []) ∧ ∃ merged chain m₁,
      prepare fmt g pf dirs req env m₀ = (.ok (merged, chain), m₁) ∧
      Prepared g pf dirs req env m₀ merged m₁ ∧
      finish pf req env merged chain m₁ = (.ok ⟨⟩, m) := by
  rw [Computer.runRestore] at hrun
  split_ifs at hrun with hrunning hempty
  · cases hrun
  · cases hrun
  · have htargets : ¬ (req.patterns = [] ∧ req.registryKeys = []) := by
      simpa [List.isEmpty_iff] using hempty
    obtain ⟨prepared, m₁, hprepare, hfinish⟩ := bind_eq_ok_iff.mp hrun
    exact ⟨htargets, prepared.1, prepared.2, m₁, hprepare,
      (prepare_spec htargets).ok rfl hprepare, hfinish⟩

omit [Blake3] in
theorem mem_order {rel : String} {src : PathBuf} (h : merged.lookup rel = some src) :
    (rel, src) ∈ env.order merged.files :=
  (env.order_perm merged.files).mem_iff.mpr (mem_files_iff.mpr h)

omit [Blake3] in
theorem lookup_of_mem_order {f : String × PathBuf} (h : f ∈ env.order merged.files) :
    merged.lookup f.1 = some f.2 :=
  mem_files_iff.mp ((env.order_perm merged.files).mem_iff.mp h)

omit [Blake3] in
/-- Each merged file is iterated once. -/
theorem order_nodup : ((env.order merged.files).map Prod.fst).Nodup := by
  refine ((env.order_perm merged.files).map Prod.fst).nodup_iff.mpr ?_
  rw [Merged.files, List.map_map]
  exact merged.nodupKeys

/-- The restored files and their temporary copies stay out of the scratch directory. -/
def OutsideScratch (pf : Platform) (dirs : DataDirs) (req : RestoreRequest) (merged : Merged) :
    Prop :=
  ∀ rel ∈ merged, ¬ pf.key dirs.scratch <+: pf.key (push pf.style req.anchor rel) ∧
    ¬ pf.key dirs.scratch <+: pf.key (tmpFor (push pf.style req.anchor rel))

/-- Files that go outside of the scratch directory disturb nothing that is staged. -/
theorem Prepared.undisturbed (h : Prepared g pf dirs req env m₀ merged m)
    (outside : OutsideScratch pf dirs req merged) :
    Undisturbed pf req.anchor (env.order merged.files) := by
  intro f hf h' hh' huses
  have hsrc : pf.key dirs.scratch <+: pf.key f.2 := by
    obtain ⟨names, -, heq⟩ := (h.staged f.1 f.2 (lookup_of_mem_order hf)).2
    rw [heq, pf.key_append]
    exact List.prefix_append _ _
  have hout := outside h'.1 (AList.lookup_isSome.mp (lookup_of_mem_order hh' ▸ rfl))
  rcases huses with hdest | htmp
  · rw [← hdest] at hsrc
    exact hout.1 hsrc
  · rw [← htmp] at hsrc
    exact hout.2 hsrc

/-- What is stale are collected files that the chain does not have. -/
theorem Prepared.mem_staleKeys_iff (h : Prepared g pf dirs req env m₀ merged m) {k : PathBuf} :
    k ∈ staleKeys pf req.anchor merged (m.device.state.snapshots req.gameId) ↔
      ∃ saves, collect g pf req.patterns [] req.anchor env.backup.mtime m₀.fs.tree = some saves ∧
        ∃ f ∈ saves.files, f.relPath ∉ merged ∧ namesFile pf.style f.relPath = true ∧
          k = pf.key (push pf.style req.anchor f.relPath) := by
  obtain ⟨saves, snap, hsaves, hsnap, hmap⟩ := h.listed
  have hpaths : ∀ rel, rel ∈ snap.files.map FileEntry.relPath ↔
      rel ∈ saves.files.map SaveFile.relPath := by
    intro rel
    have hsame := congrFun hmap rel
    have hcollected : rel ∉ (saves.files.map SaveFile.entry).map FileEntry.relPath ↔
        rel ∉ saves.files.map SaveFile.relPath := by
      rw [List.map_map]
      rfl
    rw [← not_iff_not, ← fileMap_eq_none_iff, hsame, fileMap_eq_none_iff, hcollected]
  rw [mem_staleKeys]
  constructor
  · rintro ⟨snap', hsnap', f, hf, hnot, hfile, rfl⟩
    obtain rfl : snap = snap' := Option.some.inj (hsnap.symm.trans hsnap')
    obtain ⟨file, hmem, hpath⟩ := List.mem_map.mp ((hpaths f.relPath).mp (List.mem_map_of_mem hf))
    rw [← hpath] at hnot hfile ⊢
    exact ⟨saves, hsaves, file, hmem, hnot, hfile, rfl⟩
  · rintro ⟨saves', hsaves', file, hfile, hnot, hnames, rfl⟩
    obtain rfl : saves = saves' := Option.some.inj (hsaves.symm.trans hsaves')
    obtain ⟨f, hmem, hpath⟩ :=
      List.mem_map.mp ((hpaths file.relPath).mpr (List.mem_map_of_mem hfile))
    rw [← hpath] at hnot hnames ⊢
    exact ⟨snap, hsnap, f, hmem, hnot, hnames, rfl⟩

/-- No restored file is where a later one is copied to first. -/
def TmpApart (pf : Platform) (req : RestoreRequest) (env : RestoreEnv) (merged : Merged) : Prop :=
  ∀ before p after, env.order merged.files = before ++ p :: after →
    ∀ q ∈ after, tmpKey pf req.anchor q ≠ destKey pf req.anchor p

/-- No file that the patterns collect is missing from the chain under its own spelling and yet
one of the restored files for the file system, unless it cannot be deleted. -/
def StaleApart (g : GlobCrate) (pf : Platform) (req : RestoreRequest) (env : RestoreEnv)
    (m₀ : Computer) (merged : Merged) : Prop :=
  ∀ saves, collect g pf req.patterns [] req.anchor env.backup.mtime m₀.fs.tree = some saves →
    ∀ f ∈ saves.files, f.relPath ∉ merged → namesFile pf.style f.relPath = true →
      ∀ rel ∈ merged, pf.key (push pf.style req.anchor rel)
          = pf.key (push pf.style req.anchor f.relPath) →
        m₀.fs.locked (pf.key (push pf.style req.anchor rel)) = true

/-- **When everything that was restored is there.**  A restore of files that the file system
tells apart leaves each of them in place with its content exactly when none is where a later
one is copied to first, and none is deleted under another spelling. -/
theorem restored_present_iff {gameRunning : Bool} {m₁ : Computer}
    (prepared : prepare fmt g pf dirs req env m₀ = (.ok (merged, chain), m₁))
    (returned : Computer.runRestore fmt g pf dirs req gameRunning env m₀ = (.ok ⟨⟩, m))
    (distinct : ∀ rel ∈ merged, ∀ rel' ∈ merged, pf.key (push pf.style req.anchor rel)
      = pf.key (push pf.style req.anchor rel') → rel = rel')
    (outside : OutsideScratch pf dirs req merged) :
    (∀ rel src, merged.lookup rel = some src → ∃ c, m₁.fs.files (pf.key src) = some c ∧
        m.fs.files (pf.key (push pf.style req.anchor rel)) = some c) ↔
      TmpApart pf req env merged ∧ StaleApart g pf req env m₀ merged := by
  obtain ⟨-, merged', chain', m₁', hprepare, hprepared, hfinish⟩ := runRestore_ok returned
  obtain ⟨⟨rfl, rfl⟩, rfl⟩ : (merged = merged' ∧ chain = chain') ∧ m₁ = m₁' := by
    rw [prepared] at hprepare
    simpa using hprepare
  have hfinished := (finish_spec (hprepared.undisturbed outside)).ok rfl hfinish
  have hlocked : m₁.fs.locked = m₀.fs.locked := hprepared.confined.locked
  have hplaced : ∀ before p after, env.order merged.files = before ++ p :: after →
      ∀ c, m₁.fs.files (pf.key p.2) = some c →
        (swapped pf req.anchor m₁.fs.files (env.order merged.files) (destKey pf req.anchor p)
          = some c ↔ ∀ q ∈ after, tmpKey pf req.anchor q ≠ destKey pf req.anchor p) := by
    intro before p after hsplit c hc
    rw [swapped, hsplit]
    refine placeAll_dest_iff hc fun q hq heq => ?_
    have hmem : ∀ f ∈ before ++ p :: after, f.1 ∈ merged := fun f hf =>
      AList.lookup_isSome.mp (lookup_of_mem_order (hsplit ▸ hf) ▸ rfl)
    have hsame : q.1 = p.1 := distinct q.1 (hmem q (by simp [hq])) p.1 (hmem p (by simp)) heq
    have hnodup : ((before ++ p :: after).map Prod.fst).Nodup := hsplit ▸ order_nodup
    rw [List.map_append, List.map_cons] at hnodup
    have hpnot := (List.nodup_cons.mp (List.nodup_append.mp hnodup).2.1).1
    exact hpnot (hsame ▸ List.mem_map_of_mem hq)
  constructor
  · intro hpresent
    constructor
    · intro before p after hsplit
      have hmem : p ∈ env.order merged.files := by rw [hsplit]; simp
      obtain ⟨c, hc, hfinal⟩ := hpresent p.1 p.2 (lookup_of_mem_order hmem)
      refine (hplaced before p after hsplit c hc).mp ?_
      rw [hfinished.files] at hfinal
      rw [deleted] at hfinal
      split_ifs at hfinal
      exact hfinal
    · intro saves hsaves f hf hnot hfile rel hrel heq
      obtain ⟨src, hsrc⟩ := Option.isSome_iff_exists.mp (AList.lookup_isSome.mpr hrel)
      obtain ⟨c, -, hfinal⟩ := hpresent rel src hsrc
      by_contra hfree
      rw [hfinished.files, deleted_of_mem] at hfinal
      · cases hfinal
      · exact hprepared.mem_staleKeys_iff.mpr ⟨saves, hsaves, f, hf, hnot, hfile, heq⟩
      · rw [hlocked]
        simpa using hfree
  · rintro ⟨htmp, hstale⟩ rel src hsrc
    have hrel : rel ∈ merged := AList.lookup_isSome.mp (hsrc ▸ rfl)
    obtain ⟨c, hc⟩ := hfinished.readable (rel, src) (mem_files_iff.mpr hsrc)
    obtain ⟨before, after, hsplit⟩ := List.append_of_mem (mem_order hsrc)
    have hswapped := (hplaced before (rel, src) after hsplit c hc).mpr (htmp before _ after hsplit)
    refine ⟨c, hc, ?_⟩
    rw [hfinished.files]
    by_cases hdeleted : pf.key (push pf.style req.anchor rel) ∈
        staleKeys pf req.anchor merged (m₁.device.state.snapshots req.gameId)
    · obtain ⟨saves, hsaves, f, hf, hnot, hfile, heq⟩ := hprepared.mem_staleKeys_iff.mp hdeleted
      rw [deleted_of_locked]
      · exact hswapped
      · rw [hlocked]
        exact hstale saves hsaves f hf hnot hfile rel hrel heq
    · rw [deleted_of_not_mem hdeleted]
      exact hswapped

end Restore

/-! ## A file whose spelling changed -/

section Example

local instance swapDigest : Blake3 := plainDigest

/-- The directories of the daemon, apart from the saves. -/
def exampleDirs : DataDirs where
  blobCache := exampleDir ["cache"]
  scratch := exampleDir ["scratch"]

/-- A device with these files, whose last snapshot lists the saves among them. Saves that it
does not list were changed since. -/
def syncedComputer (files : List (List String × Bytes)) (snapshot : List (String × Bytes)) :
    Computer where
  fs := exampleFs files
  device :=
    { newMachine.device with
      state := { newMachine.device.state with
        snapshots := fun _ => some
          { files := snapshot.map fun f => ⟨f.1, f.2.length, 0, plainDigest.ofBytes f.2⟩
            takenAt := 1
            localHead := some 100 } } }

/-- Archives of a full backup with this payload are the single byte `1`. -/
noncomputable def oneArchive (payload : List (String × Bytes)) : SavrFormat :=
  tableFormat [("meta.json", [1]) :: payload.map fun f => ("files/" ++ f.1, f.2)]
    [⟨10, 22, none, .full, [], [], 1⟩]

/-- A server with one full version of the game. It sends one byte for it, which the format of
an example decodes. -/
def oneVersionEnv (files : List (String × Bytes)) : RestoreEnv where
  backup :=
    { draws := exampleBackup .empty true .none 1
      mtime := fun _ => 0
      packingId := 1
      reply := none }
  versions := some [⟨101, 10, 22, none, .full,
    files.map fun f => ⟨f.1, f.2.length, 0, plainDigest.ofBytes f.2⟩, plainDigest.ofBytes [1],
    1, 1, 1⟩]
  blob := fun _ => some [1]
  hidden := fun _ _ => false
  order := id
  order_perm := inOrder_perm

/-- What a restore of `payload` prepares over a disk with one save. -/
noncomputable def preparedSave (pf : Platform) (payload : List (String × Bytes)) :
    Except Failure (Merged × List Version) × Computer :=
  prepare (oneArchive payload) segmentGlob pf exampleDirs gameRequest (oneVersionEnv payload)
    (syncedComputer [(["game", "save"], [1])] [("save", [1])])

/-- A restore of this payload over a disk with one save. -/
noncomputable def restoredSave (pf : Platform) (payload : List (String × Bytes)) :
    Except Failure PUnit × Computer :=
  Computer.runRestore (oneArchive payload) segmentGlob pf exampleDirs gameRequest false
    (oneVersionEnv payload) (syncedComputer [(["game", "save"], [1])] [("save", [1])])

theorem exists_ok_of_toOption {ε α β : Type} {x : Except ε α} {f : α → β} {b : β}
    (h : x.toOption.map f = some b) : ∃ a, x = .ok a ∧ f a = b := by
  cases x with
  | error e => cases h
  | ok a => exact ⟨a, rfl, Option.some.inj h⟩

theorem eq_mk_of_fst {α β : Type} {x : α × β} {a : α} (h : x.1 = a) : x = (a, x.2) :=
  Prod.ext h rfl

/-- The save on disk is `save`, the restored one `Save`: for the file system it is one file,
which is written and then deleted. -/
theorem respelled_save_is_deleted :
    ∃ merged chain, (preparedSave lowerCased [("Save", [2])]).1 = .ok (merged, chain) ∧
      merged.keys = ["Save"] ∧ (restoredSave lowerCased [("Save", [2])]).1 = .ok ⟨⟩ ∧
      (restoredSave lowerCased [("Save", [2])]).2.fs.files
        (lowerCased.key (push .unix gameRequest.anchor "Save")) = none := by
  have hkeys : (preparedSave lowerCased [("Save", [2])]).1.toOption.map (fun r => r.1.keys)
      = some ["Save"] := by decide +kernel
  obtain ⟨⟨merged, chain⟩, hprepared, hkeys⟩ := exists_ok_of_toOption hkeys
  exact ⟨merged, chain, hprepared, hkeys, by decide +kernel, by decide +kernel⟩

/-- The example's snapshot collects the save. -/
theorem collect_gameRequest : collect segmentGlob lowerCased gameRequest.patterns []
    gameRequest.anchor (fun _ => 0) (exampleTree [(["game", "save"], [1])])
    = some (.ofFound segmentGlob lowerCased [] gameRequest.anchor (fun _ => 0)
      [(exampleDir ["game", "save"], [1])]) := by
  have hfound : found segmentGlob lowerCased gameRequest.patterns
      (exampleTree [(["game", "save"], [1])]) = some [(exampleDir ["game", "save"], [1])] := by
    decide +kernel
  exact congrArg (Option.map _) hfound

/-- A save that keeps its spelling is restored. -/
theorem same_spelling_is_restored :
    ∃ merged chain, (preparedSave lowerCased [("save", [2])]).1 = .ok (merged, chain) ∧
      (restoredSave lowerCased [("save", [2])]).1 = .ok ⟨⟩ ∧
      ∀ rel src, merged.lookup rel = some src →
        ∃ c, (preparedSave lowerCased [("save", [2])]).2.fs.files (lowerCased.key src) = some c ∧
          (restoredSave lowerCased [("save", [2])]).2.fs.files
            (lowerCased.key (push lowerCased.style gameRequest.anchor rel)) = some c := by
  have hkeys : (preparedSave lowerCased [("save", [2])]).1.toOption.map (fun r => r.1.keys)
      = some ["save"] := by decide +kernel
  obtain ⟨⟨merged, chain⟩, hprepared, hkeys⟩ := exists_ok_of_toOption hkeys
  have hreturned : (restoredSave lowerCased [("save", [2])]).1 = .ok ⟨⟩ := by decide +kernel
  have hsave : ∀ rel ∈ merged, rel = "save" := fun rel hrel =>
    List.mem_singleton.mp (hkeys ▸ AList.mem_keys.mp hrel)
  have hdistinct : ∀ rel ∈ merged, ∀ rel' ∈ merged,
      lowerCased.key (push lowerCased.style gameRequest.anchor rel)
        = lowerCased.key (push lowerCased.style gameRequest.anchor rel') → rel = rel' :=
    fun rel hrel rel' hrel' _ => (hsave rel hrel).trans (hsave rel' hrel').symm
  have houtside : OutsideScratch lowerCased exampleDirs gameRequest merged := by
    intro rel hrel
    rw [hsave rel hrel]
    decide +kernel
  have hprepare : prepare (oneArchive [("save", [2])]) segmentGlob lowerCased exampleDirs
      gameRequest (oneVersionEnv [("save", [2])])
      (syncedComputer [(["game", "save"], [1])] [("save", [1])])
      = (.ok (merged, chain), (preparedSave lowerCased [("save", [2])]).2) :=
    eq_mk_of_fst hprepared
  have hrun : Computer.runRestore (oneArchive [("save", [2])]) segmentGlob lowerCased exampleDirs
      gameRequest false (oneVersionEnv [("save", [2])])
      (syncedComputer [(["game", "save"], [1])] [("save", [1])])
      = (.ok ⟨⟩, (restoredSave lowerCased [("save", [2])]).2) :=
    eq_mk_of_fst hreturned
  refine ⟨merged, chain, hprepared, hreturned, ?_⟩
  refine (restored_present_iff hprepare hrun hdistinct houtside).mpr ⟨?_, ?_⟩
  · -- there is no file after the only one
    intro before p after hsplit
    have hfiles : merged.files.map Prod.fst = ["save"] := by
      rw [← hkeys, Merged.files, List.map_map]
      rfl
    have hlength : (before ++ p :: after).length = 1 := by
      rw [← hsplit, ← List.length_map Prod.fst]
      exact congrArg List.length hfiles
    rw [List.length_append, List.length_cons] at hlength
    obtain rfl : after = [] := List.length_eq_zero_iff.mp (by omega)
    exact fun q hq => absurd hq List.not_mem_nil
  · -- the only file on disk is in the chain
    intro saves hsaves f hf hnot
    obtain rfl := Option.some.inj (hsaves.symm.trans collect_gameRequest)
    have hpath : f.relPath = "save" := by
      have hpaths : (SaveSet.ofFound segmentGlob lowerCased [] gameRequest.anchor (fun _ => 0)
          [(exampleDir ["game", "save"], [1])]).files.map SaveFile.relPath = ["save"] := by
        decide +kernel
      exact List.mem_singleton.mp (hpaths ▸ List.mem_map_of_mem hf)
    refine absurd ?_ hnot
    rw [hpath, AList.mem_keys, hkeys]
    exact List.mem_singleton_self _

end Example

end Savr
