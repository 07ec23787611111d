import Savr.Daemon.EngineRestore

/-!
# A restore that is cut short

`run_restore` writes a file under a temporary name and renames it, "never garbage over good
saves".  What this gives is a statement about the states in between: wherever a restore stops
— an operation is refused, a copy breaks off, the process dies — a save holds what it held
before, or everything it is restored to.

Up to the deletions an operation that fails ends the restore, so a process that dies between
two of them leaves a state in which the restore may also return an error.

## Main results

* `swap_anytime` — how far the swap got, whenever it stops.
* `finish_anytime` — the same for the swap, the deletions and the record in the database.
* `restore_never_tears` — no save is ever torn, nothing is deleted before everything is in
  place, and the database names the target last.
-/

namespace Savr

open Hoare Placing

/-! ## The swap -/

section Swap

variable {pf : Platform} {anchor src dst : PathBuf} {s₀ s : Fs} {f : String × PathBuf}
  {fs done rest : List (String × PathBuf)} {k : PathBuf}

/-- Between the two states only this file was written. -/
structure WrittenOnly (s₀ : Fs) (k : PathBuf) (s : Fs) : Prop where
  files : ∀ k', k' ≠ k → s.files k' = s₀.files k'
  locked : s.locked = s₀.locked

theorem Fs.Kept.writtenOnly (h : s₀.Kept pf s) (k : PathBuf) : WrittenOnly s₀ k s :=
  ⟨fun k' _ => congrFun h.files k', h.locked⟩

theorem Fs.Changed.writtenOnly {path : PathBuf} {content : Bytes}
    (h : s₀.Changed pf s [path] (Function.update s₀.files (pf.key path) (some content))) :
    WrittenOnly s₀ (pf.key path) s :=
  ⟨fun k' hk' => by rw [h.files, Function.update_of_ne hk'], h.locked⟩

/-- A copy that breaks off has written to its target only. -/
theorem copy_cut : Triple (fun s => s = s₀) (copy pf src dst)
    (fun _ s => WrittenOnly s₀ (pf.key dst) s) fun s => WrittenOnly s₀ (pf.key dst) s := by
  refine triple_bind (readFile_spec.conseq (fun _ h => h) (fun _ _ h => h.2)
    fun _ h => h.writtenOnly _) fun content => triple_of_state fun s₁ hs₁ => ?_
  have hback : ∀ s, WrittenOnly s₁ (pf.key dst) s → WrittenOnly s₀ (pf.key dst) s := fun s h =>
    ⟨fun k' hk' => (h.files k' hk').trans (congrFun hs₁.files k'), h.locked.trans hs₁.locked⟩
  refine createFile_spec.conseq (fun _ h => h) (fun _ s hs => hback s hs.writtenOnly) ?_
  rintro s (hs | ⟨part, hs⟩)
  · exact hback s (hs.writtenOnly _)
  · exact hback s hs.writtenOnly

/-- A file whose swap fails is as it was; only its temporary name may be in use. -/
theorem swapFile_cut : Triple (fun s => s = s₀) (swapFile pf anchor f) (fun _ _ => True)
    fun s => WrittenOnly s₀ (tmpKey pf anchor f) s := by
  have hwrite : ∀ s₁ : Fs, s₀.Kept pf s₁ → Triple (fun s => s = s₁)
      (copy pf f.2 (tmpFor (push pf.style anchor f.1)) >>= fun _ =>
        rename pf (tmpFor (push pf.style anchor f.1)) (push pf.style anchor f.1))
      (fun _ _ => True) fun s => WrittenOnly s₀ (tmpKey pf anchor f) s := by
    intro s₁ hs₁
    have hback : ∀ s, WrittenOnly s₁ (tmpKey pf anchor f) s →
        WrittenOnly s₀ (tmpKey pf anchor f) s := fun s h =>
      ⟨fun k' hk' => (h.files k' hk').trans (congrFun hs₁.files k'), h.locked.trans hs₁.locked⟩
    refine triple_bind (copy_cut.conseq (fun _ h => h) (fun _ s h => hback s h)
      fun s h => hback s h) fun _ => triple_of_state fun s₂ hs₂ => ?_
    refine rename_spec.conseq (fun _ h => h) (fun _ _ _ => trivial) fun s hs => ?_
    exact ⟨fun k' hk' => (congrFun hs.files k').trans (hs₂.files k' hk'),
      hs.locked.trans hs₂.locked⟩
  rw [swapFile]
  dsimp only
  cases parent (push pf.style anchor f.1) with
  | none => exact hwrite s₀ (.refl s₀)
  | some dir =>
      refine triple_bind (createDirAll_spec.conseq (fun _ h => h) (fun _ _ h => h)
        fun _ h => h.writtenOnly _) fun _ => triple_of_state fun s₁ hs₁ => hwrite s₁ hs₁

/-- How far the swap got: the files of `done` are in place, and of those of `rest` the first
one may have left a part of a copy under its temporary name. -/
structure SwappedUpTo (pf : Platform) (anchor : PathBuf) (s₀ : Fs)
    (done rest : List (String × PathBuf)) (s : Fs) : Prop where
  readable : ∀ f ∈ done, ∃ c, s₀.files (pf.key f.2) = some c
  files : ∀ k, (∀ f ∈ rest, tmpKey pf anchor f ≠ k) → s.files k = swapped pf anchor s₀.files done k
  locked : s.locked = s₀.locked

/-- **The swap**, whenever it stops: some of the files are in place, and nothing else has
happened but under temporary names. -/
theorem swap_anytime (undisturbed : Undisturbed pf anchor fs) :
    Triple (fun s => s = s₀) (fs.forM (swapFile pf anchor))
      (fun _ s => SwappedUpTo pf anchor s₀ fs [] s)
      fun s => ∃ done rest, fs = done ++ rest ∧ SwappedUpTo pf anchor s₀ done rest s := by
  refine (triple_forM (fun done s => SwappedUpTo pf anchor s₀ done [] s) ?_).conseq ?_
    (fun _ _ h => h) fun _ h => h
  · intro done f rest hsplit
    refine triple_of_state fun s₁ hs₁ => ?_
    have hfiles : s₁.files = swapped pf anchor s₀.files done :=
      funext fun k => hs₁.files k fun _ hf => absurd hf List.not_mem_nil
    -- what is in place so far is not where the next file is staged
    have hsource : s₁.files (pf.key f.2) = s₀.files (pf.key f.2) := by
      rw [hfiles]
      refine placeAll_of_untouched fun h hh => undisturbed f (by rw [hsplit]; simp) h ?_
      rw [hsplit]
      exact List.mem_append_left _ hh
    refine (swapFile_spec.and swapFile_cut).conseq (fun _ h => h) ?_ ?_
    · rintro _ s ⟨⟨hc, hplace, hlocked⟩, -⟩
      refine ⟨?_, fun k _ => ?_, hlocked.trans hs₁.locked⟩
      · intro h hh
        rcases List.mem_append.mp hh with hh | hh
        · exact hs₁.readable h hh
        · obtain rfl := List.mem_singleton.mp hh
          exact hsource ▸ hc
      · have hstep : swapped pf anchor s₀.files (done ++ [f]) = place (destKey pf anchor)
            (tmpKey pf anchor) (stagedContent pf s₀.files) (swapped pf anchor s₀.files done) f := by
          rw [swapped, placeAll, List.foldl_append]
          rfl
        rw [hplace, hstep, ← hfiles, place, place, stagedContent, hsource]
        rfl
    · rintro s ⟨-, hcut⟩
      refine ⟨done, f :: rest, hsplit, hs₁.readable, fun k hk => ?_, hcut.locked.trans hs₁.locked⟩
      rw [hcut.files k (hk f (List.mem_cons_self ..)).symm, hfiles]
  · rintro s rfl
    exact ⟨fun _ hf => absurd hf List.not_mem_nil, fun _ _ => rfl, rfl⟩

/-- Off the temporary names, a file is as it was before the swap or holds all of a staged
file. -/
theorem SwappedUpTo.whole (h : SwappedUpTo pf anchor s₀ done rest s)
    (htmp : ∀ f ∈ done ++ rest, tmpKey pf anchor f ≠ k) :
    s.files k = s₀.files k ∨ ∃ f ∈ done, destKey pf anchor f = k ∧
      ∃ c, s₀.files (pf.key f.2) = some c ∧ s.files k = some c := by
  rw [h.files k fun f hf => htmp f (List.mem_append_right _ hf)]
  by_cases huses : ∃ f ∈ done, Uses (destKey pf anchor) (tmpKey pf anchor) f k
  · right
    obtain ⟨before, f, after, rfl, hf, hafter⟩ := exists_last _ _ huses
    have hmem : f ∈ before ++ f :: after := by simp
    have hdest : destKey pf anchor f = k :=
      hf.resolve_right (htmp f (List.mem_append_left _ hmem))
    obtain ⟨c, hc⟩ := h.readable f hmem
    refine ⟨f, hmem, hdest, c, hc, ?_⟩
    rw [swapped, placeAll_of_last hf hafter, if_pos hdest]
    exact hc
  · left
    push Not at huses
    exact placeAll_of_untouched huses

end Swap

/-! ## The restore -/

section Restore

variable [Blake3] {fmt : SavrFormat} {g : GlobCrate} {pf : Platform} {dirs : DataDirs}
  {req : RestoreRequest} {env : RestoreEnv} {merged : Merged} {chain : List Version}
  {done rest : List (String × PathBuf)} {m₀ m₁ m : Computer} {gameRunning : Bool}

omit [Blake3] in
/-- A statement of the database that fails has changed nothing. -/
theorem store_cut (pf : Platform) (w : Write) : Triple (fun m => m = m₀) (store w)
    (fun _ m => m.fs.files = m₀.fs.files) fun m => m.device = m₀.device ∧
      m.fs.files = m₀.fs.files := by
  have hfate : Keeps (Computer.Quiet pf fun _ => False) (disk nextFate) :=
    keepsQuiet_disk keeps_nextFate
  refine triple_bind (hfate.triple.conseq (fun _ h => h) (fun _ _ h => h)
    fun _ h => ⟨h.device, h.confined.files_eq⟩) fun fate => triple_of_state fun m₂ hm₂ => ?_
  split_ifs
  · refine triple_modify ?_
    rintro m rfl
    exact hm₂.confined.files_eq
  · refine triple_throw ?_
    rintro m rfl
    exact ⟨hm₂.device, hm₂.confined.files_eq⟩

/-- From the state `m₁` right before the swap, the files of `done` are in place and those of
`rest` are not: a file is as it was, or holds all of a merged file that is in place, or it is
stale and, once everything is in place, gone. -/
structure FinishedUpTo (pf : Platform) (req : RestoreRequest) (env : RestoreEnv) (merged : Merged)
    (m₁ : Computer) (done rest : List (String × PathBuf)) (m : Computer) : Prop where
  split : env.order merged.files = done ++ rest
  whole : ∀ k, (∀ f ∈ env.order merged.files, tmpKey pf req.anchor f ≠ k) →
    m.fs.files k = m₁.fs.files k ∨
    (∃ f ∈ done, destKey pf req.anchor f = k ∧
      ∃ c, m₁.fs.files (pf.key f.2) = some c ∧ m.fs.files k = some c) ∨
    (rest = [] ∧ k ∈ staleKeys pf req.anchor merged (m₁.device.state.snapshots req.gameId) ∧
      m.fs.files k = none)

omit [Blake3] in
theorem SwappedUpTo.finishedUpTo (h : SwappedUpTo pf req.anchor m₁.fs done rest m.fs)
    (split : env.order merged.files = done ++ rest) :
    FinishedUpTo pf req env merged m₁ done rest m :=
  ⟨split, fun _ hk => (h.whole fun f hf => hk f (split ▸ hf)).imp_right .inl⟩

omit [Blake3] in
/-- The deletions take stale files away, after everything is in place. -/
theorem FinishedUpTo.deleted {m₂ : Computer}
    (h : FinishedUpTo pf req env merged m₁ done [] m₂)
    (hfiles : m.fs.files = deleted m₂.fs.files m₂.fs.locked
      (staleKeys pf req.anchor merged (m₁.device.state.snapshots req.gameId))) :
    FinishedUpTo pf req env merged m₁ done [] m := by
  refine ⟨h.split, fun k hk => ?_⟩
  rw [hfiles, Savr.deleted]
  split_ifs with hstale
  · exact .inr (.inr ⟨rfl, hstale.1, rfl⟩)
  · exact h.whole k hk

omit [Blake3] in
/-- **The swap, the deletions and the record**, whenever they stop.  The database changes last,
if at all. -/
theorem finish_anytime (undisturbed : Undisturbed pf req.anchor (env.order merged.files)) :
    Triple (fun m => m = m₁) (finish pf req env merged chain)
      (fun _ m => FinishedUpTo pf req env merged m₁ (env.order merged.files) [] m)
      fun m => m.device = m₁.device ∧
        ∃ done rest, FinishedUpTo pf req env merged m₁ done rest m := by
  have hswap : Triple (fun m => m = m₁)
      (disk ((env.order merged.files).forM (swapFile pf req.anchor)))
      (fun _ m => m.device = m₁.device ∧
        FinishedUpTo pf req env merged m₁ (env.order merged.files) [] m)
      fun m => m.device = m₁.device ∧
        ∃ done rest, FinishedUpTo pf req env merged m₁ done rest m := by
    refine triple_zoom ?_
    rintro m rfl
    refine (swap_anytime undisturbed).conseq (fun _ h => h) ?_ ?_
    · exact fun _ s hs => ⟨rfl, SwappedUpTo.finishedUpTo (m := { m with fs := s }) hs
        (List.append_nil _).symm⟩
    · rintro s ⟨done, rest, hsplit, hs⟩
      exact ⟨rfl, done, rest, SwappedUpTo.finishedUpTo (m := { m with fs := s }) hs hsplit⟩
  refine triple_bind hswap fun _ => triple_of_state fun m₂ hm₂ => ?_
  obtain ⟨hdevice₂, hup₂⟩ := hm₂
  have hsame : ∀ m : Computer, m.fs.files = m₂.fs.files →
      FinishedUpTo pf req env merged m₁ (env.order merged.files) [] m := fun m hfiles =>
    ⟨hup₂.split, fun k hk => by rw [hfiles]; exact hup₂.whole k hk⟩
  have hquiet : Keeps (Computer.Quiet pf fun _ => False) load := keepsQuiet_load
  refine triple_bind (((load_spec pf).and hquiet.triple).conseq (fun _ h => h)
    (fun _ _ h => h.1) ?_) fun d => triple_of_state fun m₃ hm₃ => ?_
  · rintro m ⟨-, hm⟩
    exact ⟨hm.device.trans hdevice₂, _, _, hsame m hm.confined.files_eq⟩
  obtain ⟨rfl, hdevice₃, hfiles₃, hlocked₃⟩ := hm₃
  rw [hdevice₂]
  have hdelete : Triple (fun m => m = m₃) (disk (deleteStale pf req.anchor merged
      (m₁.device.state.snapshots req.gameId)))
      (fun _ m => m.device = m₁.device ∧
        FinishedUpTo pf req env merged m₁ (env.order merged.files) [] m) fun _ => False := by
    refine triple_zoom ?_
    rintro m rfl
    refine deleteStale_spec.conseq (fun _ h => h) ?_ fun _ h => h
    rintro _ s ⟨hfiles, -⟩
    exact ⟨hdevice₃.trans hdevice₂, (hsame m hfiles₃).deleted hfiles⟩
  refine triple_bind (hdelete.conseq (fun _ h => h) (fun _ _ h => h) fun _ h => h.elim)
    fun _ => triple_of_state fun m₄ hm₄ => ?_
  obtain ⟨hdevice₄, hup₄⟩ := hm₄
  have hstay : ∀ m : Computer, m.fs.files = m₄.fs.files →
      FinishedUpTo pf req env merged m₁ (env.order merged.files) [] m := fun m hfiles =>
    ⟨hup₄.split, fun k hk => by rw [hfiles]; exact hup₄.whole k hk⟩
  cases chain.getLast? with
  | none =>
      refine triple_throw ?_
      rintro m rfl
      exact ⟨hdevice₄, _, _, hup₄⟩
  | some target =>
      refine (store_cut pf _).conseq (fun _ h => h) (fun _ m hm => hstay m hm) ?_
      rintro m ⟨hdevice, hfiles⟩
      exact ⟨hdevice.trans hdevice₄, _, _, hstay m hfiles⟩

/-- The database after the preparations is as the backup before them left it, whether they
succeed or not: the chain is staged without it. -/
theorem prepare_device (m : Computer) : (prepare fmt g pf dirs req env m).2.device =
    (Computer.runBackup fmt g pf dirs.blobCache req.preJob env.preEnv m).2.device := by
  have hstage : Keeps (Computer.Quiet pf fun _ => True) (stageChain fmt pf dirs req env) :=
    keepsQuiet_stageChain fun _ _ => trivial
  rw [prepare]
  rcases hbackup : Computer.runBackup fmt g pf dirs.blobCache req.preJob env.preEnv m with
    ⟨reason | outcome, m'⟩
  · rw [bind_of_error (orElse_of_error hbackup)]
  · rw [bind_of_ok (orElse_of_ok hbackup)]
    exact (hstage m').device

/-- A file outside the daemon's own directories. -/
def Elsewhere (pf : Platform) (dirs : DataDirs) (k : PathBuf) : Prop :=
  ∀ p, Below dirs.scratch p ∨ Below dirs.blobCache p → pf.key p ≠ k

omit [Blake3] in
theorem elsewhere_of_not_prefix {k : PathBuf} (scratch : ¬ pf.key dirs.scratch <+: k)
    (blobCache : ¬ pf.key dirs.blobCache <+: k) : Elsewhere pf dirs k := by
  rintro p (hp | hp) rfl
  · exact scratch (hp.isPrefix.map _)
  · exact blobCache (hp.isPrefix.map _)

omit [Blake3] in
theorem Fs.Confined.files_elsewhere {s₀ s : Fs} {k : PathBuf}
    (h : s₀.Confined pf (fun p => Below dirs.scratch p ∨ Below dirs.blobCache p) s)
    (elsewhere : Elsewhere pf dirs k) : s.files k = s₀.files k := by
  obtain ⟨new, -, hallowed, hfiles⟩ := h.touched
  exact hfiles k fun p hp => elsewhere p (hallowed p hp)

/-- A save after a restore that put the files of `done` in place and not those of `rest`: what
it held before, or all of a staged file, or it is gone, as a collected file that the chain does
not have. -/
def Untorn (g : GlobCrate) (pf : Platform) (req : RestoreRequest) (env : RestoreEnv)
    (merged : Merged) (m₀ m₁ m : Computer) (done rest : List (String × PathBuf))
    (k : PathBuf) : Prop :=
  m.fs.files k = m₀.fs.files k ∨
  (∃ f ∈ done, destKey pf req.anchor f = k ∧
    ∃ c, m₁.fs.files (pf.key f.2) = some c ∧ m.fs.files k = some c) ∨
  (rest = [] ∧ m.fs.files k = none ∧
    ∃ saves, collect g pf req.patterns [] req.anchor env.backup.mtime m₀.fs.tree = some saves ∧
      ∃ f ∈ saves.files, f.relPath ∉ merged ∧ k = pf.key (push pf.style req.anchor f.relPath))

/-- **A restore never tears a save.**  A restore that is refused changes nothing.  One that stops
in its preparations has written to the daemon's own directories only.  However the others end,
every file outside these directories and off the temporary names is untorn: nothing was written
before the whole chain was staged, and nothing is deleted before all of it is in place.  A
restore that returns has put all of it in place, and one that fails has left the database as the
pre-restore backup left it.  No file of the version may go where another one is staged. -/
theorem restore_never_tears {result : Except Failure PUnit}
    (undisturbed : ∀ merged chain m₁, prepare fmt g pf dirs req env m₀ = (.ok (merged, chain), m₁) →
      Undisturbed pf req.anchor merged.files)
    (ran : Computer.runRestore fmt g pf dirs req gameRunning env m₀ = (result, m)) :
    ((gameRunning = true ∨ req.patterns = [] ∧ req.registryKeys = []) ∧
      (∃ reason, result = .error reason) ∧ m = m₀) ∨
    ((∃ reason, result = .error reason) ∧
      (∀ k, Elsewhere pf dirs k → m.fs.files k = m₀.fs.files k) ∧
      m.device = (Computer.runBackup fmt g pf dirs.blobCache req.preJob env.preEnv m₀).2.device) ∨
    ∃ merged chain m₁, prepare fmt g pf dirs req env m₀ = (.ok (merged, chain), m₁) ∧
      ∃ done rest, env.order merged.files = done ++ rest ∧
        (∀ k, Elsewhere pf dirs k →
          (∀ f ∈ env.order merged.files, tmpKey pf req.anchor f ≠ k) →
          Untorn g pf req env merged m₀ m₁ m done rest k) ∧
        (result = .ok ⟨⟩ → rest = []) ∧
        ∀ reason, result = .error reason → m.device =
          (Computer.runBackup fmt g pf dirs.blobCache req.preJob env.preEnv m₀).2.device := by
  rw [Computer.runRestore] at ran
  split_ifs at ran with hrunning hempty
  · obtain ⟨rfl, rfl⟩ := Prod.mk.inj ran
    exact .inl ⟨.inl hrunning, ⟨_, rfl⟩, rfl⟩
  · obtain ⟨rfl, rfl⟩ := Prod.mk.inj ran
    exact .inl ⟨.inr (by simpa [List.isEmpty_iff] using hempty), ⟨_, rfl⟩, rfl⟩
  right
  have htargets : ¬ (req.patterns = [] ∧ req.registryKeys = []) := by
    simpa [List.isEmpty_iff] using hempty
  have hconfined : m₀.Confined pf (fun p => Below dirs.scratch p ∨ Below dirs.blobCache p)
      (prepare fmt g pf dirs req env m₀).2 := prepare_confined (fun _ h => h) m₀
  have hbackup : (prepare fmt g pf dirs req env m₀).2.device =
      (Computer.runBackup fmt g pf dirs.blobCache req.preJob env.preEnv m₀).2.device :=
    prepare_device m₀
  rcases hprepare : prepare fmt g pf dirs req env m₀ with ⟨reason | ⟨merged, chain⟩, m₁⟩
  · left
    rw [hprepare] at hconfined hbackup
    obtain ⟨rfl, rfl⟩ := Prod.mk.inj ((bind_of_error hprepare).symm.trans ran)
    exact ⟨⟨reason, rfl⟩, fun k hk => hconfined.files_elsewhere hk, hbackup⟩
  · right
    rw [hprepare] at hconfined hbackup
    have hprepared := (prepare_spec htargets).ok rfl hprepare
    have hfinish : finish pf req env merged chain m₁ = (result, m) :=
      (bind_of_ok hprepare).symm.trans ran
    have horder : ∀ f, f ∈ env.order merged.files ↔ f ∈ merged.files :=
      fun f => (env.order_perm merged.files).mem_iff
    have hundisturbed : Undisturbed pf req.anchor (env.order merged.files) := fun f hf f' hf' =>
      undisturbed merged chain m₁ hprepare f ((horder f).mp hf) f' ((horder f').mp hf')
    have hanytime : Triple (fun m => m = m₁) (finish pf req env merged chain) _ _ :=
      finish_anytime hundisturbed
    have huntorn : ∀ {done rest}, FinishedUpTo pf req env merged m₁ done rest m →
        ∀ k, Elsewhere pf dirs k →
          (∀ f ∈ env.order merged.files, tmpKey pf req.anchor f ≠ k) →
          Untorn g pf req env merged m₀ m₁ m done rest k := by
      intro done rest hup k helse htmp
      rcases hup.whole k htmp with hsame | hplaced | ⟨hall, hstale, hgone⟩
      · exact .inl (hsame.trans (hconfined.files_elsewhere helse))
      · exact .inr (.inl hplaced)
      · obtain ⟨saves, hsaves, f, hf, hnot, -, hk⟩ := hprepared.mem_staleKeys_iff.mp hstale
        exact .inr (.inr ⟨hall, hgone, saves, hsaves, f, hf, hnot, hk⟩)
    refine ⟨merged, chain, m₁, rfl, ?_⟩
    cases result with
    | ok a =>
        have hup := hanytime.ok rfl hfinish
        exact ⟨_, [], hup.split, huntorn hup, fun _ => rfl, fun _ h => by cases h⟩
    | error reason =>
        obtain ⟨hdevice, done, rest, hup⟩ := hanytime.error rfl hfinish
        exact ⟨done, rest, hup.split, huntorn hup, fun h => (by cases h),
          fun _ _ => hdevice.trans hbackup⟩

end Restore

section Example

local instance interruptedDigest : Blake3 := plainDigest

/-- On disk there is a directory where the version has the file `save`. -/
def blockedComputer : Computer :=
  syncedComputer [(["game", "save", "x"], [1])] [("save/x", [1])]

/-- The restore of the example up to the swap. -/
noncomputable def preparedBlocked : Except Failure (Merged × List Version) × Computer :=
  prepare (oneArchive [("save", [2])]) segmentGlob lowerCased exampleDirs gameRequest
    (oneVersionEnv [("save", [2])]) blockedComputer

/-- The restore of the example. -/
noncomputable def blockedRestore : Except Failure PUnit × Computer :=
  Computer.runRestore (oneArchive [("save", [2])]) segmentGlob lowerCased exampleDirs gameRequest
    false (oneVersionEnv [("save", [2])]) blockedComputer

theorem files_of_preparedBlocked {merged : Merged} {chain : List Version} {m₁ : Computer}
    (h : preparedBlocked = (.ok (merged, chain), m₁)) :
    merged.files = [("save", exampleDir ["scratch", Uuid.text 101, "save"])] := by
  have hfiles : preparedBlocked.1.toOption.map (fun r => r.1.files)
      = some [("save", exampleDir ["scratch", Uuid.text 101, "save"])] := by decide +kernel
  rw [h] at hfiles
  exact Option.some.inj hfiles

/-- The rename fails, with the copy under its temporary name: the save in the directory is
untorn, and the last snapshot is that of the pre-restore backup. -/
theorem blockedRestore_untorn :
    blockedRestore.1.toOption = none ∧
      ∃ merged chain m₁, preparedBlocked = (.ok (merged, chain), m₁) ∧
      blockedRestore.2.device = (Computer.runBackup (oneArchive [("save", [2])]) segmentGlob
        lowerCased exampleDirs.blobCache gameRequest.preJob (oneVersionEnv [("save", [2])]).preEnv
        blockedComputer).2.device ∧
      ∃ done rest, Untorn segmentGlob lowerCased gameRequest (oneVersionEnv [("save", [2])]) merged
        blockedComputer m₁ blockedRestore.2 done rest (exampleDir ["game", "save", "x"]) := by
  have hfailed : blockedRestore.1.toOption = none := by decide +kernel
  have hleft : blockedRestore.2.fs.files (tmpFor (exampleDir ["game", "save"])) = some [2] := by
    decide +kernel
  have hrun : Computer.runRestore (oneArchive [("save", [2])]) segmentGlob lowerCased exampleDirs
      gameRequest false (oneVersionEnv [("save", [2])]) blockedComputer
      = (blockedRestore.1, blockedRestore.2) := eq_mk_of_fst rfl
  have hundisturbed : ∀ merged chain m₁, preparedBlocked = (.ok (merged, chain), m₁) →
      Undisturbed lowerCased gameRequest.anchor merged.files := by
    intro merged chain m₁ hprepare f hf f' hf'
    rw [files_of_preparedBlocked hprepare] at hf hf'
    obtain rfl := List.mem_singleton.mp hf
    obtain rfl := List.mem_singleton.mp hf'
    rintro (hdest | htmp)
    · exact absurd hdest (by decide +kernel)
    · exact absurd htmp (by decide +kernel)
  rcases restore_never_tears hundisturbed hrun with ⟨hrefused, -, -⟩ | ⟨-, hsame, -⟩ |
    ⟨merged, chain, m₁, hprepare, done, rest, -, huntorn, -, hdevice⟩
  · exact absurd hrefused (by decide)
  · -- the temporary copy shows that the swap had begun
    have htmp : Elsewhere lowerCased exampleDirs (tmpFor (exampleDir ["game", "save"])) :=
      elsewhere_of_not_prefix (by decide +kernel) (by decide +kernel)
    have hnone := hleft.symm.trans (hsame _ htmp)
    exact absurd hnone (by decide +kernel)
  · refine ⟨hfailed, merged, chain, m₁, hprepare, ?_, done, rest, huntorn _ ?_ ?_⟩
    · rcases hresult : blockedRestore.1 with reason | ⟨⟩
      · exact hdevice reason hresult
      · rw [hresult] at hfailed
        cases hfailed
    · exact elsewhere_of_not_prefix (by decide +kernel) (by decide +kernel)
    · intro f hf
      have hmem := ((oneVersionEnv [("save", [2])]).order_perm merged.files).mem_iff.mp hf
      rw [files_of_preparedBlocked hprepare] at hmem
      obtain rfl := List.mem_singleton.mp hmem
      decide +kernel

end Example

end Savr
