import Savr.Daemon.Restore
import Savr.Daemon.Restored

/-!
# The staged chain

The merge of a chain stands twice in this development: as maps from `rel_path`s to contents,
where a version is its archive (`mergeChain`), and as the disk sees it (`stageVersion`), where
each archive is unpacked into a directory of its own and a map says where a file is staged.

On a file system that tells all names apart the two agree: what the staged files hold is what
`mergeChain` merges.  A version is staged next to the earlier ones and writes over none of them,
so the loop only has to remember that each staged file lies below the directory of its version.

## Main results

* `Merged.content_apply` — one archive changes the staged contents as it changes the map.
* `StagedUpTo.step` — one version is staged next to the earlier ones.
* `staged_chain_content` — the staged chain has the content of `mergeChain`.
* `stageChain_restoredFiles` — up to the swap, a restore on the disk stages `restoredFiles`.
-/

namespace Savr

open Hoare KeyedMap

/-! ## One archive -/

/-- What the files of a merged chain hold where they are staged. -/
def Merged.content (merged : Merged) (files : PathBuf → Option Bytes) : String → Option Bytes :=
  fun rel => (merged.lookup rel).bind files

/-- The files of the archive can lie side by side in one directory. -/
structure Archive.Proper (style : PathStyle) (a : Archive) : Prop where
  names : ∀ f ∈ a.payload, RelName style f.1
  apart : a.payload.Pairwise fun f g => Apart (components style f.1) (components style g.1)

section Merge

variable {pf : Platform} {merged : Merged} {rels deletions : List String} {staged : PathBuf}
  {rel : String} {a : Archive} {files files' : PathBuf → Option Bytes}

theorem Archive.Proper.nodup {style : PathStyle} (h : a.Proper style) :
    (a.payload.map Prod.fst).Nodup := by
  rw [List.Nodup, List.pairwise_map]
  refine h.apart.imp fun {f g} hapart heq => hapart.1 ?_
  rw [heq]

/-- The deletions come last. -/
theorem Merged.lookup_apply_deletions : (merged.apply pf rels staged deletions).lookup rel =
    if rel ∈ deletions then none else (merged.apply pf rels staged []).lookup rel := by
  have herase : ∀ m : Merged, (deletions.foldl (fun m rel => AList.erase rel m) m).lookup rel =
      if rel ∈ deletions then none else m.lookup rel := by
    induction deletions with
    | nil => exact fun m => (if_neg List.not_mem_nil).symm
    | cons first deletions ih =>
        intro m
        rw [List.foldl_cons, ih]
        by_cases hrel : rel ∈ deletions
        · rw [if_pos hrel, if_pos (List.mem_cons_of_mem first hrel)]
        · by_cases hfirst : rel = first
          · subst hfirst
            rw [if_neg hrel, AList.lookup_erase, if_pos (List.mem_cons_self ..)]
          · rw [if_neg hrel, AList.lookup_erase_ne hfirst, if_neg (by simp [hfirst, hrel])]
  exact herase _

/-- **One archive.**  If the walk finds the files of the archive, and the files that were merged
before are where they were, the staged contents change as the map does. -/
theorem Merged.content_apply (proper : a.Proper pf.style)
    (walked : ∀ rel, rel ∈ rels ↔ rel ∈ a.payload.map Prod.fst)
    (placed : ∀ f ∈ a.payload, files' (push pf.style staged f.1) = some f.2)
    (kept : ∀ rel src, merged.lookup rel = some src → files' src = files src) :
    (merged.apply pf rels staged a.metadata.deletions).content files' =
      mergeArchive (merged.content files) a := by
  funext rel
  rw [Merged.content, Merged.lookup_apply_deletions, mergeArchive, patch, removeAll_apply]
  split_ifs with hdeleted
  · rfl
  · rw [Merged.lookup_apply]
    by_cases hrel : rel ∈ rels
    · obtain ⟨f, hf, rfl⟩ := List.mem_map.mp ((walked rel).mp hrel)
      rw [if_pos hrel, Option.bind_some, placed f hf]
      exact (insertAll_apply_of_mem _ proper.nodup hf).symm
    · rw [if_neg hrel, insertAll_apply_of_notMem _ fun hmem => hrel ((walked rel).mpr hmem),
        Merged.content]
      cases hlookup : merged.lookup rel with
      | none => rfl
      | some src => exact kept rel src hlookup

end Merge

/-! ## The directories of the versions -/

section Places

variable {pf : Platform} {dirs : DataDirs} {v w : Version} {k : PathBuf}
  {nodes nodes' : PathBuf → Option Node} {bytes : Bytes} {payload : List (String × Bytes)}

/-- Where a version is unpacked. -/
def stagedDir (pf : Platform) (dirs : DataDirs) (v : Version) : PathBuf :=
  push pf.style dirs.scratch (Uuid.text v.id)

/-- Where its archive is downloaded to. -/
def archivePath (pf : Platform) (dirs : DataDirs) (v : Version) : PathBuf :=
  push pf.style dirs.scratch (archiveName v.blobHash)

theorem stagedDir_eq (pf : Platform) (dirs : DataDirs) (v : Version) :
    stagedDir pf dirs v = dirs.scratch ++ [.normal (Uuid.text v.id)] :=
  (fileName_uuid pf.style v.id).push_eq dirs.scratch

theorem archivePath_eq (pf : Platform) (dirs : DataDirs) (v : Version) :
    archivePath pf dirs v = dirs.scratch ++ [.normal (archiveName v.blobHash)] :=
  (fileName_archiveName pf.style v.blobHash).push_eq dirs.scratch

theorem not_stagedDir_prefix_archivePath :
    ¬ stagedDir pf dirs v <+: archivePath pf dirs w := by
  rw [stagedDir_eq, archivePath_eq, List.prefix_append_right_inj, List.cons_prefix_cons]
  rintro ⟨hsame, -⟩
  exact archiveName_ne_uuid w.blobHash v.id (Component.normal.inj hsame).symm

/-- Nothing lies in the directories of two versions. -/
theorem text_eq_of_stagedDirs (hv : stagedDir pf dirs v <+: k) (hw : stagedDir pf dirs w <+: k) :
    Uuid.text v.id = Uuid.text w.id := by
  have hlength : (stagedDir pf dirs v).length = (stagedDir pf dirs w).length := by
    rw [stagedDir_eq, stagedDir_eq, List.length_append, List.length_append, List.length_singleton,
      List.length_singleton]
  have hsame := (List.prefix_of_prefix_length_le hv hw hlength.le).eq_of_length hlength
  rw [stagedDir_eq, stagedDir_eq, List.append_cancel_left_eq] at hsame
  exact Component.normal.inj (List.head_eq_of_cons_eq hsame)

theorem not_prefix_scratch (name : String) : ¬ dirs.scratch ++ [.normal name] <+: dirs.scratch := by
  intro hbegins
  have hlength := hbegins.length_le
  rw [List.length_append, List.length_singleton] at hlength
  omega

/-- What is on the way to the directory of a version is on the way to the scratch directory, or
the directory itself. -/
theorem prefix_stagedDir (h : k <+: stagedDir pf dirs v) :
    k <+: dirs.scratch ∨ k = stagedDir pf dirs v := by
  rw [stagedDir_eq] at h ⊢
  exact (List.prefix_concat_iff.mp h).symm

theorem not_above_of_stagedDir (h : stagedDir pf dirs v <+: k) : ¬ k <+: dirs.scratch := by
  intro habove
  have hdir := h.trans habove
  rw [stagedDir_eq] at hdir
  exact not_prefix_scratch _ hdir

theorem archivePath_not_above : ¬ archivePath pf dirs v <+: dirs.scratch := by
  rw [archivePath_eq]
  exact not_prefix_scratch _

/-- The nodes once the archive of a version is downloaded. -/
def withArchive (pf : Platform) (dirs : DataDirs) (v : Version) (bytes : Bytes)
    (nodes : PathBuf → Option Node) : PathBuf → Option Node :=
  Function.update (withDirs nodes dirs.scratch) (archivePath pf dirs v) (some (.file bytes))

theorem withArchive_above (hk : k ≠ []) (habove : k <+: dirs.scratch) :
    withArchive pf dirs v bytes nodes k = some .dir := by
  rw [withArchive, Function.update_of_ne, withDirs, if_pos ⟨hk, habove⟩]
  rintro rfl
  exact archivePath_not_above habove

theorem withArchive_other (habove : ¬ k <+: dirs.scratch) :
    withArchive pf dirs v bytes nodes k =
      if k = archivePath pf dirs v then some (.file bytes) else nodes k := by
  rw [withArchive, Function.update_apply]
  split_ifs
  · rfl
  · exact if_neg fun hk => habove hk.2

/-- An archive is downloaded next to the directories of the versions. -/
theorem withArchive_staged (hdir : stagedDir pf dirs w <+: k) :
    withArchive pf dirs v bytes nodes k = nodes k := by
  rw [withArchive_other (not_above_of_stagedDir hdir), if_neg]
  rintro rfl
  exact not_stagedDir_prefix_archivePath hdir

/-- The directory of a version stays empty when the scratch directory is made. -/
theorem emptyDir_withDirs (empty : EmptyDir nodes (stagedDir pf dirs w)) :
    EmptyDir (withDirs nodes dirs.scratch) (stagedDir pf dirs w) := by
  constructor
  · intro k hk hne
    rw [withDirs, if_neg fun h => not_above_of_stagedDir hk h.2]
    exact empty.below k hk hne
  · intro k hk hbegins c
    rw [withDirs]
    split_ifs
    · simp
    · exact empty.above k hk hbegins c

/-- The directory of a version stays empty while an archive is downloaded. -/
theorem emptyDir_withArchive (empty : EmptyDir nodes (stagedDir pf dirs w)) :
    EmptyDir (withArchive pf dirs v bytes nodes) (stagedDir pf dirs w) := by
  constructor
  · intro k hk hne
    rw [withArchive_staged hk]
    exact empty.below k hk hne
  · intro k hk hbegins c
    rcases prefix_stagedDir hbegins with habove | rfl
    · rw [withArchive_above hk habove]
      simp
    · rw [withArchive_staged (List.prefix_refl _)]
      exact empty.above _ hk (List.prefix_refl _) c

/-- The nodes after a version was staged: its archive is downloaded, and its files are laid out in
its directory. -/
structure VersionStaged (pf : Platform) (dirs : DataDirs) (v : Version) (bytes : Bytes)
    (payload : List (String × Bytes)) (nodes nodes' : PathBuf → Option Node) : Prop where
  names : ∀ f ∈ payload, RelName pf.style f.1
  empty : EmptyDir nodes (stagedDir pf dirs v)
  laidOut : LaidOut (withArchive pf dirs v bytes nodes) nodes'
    (laidKeys pf (stagedDir pf dirs v) payload)

namespace VersionStaged

variable (h : VersionStaged pf dirs v bytes payload nodes nodes') (sensitive : pf.CaseSensitive)

include h sensitive

theorem laid_below {f : PathBuf × Bytes} (hf : f ∈ laidKeys pf (stagedDir pf dirs v) payload) :
    stagedDir pf dirs v <+: f.1 := by
  obtain ⟨g, hg, rfl⟩ := List.mem_map.mp hf
  rw [sensitive.key_eq]
  exact ((h.names g hg).push_ne _).2

/-- Outside of the directory of the version, and not above it, only the archive is new. -/
theorem other (hdir : ¬ stagedDir pf dirs v <+: k) (habove : ¬ k <+: dirs.scratch) :
    nodes' k = if k = archivePath pf dirs v then some (.file bytes) else nodes k := by
  rw [h.laidOut.rest k, withArchive_other habove]
  intro _ f hf hbegins
  rcases List.prefix_or_prefix_of_prefix hbegins (h.laid_below sensitive hf) with hk | hk
  · rcases prefix_stagedDir hk with hk | rfl
    · exact habove hk
    · exact hdir (List.prefix_refl _)
  · exact hdir hk

/-- On the way to the scratch directory are no files. -/
theorem no_file_above (hk : k ≠ []) (habove : k <+: dirs.scratch) (c : Bytes) :
    nodes' k ≠ some (.file c) := by
  by_cases hlaid : ∃ f ∈ laidKeys pf (stagedDir pf dirs v) payload, k <+: f.1
  · obtain ⟨f, hf, hbegins⟩ := hlaid
    rw [h.laidOut.dir f hf k hk hbegins]
    · simp
    · rintro rfl
      exact not_above_of_stagedDir (h.laid_below sensitive hf) habove
  · push Not at hlaid
    rw [h.laidOut.rest k fun _ => hlaid, withArchive_above hk habove]
    simp

/-- What lies in the directory of another version is where it was. -/
theorem keeps (hne : Uuid.text v.id ≠ Uuid.text w.id) (hdir : stagedDir pf dirs w <+: k) :
    nodes' k = nodes k := by
  rw [h.other sensitive (fun hv => hne (text_eq_of_stagedDirs hv hdir))
    (not_above_of_stagedDir hdir), if_neg]
  rintro rfl
  exact not_stagedDir_prefix_archivePath hdir

/-- The directory of another version stays empty. -/
theorem stays_empty (hne : Uuid.text v.id ≠ Uuid.text w.id)
    (empty : EmptyDir nodes (stagedDir pf dirs w)) : EmptyDir nodes' (stagedDir pf dirs w) := by
  constructor
  · intro k hk hkne
    rw [h.keeps sensitive hne hk]
    exact empty.below k hk hkne
  · intro k hk hbegins c
    rcases prefix_stagedDir hbegins with habove | rfl
    · exact h.no_file_above sensitive hk habove c
    · rw [h.keeps sensitive hne (List.prefix_refl _)]
      exact empty.above _ hk (List.prefix_refl _) c

/-- No directory appears where an archive is to be downloaded. -/
theorem stays_free (hfree : nodes (archivePath pf dirs w) ≠ some .dir) :
    nodes' (archivePath pf dirs w) ≠ some .dir := by
  rw [h.other sensitive not_stagedDir_prefix_archivePath archivePath_not_above]
  split_ifs
  · simp
  · exact hfree

/-- Each file of the payload lies where the merge says it is staged. -/
theorem placed {f : String × Bytes} (hf : f ∈ payload) :
    nodes' (push pf.style (stagedDir pf dirs v) f.1) = some (.file f.2) := by
  have hfile := h.laidOut.file _ (List.mem_map_of_mem hf)
  rwa [sensitive.key_eq] at hfile

/-- The walk finds the names of the payload. -/
theorem walked {t : Tree} {hidden : String → Bool} {rel : String} (hnodes : t.nodeAt = nodes')
    (spelled : t.Spelled pf) (seen : ∀ rel, hidden rel = false) :
    rel ∈ walkRel pf t (stagedDir pf dirs v) hidden ↔ rel ∈ payload.map Prod.fst := by
  rw [mem_walkRel sensitive spelled, hnodes, List.mem_map]
  constructor
  · rintro ⟨hrel, -, c, hfile⟩
    obtain ⟨hne, hbegins⟩ := hrel.push_ne (stagedDir pf dirs v)
    have hbelow := h.laidOut.below (by
      rw [sensitive.key_eq]
      exact emptyDir_withArchive h.empty) (k := push pf.style (stagedDir pf dirs v) rel)
      (by rwa [sensitive.key_eq]) (by rwa [sensitive.key_eq])
    obtain ⟨f, hf, heq, -⟩ := (hbelow.1 c).mp hfile
    rw [sensitive.key_eq] at heq
    exact ⟨f, hf, (hrel.push_inj (h.names f hf) heq).symm⟩
  · rintro ⟨f, hf, rfl⟩
    exact ⟨h.names f hf, seen f.1, f.2, h.placed sensitive hf⟩

end VersionStaged

end Places

/-! ## One version -/

section Stage

variable [Blake3] {fmt : SavrFormat} {pf : Platform} {dirs : DataDirs} {env : RestoreEnv}
  {archives : Version → Archive} {done rest : List Version} {v : Version} {merged : Merged}
  {nodes : PathBuf → Option Node} {touched : List PathBuf}

/-- The server sends this archive for the version, and the walk sees all of it. -/
structure Sent (fmt : SavrFormat) (pf : Platform) (env : RestoreEnv) (a : Archive) (v : Version) :
    Prop where
  sent : env.blob v.id = some (a.bytes fmt)
  hash : Blake3.ofBytes (a.bytes fmt) = v.blobHash
  seen : ∀ rel, env.hidden v.id rel = false
  proper : a.Proper pf.style

omit [Blake3] in
/-- The archive is downloaded next to the directories of the versions. -/
theorem blobGetToFile_ok (sensitive : pf.CaseSensitive) {bytes : Bytes}
    (empty : EmptyDir nodes (stagedDir pf dirs v))
    (hfree : nodes (archivePath pf dirs v) ≠ some .dir) :
    Triple (fun s => s.Is nodes touched) (blobGetToFile pf (some bytes) (archivePath pf dirs v))
      (fun _ s => s.Is (withArchive pf dirs v bytes nodes) (archivePath pf dirs v :: touched))
      fun _ => False := by
  have hdrop : (archivePath pf dirs v).dropLast = dirs.scratch := by
    rw [archivePath_eq, List.dropLast_concat]
  have hparent : parent (archivePath pf dirs v) = some dirs.scratch := by
    rw [archivePath_eq, parent, List.getLast?_concat, List.dropLast_concat]
  have hmkdir : Triple (fun s => s.Is nodes touched) (createDirAll pf dirs.scratch)
      (fun _ s => s.Is (withDirs nodes dirs.scratch) touched) fun _ => False := by
    refine (createDirAll_ok fun k hk hbegins => ?_).conseq (fun _ hs => hs) ?_ fun _ hs => hs
    · rw [sensitive.key_eq] at hbegins
      exact empty.above k hk (hbegins.trans (below_scratch_staged pf dirs v.id).isPrefix)
    · intro _ s hs
      rwa [sensitive.key_eq] at hs
  have hcreate : Triple (fun s => s.Is (withDirs nodes dirs.scratch) touched)
      (createFile pf (archivePath pf dirs v) bytes)
      (fun _ s => s.Is (withArchive pf dirs v bytes nodes) (archivePath pf dirs v :: touched))
      fun _ => False := by
    refine (createFile_ok ?_ ?_ ?_).conseq (fun _ hs => hs) ?_ fun _ hs => hs
    · rw [archivePath_eq]
      simp
    · rw [sensitive.key_eq, withDirs, if_neg fun h => archivePath_not_above h.2]
      exact hfree
    · rw [sensitive.key_eq, hdrop]
      by_cases hscratch : dirs.scratch = []
      · exact .inl hscratch
      · exact .inr (if_pos ⟨hscratch, List.prefix_refl _⟩)
    · intro _ s hs
      rwa [sensitive.key_eq] at hs
  rw [blobGetToFile]
  refine triple_bind (R := fun got s => got = bytes ∧ s.Is nodes touched)
    (triple_pure fun s hs => ⟨rfl, hs⟩) fun got => ?_
  rintro s ⟨rfl, hs⟩
  rw [hparent]
  exact triple_bind hmkdir (fun _ => hcreate) s hs

/-- **One version is staged**, as long as the machine refuses nothing. -/
theorem stageVersion_ok (sensitive : pf.CaseSensitive) {a : Archive} (sent : Sent fmt pf env a v)
    (empty : EmptyDir nodes (stagedDir pf dirs v))
    (hfree : nodes (archivePath pf dirs v) ≠ some .dir) :
    Triple (fun s => s.Is nodes touched) (stageVersion fmt pf dirs env merged v)
      (fun merged' s => s.fates = [] ∧
        VersionStaged pf dirs v (a.bytes fmt) a.payload nodes s.tree.nodeAt ∧
        merged' = merged.apply pf (walkRel pf s.tree (stagedDir pf dirs v) (env.hidden v.id))
          (stagedDir pf dirs v) a.metadata.deletions)
      fun _ => False := by
  have hread : ∀ touched, Triple
      (fun s => s.Is (withArchive pf dirs v (a.bytes fmt) nodes) touched)
      (readFile pf (archivePath pf dirs v))
      (fun bytes s => bytes = a.bytes fmt ∧
        s.Is (withArchive pf dirs v (a.bytes fmt) nodes) touched) fun _ => False := by
    intro touched
    refine readFile_ok ?_
    rw [sensitive.key_eq, withArchive, Function.update_self]
  have hunpack : ∀ touched, Triple
      (fun s => s.Is (withArchive pf dirs v (a.bytes fmt) nodes) touched)
      (unpack fmt pf (a.bytes fmt) (stagedDir pf dirs v))
      (fun r s => r = ⟨a.metadata, a.registry⟩ ∧ s.fates = [] ∧
        VersionStaged pf dirs v (a.bytes fmt) a.payload nodes s.tree.nodeAt) fun _ => False := by
    intro touched
    refine (unpack_ok sent.proper.names ?_ ?_).conseq (fun _ hs => hs) ?_ fun _ hs => hs
    · refine sent.proper.apart.imp_of_mem fun {f g} hf hg hapart => ?_
      rw [sensitive.key_eq, sensitive.key_eq, (sent.proper.names f hf).push_eq,
        (sent.proper.names g hg).push_eq, Apart, List.prefix_append_right_inj,
        List.prefix_append_right_inj]
      exact hapart
    · rw [sensitive.key_eq]
      exact emptyDir_withArchive empty
    · rintro r s ⟨hr, nodes', touched', hs, laidOut⟩
      refine ⟨hr, hs.fates, sent.proper.names, empty, ?_⟩
      rw [hs.nodes]
      exact laidOut
  have hverify : ∀ touched, Triple
      (fun s => s.Is (withArchive pf dirs v (a.bytes fmt) nodes) touched)
      (verifyBlob pf (archivePath pf dirs v) v.blobHash)
      (fun _ s => s.Is (withArchive pf dirs v (a.bytes fmt) nodes) touched) fun _ => False := by
    refine fun touched => triple_bind (hread touched) fun bytes => ?_
    rintro s ⟨rfl, hs⟩
    dsimp only
    rw [if_pos sent.hash]
    exact triple_pure (fun _ hs => hs) s hs
  rw [stageVersion, sent.sent]
  refine triple_bind (blobGetToFile_ok sensitive empty hfree) fun _ =>
    triple_bind (hverify _) fun _ => triple_bind (hread _) fun bytes => ?_
  rintro s ⟨rfl, hs⟩
  refine triple_bind (hunpack _) (fun unpacked => ?_) s hs
  rintro s ⟨rfl, hstaged⟩
  refine triple_get_bind (P := fun s => s.fates = [] ∧
    VersionStaged pf dirs v (a.bytes fmt) a.payload nodes s.tree.nodeAt) ?_ s hstaged
  refine fun s₀ hs₀ => triple_pure ?_
  rintro s rfl
  exact ⟨hs₀.1, hs₀.2, rfl⟩

/-! ## The chain -/

/-- What holds between two versions of a chain: the versions to come can be staged, and the staged
files hold what the archives so far merge to. -/
structure StagedUpTo (pf : Platform) (dirs : DataDirs) (archives : Version → Archive)
    (chain done : List Version) (merged : Merged) (s : Fs) : Prop where
  fates : s.fates = []
  spelled : s.tree.Spelled pf
  empty : ∀ v ∈ chain, (∀ w ∈ done, Uuid.text w.id ≠ Uuid.text v.id) →
    EmptyDir s.tree.nodeAt (stagedDir pf dirs v)
  free : ∀ v ∈ chain, s.tree.nodeAt (archivePath pf dirs v) ≠ some .dir
  sources : ∀ rel src, merged.lookup rel = some src →
    ∃ w ∈ done, stagedDir pf dirs w <+: src
  content : merged.content s.files =
    done.foldl (fun files v => mergeArchive files (archives v)) fun _ => none

/-- **One step of the loop.** -/
theorem StagedUpTo.step (sensitive : pf.CaseSensitive) {chain : List Version}
    (distinct : (chain.map fun v => Uuid.text v.id).Nodup) (hsplit : chain = done ++ v :: rest)
    (sent : Sent fmt pf env (archives v) v) :
    Triple (StagedUpTo pf dirs archives chain done merged)
      (stageVersion fmt pf dirs env merged v)
      (fun merged' => StagedUpTo pf dirs archives chain (done ++ [v]) merged') fun _ => False := by
  have hv : v ∈ chain := by
    rw [hsplit]
    simp
  have hearlier : ∀ w ∈ done, Uuid.text w.id ≠ Uuid.text v.id := by
    rw [hsplit, List.map_append, List.nodup_append] at distinct
    exact fun w hw => distinct.2.2 _ (List.mem_map_of_mem hw) _ (List.mem_cons_self ..)
  refine triple_of_state fun s₀ h₀ => ?_
  have hkeeps : Keeps (Fs.Confined pf fun _ => True) (stageVersion fmt pf dirs env merged v) :=
    keeps_stageVersion (fun _ _ => trivial) merged v
  have hstage : Triple (fun s => s.Is s₀.tree.nodeAt s₀.touched)
      (stageVersion fmt pf dirs env merged v) _ _ :=
    stageVersion_ok sensitive sent (h₀.empty v hv hearlier) (h₀.free v hv)
  refine ((hstage.conseq (fun s hs => ?_) (fun _ _ h => h) fun _ h => h).and
    hkeeps.triple).conseq (fun _ hs => hs) ?_ fun _ h => h.1
  · subst hs
    exact ⟨h₀.fates, rfl, rfl⟩
  · rintro merged' s ⟨⟨hfates, staged, rfl⟩, confined⟩
    have hspelled := confined.spelled h₀.spelled
    have hwalked : ∀ rel, rel ∈ walkRel pf s.tree (stagedDir pf dirs v) (env.hidden v.id) ↔
        rel ∈ (archives v).payload.map Prod.fst :=
      fun rel => staged.walked sensitive rfl hspelled sent.seen
    refine ⟨hfates, hspelled, ?_, ?_, ?_, ?_⟩
    · intro w hw hlater
      have hdone : ∀ u ∈ done, Uuid.text u.id ≠ Uuid.text w.id :=
        fun u hu => hlater u (List.mem_append_left _ hu)
      exact staged.stays_empty sensitive (hlater v (by simp)) (h₀.empty w hw hdone)
    · exact fun w hw => staged.stays_free sensitive (h₀.free w hw)
    · intro rel src hlookup
      rw [Merged.lookup_apply_deletions, Merged.lookup_apply] at hlookup
      split_ifs at hlookup with hdeleted hrel
      · obtain ⟨f, hf, rfl⟩ := List.mem_map.mp ((hwalked rel).mp hrel)
        cases hlookup
        exact ⟨v, by simp, ((staged.names f hf).push_ne _).2⟩
      · obtain ⟨w, hw, hdir⟩ := h₀.sources rel src hlookup
        exact ⟨w, List.mem_append_left _ hw, hdir⟩
    · rw [List.foldl_append, List.foldl_cons, List.foldl_nil, ← h₀.content]
      refine Merged.content_apply sent.proper hwalked ?_ ?_
      · exact fun f hf => Fs.files_eq_some_iff.mpr (staged.placed sensitive hf)
      · intro rel src hlookup
        obtain ⟨w, hw, hdir⟩ := h₀.sources rel src hlookup
        rw [Fs.files, Fs.files, staged.keeps sensitive (hearlier w hw).symm hdir]

/-- With every archive there, the merge of a chain is a fold. -/
theorem mergeChain_of_fetched {server : Server} {account : AccountId} {chain : List Version}
    (fetched : ∀ v ∈ chain, fetchArchive server account v = .ok (archives v))
    (files : String → Option Bytes) : mergeChain server account files chain =
      .ok (chain.foldl (fun files v => mergeArchive files (archives v)) files) := by
  induction chain generalizing files with
  | nil => rfl
  | cons v chain ih =>
      rw [mergeChain, fetched v (List.mem_cons_self ..), List.foldl_cons]
      exact ih (fun w hw => fetched w (List.mem_cons_of_mem v hw)) _

/-- **The staged chain has the content of `mergeChain`** where all names are told apart: if the
server sends the archives it holds, the loop over the disk returns, and the files it staged hold
what the archives merge to. -/
theorem staged_chain_content (sensitive : pf.CaseSensitive) {server : Server} {account : AccountId}
    {chain : List Version} (distinct : (chain.map fun v => Uuid.text v.id).Nodup)
    (sent : ∀ v ∈ chain, Sent fmt pf env (archives v) v)
    (fetched : ∀ v ∈ chain, fetchArchive server account v = .ok (archives v)) {s : Fs}
    (granted : s.fates = []) (spelled : s.tree.Spelled pf)
    (empty : ∀ v ∈ chain, EmptyDir s.tree.nodeAt (stagedDir pf dirs v))
    (free : ∀ v ∈ chain, s.tree.nodeAt (archivePath pf dirs v) ≠ some .dir) :
    ∃ merged s', chain.foldlM (stageVersion fmt pf dirs env) ∅ s = (.ok merged, s') ∧
      mergeChain server account (fun _ => none) chain = .ok (merged.content s'.files) := by
  have hloop : Triple (StagedUpTo pf dirs archives chain [] ∅)
      (chain.foldlM (stageVersion fmt pf dirs env) ∅) (StagedUpTo pf dirs archives chain chain)
      fun _ => False :=
    triple_foldlM (StagedUpTo pf dirs archives chain) fun done v rest merged hsplit =>
      StagedUpTo.step sensitive distinct hsplit (sent v (by rw [hsplit]; simp))
  have hstart : StagedUpTo pf dirs archives chain [] ∅ s :=
    { fates := granted
      spelled := spelled
      empty := fun v hv _ => empty v hv
      free := free
      sources := fun rel src hlookup => by cases hlookup
      content := rfl }
  obtain ⟨merged, s', hrun, hstaged⟩ := hloop.returns hstart
  refine ⟨merged, s', hrun, ?_⟩
  rw [mergeChain_of_fetched fetched, hstaged.content]

/-- **Up to the swap**, a restore on the disk stages the files that `restoredFiles` reads off the
server, if the server answers what it holds. -/
theorem stageChain_restoredFiles (sensitive : pf.CaseSensitive) {server : Server}
    {account : AccountId} {req : RestoreRequest} {chain : List Version}
    (listed : env.versions = some (server.db.listVersions account req.gameId))
    (built : buildChain (server.db.listVersions account req.gameId) req.versionId =
      some (.ok chain))
    (nonempty : chain ≠ []) (distinct : (chain.map fun v => Uuid.text v.id).Nodup)
    (sent : ∀ v ∈ chain, Sent fmt pf env (archives v) v)
    (fetched : ∀ v ∈ chain, fetchArchive server account v = .ok (archives v)) {m : Computer}
    (granted : m.fs.fates = []) (spelled : m.fs.tree.Spelled pf)
    (empty : ∀ v ∈ chain, EmptyDir m.fs.tree.nodeAt (stagedDir pf dirs v))
    (free : ∀ v ∈ chain, m.fs.tree.nodeAt (archivePath pf dirs v) ≠ some .dir) :
    ∃ merged m', stageChain fmt pf dirs req env m = (.ok (merged, chain), m') ∧
      restoredFiles server account req.gameId req.versionId =
        some (.ok (merged.content m'.fs.files)) := by
  have hload : loadChain env req.versionId m = (.ok chain, m) := by
    rw [loadChain, listed]
    refine (bind_of_ok rfl).trans ?_
    rw [built]
    rfl
  have above : ∀ k, k ≠ [] → k <+: dirs.scratch → ∀ c, m.fs.tree.nodeAt k ≠ some (.file c) := by
    obtain ⟨v, hv⟩ := List.exists_mem_of_ne_nil chain nonempty
    exact fun k hk hbegins =>
      (empty v hv).above k hk (hbegins.trans (below_scratch_staged pf dirs v.id).isPrefix)
  obtain ⟨_, s, hrun, his⟩ := (createDirAll_ok fun k hk hbegins => above k hk (by
    rwa [sensitive.key_eq] at hbegins)).returns ⟨granted, rfl, rfl⟩
  rw [sensitive.key_eq] at his
  have hspelled : s.tree.Spelled pf := by
    have hkeeps : Keeps (Fs.Confined pf fun _ => True) (createDirAll pf dirs.scratch) :=
      keeps_createDirAll
    have hconfined := hkeeps m.fs
    rw [hrun] at hconfined
    exact hconfined.spelled spelled
  obtain ⟨merged, s', hstage, hmerge⟩ := staged_chain_content sensitive distinct sent fetched
    his.fates hspelled
    (fun v hv => by rw [his.nodes]; exact emptyDir_withDirs (empty v hv))
    (fun v hv => by
      rw [his.nodes, withDirs, if_neg fun h => archivePath_not_above h.2]
      exact free v hv)
  refine ⟨merged, { m with fs := s' }, ?_, ?_⟩
  · rw [stageChain, bind_of_ok hload, bind_of_ok (disk_run hrun)]
    rw [bind_of_ok (disk_run hstage)]
    rfl
  · rw [restoredFiles, built]
    exact congrArg some hmerge

end Stage

/-! ## A chain of two versions -/

section Example

/-- The digest of an archive is the digest of its bytes. -/
noncomputable local instance stagedDigest : Blake3 where
  ofBytes := plainDigest.ofBytes
  ofArchive a := plainDigest.ofBytes (a.bytes chainRestore.fmt)
  packedLen a := (a.bytes chainRestore.fmt).length

/-- The versions of the example, oldest first. -/
noncomputable def chainVersions : List Version := chainRestore.env.versions.getD []

/-- What the versions were packed from: a full backup of two files, and a differential that
changes one and deletes the other. -/
def chainArchive (v : Version) : Archive :=
  if v.kind = .full then
    { metadata := ⟨10, 22, none, .full, [], [], 1⟩
      payload := [("save", [2]), ("log", [4])]
      registry := none }
  else
    { metadata := ⟨10, 22, some 101, .differential, [], ["log"], 2⟩
      payload := [("save", [5])]
      registry := none }

/-- The server of the chain. -/
noncomputable def chainServer : Server where
  db :=
    { accounts := [1], devices := [], blobs := [], games := []
      versions := chainVersions.map fun v => { v with accountId := 1 }
      config := [], resolvedConflicts := [] }
  objects hash := (chainVersions.find? fun v => v.blobHash = hash).map chainArchive

/-- The server answers the daemon what it holds. -/
noncomputable def chainEnv : RestoreEnv :=
  { chainRestore.env with versions := some (chainServer.db.listVersions 1 10) }

/-- Nothing is in the scratch directory of the example. -/
theorem chain_emptyDir {v : Version} (hv : v ∈ chainVersions) :
    EmptyDir staleComputer.fs.tree.nodeAt (stagedDir linux exampleDirs v) := by
  have hkeys : ∀ v ∈ chainVersions, ∀ k ∈ staleComputer.fs.tree.keys,
      ¬ stagedDir linux exampleDirs v <+: k ∧
        (k ≠ [] → k <+: stagedDir linux exampleDirs v → staleComputer.fs.files k = none) := by
    decide +kernel
  constructor
  · intro k hk _
    by_contra hnode
    obtain ⟨node, hnode⟩ := Option.ne_none_iff_exists'.mp hnode
    exact (hkeys v hv k (mem_keys_of_nodeAt hnode)).1 hk
  · intro k hne hk c hnode
    have hnone := (hkeys v hv k (mem_keys_of_nodeAt hnode)).2 hne hk
    rw [Fs.files_eq_some_iff.mpr hnode] at hnone
    cases hnone

/-- The server of the example sends what it holds. -/
theorem chain_sent {v : Version} (hv : v ∈ chainVersions) :
    Sent chainRestore.fmt linux chainEnv (chainArchive v) v := by
  have hsent : ∀ v ∈ chainVersions,
      chainEnv.blob v.id = some ((chainArchive v).bytes chainRestore.fmt) ∧
        plainDigest.ofBytes ((chainArchive v).bytes chainRestore.fmt) = v.blobHash := by
    decide +kernel
  have hnames : ∀ v ∈ chainVersions, ∀ f ∈ (chainArchive v).payload,
      isFileName .unix f.1 = true := by decide +kernel
  have hapart : ∀ v ∈ chainVersions, (chainArchive v).payload.Pairwise fun f g =>
      Apart (components .unix f.1) (components .unix g.1) := by decide +kernel
  exact
    { sent := (hsent v hv).1
      hash := (hsent v hv).2
      seen := fun _ => rfl
      proper := ⟨fun f hf => relName_of_isFileName (hnames v hv f hf), hapart v hv⟩ }

/-- The two versions are staged as `restoredFiles` merges them. -/
theorem chain_stages_restoredFiles :
    ∃ merged m', stageChain chainRestore.fmt linux exampleDirs chainRestore.req chainEnv
        staleComputer = (.ok (merged, chainVersions), m') ∧
      restoredFiles chainServer 1 10 102 = some (.ok (merged.content m'.fs.files)) :=
  stageChain_restoredFiles (fun _ => rfl) rfl (by decide +kernel) (by decide +kernel)
    (by decide +kernel) (fun _ => chain_sent) (by decide +kernel) rfl (spelled_exampleTree _)
    (fun _ => chain_emptyDir) (by decide +kernel)

end Example

end Savr
