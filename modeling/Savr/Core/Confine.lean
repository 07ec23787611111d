import Savr.Core.Archive

/-!
# Staying inside a directory

Which files a program over the file system may touch, proved operation by operation.

## Main results

* `keeps_createFile`, `keeps_rename`, `keeps_copy`, `keeps_removeFile` — each operation
  touches the paths it is given.
* `keeps_unpack` — whatever the bytes of an archive, unpacking stays below its destination.
-/

namespace Savr

open Hoare

/-- The path lies below the directory. -/
def Below (dir path : PathBuf) : Prop :=
  ∃ names : List String, names ≠ [] ∧ path = dir ++ names.map .normal

theorem Below.trans {dir sub path : PathBuf} (h : Below dir sub) (h' : Below sub path) :
    Below dir path := by
  obtain ⟨names, hne, rfl⟩ := h
  obtain ⟨more, -, rfl⟩ := h'
  refine ⟨names ++ more, ?_, by rw [List.map_append, List.append_assoc]⟩
  exact fun hnil => hne (List.append_eq_nil_iff.mp hnil).1

theorem below_normal (dir : PathBuf) (name : String) : Below dir (dir ++ [.normal name]) :=
  ⟨[name], List.cons_ne_nil _ _, rfl⟩

theorem Below.isPrefix {dir path : PathBuf} (h : Below dir path) : dir <+: path := by
  obtain ⟨names, -, rfl⟩ := h
  exact List.prefix_append _ _

/-- From one state to the other only such files were touched, and all others are unchanged. -/
structure Fs.Confined (pf : Platform) (Allowed : PathBuf → Prop) (s₀ s : Fs) : Prop where
  touched : ∃ new, s.touched = new ++ s₀.touched ∧ (∀ p ∈ new, Allowed p) ∧
    ∀ k, (∀ p ∈ new, pf.key p ≠ k) → s.files k = s₀.files k
  locked : s.locked = s₀.locked
  spelled : s₀.tree.Spelled pf → s.tree.Spelled pf

section Rules

variable {pf : Platform} {Allowed Wider : PathBuf → Prop} {s₀ s s' : Fs}
  {path src dst : PathBuf} {content : Bytes}

theorem Fs.Confined.refl (s : Fs) : s.Confined pf Allowed s :=
  ⟨⟨[], rfl, fun _ hp => absurd hp List.not_mem_nil, fun _ _ => rfl⟩, rfl, id⟩

/-- One confined step after another. -/
theorem Fs.Confined.trans (h : s₀.Confined pf Allowed s) (h' : s.Confined pf Allowed s') :
    s₀.Confined pf Allowed s' := by
  obtain ⟨new, htouched, hnew, hfiles⟩ := h.touched
  obtain ⟨more, htouched', hmore, hfiles'⟩ := h'.touched
  refine ⟨⟨more ++ new, ?_, ?_, ?_⟩, h'.locked.trans h.locked, h'.spelled ∘ h.spelled⟩
  · rw [htouched', htouched, List.append_assoc]
  · intro p hp
    rcases List.mem_append.mp hp with hp | hp
    · exact hmore p hp
    · exact hnew p hp
  · intro k hk
    rw [hfiles' k fun p hp => hk p (List.mem_append_left _ hp),
      hfiles k fun p hp => hk p (List.mem_append_right _ hp)]

instance : Std.Refl (Fs.Confined pf Allowed) := ⟨Fs.Confined.refl⟩

instance : IsTrans Fs (Fs.Confined pf Allowed) := ⟨fun _ _ _ => Fs.Confined.trans⟩

theorem Fs.Confined.mono (h : s₀.Confined pf Allowed s) (himp : ∀ p, Allowed p → Wider p) :
    s₀.Confined pf Wider s := by
  obtain ⟨new, htouched, hnew, hfiles⟩ := h.touched
  exact ⟨⟨new, htouched, fun p hp => himp p (hnew p hp), hfiles⟩, h.locked, h.spelled⟩

/-- A file that may not be touched is unchanged. -/
theorem Fs.Confined.files (h : s₀.Confined pf Allowed s) {k : PathBuf}
    (hk : ∀ p, Allowed p → pf.key p ≠ k) : s.files k = s₀.files k := by
  obtain ⟨new, -, hnew, hfiles⟩ := h.touched
  exact hfiles k fun p hp => hk p (hnew p hp)

/-- What is touched stays touched. -/
theorem Fs.Confined.mem_touched (h : s₀.Confined pf Allowed s) {p : PathBuf}
    (hp : p ∈ s₀.touched) : p ∈ s.touched := by
  obtain ⟨new, htouched, -⟩ := h.touched
  rw [htouched]
  exact List.mem_append_right _ hp

theorem Fs.Changed.confined {paths : List PathBuf} {files : PathBuf → Option Bytes}
    (h : s₀.Changed pf s paths files) (hpaths : ∀ p ∈ paths, Allowed p)
    (hfiles : ∀ k, (∀ p ∈ paths, pf.key p ≠ k) → files k = s₀.files k) :
    s₀.Confined pf Allowed s :=
  ⟨⟨paths, h.touched, hpaths, fun k hk => (congrFun h.files k).trans (hfiles k hk)⟩, h.locked,
    h.spelled⟩

theorem Fs.Kept.confined (h : s₀.Kept pf s) : s₀.Confined pf Allowed s :=
  Fs.Changed.confined h (fun _ hp => absurd hp List.not_mem_nil) fun _ _ => rfl

theorem keeps_nextFate : Keeps (Fs.Confined pf Allowed) nextFate := by
  intro s
  rw [nextFate]
  cases s.fates with
  | nil => exact .refl s
  | cons fate fates =>
      exact ⟨⟨[], rfl, fun _ hp => absurd hp List.not_mem_nil, fun _ _ => rfl⟩, rfl, id⟩

theorem keeps_createDirAll : Keeps (Fs.Confined pf Allowed) (createDirAll pf path) :=
  keeps_of_triple fun _ => createDirAll_spec.conseq (fun _ hs => hs)
    (fun _ _ hs => hs.confined) fun _ hs => hs.confined

theorem confined_update (hpath : Allowed path) {value : Option Bytes}
    (h : s₀.Changed pf s [path] (Function.update s₀.files (pf.key path) value)) :
    s₀.Confined pf Allowed s :=
  h.confined (by simpa using hpath) fun _ hk =>
    Function.update_of_ne (Ne.symm (hk path (List.mem_singleton_self _))) _ _

theorem keeps_createFile (hpath : Allowed path) :
    Keeps (Fs.Confined pf Allowed) (createFile pf path content) := by
  refine keeps_of_triple fun _ => createFile_spec.conseq (fun _ hs => hs)
    (fun _ _ hs => confined_update hpath hs) ?_
  rintro s (hs | ⟨part, hs⟩)
  · exact hs.confined
  · exact confined_update hpath hs

theorem keeps_readFile : Keeps (Fs.Confined pf Allowed) (readFile pf path) :=
  keeps_of_triple fun _ => readFile_spec.conseq (fun _ hs => hs)
    (fun _ _ hs => hs.2.confined) fun _ hs => hs.confined

/-- A rename between two allowed places is confined: it takes the one file and puts the other. -/
theorem keeps_rename (hsrc : Allowed src) (hdst : Allowed dst) :
    Keeps (Fs.Confined pf Allowed) (rename pf src dst) := by
  refine keeps_of_triple fun _ => rename_spec.conseq (fun _ hs => hs) ?_ fun _ hs => hs.confined
  rintro _ s ⟨content, -, hs⟩
  refine hs.confined ?_ fun k hk => ?_
  · intro p hp
    rcases List.mem_cons.mp hp with rfl | hp
    · exact hsrc
    · exact List.mem_singleton.mp hp ▸ hdst
  · rw [Function.update_of_ne (Ne.symm (hk dst (by simp))),
      Function.update_of_ne (Ne.symm (hk src (by simp)))]

theorem keeps_copy (hdst : Allowed dst) : Keeps (Fs.Confined pf Allowed) (copy pf src dst) :=
  keeps_bind keeps_readFile fun _ => keeps_createFile hdst

theorem keeps_removeFile (hpath : Allowed path) :
    Keeps (Fs.Confined pf Allowed) (removeFile pf path) :=
  keeps_of_triple fun _ => removeFile_spec.conseq (fun _ hs => hs)
    (fun _ _ hs => confined_update hpath hs.2) fun _ hs => hs.2.confined

end Rules

/-! ## Relative paths -/

section Names

variable {style : PathStyle} {rel : String}

/-- What follows the last separator is a segment. -/
theorem last_mem_splitOnP (p : Char → Bool) (chars : List Char) :
    (chars.reverse.takeWhile fun c => !p c).reverse ∈ chars.splitOnP p := by
  have hlast : ∀ c ∈ (chars.reverse.takeWhile fun c => !p c).reverse, p c = false := by
    intro c hc
    simpa using List.mem_takeWhile_imp (List.mem_reverse.mp hc)
  have hchars : chars = (chars.reverse.dropWhile fun c => !p c).reverse ++
      (chars.reverse.takeWhile fun c => !p c).reverse := by
    rw [← List.reverse_append, List.takeWhile_append_dropWhile, List.reverse_reverse]
  cases hrest : chars.reverse.dropWhile fun c => !p c with
  | nil =>
      rw [hrest, List.reverse_nil, List.nil_append] at hchars
      rw [← hchars] at hlast ⊢
      rw [List.splitOnP_eq_singleton hlast]
      exact List.mem_singleton_self _
  | cons sep rest =>
      have hsep : p sep := by
        have hhead := List.head?_dropWhile_not (fun c => !p c) chars.reverse
        rw [hrest] at hhead
        simpa using hhead
      rw [hrest, List.reverse_cons, List.append_assoc, List.singleton_append] at hchars
      generalize (chars.reverse.takeWhile fun c => !p c).reverse = last at hlast hchars ⊢
      rw [hchars, List.splitOnP_append_cons _ _ hsep, List.splitOnP_eq_singleton hlast]
      exact List.mem_append_right _ (List.mem_singleton_self _)

/-- Without a volume nothing is taken off a path. -/
theorem readVolume_of_nil {chars : List Char} (h : (readVolume style chars).1 = []) :
    (readVolume style chars).2 = chars := by
  revert h
  fun_cases readVolume style chars with
  | case1 letter rest alpha => exact fun h => absurd h (List.cons_ne_nil _ _)
  | case2 letter rest alpha => exact fun _ => rfl
  | case3 chars =>
      intro h
      obtain heq | ⟨server, share, rest, -, -, -, heq⟩ := @readUnc_cases .windows chars
      · rw [heq]
      · rw [heq] at h
        cases h
  | case4 chars => exact fun _ => rfl

/-- A path at which a file can be has components. -/
theorem components_ne_nil (h : namesFile style rel = true) : components style rel ≠ [] := by
  intro hnil
  rw [components, List.append_eq_nil_iff, List.append_eq_nil_iff] at hnil
  obtain ⟨⟨hvolume, -⟩, hsegments⟩ := hnil
  rw [readVolume_of_nil hvolume] at hsegments
  rw [namesFile, Bool.and_eq_true, decide_eq_true_eq, decide_eq_true_eq] at h
  have hread := List.filterMap_eq_nil_iff.mp hsegments _ (last_mem_splitOnP style.isSep rel.toList)
  rw [readSegment] at hread
  split_ifs at hread with hskip
  rcases hskip with hskip | hskip
  · exact h.1 (List.reverse_eq_nil_iff.mp hskip)
  · exact h.2 (List.reverse_eq_iff.mp hskip)

/-- A safe path that names a file leads below any directory it is joined to. -/
theorem below_push (dir : PathBuf) (hsafe : isSafeRelPath style rel = true)
    (hfile : namesFile style rel = true) : Below dir (push style dir rel) := by
  have hnormal : ∀ c ∈ components style rel, c.isNormal := List.all_eq_true.mp hsafe
  obtain ⟨names, hnames⟩ := exists_names hnormal
  refine ⟨names, ?_, by rw [push_of_normal hnormal, hnames]⟩
  rintro rfl
  exact components_ne_nil hfile hnames

end Names

/-! ## Unpacking -/

section Unpack

variable {fmt : SavrFormat} {pf : Platform} {dest : PathBuf} {Allowed : PathBuf → Prop}

/-- Whatever the name of an entry, its file ends up below the destination. -/
theorem keeps_unpackFile (allowed : ∀ p, Below dest p → Allowed p) (rel : String)
    (entry : TarEntry) : Keeps (Fs.Confined pf Allowed) (unpackFile pf dest rel entry) := by
  rw [unpackFile]
  by_cases hsafe : isSafeRelPath pf.style rel = true
  · rw [if_pos hsafe]
    have hwrite : Keeps (Fs.Confined pf Allowed) (do
        if namesFile pf.style rel then
          createFile pf (push pf.style dest rel) entry.data
          if entry.broken then Prog.throw .refused else pure ⟨⟩
        else Prog.throw .isADirectory : Io PUnit) := by
      by_cases hfile : namesFile pf.style rel = true
      · rw [if_pos hfile]
        refine keeps_bind (keeps_createFile (allowed _ (below_push dest hsafe hfile))) fun _ => ?_
        split_ifs
        · exact keeps_throw _
        · exact keeps_pure _
      · rw [if_neg hfile]
        exact keeps_throw _
    dsimp only
    cases parent (push pf.style dest rel) with
    | none => exact hwrite
    | some dir => exact keeps_bind keeps_createDirAll fun _ => hwrite
  · rw [if_neg hsafe]
    exact keeps_throw _

/-- So does every entry of the stream. -/
theorem keeps_unpackEntry (allowed : ∀ p, Below dest p → Allowed p)
    (acc : Option ArchiveMeta × Option Bytes) (entry : TarEntry) :
    Keeps (Fs.Confined pf Allowed) (unpackEntry fmt pf dest acc entry) := by
  rw [unpackEntry]
  split_ifs
  · exact keeps_throw _
  · cases fmt.fromJson entry.data with
    | none => exact keeps_throw _
    | some metadata => exact keeps_pure _
  · exact keeps_throw _
  · exact keeps_pure _
  · cases stripFiles entry.name with
    | none => exact keeps_pure _
    | some rel => exact keeps_bind (keeps_unpackFile allowed rel entry) fun _ => keeps_pure _

/-- **Unpacking stays below its destination**, whatever the bytes. -/
theorem keeps_unpack (allowed : ∀ p, Below dest p → Allowed p) (input : Bytes) :
    Keeps (Fs.Confined pf Allowed) (unpack fmt pf input dest) := by
  refine keeps_bind (keeps_foldlM fun acc entry _ => keeps_unpackEntry allowed acc entry) ?_
  intro acc
  split_ifs
  · exact keeps_throw _
  · cases acc.1 with
    | none => exact keeps_throw _
    | some metadata => exact keeps_pure _

end Unpack

end Savr
