import Savr.Core.Confine

/-!
# Below a directory

Runs below a directory that exists, on a file system that tells all names apart.  The nodes
there are those of a small tree of its own (`underDir`), whatever the directory is; so a run
can be followed with paths relative to it, and the way to it is always open.

## Main results

* `under_ok` — a program that succeeds on such nodes succeeds below the directory.
* `createDirAll_under`, `createFile_under`, `readFile_under`, `rename_under` — the operations.
-/

namespace Savr

open Hoare

section Under

variable {pf : Platform} {dir r : PathBuf} {content : Bytes}

/-- The nodes when a directory exists and these are below it. -/
def underDir (dir : PathBuf) (below : PathBuf → Option Node) : PathBuf → Option Node := fun k =>
  if k ≠ [] ∧ k <+: dir then some .dir
  else if dir <+: k then below (k.drop dir.length) else none

variable {below : PathBuf → Option Node}

theorem not_append_prefix (dir : PathBuf) (hr : r ≠ []) : ¬ dir ++ r <+: dir := by
  intro hbegins
  have hlength := hbegins.length_le
  rw [List.length_append] at hlength
  have := List.length_pos_of_ne_nil hr
  omega

theorem underDir_append (hr : r ≠ []) : underDir dir below (dir ++ r) = below r := by
  rw [underDir, if_neg fun h => not_append_prefix dir hr h.2, if_pos (List.prefix_append _ _),
    List.drop_left]

/-- A change below the directory is a change of what lies below it. -/
theorem underDir_update (hr : r ≠ []) (node : Option Node) :
    Function.update (underDir dir below) (dir ++ r) node =
      underDir dir (Function.update below r node) := by
  funext k
  by_cases hk : k = dir ++ r
  · subst hk
    rw [Function.update_self, underDir_append hr, Function.update_self]
  · rw [Function.update_of_ne hk, underDir, underDir]
    split_ifs with hdir hbelow
    · rfl
    · obtain ⟨rest, rfl⟩ := hbelow
      rw [List.drop_left, Function.update_of_ne fun heq => hk (congrArg (dir ++ ·) heq)]
    · rfl

/-- Directories on the way to a path below the directory are made below it. -/
theorem underDir_withDirs :
    withDirs (underDir dir below) (dir ++ r) = underDir dir (withDirs below r) := by
  funext k
  by_cases hdir : k ≠ [] ∧ k <+: dir
  · rw [withDirs, if_pos ⟨hdir.1, hdir.2.trans (List.prefix_append _ _)⟩, underDir, if_pos hdir]
  · by_cases hbelow : dir <+: k
    · obtain ⟨rest, rfl⟩ := hbelow
      by_cases hrest : rest = []
      · subst hrest
        rw [List.append_nil] at hdir ⊢
        obtain rfl : dir = [] := by
          by_contra hne
          exact hdir ⟨hne, List.prefix_refl _⟩
        simp [withDirs, underDir]
      · have hsame : (dir ++ rest ≠ [] ∧ dir ++ rest <+: dir ++ r) ↔ rest ≠ [] ∧ rest <+: r := by
          simp [hrest]
        rw [underDir_append hrest, withDirs, withDirs, underDir_append hrest]
        exact if_congr hsame rfl rfl
    · have hnot : ¬ (k ≠ [] ∧ k <+: dir ++ r) := by
        rintro ⟨hne, hk⟩
        rcases List.prefix_or_prefix_of_prefix hk (List.prefix_append dir r) with h | h
        · exact hdir ⟨hne, h⟩
        · exact hbelow h
      rw [withDirs, if_neg hnot, underDir, underDir, if_neg hdir, if_neg hdir, if_neg hbelow,
        if_neg hbelow]

/-- The parent of what is below the directory exists if it does below the directory. -/
theorem underDir_parent (hr : r ≠ []) (hparent : r.dropLast = [] ∨ below r.dropLast = some .dir) :
    (dir ++ r).dropLast = [] ∨ underDir dir below (dir ++ r).dropLast = some .dir := by
  rw [List.dropLast_append_of_ne_nil hr]
  rcases hparent with hnil | hdir
  · rw [hnil, List.append_nil]
    by_cases hne : dir = []
    · exact .inl hne
    · exact .inr (if_pos ⟨hne, List.prefix_refl _⟩)
  · by_cases hnil : r.dropLast = []
    · rw [hnil, List.append_nil]
      by_cases hne : dir = []
      · exact .inl hne
      · exact .inr (if_pos ⟨hne, List.prefix_refl _⟩)
    · exact .inr ((underDir_append hnil).trans hdir)

/-- No file is on the way if there is none below the directory. -/
theorem underDir_no_file (h : ∀ k, k ≠ [] → k <+: r → ∀ c, below k ≠ some (.file c)) :
    ∀ k, k ≠ [] → k <+: dir ++ r → ∀ c, underDir dir below k ≠ some (.file c) := by
  intro k hne hk c
  rw [underDir]
  split_ifs with hdir hbelow
  · simp
  · obtain ⟨rest, rfl⟩ := hbelow
    rw [List.prefix_append_right_inj] at hk
    rw [List.drop_left]
    refine h rest ?_ hk c
    rintro rfl
    rw [List.append_nil] at hdir hne
    exact hdir ⟨hne, List.prefix_refl _⟩
  · simp

/-! ### Programs -/

/-- Nothing is refused any more, the directory exists, and these nodes are below it. -/
structure Fs.Under (pf : Platform) (dir : PathBuf) (below : PathBuf → Option Node) (s : Fs) :
    Prop where
  fates : s.fates = []
  nodes : s.tree.nodeAt = underDir dir below
  spelled : s.tree.Spelled pf

theorem Fs.Under.is {s : Fs} (h : s.Under pf dir below) :
    s.Is (underDir dir below) s.touched := ⟨h.fates, h.nodes, rfl⟩

/-- What succeeds on these nodes succeeds below the directory. -/
theorem under_ok {α : Type} {c : Io α} {Q : α → Prop} {below' : PathBuf → Option Node}
    (keeps : Keeps (Fs.Confined pf fun _ => True) c)
    (h : ∀ touched, Triple (fun s => s.Is (underDir dir below) touched) c
      (fun a s => Q a ∧ ∃ touched', s.Is (underDir dir below') touched') fun _ => False) :
    Triple (fun s => s.Under pf dir below) c (fun a s => Q a ∧ s.Under pf dir below')
      fun _ => False := by
  refine triple_of_state fun s₀ hs₀ => ?_
  have hrun : Triple (fun s => s = s₀) c
      (fun a s => Q a ∧ ∃ touched', s.Is (underDir dir below') touched') fun _ => False :=
    (h s₀.touched).conseq (fun s hs => hs ▸ hs₀.is) (fun _ _ hq => hq) fun _ hs => hs
  refine (hrun.and keeps.triple).conseq (fun _ hs => hs) ?_ fun _ hs => hs.1
  rintro a s ⟨⟨hq, touched', his⟩, hconfined⟩
  exact ⟨hq, his.fates, his.nodes, hconfined.spelled hs₀.spelled⟩

/-- Every operation is granted. -/
theorem nextFate_under : Triple (fun s => s.Under pf dir below) nextFate
    (fun fate s => fate = .granted ∧ s.Under pf dir below) fun _ => False := by
  refine under_ok keeps_nextFate fun touched s hs => ?_
  have hrun : nextFate s = (.ok .granted, s) := by
    rw [nextFate, hs.fates]
  rw [hrun]
  refine ⟨?_, ?_⟩
  · intro fate s' heq
    cases heq
    exact ⟨rfl, touched, hs⟩
  · intro e s' heq
    cases heq

section Operations

variable (sensitive : pf.CaseSensitive)

include sensitive

/-- Directories made below a directory change nothing outside of it. -/
theorem createDirAll_under (h : ∀ k, k ≠ [] → k <+: r → ∀ c, below k ≠ some (.file c)) :
    Triple (fun s => s.Under pf dir below) (createDirAll pf (dir ++ r))
      (fun _ s => s.Under pf dir (withDirs below r)) fun _ => False := by
  refine (under_ok (Q := fun _ => True) keeps_createDirAll fun touched => ?_).conseq
    (fun _ hs => hs) (fun _ _ hs => hs.2) fun _ hs => hs
  refine (createDirAll_ok ?_).conseq (fun _ hs => hs) (fun _ s hs => ⟨trivial, touched, ?_⟩)
    fun _ hs => hs
  · rw [sensitive.key_eq]
    exact underDir_no_file h
  · rw [sensitive.key_eq, underDir_withDirs] at hs
    exact hs

/-- A file can be created below the directory, in a directory that is there. -/
theorem createFile_under (hr : r ≠ []) (hdir : below r ≠ some .dir)
    (hparent : r.dropLast = [] ∨ below r.dropLast = some .dir) :
    Triple (fun s => s.Under pf dir below) (createFile pf (dir ++ r) content)
      (fun _ s => s.Under pf dir (Function.update below r (some (.file content))))
      fun _ => False := by
  refine (under_ok (Q := fun _ => True) (keeps_createFile trivial) fun touched => ?_).conseq
    (fun _ hs => hs) (fun _ _ hs => hs.2) fun _ hs => hs
  refine (createFile_ok (by simp [hr]) ?_ ?_).conseq (fun _ hs => hs)
    (fun _ s hs => ⟨trivial, (dir ++ r) :: touched, ?_⟩) fun _ hs => hs
  · rw [sensitive.key_eq, underDir_append hr]
    exact hdir
  · rw [sensitive.key_eq]
    exact underDir_parent hr hparent
  · rw [sensitive.key_eq, underDir_update hr] at hs
    exact hs

theorem readFile_under (hr : r ≠ []) (hfile : below r = some (.file content)) :
    Triple (fun s => s.Under pf dir below) (readFile pf (dir ++ r))
      (fun bytes s => bytes = content ∧ s.Under pf dir below) fun _ => False := by
  refine under_ok keeps_readFile fun touched => ?_
  refine (readFile_ok ?_).conseq (fun _ hs => hs) (fun _ _ hs => ⟨hs.1, touched, hs.2⟩)
    fun _ hs => hs
  rw [sensitive.key_eq, underDir_append hr, hfile]

/-- A file can be renamed below the directory. -/
theorem rename_under {q : PathBuf} (hr : r ≠ []) (hfile : below r = some (.file content))
    (hq : q ≠ []) (hdir : below q ≠ some .dir)
    (hparent : q.dropLast = [] ∨ below q.dropLast = some .dir) :
    Triple (fun s => s.Under pf dir below) (rename pf (dir ++ r) (dir ++ q))
      (fun _ s => s.Under pf dir (Function.update (Function.update below r none) q
        (some (.file content)))) fun _ => False := by
  refine (under_ok (Q := fun _ => True) (keeps_rename trivial trivial) fun touched => ?_).conseq
    (fun _ hs => hs) (fun _ _ hs => hs.2) fun _ hs => hs
  have hsrc : underDir dir below (pf.key (dir ++ r)) = some (.file content) := by
    rw [sensitive.key_eq, underDir_append hr, hfile]
  refine (rename_ok hsrc (by simp [hq]) ?_ ?_).conseq (fun _ hs => hs)
    (fun _ s hs => ⟨trivial, (dir ++ r) :: (dir ++ q) :: touched, ?_⟩) fun _ hs => hs
  · rw [sensitive.key_eq, underDir_append hq]
    exact hdir
  · rw [sensitive.key_eq]
    exact underDir_parent hq hparent
  · rw [sensitive.key_eq, sensitive.key_eq, underDir_update hr, underDir_update hq] at hs
    exact hs

end Operations

/-! ### What is in which directory -/

section Content

variable {names names' : List String} {sub name : String}

/-- Nothing is below the directory but in these directories of it. -/
def OnlyIn (names : List String) (below : PathBuf → Option Node) : Prop :=
  ∀ r, (∀ name ∈ names, r.head? ≠ some (.normal name)) → below r = none

theorem OnlyIn.update {names : List String} {name : String} (h : OnlyIn names below)
    (hname : name ∈ names) (rest : PathBuf) (node : Option Node) :
    OnlyIn names (Function.update below (.normal name :: rest) node) := by
  intro r hr
  rw [Function.update_of_ne, h r hr]
  rintro rfl
  exact hr name hname rfl

/-- Directories made below one of the names stay below it. -/
theorem OnlyIn.withDirs {names : List String} {name : String} (h : OnlyIn names below)
    (hname : name ∈ names) (rest : PathBuf) :
    OnlyIn names (withDirs below (.normal name :: rest)) := by
  intro r hr
  rw [Savr.withDirs, if_neg, h r hr]
  rintro ⟨hne, hbegins⟩
  obtain ⟨c, r, rfl⟩ := List.exists_cons_of_ne_nil hne
  obtain ⟨rfl, -⟩ := List.cons_prefix_cons.mp hbegins
  exact hr name hname rfl

theorem OnlyIn.mono {names names' : List String} (h : OnlyIn names below)
    (hnames : ∀ name ∈ names, name ∈ names') : OnlyIn names' below :=
  fun r hr => h r fun name hname => hr name (hnames name hname)

/-- A directory without directories in it. -/
structure FlatDir (sub : String) (below : PathBuf → Option Node) : Prop where
  dir : below [.normal sub] = some .dir
  flat : ∀ name, below [.normal sub, .normal name] ≠ some .dir

/-- A file put into or taken out of a flat directory leaves it flat. -/
theorem FlatDir.update {sub : String} (h : FlatDir sub below) (name : String) {node : Option Node}
    (hnode : node ≠ some .dir) :
    FlatDir sub (Function.update below [.normal sub, .normal name] node) := by
  refine ⟨?_, fun other => ?_⟩
  · rw [Function.update_of_ne (by simp), h.dir]
  · rw [Function.update_apply]
    split_ifs
    · exact hnode
    · exact h.flat other

/-- A directory with nothing in it. -/
structure EmptySub (sub : String) (below : PathBuf → Option Node) : Prop where
  dir : below [.normal sub] = some .dir
  empty : ∀ rest, rest ≠ [] → below (.normal sub :: rest) = none

theorem EmptySub.flat {sub : String} (h : EmptySub sub below) : FlatDir sub below :=
  ⟨h.dir, fun name => by rw [h.empty _ (List.cons_ne_nil _ _)]; simp⟩

/-- A directory that is made is empty. -/
theorem OnlyIn.emptySub {names : List String} {sub : String} (h : OnlyIn names below)
    (hsub : sub ∉ names) : EmptySub sub (Savr.withDirs below [.normal sub]) := by
  refine ⟨if_pos ⟨by simp, List.prefix_refl _⟩, fun rest hrest => ?_⟩
  rw [Savr.withDirs, if_neg (by simp [hrest]), h]
  intro name hname heq
  cases heq
  exact hsub hname

/-- Making a directory that is there changes nothing. -/
theorem withDirs_of_dir (h : below [.normal sub] = some .dir) :
    withDirs below [.normal sub] = below := by
  funext k
  rw [withDirs]
  split_ifs with hk
  · obtain ⟨hne, hbegins⟩ := hk
    obtain ⟨c, rest, rfl⟩ := List.exists_cons_of_ne_nil hne
    obtain ⟨rfl, hrest⟩ := List.cons_prefix_cons.mp hbegins
    rw [List.prefix_nil.mp hrest, h]
  · rfl

theorem no_file_at_sub (h : ∀ c, below [.normal sub] ≠ some (.file c)) :
    ∀ k, k ≠ [] → k <+: [.normal sub] → ∀ c, below k ≠ some (.file c) := by
  intro k hne hbegins
  obtain ⟨d, rest, rfl⟩ := List.exists_cons_of_ne_nil hne
  obtain ⟨rfl, hrest⟩ := List.cons_prefix_cons.mp hbegins
  rw [List.prefix_nil.mp hrest]
  exact h

theorem withDirs_nil : withDirs below [] = below := by
  funext k
  rw [withDirs, if_neg]
  rintro ⟨hne, hbegins⟩
  exact hne (List.prefix_nil.mp hbegins)

theorem createFile_sub (sensitive : pf.CaseSensitive) (h : FlatDir sub below) :
    Triple (fun s => s.Under pf dir below)
      (createFile pf (dir ++ [.normal sub, .normal name]) content)
      (fun _ s => s.Under pf dir
        (Function.update below [.normal sub, .normal name] (some (.file content))))
      fun _ => False :=
  createFile_under sensitive (by simp) (h.flat name) (.inr h.dir)

/-- A file is renamed within its directory. -/
theorem rename_sub (sensitive : pf.CaseSensitive) (h : FlatDir sub below)
    (hfile : below [.normal sub, .normal name] = some (.file content)) (other : String) :
    Triple (fun s => s.Under pf dir below)
      (rename pf (dir ++ [.normal sub, .normal name]) (dir ++ [.normal sub, .normal other]))
      (fun _ s => s.Under pf dir (Function.update
        (Function.update below [.normal sub, .normal name] none) [.normal sub, .normal other]
        (some (.file content)))) fun _ => False :=
  rename_under sensitive (by simp) hfile (by simp) (h.flat other) (.inr h.dir)

end Content

end Under

end Savr
