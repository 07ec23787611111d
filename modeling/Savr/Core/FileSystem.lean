import Mathlib.Data.List.AList
import Savr.Core.Path
import Savr.Lib.Hoare

/-!
# The file system

The operations of `std::fs` that the archive, the backup and the restore use, over a tree
of directories and files.

## Main results

One triple for each operation (`createDirAll_spec`, `createFile_spec`, `rename_spec`,
`removeFile_spec`, `readFile_spec`): which files it touches, and what the files hold
afterwards, whether it succeeds or fails.

## Design notes

* A node is filed under its path with every name folded, so that a file system that takes
  two names for one is a `Platform` with another `fold`; each node keeps the path its directories
  spell, which is what a directory walk sees.  There are no links.
* What the machine does to an operation beyond the structure of the tree — permissions, a
  full disk, a file held open — is decided outside: `fates` has one fate for each operation
  to come, and `locked` says which files cannot be removed.
* `touched` records the files that are created, overwritten, renamed or deleted.
-/

namespace Savr

open Hoare

/-- What tells file systems apart: how paths are read, and which names are taken for one. -/
structure Platform where
  style : PathStyle
  fold : String → String

namespace Platform

/-- Two names that fold to one are the same name on the disk; nothing else is folded. -/
def foldComponent (pf : Platform) : Component → Component
  | .normal name => .normal (pf.fold name)
  | c => c

/-- Where the file system files a path. -/
def key (pf : Platform) (path : PathBuf) : PathBuf := path.map pf.foldComponent

/-- Different names are different files. -/
def CaseSensitive (pf : Platform) : Prop := ∀ name, pf.fold name = name

theorem key_append (pf : Platform) (p q : PathBuf) : pf.key (p ++ q) = pf.key p ++ pf.key q :=
  List.map_append ..

theorem CaseSensitive.key_eq {pf : Platform} (h : pf.CaseSensitive) (path : PathBuf) :
    pf.key path = path := by
  refine List.map_id'' (fun c => ?_) path
  cases c with
  | normal name => exact congrArg Component.normal (h name)
  | _ => rfl

end Platform

/-- What lies at a path. -/
inductive Node
  | dir
  | file (content : Bytes)
  deriving DecidableEq, Repr

/-- A node, and its path as the directories on the way to it spell it. -/
structure Entry where
  spelled : PathBuf
  node : Node
  deriving DecidableEq, Repr

/-- Nodes by key. -/
abbrev Tree := AList fun _ : PathBuf => Entry

/-- The content of a node that is a file. -/
def Node.content : Node → Option Bytes
  | .dir => none
  | .file content => some content

namespace Tree

/-- What lies under a key. -/
def nodeAt (t : Tree) (key : PathBuf) : Option Node := (t.lookup key).map Entry.node

/-- How the file system spells a path. -/
def spell (pf : Platform) (t : Tree) (path : PathBuf) : PathBuf :=
  ((t.lookup (pf.key path)).map Entry.spelled).getD path

/-- File a node under a path.  A node that is there keeps its spelling. -/
def put (pf : Platform) (t : Tree) (path : PathBuf) (node : Node) : Tree :=
  t.insert (pf.key path)
    { spelled := ((t.lookup (pf.key path)).map Entry.spelled).getD
        (spell pf t path.dropLast ++ path.getLast?.toList)
      node }

/-- A node that is put shows under the key of its path, and nothing else changes. -/
@[simp]
theorem nodeAt_put (pf : Platform) (t : Tree) (path : PathBuf) (node : Node) (k : PathBuf) :
    (t.put pf path node).nodeAt k = if k = pf.key path then some node else t.nodeAt k := by
  rw [nodeAt, put]
  by_cases hk : k = pf.key path
  · subst hk
    rw [AList.lookup_insert, if_pos rfl]
    rfl
  · rw [AList.lookup_insert_ne hk, if_neg hk]
    rfl

/-- An erased key shows nothing, and nothing else changes. -/
@[simp]
theorem nodeAt_erase (t : Tree) (key k : PathBuf) :
    nodeAt (t.erase key) k = if k = key then none else t.nodeAt k := by
  rw [nodeAt]
  by_cases hk : k = key
  · subst hk
    rw [AList.lookup_erase, if_pos rfl]
    rfl
  · rw [AList.lookup_erase_ne hk, if_neg hk]
    rfl

/-- Every node is filed under the path that its directories spell. -/
def Spelled (pf : Platform) (t : Tree) : Prop :=
  ∀ k entry, t.lookup k = some entry → pf.key entry.spelled = k

variable {pf : Platform} {t : Tree}

theorem Spelled.key_spell (h : t.Spelled pf) (path : PathBuf) :
    pf.key (t.spell pf path) = pf.key path := by
  rw [spell]
  cases hlookup : t.lookup (pf.key path) with
  | none => rfl
  | some entry => exact h _ entry hlookup

/-- A new entry takes the spelling that the directories above it have. -/
theorem Spelled.put (h : t.Spelled pf) (path : PathBuf) (node : Node) :
    (t.put pf path node).Spelled pf := by
  intro k entry hlookup
  rw [Tree.put] at hlookup
  by_cases hk : k = pf.key path
  · subst hk
    rw [AList.lookup_insert] at hlookup
    cases hlookup
    cases hold : t.lookup (pf.key path) with
    | some entry => exact h _ entry hold
    | none =>
        change pf.key (t.spell pf path.dropLast ++ path.getLast?.toList) = pf.key path
        rw [pf.key_append, h.key_spell, ← pf.key_append]
        rcases List.eq_nil_or_concat' path with rfl | ⟨dirs, last, rfl⟩
        · rfl
        · rw [List.dropLast_concat, List.getLast?_concat]
          rfl
  · rw [AList.lookup_insert_ne hk] at hlookup
    exact h k entry hlookup

/-- Every node that is left has the spelling it had. -/
theorem Spelled.erase (h : t.Spelled pf) (key : PathBuf) :
    Spelled pf (AList.erase key t) := by
  intro k entry hlookup
  by_cases hk : k = key
  · subst hk
    rw [AList.lookup_erase] at hlookup
    cases hlookup
  · rw [AList.lookup_erase_ne hk] at hlookup
    exact h k entry hlookup

end Tree

/-- Why an operation fails. The kinds are those that the callers tell apart or that end up in
a message. -/
inductive Failure
  | notFound
  | notADirectory
  | isADirectory
  /-- The machine does not let it happen. -/
  | refused
  /-- `glob::PatternError`. -/
  | glob
  | json
  /-- No reply, or none that can be used. -/
  | network
  /-- A loop that does not end. -/
  | endless
  /-- A message of the program itself. -/
  | bail (text : String)
  deriving DecidableEq, Repr

/-- What the machine does to an operation. -/
inductive Fate
  | granted
  | refused
  /-- It fails part way through. -/
  | cut (done : ℕ)
  deriving DecidableEq, Repr

/-- How much of a content is written. -/
def Fate.written : Fate → Bytes → Bytes
  | .cut done, content => content.take done
  | _, content => content

/-- The state of the machine as far as files are concerned. What it lets happen is decided in
advance, so that a run is a function of the state. -/
structure Fs where
  tree : Tree
  /-- The files created, overwritten, renamed or deleted, the last one first. -/
  touched : List PathBuf
  /-- The fates of the operations to come; afterwards everything is granted. -/
  fates : List Fate
  /-- The machine does not let the file under this key be removed. -/
  locked : PathBuf → Bool

namespace Fs

/-- The files by key. -/
def files (s : Fs) (key : PathBuf) : Option Bytes := (s.tree.nodeAt key).bind Node.content

/-- `Path::is_dir`; the empty path is the working directory. -/
def isDir (pf : Platform) (s : Fs) (path : PathBuf) : Bool :=
  path.isEmpty || s.tree.nodeAt (pf.key path) = some .dir

end Fs

/-- A program over the file system. -/
abbrev Io := Prog Fs Failure

/-- What the machine does to the operation that is about to run. -/
def nextFate : Io Fate := fun s =>
  match s.fates with
  | [] => (.ok .granted, s)
  | f :: fates => (.ok f, { s with fates })

/-- The directories on the way to a path, and the path. -/
def prefixes (path : PathBuf) : List PathBuf := path.inits.tail

variable (pf : Platform)

/-- One directory of `create_dir_all`. -/
def ensureDir (path : PathBuf) : Io PUnit := do
  let s ← Prog.get
  match s.tree.nodeAt (pf.key path) with
  | none => Prog.modify fun s => { s with tree := s.tree.put pf path .dir }
  | some .dir => pure ⟨⟩
  | some (.file _) => Prog.throw .notADirectory

/-- `create_dir_all`: the directories on the way, from the top; it may be cut anywhere. -/
def createDirAll (path : PathBuf) : Io PUnit := do
  match ← nextFate with
  | .granted => (prefixes path).forM (ensureDir pf)
  | .refused => Prog.throw .refused
  | .cut done => do
      ((prefixes path).take done).forM (ensureDir pf)
      Prog.throw .refused

/-- `File::create`, and a write of the whole content. A write may be cut, and what was
written of it stays. -/
def createFile (path : PathBuf) (content : Bytes) : Io PUnit := do
  let fate ← nextFate
  let s ← Prog.get
  if fate = .refused then Prog.throw .refused
  else if s.isDir pf path then Prog.throw .isADirectory
  else if s.isDir pf path.dropLast then do
    Prog.modify fun s =>
      { s with
        tree := s.tree.put pf path (.file (fate.written content))
        touched := path :: s.touched }
    if fate = .granted then pure ⟨⟩ else Prog.throw .refused
  else Prog.throw .notFound

/-- `fs::read`: the content of the file under the key of the path, all of it or an error. -/
def readFile (path : PathBuf) : Io Bytes := do
  let fate ← nextFate
  let s ← Prog.get
  if fate = .granted then
    match s.files (pf.key path) with
    | some content => pure content
    | none => Prog.throw .notFound
  else Prog.throw .refused

/-- `std::fs::rename` of a file, over the file that is there. It happens as a whole or not at
all, and never makes the directory it is to go into. -/
def rename (src dst : PathBuf) : Io PUnit := do
  let fate ← nextFate
  let s ← Prog.get
  if fate = .granted then
    match s.files (pf.key src) with
    | none => Prog.throw .notFound
    | some content =>
        if s.isDir pf dst then Prog.throw .isADirectory
        else if s.isDir pf dst.dropLast then
          Prog.modify fun s =>
            { s with
              tree := Tree.put pf (s.tree.erase (pf.key src)) dst (.file content)
              touched := src :: dst :: s.touched }
        else Prog.throw .notFound
  else Prog.throw .refused

/-- `fs::copy`. -/
def copy (src dst : PathBuf) : Io PUnit := do
  let content ← readFile pf src
  createFile pf dst content

/-- `fs::remove_file`; a file that another program holds is not removed. The callers go on
after an error, so its fate is part of the machine and not of the run. -/
def removeFile (path : PathBuf) : Io PUnit := do
  let s ← Prog.get
  match s.files (pf.key path) with
  | none => Prog.throw .notFound
  | some _ =>
      if s.locked (pf.key path) then Prog.throw .refused
      else Prog.modify fun s =>
        { s with tree := s.tree.erase (pf.key path), touched := path :: s.touched }

/-! ## What the operations do to the files -/

/-- Between the two states the listed files were touched, and these are the files now. -/
structure Fs.Changed (s₀ s : Fs) (paths : List PathBuf) (files : PathBuf → Option Bytes) :
    Prop where
  touched : s.touched = paths ++ s₀.touched
  files : s.files = files
  locked : s.locked = s₀.locked
  spelled : s₀.tree.Spelled pf → s.tree.Spelled pf

/-- No file is touched or changed. -/
abbrev Fs.Kept (s₀ s : Fs) : Prop := s₀.Changed pf s [] s₀.files

section Specs

variable {pf} {s₀ : Fs} {path src dst : PathBuf} {content : Bytes}

theorem Fs.Kept.refl (s : Fs) : s.Kept pf s := ⟨rfl, rfl, rfl, id⟩

theorem Fs.Kept.trans {s₁ s₂ : Fs} (h : s₀.Kept pf s₁) (h' : s₁.Kept pf s₂) : s₀.Kept pf s₂ :=
  ⟨h'.touched.trans h.touched, h'.files.trans h.files, h'.locked.trans h.locked,
    h'.spelled ∘ h.spelled⟩

theorem Fs.Kept.changed {s₁ s₂ : Fs} {paths : List PathBuf} {files : PathBuf → Option Bytes}
    (h : s₀.Kept pf s₁) (h' : s₁.Changed pf s₂ paths files) : s₀.Changed pf s₂ paths files :=
  ⟨h'.touched.trans (by rw [h.touched]; rfl), h'.files, h'.locked.trans h.locked,
    h'.spelled ∘ h.spelled⟩

/-- The files after one was put: its content under its key, the others as they were. -/
theorem files_put_file (s : Fs) (path : PathBuf) (content : Bytes) (touched : List PathBuf) :
    Fs.files { s with tree := s.tree.put pf path (.file content), touched }
      = Function.update s.files (pf.key path) (some content) := by
  funext k
  rw [Fs.files, Tree.nodeAt_put]
  by_cases hk : k = pf.key path
  · subst hk
    rw [if_pos rfl, Function.update_self]
    rfl
  · rw [if_neg hk, Function.update_of_ne hk]
    rfl

/-- The files after one was removed. -/
theorem files_erase (s : Fs) (key : PathBuf) (touched : List PathBuf) :
    Fs.files { s with tree := s.tree.erase key, touched }
      = Function.update s.files key none := by
  funext k
  rw [Fs.files, Tree.nodeAt_erase]
  by_cases hk : k = key
  · subst hk
    rw [if_pos rfl, Function.update_self]
    rfl
  · rw [if_neg hk, Function.update_of_ne hk]
    rfl

/-- An operation begins with its fate, which changes nothing on the disk. -/
theorem triple_nextFate (pf : Platform) {α : Type} {f : Fate → Io α} {Q : α → Fs → Prop}
    {E : Fs → Prop}
    (h : ∀ fate now, s₀.Kept pf now → Triple (fun s => s = now) (f fate) Q E) :
    Triple (fun s => s = s₀) (nextFate >>= f) Q E := by
  refine triple_bind (R := fun _ now => s₀.Kept pf now) ?_ fun fate now hnow =>
    h fate now hnow now rfl
  rintro s rfl
  rcases hfates : s.fates with _ | ⟨fate, fates⟩
  · have hrun : nextFate s = (.ok .granted, s) := by rw [nextFate, hfates]
    rw [hrun]
    refine ⟨?_, ?_⟩
    · intro a s' heq
      cases heq
      exact .refl s
    · intro e s' heq
      cases heq
  · have hrun : nextFate s = (.ok fate, { s with fates }) := by rw [nextFate, hfates]
    rw [hrun]
    refine ⟨?_, ?_⟩
    · intro a s' heq
      cases heq
      exact ⟨rfl, rfl, rfl, id⟩
    · intro e s' heq
      cases heq

/-- Making a directory leaves all files as they are. -/
theorem ensureDir_spec :
    Triple (fun s => s₀.Kept pf s) (ensureDir pf path) (fun _ s => s₀.Kept pf s)
      fun s => s₀.Kept pf s := by
  refine triple_get_bind fun now hnow => ?_
  cases hnode : now.tree.nodeAt (pf.key path) with
  | none =>
      refine triple_modify ?_
      rintro s rfl
      refine ⟨hnow.touched, ?_, hnow.locked, fun h => (hnow.spelled h).put _ _⟩
      rw [← hnow.files]
      funext k
      rw [Fs.files, Tree.nodeAt_put]
      by_cases hk : k = pf.key path
      · subst hk
        rw [if_pos rfl, Fs.files, hnode]
        rfl
      · rw [if_neg hk]
        rfl
  | some node =>
      cases node with
      | dir => exact triple_pure fun s hs => hs ▸ hnow
      | file _ => exact triple_throw fun s hs => hs ▸ hnow

theorem ensureDirs_spec (paths : List PathBuf) :
    Triple (fun s => s₀.Kept pf s) (paths.forM (ensureDir pf)) (fun _ s => s₀.Kept pf s)
      fun s => s₀.Kept pf s :=
  triple_forM_of_invariant fun _ _ => ensureDir_spec

/-- Making directories touches no file. -/
theorem createDirAll_spec :
    Triple (fun s => s = s₀) (createDirAll pf path) (fun _ s => s₀.Kept pf s)
      fun s => s₀.Kept pf s := by
  refine triple_nextFate pf fun fate now hnow => ?_
  have hpre : ∀ s, s = now → s₀.Kept pf s := fun s hs => hs ▸ hnow
  cases fate with
  | granted => exact (ensureDirs_spec _).conseq hpre (fun _ _ hs => hs) fun _ hs => hs
  | refused => exact triple_throw hpre
  | cut done =>
      refine triple_bind ((ensureDirs_spec _).conseq hpre (fun _ _ hs => hs) fun _ hs => hs) ?_
      exact fun _ => triple_throw fun _ hs => hs

/-- Creating a file touches that file alone; a failure may leave a part of it. -/
theorem createFile_spec :
    Triple (fun s => s = s₀) (createFile pf path content)
      (fun _ s => s₀.Changed pf s [path]
        (Function.update s₀.files (pf.key path) (some content)))
      fun s => s₀.Kept pf s ∨ ∃ part, s₀.Changed pf s [path]
        (Function.update s₀.files (pf.key path) (some part)) := by
  refine triple_nextFate pf fun fate start hnow => triple_get_bind ?_
  rintro now rfl
  have hkept : ∀ s, s = now → s₀.Kept pf s ∨ ∃ part, s₀.Changed pf s [path]
      (Function.update s₀.files (pf.key path) (some part)) := fun s hs => .inl (hs ▸ hnow)
  by_cases hrefused : fate = .refused
  · rw [if_pos hrefused]
    exact triple_throw hkept
  rw [if_neg hrefused]
  by_cases hdir : now.isDir pf path
  · rw [if_pos hdir]
    exact triple_throw hkept
  rw [if_neg hdir]
  by_cases hparent : now.isDir pf path.dropLast
  · rw [if_pos hparent]
    have hwrite : Triple (fun s => s = now) (Prog.modify fun s : Fs =>
        { s with
          tree := s.tree.put pf path (.file (fate.written content))
          touched := path :: s.touched } : Io PUnit)
        (fun _ s => s₀.Changed pf s [path]
          (Function.update s₀.files (pf.key path) (some (fate.written content))))
        fun _ => False := by
      refine triple_modify ?_
      rintro s rfl
      refine ⟨congrArg (path :: ·) hnow.touched, ?_, hnow.locked,
        fun h => (hnow.spelled h).put _ _⟩
      rw [files_put_file, hnow.files]
    refine triple_bind (hwrite.conseq (fun _ hs => hs) (fun _ _ hs => hs)
      fun _ hs => hs.elim) fun _ => ?_
    by_cases hgranted : fate = .granted
    · rw [if_pos hgranted]
      subst hgranted
      exact triple_pure fun s hs => hs
    · rw [if_neg hgranted]
      exact triple_throw fun s hs => .inr ⟨_, hs⟩
  · rw [if_neg hparent]
    exact triple_throw hkept

/-- Reading returns what the file holds and changes nothing. -/
theorem readFile_spec :
    Triple (fun s => s = s₀) (readFile pf path)
      (fun content s => s₀.files (pf.key path) = some content ∧ s₀.Kept pf s)
      fun s => s₀.Kept pf s := by
  refine triple_nextFate pf fun fate start hnow => triple_get_bind ?_
  rintro now rfl
  split_ifs
  · cases hfile : now.files (pf.key path) with
    | none => exact triple_throw fun s hs => hs ▸ hnow
    | some content =>
        refine triple_pure ?_
        rintro s rfl
        exact ⟨by rw [← hnow.files, hfile], hnow⟩
  · exact triple_throw fun s hs => hs ▸ hnow

/-- A rename moves the content, or nothing happens. -/
theorem rename_spec :
    Triple (fun s => s = s₀) (rename pf src dst)
      (fun _ s => ∃ content, s₀.files (pf.key src) = some content ∧
        s₀.Changed pf s [src, dst] (Function.update
          (Function.update s₀.files (pf.key src) none) (pf.key dst) (some content)))
      fun s => s₀.Kept pf s := by
  refine triple_nextFate pf fun fate start hnow => triple_get_bind ?_
  rintro now rfl
  have hkept : ∀ s, s = now → s₀.Kept pf s := fun s hs => hs ▸ hnow
  by_cases hgranted : fate = .granted
  · rw [if_pos hgranted]
    cases hfile : now.files (pf.key src) with
    | none => exact triple_throw hkept
    | some content =>
        dsimp only
        split_ifs
        · exact triple_throw hkept
        · refine triple_modify ?_
          rintro s rfl
          refine ⟨content, by rw [← hnow.files, hfile], ?_, ?_, hnow.locked,
            fun h => ((hnow.spelled h).erase _).put _ _⟩
          · exact congrArg (src :: dst :: ·) hnow.touched
          · rw [← hnow.files, ← files_erase s (pf.key src) s.touched]
            exact files_put_file { s with tree := s.tree.erase (pf.key src) } dst content _
        · exact triple_throw hkept
  · rw [if_neg hgranted]
    exact triple_throw hkept

/-- A removal takes the file away; it fails only where there is none or it is locked. -/
theorem removeFile_spec :
    Triple (fun s => s = s₀) (removeFile pf path)
      (fun _ s => s₀.locked (pf.key path) = false ∧
        s₀.Changed pf s [path] (Function.update s₀.files (pf.key path) none))
      fun s => (s₀.files (pf.key path) = none ∨ s₀.locked (pf.key path) = true) ∧
        s₀.Kept pf s := by
  refine triple_get_bind ?_
  rintro now rfl
  cases hfile : now.files (pf.key path) with
  | none =>
      refine triple_throw ?_
      rintro s rfl
      exact ⟨.inl rfl, .refl _⟩
  | some content =>
      dsimp only
      split_ifs with hlocked
      · refine triple_throw ?_
        rintro s rfl
        exact ⟨.inr hlocked, .refl _⟩
      · refine triple_modify ?_
        rintro s rfl
        exact ⟨by simpa using hlocked, rfl, files_erase .., rfl, fun h => h.erase _⟩

end Specs

/-! ## When the operations succeed -/

/-- Nothing is refused any more, and these are the nodes and the files touched so far. -/
structure Fs.Is (s : Fs) (nodes : PathBuf → Option Node) (touched : List PathBuf) : Prop where
  fates : s.fates = []
  nodes : s.tree.nodeAt = nodes
  touched : s.touched = touched

/-- The nodes with the directories on the way to a key, and that one. -/
def withDirs (nodes : PathBuf → Option Node) (key : PathBuf) : PathBuf → Option Node :=
  fun k => if k ≠ [] ∧ k <+: key then some .dir else nodes k

section Success

variable {pf} {nodes : PathBuf → Option Node} {touched : List PathBuf} {path src dst : PathBuf}
  {content : Bytes}

theorem nextFate_bind_of_is {α : Type} {f : Fate → Io α} {s : Fs} (h : s.Is nodes touched) :
    (nextFate >>= f) s = f .granted s := by
  refine bind_of_ok ?_
  rw [nextFate, h.fates]

/-- The directories on the way are the beginnings of the path. -/
theorem mem_prefixes {k : PathBuf} : k ∈ prefixes path ↔ k ≠ [] ∧ k <+: path := by
  rw [prefixes]
  cases path with
  | nil => simp
  | cons c path =>
      rw [List.inits_cons, List.tail_cons, List.mem_map]
      constructor
      · rintro ⟨t, ht, rfl⟩
        exact ⟨List.cons_ne_nil _ _, List.cons_prefix_cons.mpr ⟨rfl, (List.mem_inits _ _).mp ht⟩⟩
      · rintro ⟨hne, hbegins⟩
        cases k with
        | nil => exact absurd rfl hne
        | cons d k =>
            obtain ⟨rfl, hk⟩ := List.cons_prefix_cons.mp hbegins
            exact ⟨k, (List.mem_inits _ _).mpr hk, rfl⟩

/-- The keys of the directories on the way are those on the way to the key. -/
theorem mem_key_prefixes {k : PathBuf} :
    k ∈ (prefixes path).map pf.key ↔ k ≠ [] ∧ k <+: pf.key path := by
  rw [List.mem_map]
  constructor
  · rintro ⟨p, hp, rfl⟩
    obtain ⟨hne, rest, rfl⟩ := mem_prefixes.mp hp
    refine ⟨?_, by rw [pf.key_append]; exact List.prefix_append _ _⟩
    intro hnil
    exact hne (List.map_eq_nil_iff.mp hnil)
  · rintro ⟨hne, hbegins⟩
    have htake : k = pf.key (path.take k.length) := by
      rw [Platform.key, List.map_take]
      exact List.prefix_iff_eq_take.mp hbegins
    refine ⟨path.take k.length, mem_prefixes.mpr ⟨?_, List.take_prefix _ _⟩, htake.symm⟩
    intro hnil
    rw [hnil] at htake
    exact hne htake

/-- A directory can be made where no file is. -/
theorem ensureDir_ok (h : ∀ c, nodes (pf.key path) ≠ some (.file c)) :
    Triple (fun s => s.Is nodes touched) (ensureDir pf path)
      (fun _ s => s.Is (Function.update nodes (pf.key path) (some .dir)) touched)
      fun _ => False := by
  refine triple_get_bind fun now hnow => ?_
  cases hnode : now.tree.nodeAt (pf.key path) with
  | none =>
      refine triple_modify ?_
      rintro s rfl
      refine ⟨hnow.fates, ?_, hnow.touched⟩
      rw [← hnow.nodes]
      funext k
      rw [Tree.nodeAt_put, Function.update_apply]
  | some node =>
      cases node with
      | dir =>
          refine triple_pure ?_
          rintro s rfl
          rw [hnow.nodes] at hnode
          refine ⟨hnow.fates, ?_, hnow.touched⟩
          rw [hnow.nodes, ← hnode, Function.update_eq_self]
      | file c =>
          rw [hnow.nodes] at hnode
          exact absurd hnode (h c)

/-- Directories can be made where no file is on the way. -/
theorem createDirAll_ok
    (h : ∀ k, k ≠ [] → k <+: pf.key path → ∀ c, nodes k ≠ some (.file c)) :
    Triple (fun s => s.Is nodes touched) (createDirAll pf path)
      (fun _ s => s.Is (withDirs nodes (pf.key path)) touched) fun _ => False := by
  have hloop : Triple (fun s => s.Is nodes touched) ((prefixes path).forM (ensureDir pf))
      (fun _ s => s.Is (fun k => if k ∈ (prefixes path).map pf.key then some .dir else nodes k)
        touched) fun _ => False := by
    refine (triple_forM (fun done s => s.Is
      (fun k => if k ∈ done.map pf.key then some .dir else nodes k) touched) ?_).conseq
      (fun s hs => by simpa using hs) (fun _ _ hs => hs) fun _ hs => hs
    intro done p rest hsplit
    have hp : pf.key p ∈ (prefixes path).map pf.key := List.mem_map_of_mem (by rw [hsplit]; simp)
    refine (ensureDir_ok ?_).conseq (fun _ hs => hs) ?_ fun _ hs => hs
    · intro c
      obtain ⟨hne, hbegins⟩ := mem_key_prefixes.mp hp
      split_ifs
      · simp
      · exact h _ hne hbegins c
    · intro _ s hs
      refine ⟨hs.fates, hs.nodes.trans ?_, hs.touched⟩
      funext k
      rw [Function.update_apply, List.map_append, List.map_cons, List.map_nil]
      by_cases hk : k = pf.key p
      · simp [hk]
      · simp [hk]
  intro s hs
  have hrun : createDirAll pf path s = (prefixes path).forM (ensureDir pf) s :=
    nextFate_bind_of_is hs
  rw [hrun]
  refine hloop.conseq (fun _ hs => hs) ?_ (fun _ hs => hs) s hs
  intro _ s' hs'
  refine ⟨hs'.fates, hs'.nodes.trans ?_, hs'.touched⟩
  funext k
  rw [withDirs]
  exact if_congr mem_key_prefixes rfl rfl

/-- A file can be created in a directory, where there is none of its name. -/
theorem createFile_ok (hne : path ≠ []) (hdir : nodes (pf.key path) ≠ some .dir)
    (hparent : path.dropLast = [] ∨ nodes (pf.key path.dropLast) = some .dir) :
    Triple (fun s => s.Is nodes touched) (createFile pf path content)
      (fun _ s => s.Is (Function.update nodes (pf.key path) (some (.file content)))
        (path :: touched)) fun _ => False := by
  intro s hs
  have hisDir : s.isDir pf path = false := by
    rw [Fs.isDir, hs.nodes]
    simp [hne, hdir]
  have hisParent : s.isDir pf path.dropLast = true := by
    rw [Fs.isDir, hs.nodes]
    rcases hparent with hnil | hmem
    · simp [hnil]
    · simp [hmem]
  have hrun : createFile pf path content s = (.ok ⟨⟩,
      { s with
        tree := s.tree.put pf path (.file content)
        touched := path :: s.touched }) := by
    refine (nextFate_bind_of_is hs).trans ?_
    refine (get_bind _ s).trans ?_
    rw [if_neg (by decide), hisDir, hisParent]
    rfl
  rw [hrun]
  refine ⟨?_, ?_⟩
  · intro _ s' heq
    cases heq
    refine ⟨hs.fates, ?_, congrArg (path :: ·) hs.touched⟩
    funext k
    rw [Tree.nodeAt_put, hs.nodes, Function.update_apply]
  · intro e s' heq
    cases heq

/-- A file that is there can be read. -/
theorem readFile_ok (hfile : nodes (pf.key path) = some (.file content)) :
    Triple (fun s => s.Is nodes touched) (readFile pf path)
      (fun bytes s => bytes = content ∧ s.Is nodes touched) fun _ => False := by
  intro s hs
  have hfiles : s.files (pf.key path) = some content := by
    rw [Fs.files, hs.nodes, hfile]
    rfl
  have hrun : readFile pf path s = (.ok content, s) := by
    refine (nextFate_bind_of_is hs).trans ?_
    refine (get_bind _ s).trans ?_
    rw [if_pos rfl, hfiles]
    rfl
  rw [hrun]
  refine ⟨?_, ?_⟩
  · intro bytes s' heq
    cases heq
    exact ⟨rfl, hs⟩
  · intro e s' heq
    cases heq

/-- A file can be renamed where a file can be created. -/
theorem rename_ok (hsrc : nodes (pf.key src) = some (.file content)) (hne : dst ≠ [])
    (hdir : nodes (pf.key dst) ≠ some .dir)
    (hparent : dst.dropLast = [] ∨ nodes (pf.key dst.dropLast) = some .dir) :
    Triple (fun s => s.Is nodes touched) (rename pf src dst)
      (fun _ s => s.Is (Function.update (Function.update nodes (pf.key src) none) (pf.key dst)
        (some (.file content))) (src :: dst :: touched)) fun _ => False := by
  intro s hs
  have hfiles : s.files (pf.key src) = some content := by
    rw [Fs.files, hs.nodes, hsrc]
    rfl
  have hisDir : s.isDir pf dst = false := by
    rw [Fs.isDir, hs.nodes]
    simp [hne, hdir]
  have hisParent : s.isDir pf dst.dropLast = true := by
    rw [Fs.isDir, hs.nodes]
    rcases hparent with hnil | hmem
    · simp [hnil]
    · simp [hmem]
  have hrun : rename pf src dst s = (.ok ⟨⟩,
      { s with
        tree := Tree.put pf (s.tree.erase (pf.key src)) dst (.file content)
        touched := src :: dst :: s.touched }) := by
    refine (nextFate_bind_of_is hs).trans ?_
    refine (get_bind _ s).trans ?_
    rw [if_pos rfl, hfiles]
    dsimp only
    rw [hisDir, hisParent]
    rfl
  rw [hrun]
  refine ⟨?_, ?_⟩
  · intro _ s' heq
    cases heq
    refine ⟨hs.fates, ?_, congrArg (src :: dst :: ·) hs.touched⟩
    funext k
    rw [Tree.nodeAt_put, Tree.nodeAt_erase, hs.nodes, Function.update_apply, Function.update_apply]
  · intro e s' heq
    cases heq

end Success

end Savr
