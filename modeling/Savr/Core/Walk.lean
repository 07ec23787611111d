import Savr.Core.Collect
import Savr.Core.PlainDigest

/-!
# The walk of a snapshot

`Snapshot::build`, `collect` and `rel_path` of `savr-core/src/snapshot.rs`, over trees with
links and special files, and with names that need not be text.

`rel_path` is text, so names that differ only where they are not text have one `rel_path`, and
the `BTreeMap` keeps one of the files.  Where no two of the files meet there, a snapshot depends
on nothing but the set of the files.

## Main results

* `OsNode.collect_eq` — the walk inserts the regular files one after the other.
* `mem_buildFiles` — what a snapshot lists.
* `snapshot_of_covered` — a snapshot depends only on the files its patterns cover.
* `relPath_inj` — names that are text have different `rel_path`s.
-/

namespace Savr

/-! ## Names that need not be text -/

/-- A character of an OS string, or a sequence of it that is none. -/
inductive OsUnit
  | char (c : Char)
  | invalid (code : ℕ)
  deriving DecidableEq, Repr

/-- `OsStr`. -/
abbrev OsName := List OsUnit

/-- U+FFFD. -/
def replacement : Char := Char.ofNat 0xFFFD

/-- What `to_string_lossy` makes of one unit. -/
def OsUnit.lossy : OsUnit → Char
  | char c => c
  | invalid _ => replacement

/-- `to_string_lossy`. -/
def lossy (name : OsName) : String := String.ofList (name.map OsUnit.lossy)

/-- A path, by its components. -/
abbrev OsPath := List OsName

/-- `rel_path`: a path that does not lie under the anchor is kept whole. -/
def osRelPath (path anchor : OsPath) : String :=
  let rel := if anchor <+: path then path.drop anchor.length else path
  "/".intercalate (rel.map lossy)

/-! ## Trees -/

/-- What `symlink_metadata` finds at a path, and what is below it. -/
inductive OsNode
  /-- A directory, whether it can be read, and its entries in the order of `read_dir`. -/
  | dir (readable : Bool) (names : List OsName) (child : OsName → OsNode)
  | file (readable : Bool) (mtime : ℤ) (content : Bytes)
  | symlink
  /-- A pipe, a socket, a device. -/
  | special

/-- A file tree: what is at each path.  Links on the way to a path are followed, one at its end
is not. -/
structure FileTree where
  find : OsPath → Option OsNode
  find_child : ∀ path readable names child, find path = some (.dir readable names child) →
    ∀ name ∈ names, find (path ++ [name]) = some (child name)

/-- The node that a path leads to through directories. -/
def OsNode.walk : OsNode → OsPath → Option OsNode
  | node, [] => some node
  | .dir _ names child, name :: rest =>
      if name ∈ names then (child name).walk rest else none
  | _, _ => none

/-- One more name leads from a directory to its child. -/
theorem OsNode.walk_child (node : OsNode) {path : OsPath} {readable : Bool} {names : List OsName}
    {child : OsName → OsNode} (h : node.walk path = some (.dir readable names child))
    {name : OsName} (hname : name ∈ names) : node.walk (path ++ [name]) = some (child name) := by
  induction node generalizing path with
  | dir readable' names' child' ih =>
      cases path with
      | nil =>
          cases h
          rw [List.nil_append, walk, if_pos hname, walk]
      | cons first rest =>
          rw [walk] at h
          split_ifs at h with hfirst
          rw [List.cons_append, walk, if_pos hfirst]
          exact ih first h
  | file readable' mtime content | symlink | special =>
      cases path with
      | nil => cases h
      | cons first rest => cases h

/-- A tree whose links lead nowhere. -/
def FileTree.ofRoot (root : OsNode) : FileTree where
  find := root.walk
  find_child _ _ _ _ h _ hname := root.walk_child h hname

/-- Why `Snapshot::build` fails. -/
inductive BuildError
  | glob (message : String)
  | io
  deriving DecidableEq, Repr

/-! ## The walk -/

/-- The `glob` crate, on the tree in question. -/
structure Globbing where
  /-- `glob::glob`: the matches that are no errors, or the message of the `PatternError`. -/
  glob : String → Except String (List OsPath)
  /-- `Pattern::new`, and `Pattern::matches` of the pattern. -/
  pattern : String → Option (String → Bool)

section Walk

variable (g : Globbing) (excludes : List String) (anchor : OsPath)

/-- A file with this `rel_path` is left out.  Patterns that do not parse are ignored. -/
def leftOut (rel : String) : Bool :=
  (excludes.filterMap g.pattern).any fun matching => matching (slashed rel)

/-- `collect`, below its first `symlink_metadata`: a directory is descended into, a file that
is not excluded is read, and a link or a device is passed over. -/
def OsNode.collect : OsNode → OsPath → SaveSet → Except BuildError SaveSet
  | .dir readable names child, path, out =>
      if readable then
        names.foldlM (fun out name => (child name).collect (path ++ [name]) out) out
      else .error .io
  | .file readable mtime content, path, out =>
      let rel := osRelPath path anchor
      if leftOut g excludes rel then .ok out
      else if readable then .ok (out.insert ⟨rel, mtime, content⟩)
      else .error .io
  | .symlink, _, out => .ok out
  | .special, _, out => .ok out

/-- `collect` of a path. -/
def collectPath (t : FileTree) (out : SaveSet) (path : OsPath) : Except BuildError SaveSet :=
  match t.find path with
  | some node => node.collect g excludes anchor path out
  | none => .error .io

/-- The body of the loop over the patterns. -/
def collectPattern (t : FileTree) (out : SaveSet) (pattern : String) : Except BuildError SaveSet :=
  match g.glob pattern with
  | .ok paths => paths.foldlM (collectPath g excludes anchor t) out
  | .error message => .error (.glob message)

/-- `Snapshot::build`. -/
def buildSnapshot [Blake3] (t : FileTree) (gameId : GameId) (patterns : List String)
    (now : Timestamp) : Except BuildError Snapshot :=
  match patterns.foldlM (collectPattern g excludes anchor t) .empty with
  | .ok saves => .ok (Snapshot.build gameId saves now)
  | .error e => .error e

end Walk

/-! ## What is inserted -/

namespace SaveSet

/-- What an insertion leaves: the new file, and those of other names. -/
theorem mem_insertFile_iff {f a : SaveFile} {files : List SaveFile}
    (hsorted : (files.map SaveFile.relPath).Pairwise (· < ·)) :
    a ∈ insertFile f files ↔ a = f ∨ a ∈ files ∧ a.relPath ≠ f.relPath := by
  induction files with
  | nil => simp [insertFile]
  | cons g rest ih =>
      rw [List.map_cons, List.pairwise_cons] at hsorted
      obtain ⟨hfirst, hrest⟩ := hsorted
      have hlater : ∀ b ∈ rest, g.relPath < b.relPath := fun b hb =>
        hfirst _ (List.mem_map_of_mem hb)
      rw [insertFile]
      split_ifs with hlt heq
      · -- everything comes after the new file
        have hall : ∀ b ∈ g :: rest, b.relPath ≠ f.relPath := by
          intro b hb heq
          rcases List.mem_cons.mp hb with rfl | hb
          · exact String.lt_irrefl _ (heq ▸ hlt)
          · exact String.lt_irrefl _ (heq ▸ String.lt_trans hlt (hlater b hb))
        rw [List.mem_cons]
        exact or_congr_right ⟨fun hb => ⟨hb, hall a hb⟩, fun hb => hb.1⟩
      · have hall : ∀ b ∈ rest, b.relPath ≠ f.relPath := by
          intro b hb hsame
          exact String.lt_irrefl _ (hsame.trans heq ▸ hlater b hb)
        rw [List.mem_cons]
        refine or_congr_right ⟨fun hb => ⟨List.mem_cons_of_mem g hb, hall a hb⟩, fun hb => ?_⟩
        rcases List.mem_cons.mp hb.1 with rfl | hmem
        · exact absurd heq.symm hb.2
        · exact hmem
      · rw [List.mem_cons, List.mem_cons, ih hrest]
        have hother : a = g → a.relPath ≠ f.relPath := by
          rintro rfl hsame
          exact heq hsame.symm
        tauto

theorem mem_insert {saves : SaveSet} {f a : SaveFile} :
    a ∈ (saves.insert f).files ↔ a = f ∨ a ∈ saves.files ∧ a.relPath ≠ f.relPath :=
  mem_insertFile_iff saves.sorted

/-- Files whose `rel_path`s tell them apart are all kept. -/
theorem mem_foldl_insert {files : List SaveFile} {saves : SaveSet}
    (distinct : ∀ a ∈ files, ∀ b, b ∈ files ∨ b ∈ saves.files → a.relPath = b.relPath → a = b)
    {a : SaveFile} : a ∈ (files.foldl insert saves).files ↔ a ∈ files ∨ a ∈ saves.files := by
  induction files generalizing saves with
  | nil => simp
  | cons f rest ih =>
      have hrest : ∀ b ∈ rest, ∀ c, c ∈ rest ∨ c ∈ (saves.insert f).files →
          b.relPath = c.relPath → b = c := by
        intro b hb c hc
        refine distinct b (List.mem_cons_of_mem f hb) c ?_
        rcases hc with hc | hc
        · exact .inl (List.mem_cons_of_mem f hc)
        · rcases mem_insert.mp hc with rfl | ⟨hc, -⟩
          · exact .inl List.mem_cons_self
          · exact .inr hc
      have hkept : a ∈ saves.files → a = f ∨ a.relPath ≠ f.relPath := by
        intro ha
        by_cases hsame : a.relPath = f.relPath
        · exact .inl (distinct f List.mem_cons_self a (.inr ha) hsame.symm).symm
        · exact .inr hsame
      rw [List.foldl_cons, ih hrest, mem_insert, List.mem_cons]
      tauto

/-- A sorted map is its files. -/
theorem ext_files {saves saves' : SaveSet} (h : ∀ a, a ∈ saves.files ↔ a ∈ saves'.files) :
    saves.files = saves'.files := by
  have hsorted : ∀ saves : SaveSet, saves.files.Pairwise fun a b => a.relPath < b.relPath :=
    fun saves => List.pairwise_map.mp saves.sorted
  have : Std.Irrefl fun a b : SaveFile => a.relPath < b.relPath :=
    ⟨fun a => String.lt_irrefl a.relPath⟩
  have : Std.Antisymm fun a b : SaveFile => a.relPath < b.relPath :=
    ⟨fun a b hab hba => absurd (String.lt_trans hab hba) (String.lt_irrefl _)⟩
  exact (hsorted saves).eq_of_mem_iff (hsorted saves') h

/-- These files are inserted, in some order. -/
def Inserts (files : SaveFile → Prop) (out out' : SaveSet) : Prop :=
  ∃ inserted : List SaveFile, out' = inserted.foldl insert out ∧ ∀ f, f ∈ inserted ↔ files f

theorem Inserts.none (out : SaveSet) : Inserts (fun _ => False) out out :=
  ⟨[], rfl, fun _ => by simp⟩

theorem Inserts.congr {files files' : SaveFile → Prop} {out out' : SaveSet}
    (h : Inserts files out out') (hiff : ∀ f, files f ↔ files' f) : Inserts files' out out' := by
  obtain ⟨inserted, heq, hmem⟩ := h
  exact ⟨inserted, heq, fun f => (hmem f).trans (hiff f)⟩

/-- A loop inserts what its rounds insert. -/
theorem Inserts.foldlM {α : Type} {step : SaveSet → α → Except BuildError SaveSet}
    {files : α → SaveFile → Prop} {xs : List α} {out out' : SaveSet}
    (hstep : ∀ x ∈ xs, ∀ out out', step out x = .ok out' → Inserts (files x) out out')
    (h : xs.foldlM step out = .ok out') : Inserts (fun f => ∃ x ∈ xs, files x f) out out' := by
  induction xs generalizing out with
  | nil =>
      obtain rfl := Except.ok.inj h
      exact (Inserts.none _).congr fun f => by simp
  | cons x xs ih =>
      rw [List.foldlM_cons] at h
      cases hx : step out x with
      | error e =>
          rw [hx] at h
          cases h
      | ok mid =>
          rw [hx] at h
          obtain ⟨first, rfl, hfirst⟩ := hstep x List.mem_cons_self out mid hx
          obtain ⟨rest, rfl, hrest⟩ :=
            ih (fun y hy => hstep y (List.mem_cons_of_mem x hy)) h
          refine ⟨first ++ rest, (List.foldl_append ..).symm, fun f => ?_⟩
          show f ∈ first ++ rest ↔ ∃ y ∈ x :: xs, files y f
          rw [List.mem_append, hfirst, hrest, List.exists_mem_cons_iff]

end SaveSet

/-! ## What is covered -/

/-- The regular file that a path leads to through directories. -/
def OsNode.fileAt : OsNode → OsPath → Option (ℤ × Bytes)
  | .file _ mtime content, [] => some (mtime, content)
  | .dir _ names child, name :: rest =>
      if name ∈ names then (child name).fileAt rest else none
  | _, _ => none

/-- One of the patterns matches this path. -/
def Globbing.Matches (g : Globbing) (patterns : List String) (path : OsPath) : Prop :=
  ∃ pattern ∈ patterns, ∃ paths, g.glob pattern = .ok paths ∧ path ∈ paths

/-- The regular file at `q` is matched by one of the patterns, or lies in a directory that is. -/
def CoversFile (g : Globbing) (t : FileTree) (patterns : List String) (q : OsPath) (mtime : ℤ)
    (content : Bytes) : Prop :=
  ∃ path node rest, g.Matches patterns path ∧ t.find path = some node ∧
    node.fileAt rest = some (mtime, content) ∧ q = path ++ rest

section Spec

open SaveSet

variable {g : Globbing} {excludes : List String} {anchor path q : OsPath} {t : FileTree}
  {patterns patterns' : List String} {out out' : SaveSet} {mtime : ℤ} {content : Bytes}

/-- These files are listed, if they are not left out. -/
def Listing (g : Globbing) (excludes : List String) (anchor : OsPath)
    (files : OsPath → ℤ → Bytes → Prop) (f : SaveFile) : Prop :=
  ∃ q mtime content, files q mtime content ∧ leftOut g excludes (osRelPath q anchor) = false ∧
    f = ⟨osRelPath q anchor, mtime, content⟩

/-- **The walk** inserts the regular files at or below a path. -/
theorem OsNode.collect_eq (node : OsNode) (path : OsPath) (out out' : SaveSet)
    (h : node.collect g excludes anchor path out = .ok out') :
    Inserts (Listing g excludes anchor fun q mtime content =>
      ∃ rest, node.fileAt rest = some (mtime, content) ∧ q = path ++ rest) out out' := by
  induction node generalizing path out out' with
  | dir readable names child ih =>
      rw [OsNode.collect] at h
      split_ifs at h
      refine (Inserts.foldlM (fun name _ out out' h => ih name (path ++ [name]) out out' h)
        h).congr fun f => ?_
      constructor
      · rintro ⟨name, hname, q, mtime, content, ⟨rest, hfile, rfl⟩, hkept, rfl⟩
        refine ⟨_, mtime, content, ⟨name :: rest, ?_, List.append_assoc ..⟩, hkept, rfl⟩
        rw [OsNode.fileAt, if_pos hname]
        exact hfile
      · rintro ⟨q, mtime, content, ⟨rest, hfile, rfl⟩, hkept, rfl⟩
        cases rest with
        | nil => cases hfile
        | cons name rest =>
            rw [OsNode.fileAt] at hfile
            split_ifs at hfile with hname
            exact ⟨name, hname, _, mtime, content,
              ⟨rest, hfile, (List.append_assoc path [name] rest).symm⟩, hkept, rfl⟩
  | file readable mtime content =>
      have hlisted : ∀ f, Listing g excludes anchor (fun q m c =>
          ∃ rest, (OsNode.file readable mtime content).fileAt rest = some (m, c) ∧
            q = path ++ rest) f ↔ leftOut g excludes (osRelPath path anchor) = false ∧
          f = ⟨osRelPath path anchor, mtime, content⟩ := by
        intro f
        constructor
        · rintro ⟨q, m, c, ⟨rest, hfile, rfl⟩, hkept, rfl⟩
          cases rest with
          | nil =>
              cases hfile
              rw [List.append_nil] at hkept ⊢
              exact ⟨hkept, rfl⟩
          | cons name rest => cases hfile
        · rintro ⟨hkept, rfl⟩
          exact ⟨path, mtime, content, ⟨[], rfl, (List.append_nil path).symm⟩, hkept, rfl⟩
      rw [OsNode.collect] at h
      split_ifs at h with hleft hreadable
      · obtain rfl := Except.ok.inj h
        refine (Inserts.none _).congr fun f => ?_
        rw [hlisted, hleft]
        simp
      · obtain rfl := Except.ok.inj h
        refine ⟨[⟨osRelPath path anchor, mtime, content⟩], rfl, fun f => ?_⟩
        rw [hlisted, List.mem_singleton]
        exact (and_iff_right (Bool.not_eq_true _ ▸ hleft)).symm
  | symlink | special =>
      obtain rfl := Except.ok.inj h
      refine (Inserts.none _).congr fun f => ⟨False.elim, ?_⟩
      rintro ⟨q, mtime, content, ⟨rest, hfile, -⟩, -⟩
      cases hfile

/-- What `Snapshot::build` collects. -/
theorem inserts_of_collect
    (h : patterns.foldlM (collectPattern g excludes anchor t) .empty = .ok out) :
    Inserts (Listing g excludes anchor (CoversFile g t patterns)) .empty out := by
  have hpath : ∀ path out out', collectPath g excludes anchor t out path = .ok out' →
      Inserts (Listing g excludes anchor fun q mtime content => ∃ node rest,
        t.find path = some node ∧ node.fileAt rest = some (mtime, content) ∧ q = path ++ rest)
        out out' := by
    intro path out out' h
    unfold collectPath at h
    split at h
    · rename_i node hnode
      refine (node.collect_eq path out out' h).congr fun f => ?_
      constructor
      · rintro ⟨q, mtime, content, ⟨rest, hfile, rfl⟩, hkept, rfl⟩
        exact ⟨_, mtime, content, ⟨node, rest, hnode, hfile, rfl⟩, hkept, rfl⟩
      · rintro ⟨q, mtime, content, ⟨node', rest, hnode', hfile, rfl⟩, hkept, rfl⟩
        obtain rfl := Option.some.inj (hnode.symm.trans hnode')
        exact ⟨_, mtime, content, ⟨rest, hfile, rfl⟩, hkept, rfl⟩
    · cases h
  have hpattern : ∀ pattern out out', collectPattern g excludes anchor t out pattern = .ok out' →
      Inserts (fun f => ∃ paths, g.glob pattern = .ok paths ∧ ∃ path ∈ paths,
        Listing g excludes anchor (fun q mtime content => ∃ node rest, t.find path = some node ∧
          node.fileAt rest = some (mtime, content) ∧ q = path ++ rest) f) out out' := by
    intro pattern out out' h
    unfold collectPattern at h
    split at h
    · rename_i paths hpaths
      refine (Inserts.foldlM (fun path _ => hpath path) h).congr fun f => ?_
      constructor
      · exact fun hf => ⟨paths, hpaths, hf⟩
      · rintro ⟨paths', hpaths', hf⟩
        obtain rfl := Except.ok.inj (hpaths.symm.trans hpaths')
        exact hf
    · cases h
  refine (Inserts.foldlM (fun pattern _ => hpattern pattern) h).congr fun f => ?_
  constructor
  · rintro ⟨pattern, hmem, paths, hglob, path, hin, q, mtime, content,
      ⟨node, rest, hnode, hfile, rfl⟩, hkept, rfl⟩
    exact ⟨_, mtime, content, ⟨path, node, rest, ⟨pattern, hmem, paths, hglob, hin⟩, hnode, hfile,
      rfl⟩, hkept, rfl⟩
  · rintro ⟨q, mtime, content, ⟨path, node, rest, ⟨pattern, hmem, paths, hglob, hin⟩, hnode, hfile,
      rfl⟩, hkept, rfl⟩
    exact ⟨pattern, hmem, paths, hglob, path, hin, _, mtime, content,
      ⟨node, rest, hnode, hfile, rfl⟩, hkept, rfl⟩

/-- What is at the end of a way through directories, and on it. -/
theorem FileTree.find_file (t : FileTree) {node : OsNode} {path rest : OsPath}
    (hnode : t.find path = some node) (hfile : node.fileAt rest = some (mtime, content)) :
    (∃ readable, t.find (path ++ rest) = some (.file readable mtime content)) ∧
      ∀ r, r <+: rest → t.find (path ++ r) ≠ some .symlink := by
  induction node generalizing path rest with
  | dir readable names child ih =>
      cases rest with
      | nil => cases hfile
      | cons name rest =>
          rw [OsNode.fileAt] at hfile
          split_ifs at hfile with hname
          have hchild := t.find_child path readable names child hnode name hname
          obtain ⟨hend, hway⟩ := ih name hchild hfile
          rw [List.append_assoc] at hend
          refine ⟨hend, fun r hr => ?_⟩
          cases r with
          | nil =>
              rw [List.append_nil, hnode]
              nofun
          | cons name' r =>
              obtain ⟨rfl, hrest⟩ := List.cons_prefix_cons.mp hr
              have hstep := hway r hrest
              rwa [List.append_assoc] at hstep
  | file readable mtime content =>
      cases rest with
      | nil =>
          cases hfile
          rw [List.append_nil]
          refine ⟨⟨readable, hnode⟩, fun r hr => ?_⟩
          rw [List.prefix_nil.mp hr, List.append_nil, hnode]
          nofun
      | cons name rest => cases hfile
  | symlink | special => cases hfile

/-- A covered file has one content. -/
theorem CoversFile.unique {mtime' : ℤ} {content' : Bytes}
    (h : CoversFile g t patterns q mtime content)
    (h' : CoversFile g t patterns' q mtime' content') :
    mtime = mtime' ∧ content = content' := by
  obtain ⟨path, node, rest, -, hnode, hfile, rfl⟩ := h
  obtain ⟨path', node', rest', -, hnode', hfile', heq⟩ := h'
  obtain ⟨⟨readable, hfind⟩, -⟩ := t.find_file hnode hfile
  obtain ⟨⟨readable', hfind'⟩, -⟩ := t.find_file hnode' hfile'
  rw [heq, hfind'] at hfind
  cases hfind
  exact ⟨rfl, rfl⟩

/-- Different covered files that are not left out have different `rel_path`s. -/
def Legible (g : Globbing) (excludes : List String) (anchor : OsPath) (t : FileTree)
    (patterns : List String) : Prop :=
  ∀ q q' mtime mtime' content content', CoversFile g t patterns q mtime content →
    CoversFile g t patterns q' mtime' content' →
    leftOut g excludes (osRelPath q anchor) = false →
    osRelPath q anchor = osRelPath q' anchor → q = q'

/-- **What is collected**: the covered files that are not left out. -/
theorem mem_collected (legible : Legible g excludes anchor t patterns)
    (h : patterns.foldlM (collectPattern g excludes anchor t) .empty = .ok out) {f : SaveFile} :
    f ∈ out.files ↔ Listing g excludes anchor (CoversFile g t patterns) f := by
  obtain ⟨inserted, rfl, hinserted⟩ := inserts_of_collect h
  rw [mem_foldl_insert, ← hinserted]
  · exact or_iff_left List.not_mem_nil
  · rintro a ha b (hb | hb) hsame
    · obtain ⟨q, mtime, content, hcovers, hkept, rfl⟩ := (hinserted a).mp ha
      obtain ⟨q', mtime', content', hcovers', -, rfl⟩ := (hinserted b).mp hb
      obtain rfl := legible q q' _ _ _ _ hcovers hcovers' hkept hsame
      obtain ⟨rfl, rfl⟩ := hcovers.unique hcovers'
      rfl
    · exact absurd hb List.not_mem_nil

/-- A build that succeeds has gone through every pattern, and lists the files it collected. -/
theorem buildSnapshot_ok [Blake3] {gameId : GameId} {now : Timestamp} {s : Snapshot}
    (h : buildSnapshot g excludes anchor t gameId patterns now = .ok s) :
    ∃ saves, patterns.foldlM (collectPattern g excludes anchor t) .empty = .ok saves ∧
      s.files = saves.files.map SaveFile.entry := by
  unfold buildSnapshot at h
  split at h
  · rename_i saves hsaves
    obtain rfl := Except.ok.inj h
    exact ⟨saves, hsaves, rfl⟩
  · cases h

theorem CoversFile.congr (same : ∀ q, (∃ mtime content, CoversFile g t patterns q mtime content) ↔
      ∃ mtime content, CoversFile g t patterns' q mtime content)
    (h : CoversFile g t patterns q mtime content) : CoversFile g t patterns' q mtime content := by
  obtain ⟨mtime', content', h'⟩ := (same q).mp ⟨mtime, content, h⟩
  obtain ⟨rfl, rfl⟩ := h.unique h'
  exact h'

/-! ### Names that are text -/

/-- A name that is text. -/
def IsText (name : OsName) : Prop :=
  ∃ text : String, text ≠ "" ∧ '/' ∉ text.toList ∧ name = text.toList.map .char

theorem lossy_text (text : String) : lossy (text.toList.map .char) = text := by
  rw [lossy, List.map_map]
  exact (congrArg String.ofList (List.map_id _)).trans String.ofList_toList

/-- Components that are text, as their texts. -/
theorem exists_texts {rest : OsPath} (h : ∀ name ∈ rest, IsText name) :
    ∃ texts : List String, rest.map lossy = texts ∧
      rest = texts.map (fun text => text.toList.map .char) ∧
      ∀ text ∈ texts, text ≠ "" ∧ '/' ∉ text.toList := by
  refine ⟨rest.map lossy, rfl, ?_, ?_⟩
  · rw [List.map_map]
    refine ((List.map_congr_left fun name hname => ?_).trans (List.map_id rest)).symm
    obtain ⟨text, -, -, rfl⟩ := h name hname
    show (lossy (text.toList.map .char)).toList.map OsUnit.char = text.toList.map .char
    rw [lossy_text]
  · intro text htext
    obtain ⟨name, hname, rfl⟩ := List.mem_map.mp htext
    obtain ⟨text, hne, hslash, rfl⟩ := h name hname
    rw [lossy_text]
    exact ⟨hne, hslash⟩

/-- Joined names are not empty. -/
theorem joined_ne_empty {texts : List String} (hne : texts ≠ [])
    (h : ∀ text ∈ texts, text ≠ "") : "/".intercalate texts ≠ "" := by
  intro heq
  cases texts with
  | nil => exact hne rfl
  | cons text texts =>
      obtain ⟨more, hmore, -⟩ := intercalate_atSep .unix text texts
      have hnil := congrArg String.toList heq
      rw [String.toList_intercalate, show "/".toList = ['/'] from rfl, hmore] at hnil
      exact h text List.mem_cons_self
        (String.toList_eq_nil_iff.mp (List.append_eq_nil_iff.mp hnil).1)

/-- **Names that are text** are read back from the `rel_path`. -/
theorem osRelPath_inj {rest rest' : OsPath} (h : ∀ name ∈ rest, IsText name)
    (h' : ∀ name ∈ rest', IsText name)
    (heq : osRelPath (anchor ++ rest) anchor = osRelPath (anchor ++ rest') anchor) :
    rest = rest' := by
  have hjoined : ∀ rest : OsPath,
      osRelPath (anchor ++ rest) anchor = "/".intercalate (rest.map lossy) := by
    intro rest
    rw [osRelPath, if_pos (List.prefix_append anchor rest), List.drop_left]
  obtain ⟨texts, hlossy, hrest, htexts⟩ := exists_texts h
  obtain ⟨texts', hlossy', hrest', htexts'⟩ := exists_texts h'
  rw [hjoined, hjoined, hlossy, hlossy'] at heq
  rw [hrest, hrest']
  refine congrArg _ ?_
  by_cases hnil : texts = [] <;> by_cases hnil' : texts' = []
  · rw [hnil, hnil']
  · rw [hnil] at heq
    exact absurd heq.symm (joined_ne_empty hnil' fun text ht => (htexts' text ht).1)
  · rw [hnil'] at heq
    exact absurd heq (joined_ne_empty hnil fun text ht => (htexts text ht).1)
  · exact joined_injective (fun text ht => (htexts text ht).2)
      (fun text ht => (htexts' text ht).2) hnil hnil' heq

theorem legible_of_text (h : ∀ q mtime content, CoversFile g t patterns q mtime content →
    ∃ rest, q = anchor ++ rest ∧ ∀ name ∈ rest, IsText name) :
    Legible g excludes anchor t patterns := by
  intro q q' mtime mtime' content content' hq hq' _ heq
  obtain ⟨rest, rfl, htext⟩ := h q mtime content hq
  obtain ⟨rest', rfl, htext'⟩ := h q' mtime' content' hq'
  rw [osRelPath_inj htext htext' heq]

end Spec

/-- **A snapshot depends only on the files its patterns cover**, where these have different
`rel_path`s.  Patterns that cover the same files give the same list: strictly increasing by
`rel_path`, with one entry for each covered file that is not left out, its own size, time and
hash in it, and nothing else; and what is listed is reached from a match without passing a
link. -/
theorem snapshot_of_covered [Blake3] {g : Globbing} {excludes : List String} {anchor : OsPath}
    {t : FileTree} {patterns patterns' : List String} {gameId gameId' : GameId}
    {now now' : Timestamp} {s s' : Snapshot} (legible : Legible g excludes anchor t patterns)
    (same : ∀ q, (∃ mtime content, CoversFile g t patterns q mtime content) ↔
      ∃ mtime content, CoversFile g t patterns' q mtime content)
    (hs : buildSnapshot g excludes anchor t gameId patterns now = .ok s)
    (hs' : buildSnapshot g excludes anchor t gameId' patterns' now' = .ok s') :
    s.files = s'.files ∧
    (s.files.map FileEntry.relPath).Pairwise (· < ·) ∧
    (∀ e, e ∈ s.files ↔ ∃ q mtime content, CoversFile g t patterns q mtime content ∧
      leftOut g excludes (osRelPath q anchor) = false ∧
      e = ⟨osRelPath q anchor, content.length, mtime, Blake3.ofBytes content⟩) ∧
    (∀ q mtime content, CoversFile g t patterns q mtime content →
      leftOut g excludes (osRelPath q anchor) = false →
      (s.files.map FileEntry.relPath).count (osRelPath q anchor) = 1) ∧
    ∀ e ∈ s.files, ∃ path rest readable content, g.Matches patterns path ∧
      e.relPath = osRelPath (path ++ rest) anchor ∧
      t.find (path ++ rest) = some (.file readable e.mtime content) ∧
      ∀ r, r <+: rest → t.find (path ++ r) ≠ some .symlink := by
  obtain ⟨saves, hsaves, hfiles⟩ := buildSnapshot_ok hs
  obtain ⟨saves', hsaves', hfiles'⟩ := buildSnapshot_ok hs'
  have hsame : ∀ {q mtime content}, CoversFile g t patterns q mtime content ↔
      CoversFile g t patterns' q mtime content :=
    ⟨CoversFile.congr same, CoversFile.congr fun q => (same q).symm⟩
  have legible' : Legible g excludes anchor t patterns' := fun q q' _ _ _ _ hq hq' =>
    legible q q' _ _ _ _ (hsame.mpr hq) (hsame.mpr hq')
  have hmem : ∀ f, f ∈ saves.files ↔ Listing g excludes anchor (CoversFile g t patterns) f :=
    fun f => mem_collected legible hsaves
  have hentries : ∀ e, e ∈ s.files ↔ ∃ q mtime content,
      CoversFile g t patterns q mtime content ∧
      leftOut g excludes (osRelPath q anchor) = false ∧
      e = ⟨osRelPath q anchor, content.length, mtime, Blake3.ofBytes content⟩ := by
    intro e
    rw [hfiles, List.mem_map]
    constructor
    · rintro ⟨f, hf, rfl⟩
      obtain ⟨q, mtime, content, hcovers, hkept, rfl⟩ := (hmem f).mp hf
      exact ⟨q, mtime, content, hcovers, hkept, rfl⟩
    · rintro ⟨q, mtime, content, hcovers, hkept, rfl⟩
      exact ⟨_, (hmem _).mpr ⟨q, mtime, content, hcovers, hkept, rfl⟩, rfl⟩
  have hsorted : (s.files.map FileEntry.relPath).Pairwise (· < ·) := by
    rw [hfiles, List.map_map]
    exact saves.sorted
  refine ⟨?_, hsorted, hentries, fun q mtime content hcovers hkept => ?_, fun e he => ?_⟩
  · rw [hfiles, hfiles']
    refine congrArg _ (SaveSet.ext_files fun f => ?_)
    rw [hmem, mem_collected legible' hsaves']
    simp only [Listing, hsame]
  · refine List.count_eq_one_of_mem (hsorted.imp fun h => ?_) ?_
    · rintro rfl
      exact String.lt_irrefl _ h
    · exact List.mem_map_of_mem ((hentries _).mpr ⟨q, mtime, content, hcovers, hkept, rfl⟩)
  · obtain ⟨q, mtime, content, ⟨path, node, rest, hmatches, hnode, hfile, rfl⟩, -, rfl⟩ :=
      (hentries e).mp he
    obtain ⟨⟨readable, hend⟩, hway⟩ := t.find_file hnode hfile
    exact ⟨path, rest, readable, content, hmatches, rfl, hend, hway⟩

section Example

local instance walkDigest : Blake3 := plainDigest

/-- A name that is valid UTF-8. -/
def plainName (text : String) : OsName := text.toList.map .char

/-- The name `d` and one byte that is no character. -/
def brokenName (byte : ℕ) : OsName := [.char 'd', .invalid byte]

/-- A directory of saves with two profiles whose names differ in this byte, and one save in
each. -/
def brokenNames : FileTree :=
  .ofRoot (.dir true [plainName "saves"] fun _ =>
    .dir true [brokenName 128, brokenName 129] fun profile =>
      .dir true [plainName "f"] fun _ =>
        .file true 5 (if profile = brokenName 128 then [1] else [2]))

/-- A directory of saves, with a link in it. -/
def savesTree : FileTree :=
  .ofRoot (.dir true [plainName "b.sav", plainName "link", plainName "a.sav"] fun name =>
    if name = plainName "link" then .symlink
    else if name = plainName "a.sav" then .file true 7 [1]
    else .file true 8 [2, 3])

/-- Patterns that are listed with what they match. -/
def listedGlob (matched : List (String × List OsPath)) : Globbing where
  glob pattern := .ok ((matched.lookup pattern).getD [])
  pattern _ := none

/-- The pattern matches the directory of saves, whose name is text; the walk meets the others. -/
theorem broken_names_collide : ¬∀ (g : Globbing) (t : FileTree) (patterns patterns' : List String)
    (s s' : Snapshot),
    (∀ q, (∃ mtime content, CoversFile g t patterns q mtime content) ↔
      ∃ mtime content, CoversFile g t patterns' q mtime content) →
    buildSnapshot g [] [] t 1 patterns 9 = .ok s →
    buildSnapshot g [] [] t 1 patterns' 9 = .ok s' →
    s.files = s'.files ∧ ∀ q mtime content, CoversFile g t patterns q mtime content →
      ⟨osRelPath q [], content.length, mtime, Blake3.ofBytes content⟩ ∈ s.files := by
  intro h
  let g := listedGlob [("saves", [[plainName "saves"]])]
  let s : Snapshot := ⟨1, [⟨"saves/d\uFFFD/f", 1, 5, plainDigest.ofBytes [2]⟩], 9⟩
  have hs : buildSnapshot g [] [] brokenNames 1 ["saves"] 9 = .ok s := by decide +kernel
  have hcovers : CoversFile g brokenNames ["saves"]
      [plainName "saves", brokenName 128, plainName "f"] 5 [1] :=
    ⟨[plainName "saves"], _, [brokenName 128, plainName "f"],
      ⟨"saves", List.mem_singleton_self _, _, rfl, List.mem_singleton_self _⟩, rfl, rfl, rfl⟩
  have hlisted := (h g brokenNames ["saves"] ["saves"] s s (fun _ => Iff.rfl) hs hs).2 _ _ _ hcovers
  exact absurd hlisted (by decide +kernel)

/-- A directory is matched by one pattern, and everything in it by another. -/
def overlapping : Globbing :=
  listedGlob [("saves", [[]]),
    ("saves/*", [[plainName "a.sav"], [plainName "b.sav"], [plainName "link"]])]

/-- The files of the example. -/
theorem files_of_savesTree {q : OsPath} {readable : Bool} {mtime : ℤ} {content : Bytes}
    (h : savesTree.find q = some (.file readable mtime content)) :
    q = [plainName "b.sav"] ∨ q = [plainName "a.sav"] := by
  match q, h with
  | [], h => cases h
  | [name], h =>
      have hname : name = plainName "b.sav" ∨ name = plainName "link" ∨
          name = plainName "a.sav" := by
        by_contra hother
        have hnone : savesTree.find [name] = none := if_neg (by simpa using hother)
        cases hnone.symm.trans h
      rcases hname with rfl | rfl | rfl
      · exact .inl rfl
      · cases h
      · exact .inr rfl
  | name :: next :: rest, h =>
      have hnone : savesTree.find (name :: next :: rest) = none := by
        show (if _ then OsNode.walk (if _ then _ else if _ then _ else _) (next :: rest)
          else none) = _
        split_ifs <;> rfl
      cases hnone.symm.trans h

/-- What the patterns of the example cover. -/
theorem covers_savesTree {patterns : List String} (h : "saves/*" ∈ patterns) (q : OsPath) :
    (∃ mtime content, CoversFile overlapping savesTree patterns q mtime content) ↔
      q = [plainName "b.sav"] ∨ q = [plainName "a.sav"] := by
  constructor
  · rintro ⟨mtime, content, path, node, rest, -, hnode, hfile, rfl⟩
    obtain ⟨⟨readable, hend⟩, -⟩ := savesTree.find_file hnode hfile
    exact files_of_savesTree hend
  · rintro (rfl | rfl)
    · exact ⟨8, [2, 3], [plainName "b.sav"], .file true 8 [2, 3], [],
        ⟨"saves/*", h, _, rfl, by decide⟩, rfl, rfl, rfl⟩
    · exact ⟨7, [1], [plainName "a.sav"], .file true 7 [1], [],
        ⟨"saves/*", h, _, rfl, by decide⟩, rfl, rfl, rfl⟩

/-- Patterns that overlap find each file once. -/
theorem overlapping_patterns_agree : ∃ s s',
    buildSnapshot overlapping [] [] savesTree 1 ["saves/*", "saves"] 9 = .ok s ∧
    buildSnapshot overlapping [] [] savesTree 1 ["saves/*"] 10 = .ok s' ∧
    s.files = s'.files ∧ s.files.map FileEntry.relPath = ["a.sav", "b.sav"] := by
  let files : List FileEntry := [⟨"a.sav", 1, 7, plainDigest.ofBytes [1]⟩,
    ⟨"b.sav", 2, 8, plainDigest.ofBytes [2, 3]⟩]
  have hs : buildSnapshot overlapping [] [] savesTree 1 ["saves/*", "saves"] 9 =
      .ok ⟨1, files, 9⟩ := by decide +kernel
  have hs' : buildSnapshot overlapping [] [] savesTree 1 ["saves/*"] 10 =
      .ok ⟨1, files, 10⟩ := by decide +kernel
  have legible : Legible overlapping [] [] savesTree ["saves/*", "saves"] := by
    refine legible_of_text fun q mtime content hcovers => ⟨q, rfl, ?_⟩
    rcases (covers_savesTree (by decide) q).mp ⟨mtime, content, hcovers⟩ with rfl | rfl <;>
      rintro name hname <;> obtain rfl := List.mem_singleton.mp hname
    · exact ⟨"b.sav", by decide, by decide, rfl⟩
    · exact ⟨"a.sav", by decide, by decide, rfl⟩
  have same := fun q => (covers_savesTree (by decide : "saves/*" ∈ ["saves/*", "saves"]) q).trans
    (covers_savesTree (by decide : "saves/*" ∈ ["saves/*"]) q).symm
  exact ⟨_, _, hs, hs', (snapshot_of_covered legible same hs hs').1, rfl⟩

end Example

end Savr
