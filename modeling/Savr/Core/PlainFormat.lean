import Savr.Core.Archive
import Savr.Core.PlainDigest

/-!
# A container format that is easy to compute

`tableFormat` numbers the archives and metadata that a concrete run uses, and writes
everything else out in full.  It is lossless, and the numbered ones can be read back by
evaluation.
-/

namespace Savr

open PrefixCode

section Table

universe u

variable {α : Type u} [DecidableEq α] [Nonempty α] (code : Code α) (table : List α)

/-- Numbers, each written as so many ones before a zero. -/
def unary (ns : List ℕ) : Bytes := ns.flatMap fun n => List.replicate n 1 ++ [0]

/-- The numbers are told apart by the zeros behind them. -/
theorem unary_injective : Function.Injective unary := by
  intro ms
  induction ms with
  | nil =>
      intro ns h
      cases ns with
      | nil => rfl
      | cons n ns => exact absurd h (by simp [unary])
  | cons m ms ih =>
      intro ns h
      cases ns with
      | nil => exact absurd h (by simp [unary])
      | cons n ns =>
          have hsplit : List.replicate m (1 : UInt8) ++ 0 :: unary ms
              = List.replicate n 1 ++ 0 :: unary ns := by simpa [unary] using h
          have hcount : ∀ (k : ℕ) (rest : Bytes),
              ((List.replicate k (1 : UInt8) ++ 0 :: rest).takeWhile (· = 1)).length = k := by
            intro k rest
            rw [List.takeWhile_append_of_pos (by simp), List.length_append, List.length_replicate]
            simp
          obtain rfl : m = n := by
            rw [← hcount m (unary ms), hsplit, hcount]
          rw [List.append_cancel_left_eq, List.cons.injEq] at hsplit
          rw [ih hsplit.2]

/-- The number of a listed value, or its code. -/
def writeTable (a : α) : Bytes :=
  match table.findIdx? (· = a) with
  | some i => 1 :: List.replicate i 1
  | none => 0 :: unary (code.encode a)

/-- Read off what `writeTable` wrote. -/
noncomputable def readTable : Bytes → Option α
  | 1 :: rest => table[rest.length]?
  | 0 :: rest => some (Function.invFun (fun a => unary (code.encode a)) rest)
  | _ => none

/-- What is written is read back, from the table or by its code. -/
theorem readTable_writeTable (a : α) : readTable code table (writeTable code table a) = some a := by
  rw [writeTable]
  cases hidx : table.findIdx? (· = a) with
  | none =>
      refine congrArg some (Function.leftInverse_invFun (fun b c h => ?_) a)
      exact code.injective (unary_injective h)
  | some i =>
      obtain ⟨hlt, heq, -⟩ := List.findIdx?_eq_some_iff_getElem.mp hidx
      change table[(List.replicate i (1 : UInt8)).length]? = some a
      rw [List.length_replicate, List.getElem?_eq_getElem hlt]
      exact congrArg some (of_decide_eq_true heq)

end Table

instance : Nonempty ArchiveMeta := ⟨⟨0, 0, none, .full, [], [], 0⟩⟩

/-- The format with these archives and metadata numbered: what is in a table is written as
its number, the rest by its code. It satisfies the laws and keeps the bytes of an example
short. -/
noncomputable def tableFormat (archives : List (List (String × Bytes)))
    (metadata : List ArchiveMeta) : SavrFormat where
  write := writeTable (list (pair string (list byte))) archives
  read bytes :=
    match readTable (list (pair string (list byte))) archives bytes with
    | some entries => (entries.map fun e => ⟨e.1, e.2, false⟩, false)
    | none => ([], true)
  accepts style name := (components style name).all fun c => c.isNormal || c = .curDir
  toJson := writeTable archiveMetaCode metadata
  fromJson := readTable archiveMetaCode metadata
  read_write entries := by
    rw [readTable_writeTable]
  accepts_normal style name _ hnormal := by
    rw [List.all_eq_true]
    intro c hc
    rw [hnormal c hc, Bool.true_or]
  refuses style name _ hrefused := by
    obtain ⟨c, hc, hnormal, hdot⟩ := hrefused
    rw [List.all_eq_false]
    exact ⟨c, hc, by simp [hnormal, hdot]⟩
  fromJson_toJson metadata := readTable_writeTable _ _ metadata

/-! ## A round trip -/

section Example

/-- A system that tells all names apart. -/
def linux : Platform where
  style := .unix
  fold := id

/-- A file system that does not tell upper and lower case apart. -/
def lowerCased : Platform where
  style := .unix
  fold name := String.ofList (name.toList.map Char.toLower)

/-- A directory of the example. -/
def exampleDir (names : List String) : PathBuf := .rootDir :: names.map .normal

/-- Files of these contents, in the directories they need. -/
def exampleTree (files : List (List String × Bytes)) : Tree :=
  files.foldl (fun t f =>
    let dirs := (prefixes (exampleDir f.1).dropLast).foldl (fun t p => t.put linux p .dir) t
    dirs.put linux (exampleDir f.1) (.file f.2)) ∅

/-- A file system with these files that refuses nothing. -/
def exampleFs (files : List (List String × Bytes)) : Fs where
  tree := exampleTree files
  touched := []
  fates := []
  locked := fun _ => false

/-- Two save files that are named like the entries of the container. -/
def namesakes : Fs := exampleFs [(["src", "meta.json"], [1]), (["src", "x"], [2])]

/-- The files of `namesakes`, under names that the container uses for itself. -/
def namesakePayload : List (String × PathBuf) :=
  [("meta.json", exampleDir ["src", "meta.json"]), ("files/registry.json", exampleDir ["src", "x"])]

theorem mem_keys_of_nodeAt {t : Tree} {k : PathBuf} {node : Node} (h : t.nodeAt k = some node) :
    k ∈ t.keys := by
  obtain ⟨entry, hentry, -⟩ := Option.map_eq_some_iff.mp h
  exact AList.mem_keys.mp (AList.lookup_isSome.mp (Option.isSome_iff_exists.mpr ⟨entry, hentry⟩))

/-- How a destination of a closed example is checked. -/
theorem emptyDir_of_keys {t : Tree} {dir : PathBuf}
    (hbelow : ∀ k ∈ t.keys, dir <+: k → k = dir)
    (habove : ∀ k ∈ t.keys, k <+: dir → t.nodeAt k = some .dir) : EmptyDir t.nodeAt dir := by
  constructor
  · intro k hk hne
    cases hnode : t.nodeAt k with
    | none => rfl
    | some node => exact absurd (hbelow k (mem_keys_of_nodeAt hnode) hk) hne
  · intro k _ hk c hnode
    rw [habove k (mem_keys_of_nodeAt hnode) hk] at hnode
    cases hnode

/-- Files that are named like the entries of the container come back as files. -/
theorem unpack_pack_namesakes :
    ∃ s', (do
        let bytes ← pack (tableFormat [] []) linux ⟨10, 21, none, .full, [], [], 0⟩
          namesakePayload (some [7])
        unpack (tableFormat [] []) linux bytes (exampleDir ["dst"])) namesakes
          = (.ok ⟨⟨10, 21, none, .full, [], [], 0⟩, some [7]⟩, s') ∧
      s'.files (exampleDir ["dst", "meta.json"]) = some [1] ∧
      s'.files (exampleDir ["dst", "files", "registry.json"]) = some [2] ∧
      s'.files (exampleDir ["dst", "registry.json"]) = none := by
  have hnames : ∀ f ∈ namesakePayload, RelName linux.style f.1 := by
    intro f hf
    rcases List.mem_cons.mp hf with rfl | hf
    · exact ⟨["meta.json"], by decide, by simp [← isFileName_iff]; decide, by decide⟩
    · obtain rfl := List.mem_singleton.mp hf
      exact ⟨["files", "registry.json"], by decide, by simp [← isFileName_iff]; decide, by decide⟩
  obtain ⟨s', hrun, hfiles, -, -⟩ := unpack_pack (exampleDir ["dst"]) namesakePayload
    (fun rel => if rel = "meta.json" then [1] else [2]) ⟨10, 21, none, .full, [], [], 0⟩ (some [7])
    (s := namesakes) rfl (by decide) hnames (by decide)
    (emptyDir_of_keys (by decide) (by decide))
  refine ⟨s', hrun, ?_, ?_, ?_⟩
  · exact (hfiles _ _ (by decide) (by decide)).mpr (by decide)
  · exact (hfiles _ _ (by decide) (by decide)).mpr (by decide)
  · cases hnone : s'.files (exampleDir ["dst", "registry.json"]) with
    | none => rfl
    | some c =>
        obtain ⟨f, hf, hkey, -⟩ := (hfiles _ c (by decide) (by decide)).mp hnone
        have hother : ∀ f ∈ namesakePayload, exampleDir ["dst", "registry.json"]
            ≠ linux.key (push linux.style (exampleDir ["dst"]) f.1) := by decide
        exact absurd hkey (hother f hf)

/-- Two saves whose names differ in case. -/
def twoCases : Fs := exampleFs [(["src", "x"], [1]), (["src", "y"], [2])]

/-- Two files whose names differ in case only. -/
def twoCasesPayload : List (String × PathBuf) :=
  [("A", exampleDir ["src", "x"]), ("a", exampleDir ["src", "y"])]

/-- Where the file system files `A` and `a` as one, paths that are distinct as text do not come
back as two files. -/
theorem folded_names_overwrite : ¬∀ (fmt : SavrFormat) (pf : Platform) (dest : PathBuf)
    (payload : List (String × PathBuf)) (contents : String → Bytes) (metadata : ArchiveMeta)
    (registry : Option Bytes) (s : Fs), s.fates = [] →
    (∀ f ∈ payload, s.files (pf.key f.2) = some (contents f.1)) →
    (∀ f ∈ payload, RelName pf.style f.1) →
    (payload.Pairwise fun f g =>
      Apart (components pf.style f.1) (components pf.style g.1)) →
    EmptyDir s.tree.nodeAt (pf.key dest) →
    ∃ s', (do
        let bytes ← pack fmt pf metadata payload registry
        unpack fmt pf bytes dest) s = (.ok ⟨metadata, registry⟩, s') ∧
      ∀ f ∈ payload, s'.files (pf.key (push pf.style dest f.1)) = some (contents f.1) := by
  intro h
  have hnames : ∀ f ∈ twoCasesPayload, RelName lowerCased.style f.1 := by
    intro f hf
    rcases List.mem_cons.mp hf with rfl | hf
    · exact ⟨["A"], by decide, by simp [← isFileName_iff]; decide, by decide⟩
    · obtain rfl := List.mem_singleton.mp hf
      exact ⟨["a"], by decide, by simp [← isFileName_iff]; decide, by decide⟩
  obtain ⟨s', -, hfiles⟩ := h (tableFormat [] []) lowerCased (exampleDir ["dst"]) twoCasesPayload
    (fun rel => if rel = "A" then [1] else [2]) ⟨10, 21, none, .full, [], [], 0⟩ none twoCases rfl
    (by decide) hnames (by decide) (emptyDir_of_keys (by decide) (by decide))
  -- both names have the key of `a`
  have hupper := hfiles ("A", exampleDir ["src", "x"]) (by decide)
  have hlower := hfiles ("a", exampleDir ["src", "y"]) (by decide)
  exact absurd (hupper.symm.trans hlower) (by decide)

end Example

end Savr
