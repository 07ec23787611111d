import Savr.Core.FileSystem

/-!
# The `.savr` archive

`savr-core/src/archive.rs`: a zstd-compressed tar with `meta.json`, the files of the payload
under `files/`, and optionally `registry.json`.

## Main results

* `unpackEntry_payload` — a payload file ends up under the destination, whatever its name.
* `unpack_pack` — unpacking what was packed gives the payload back, and nothing else.
* `pack_names` — the tar refuses a payload whose name leads out of the archive.

## Design notes

zstd, tar and `serde_json` are third-party code: `SavrFormat` is what they do, with their
losslessness as its laws.  The tar refuses an entry whose name has a `..` or is not relative; it
only sees the first bytes of a name that is too long for the header.  A stream that was not
written by them may break anywhere; what can be read of it up to that point is what `read`
returns.
-/

namespace Savr

open Hoare

/-- An entry of a tar stream. -/
structure TarEntry where
  name : String
  data : Bytes
  /-- The stream ends or is damaged after this much of the data. -/
  broken : Bool
  deriving DecidableEq, Repr

/-- The container formats of an archive: zstd around tar, and JSON for the metadata. Its laws
are that both give back what they are given, and which names `tar` takes. -/
structure SavrFormat where
  /-- `tar::Builder` over `zstd::Encoder`. -/
  write : List (String × Bytes) → Bytes
  /-- `tar::Archive` over `zstd::Decoder`: the entries, and whether the stream is damaged
  behind them. -/
  read : Bytes → List TarEntry × Bool
  /-- `tar::Builder::append_data` takes this as the name of an entry. -/
  accepts : PathStyle → String → Bool
  toJson : ArchiveMeta → Bytes
  fromJson : Bytes → Option ArchiveMeta
  read_write : ∀ entries, read (write entries) = (entries.map fun e => ⟨e.1, e.2, false⟩, false)
  accepts_normal : ∀ style name, components style name ≠ [] →
    (∀ c ∈ components style name, c.isNormal) → accepts style name = true
  /-- Names that go into the header as a whole are relative and have no `..`. -/
  refuses : ∀ style name, name.utf8ByteSize < 100 →
    (∃ c ∈ components style name, ¬ c.isNormal ∧ c ≠ .curDir) → accepts style name = false
  fromJson_toJson : ∀ metadata, fromJson (toJson metadata) = some metadata

/-- `META_PATH`. -/
def metaPath : String := "meta.json"
/-- `REGISTRY_PATH`. -/
def registryPath : String := "registry.json"
/-- `FILES_PREFIX`. -/
def filesPrefix : String := "files/"

variable (fmt : SavrFormat) (pf : Platform)

/-! ## Packing -/

/-- What `pack` appends to the tar, in this order. -/
def packEntries (metadata : ArchiveMeta) (payload : List (String × Bytes))
    (registry : Option Bytes) : List (String × Bytes) :=
  (metaPath, fmt.toJson metadata) :: (registry.map fun bytes => (registryPath, bytes)).toList ++
    payload.map fun f => (filesPrefix ++ f.1, f.2)

/-- The bytes of an archive. -/
def Archive.bytes (a : Archive) : Bytes :=
  fmt.write (packEntries fmt a.metadata a.payload a.registry)

/-- Open and read the source of each payload file; its name has to suit the tar. The first
file that cannot be read ends the pack, with nothing written. -/
def readPayload : List (String × PathBuf) → Io (List (String × Bytes))
  | [] => pure []
  | f :: payload => do
      let content ← readFile pf f.2
      if fmt.accepts pf.style (filesPrefix ++ f.1) then
        let rest ← readPayload payload
        pure ((f.1, content) :: rest)
      else Prog.throw .refused

/-- Pack the payload under `files/`, behind the metadata and the registry dump. -/
def pack (metadata : ArchiveMeta) (payload : List (String × PathBuf)) (registry : Option Bytes) :
    Io Bytes := do
  let payload ← readPayload fmt pf payload
  pure (fmt.write (packEntries fmt metadata payload registry))

/-! ## Unpacking -/

/-- What `unpack` returns besides the files that it extracts. -/
structure Unpacked where
  metadata : ArchiveMeta
  registry : Option Bytes
  deriving DecidableEq, Repr

/-- `name.strip_prefix(FILES_PREFIX)`. -/
def stripFiles (name : String) : Option String :=
  if filesPrefix.toList <+: name.toList then
    some (String.ofList (name.toList.drop filesPrefix.length))
  else none

/-- A file cannot be created at a path whose text ends in a separator or in `.`. -/
def namesFile (style : PathStyle) (rel : String) : Bool :=
  let last := rel.toList.reverse.takeWhile fun c => !style.isSep c
  last ≠ [] && last ≠ ['.']

/-- Extract one payload file. Its name is checked before anything is created; a damaged entry
leaves a file with what could be read of it. -/
def unpackFile (dest : PathBuf) (rel : String) (entry : TarEntry) : Io PUnit := do
  if isSafeRelPath pf.style rel then
    let target := push pf.style dest rel
    match parent target with
    | some dir => createDirAll pf dir
    | none => pure ⟨⟩
    if namesFile pf.style rel then
      createFile pf target entry.data
      if entry.broken then Prog.throw .refused else pure ⟨⟩
    else Prog.throw .isADirectory
  else Prog.throw (.bail ("unsafe path in archive: " ++ entry.name))

/-- One entry of the stream: the metadata, the registry, or a file of the payload, told apart
by name and prefix. The last entry of a name counts. -/
def unpackEntry (dest : PathBuf) (acc : Option ArchiveMeta × Option Bytes) (entry : TarEntry) :
    Io (Option ArchiveMeta × Option Bytes) :=
  if entry.name = metaPath then
    if entry.broken then Prog.throw .refused
    else
      match fmt.fromJson entry.data with
      | some metadata => pure (some metadata, acc.2)
      | none => Prog.throw .json
  else if entry.name = registryPath then
    if entry.broken then Prog.throw .refused else pure (acc.1, some entry.data)
  else
    match stripFiles entry.name with
    | some rel => do
        unpackFile pf dest rel entry
        pure acc
    -- unknown entries are skipped
    | none => pure acc

/-- Read a stream entry by entry and extract its payload under `dest`. What is missing or
damaged is found at the end, after the payload has been written. -/
def unpack (input : Bytes) (dest : PathBuf) : Io Unpacked := do
  let stream := fmt.read input
  let acc ← stream.1.foldlM (unpackEntry fmt pf dest) (none, none)
  if stream.2 then Prog.throw .refused
  else
    match acc.1 with
    | some metadata => pure { metadata, registry := acc.2 }
    | none => Prog.throw (.bail "archive missing meta.json")

/-! ## The round trip -/

/-- A `rel_path` made of normal components. -/
def RelName (style : PathStyle) (rel : String) : Prop :=
  ∃ names, names ≠ [] ∧ (∀ name ∈ names, FileName style name) ∧ rel = "/".intercalate names

section Names

variable {style : PathStyle} {rel : String}

theorem components_relName (h : RelName style rel) :
    ∃ names, names ≠ [] ∧ (∀ name ∈ names, FileName style name) ∧
      components style rel = names.map .normal := by
  obtain ⟨names, hne, hnames, rfl⟩ := h
  exact ⟨names, hne, hnames, components_joined hnames⟩

theorem RelName.normal (h : RelName style rel) : ∀ c ∈ components style rel, c.isNormal := by
  obtain ⟨names, -, -, hread⟩ := components_relName h
  rw [hread]
  intro c hc
  obtain ⟨name, -, rfl⟩ := List.mem_map.mp hc
  rfl

theorem RelName.safe (h : RelName style rel) : isSafeRelPath style rel = true :=
  List.all_eq_true.mpr h.normal

/-- With the prefix of the payload in front, a `rel_path` still consists of names. -/
theorem RelName.files (h : RelName style rel) : RelName style (filesPrefix ++ rel) := by
  obtain ⟨names, hne, hnames, rfl⟩ := h
  have hfiles : FileName style "files" := isFileName_iff.mp (by cases style <;> decide)
  refine ⟨"files" :: names, List.cons_ne_nil _ _, ?_, ?_⟩
  · exact List.forall_mem_cons.mpr ⟨hfiles, hnames⟩
  · obtain ⟨name, names, rfl⟩ := List.exists_cons_of_ne_nil hne
    rw [String.intercalate_cons_cons]
    rfl

/-- The tar takes a payload with such a name. -/
theorem RelName.accepted (h : RelName style rel) :
    fmt.accepts style (filesPrefix ++ rel) = true := by
  obtain ⟨names, hne, -, hread⟩ := components_relName h.files
  refine fmt.accepts_normal style _ ?_ h.files.normal
  rw [hread]
  exact fun hnil => hne (List.map_eq_nil_iff.mp hnil)

theorem RelName.push_eq (h : RelName style rel) (dir : PathBuf) :
    push style dir rel = dir ++ components style rel :=
  push_of_normal h.normal

/-- The last component is a name. -/
theorem RelName.getLast_push (h : RelName style rel) (dir : PathBuf) :
    ∃ name, FileName style name ∧ (push style dir rel).getLast? = some (.normal name) := by
  obtain ⟨names, hne, hnames, hread⟩ := components_relName h
  refine ⟨names.getLast hne, hnames _ (List.getLast_mem hne), ?_⟩
  rw [h.push_eq, hread, List.getLast?_append, List.getLast?_map,
    List.getLast?_eq_some_getLast hne]
  rfl

theorem RelName.parent_push (h : RelName style rel) (dir : PathBuf) :
    parent (push style dir rel) = some (push style dir rel).dropLast := by
  obtain ⟨name, -, hlast⟩ := h.getLast_push dir
  rw [parent, hlast]

/-- A pushed `rel_path` lies properly below the directory. -/
theorem RelName.push_ne (h : RelName style rel) (dir : PathBuf) :
    push style dir rel ≠ dir ∧ dir <+: push style dir rel := by
  obtain ⟨names, hne, -, hread⟩ := components_relName h
  rw [h.push_eq, hread]
  refine ⟨?_, List.prefix_append _ _⟩
  intro heq
  have hnil : names.map Component.normal = [] := by
    rw [← List.append_cancel_left_eq dir, List.append_nil, heq]
  exact hne (List.map_eq_nil_iff.mp hnil)

/-- The text of joined names ends with the last one, behind a slash if there are more. -/
theorem intercalate_concat (names : List String) (last : String) :
    ∃ before : List Char, ("/".intercalate (names ++ [last])).toList = before ++ last.toList ∧
      (before = [] ∨ before.getLast? = some '/') := by
  induction names with
  | nil => exact ⟨[], by simp, .inl rfl⟩
  | cons name names ih =>
      obtain ⟨before, heq, hbefore⟩ := ih
      obtain ⟨next, more, hnext⟩ : ∃ next more, names ++ [last] = next :: more := by
        cases names with
        | nil => exact ⟨last, [], rfl⟩
        | cons next names => exact ⟨next, names ++ [last], rfl⟩
      refine ⟨name.toList ++ '/' :: before, ?_, .inr ?_⟩
      · rw [List.cons_append, hnext, String.intercalate_cons_cons, ← hnext,
          String.toList_append, String.toList_append, heq]
        simp
      · rcases hbefore with rfl | hlast
        · simp
        · rw [List.getLast?_append, List.getLast?_cons, hlast]
          rfl

/-- A name made of file names does not end like a directory. -/
theorem RelName.namesFile (h : RelName style rel) : namesFile style rel = true := by
  obtain ⟨names, hne, hnames, rfl⟩ := h
  obtain ⟨front, last, rfl⟩ := List.eq_nil_or_concat' names |>.resolve_left hne
  have hlast := hnames last (by simp)
  obtain ⟨before, heq, hbefore⟩ := intercalate_concat front last
  have hseg : (("/".intercalate (front ++ [last])).toList.reverse.takeWhile
      fun c => !style.isSep c) = last.toList.reverse := by
    rw [heq, List.reverse_append, List.takeWhile_append_of_pos fun c hc => by
      simp [hlast.noSep c (List.mem_reverse.mp hc)]]
    rcases hbefore with rfl | hsep
    · simp
    · have hhead : before.reverse.head? = some '/' := by rw [List.head?_reverse, hsep]
      cases hrev : before.reverse with
      | nil => simp
      | cons c rest =>
          rw [hrev] at hhead
          obtain rfl : c = '/' := by simpa using hhead
          rw [List.takeWhile_cons_of_neg (by simp [isSep_slash]), List.append_nil]
  have hempty : last.toList ≠ [] := toList_ne_nil hlast.ne_empty
  have hdot : last.toList ≠ ['.'] := fun hdot => hlast.ne_dot (String.toList_inj.mp hdot)
  rw [Savr.namesFile, hseg]
  simp [hempty, hdot]

end Names

section RoundTrip

variable {fmt} {pf} {dest : PathBuf} {nodes₀ nodes : PathBuf → Option Node}
  {touched : List PathBuf} {laid : List (PathBuf × Bytes)} {key : PathBuf} {content : Bytes}

/-- The nodes after these files were put under their keys, with the directories they need. -/
structure LaidOut (nodes₀ nodes : PathBuf → Option Node) (laid : List (PathBuf × Bytes)) :
    Prop where
  file : ∀ f ∈ laid, nodes f.1 = some (.file f.2)
  dir : ∀ f ∈ laid, ∀ k, k ≠ [] → k <+: f.1 → k ≠ f.1 → nodes k = some .dir
  rest : ∀ k, (k ≠ [] → ∀ f ∈ laid, ¬ k <+: f.1) → nodes k = nodes₀ k

/-- Nothing is below the directory, and no file is on the way to it. -/
structure EmptyDir (nodes : PathBuf → Option Node) (dir : PathBuf) : Prop where
  below : ∀ k, dir <+: k → k ≠ dir → nodes k = none
  above : ∀ k, k ≠ [] → k <+: dir → ∀ c, nodes k ≠ some (.file c)

/-- Neither key is at or below the other. -/
def Apart (k l : PathBuf) : Prop := ¬ k <+: l ∧ ¬ l <+: k

instance (k l : PathBuf) : Decidable (Apart k l) :=
  inferInstanceAs (Decidable (¬ k <+: l ∧ ¬ l <+: k))

/-- No file lies on the way to a key that is apart from all that is laid out. -/
theorem LaidOut.no_file_above (h : LaidOut nodes₀ nodes laid) (empty : EmptyDir nodes₀ dest)
    (hkey : dest <+: key) (apart : ∀ f ∈ laid, Apart f.1 key) {k : PathBuf} (hne : k ≠ [])
    (hk : k <+: key) (c : Bytes) : nodes k ≠ some (.file c) := by
  intro hfile
  by_cases habove : ∃ f ∈ laid, k <+: f.1
  · obtain ⟨f, hf, hkf⟩ := habove
    by_cases heq : k = f.1
    · exact (apart f hf).1 (heq ▸ hk)
    · rw [h.dir f hf k hne hkf heq] at hfile
      cases hfile
  · push Not at habove
    rw [h.rest k fun _ => habove] at hfile
    rcases List.prefix_or_prefix_of_prefix hk hkey with hdest | hdest
    · exact empty.above k hne hdest c hfile
    · by_cases heq : k = dest
      · exact empty.above k hne (heq ▸ List.prefix_refl _) c hfile
      · rw [empty.below k hdest heq] at hfile
        cases hfile

/-- The key itself is free. -/
theorem LaidOut.free (h : LaidOut nodes₀ nodes laid) (empty : EmptyDir nodes₀ dest)
    (hkey : dest <+: key) (hne : key ≠ dest) (apart : ∀ f ∈ laid, Apart f.1 key) :
    nodes key = none := by
  rw [h.rest key fun _ f hf => (apart f hf).2]
  exact empty.below key hkey hne

theorem not_prefix_dropLast {k : PathBuf} (hne : k ≠ []) : ¬ k <+: k.dropLast := by
  intro hbegins
  have hlen := hbegins.length_le
  rw [List.length_dropLast] at hlen
  have := List.length_pos_of_ne_nil hne
  omega

/-- A proper prefix is on the way to the parent. -/
theorem prefix_dropLast_of_ne {k l : PathBuf} (h : k <+: l) (hne : k ≠ l) :
    k <+: l.dropLast := by
  obtain ⟨rest, rfl⟩ := h
  cases rest using List.reverseRecOn with
  | nil => exact absurd (List.append_nil k).symm hne
  | append_singleton rest c =>
      rw [← List.append_assoc, List.dropLast_concat]
      exact List.prefix_append _ _

/-- One more file is laid out. -/
theorem LaidOut.snoc (h : LaidOut nodes₀ nodes laid) (hne : key ≠ [])
    (apart : ∀ f ∈ laid, Apart f.1 key) :
    LaidOut nodes₀ (Function.update (withDirs nodes key.dropLast) key (some (.file content)))
      (laid ++ [(key, content)]) := by
  have hother : ∀ k, k ≠ key → Function.update (withDirs nodes key.dropLast) key
      (some (.file content)) k = withDirs nodes key.dropLast k :=
    fun k hk => Function.update_of_ne hk _ _
  constructor
  · intro f hf
    rcases List.mem_append.mp hf with hf | hf
    · have hkey : f.1 ≠ key := fun heq => (apart f hf).1 (heq ▸ List.prefix_refl _)
      have hdirs : ¬ (f.1 ≠ [] ∧ f.1 <+: key.dropLast) := fun hpre =>
        (apart f hf).1 (hpre.2.trans (List.dropLast_prefix key))
      rw [hother _ hkey, withDirs, if_neg hdirs]
      exact h.file f hf
    · obtain rfl := List.mem_singleton.mp hf
      exact Function.update_self ..
  · intro f hf k hk hkf hkne
    rcases List.mem_append.mp hf with hf | hf
    · have hkey : k ≠ key := fun heq => (apart f hf).2 (heq ▸ hkf)
      rw [hother _ hkey, withDirs]
      split_ifs
      · rfl
      · exact h.dir f hf k hk hkf hkne
    · obtain rfl := List.mem_singleton.mp hf
      rw [hother _ hkne, withDirs, if_pos ⟨hk, prefix_dropLast_of_ne hkf hkne⟩]
  · intro k hk
    have hkey : k ≠ [] → ¬ k <+: key := fun hknil => hk hknil (key, content) (by simp)
    have hdirs : ¬ (k ≠ [] ∧ k <+: key.dropLast) := fun hpre =>
      hkey hpre.1 (hpre.2.trans (List.dropLast_prefix key))
    have hkne : k ≠ key := by
      rintro rfl
      exact hkey hne (List.prefix_refl _)
    rw [hother _ hkne, withDirs, if_neg hdirs]
    exact h.rest k fun hknil f hf => hk hknil f (List.mem_append_left _ hf)

theorem RelName.key_push_ne {rel : String} (hrel : RelName pf.style rel) (dest : PathBuf) :
    pf.key (push pf.style dest rel) ≠ [] := by
  obtain ⟨hne, hbegins⟩ := hrel.push_ne dest
  intro hnil
  rw [List.map_eq_nil_iff.mp hnil, List.prefix_nil] at hbegins
  exact hne ((List.map_eq_nil_iff.mp hnil).trans hbegins.symm)

/-- In the spelling of the file system too, a pushed `rel_path` lies properly below. -/
theorem RelName.key_push_below {rel : String} (hrel : RelName pf.style rel) (dest : PathBuf) :
    pf.key dest <+: pf.key (push pf.style dest rel) ∧
      pf.key (push pf.style dest rel) ≠ pf.key dest := by
  obtain ⟨hne, hbegins⟩ := hrel.push_ne dest
  refine ⟨hbegins.map _, ?_⟩
  intro heq
  have hlen := congrArg List.length heq
  rw [Platform.key, Platform.key, List.length_map, List.length_map] at hlen
  exact hne (hbegins.eq_of_length hlen.symm).symm

/-- A payload file is put under its key, with its directories. -/
theorem unpackFile_ok {rel : String} (hrel : RelName pf.style rel)
    (laidOut : LaidOut nodes₀ nodes laid) (empty : EmptyDir nodes₀ (pf.key dest))
    (apart : ∀ f ∈ laid, Apart f.1 (pf.key (push pf.style dest rel))) (name : String) :
    Triple (fun s => s.Is nodes touched) (unpackFile pf dest rel ⟨name, content, false⟩)
      (fun _ s => s.Is (Function.update
        (withDirs nodes (pf.key (push pf.style dest rel)).dropLast)
        (pf.key (push pf.style dest rel)) (some (.file content)))
        (push pf.style dest rel :: touched)) fun _ => False := by
  have hkeynil := hrel.key_push_ne dest
  have hnil : push pf.style dest rel ≠ [] := fun heq => hkeynil (by rw [heq]; rfl)
  obtain ⟨hkeybegins, hkeyne⟩ := hrel.key_push_below dest
  have hdrop : pf.key (push pf.style dest rel).dropLast
      = (pf.key (push pf.style dest rel)).dropLast := List.map_dropLast ..
  rw [unpackFile, if_pos hrel.safe]
  dsimp only
  rw [hrel.parent_push dest, if_pos hrel.namesFile]
  have hdirs : Triple (fun s => s.Is nodes touched)
      (createDirAll pf (push pf.style dest rel).dropLast)
      (fun _ s => s.Is (withDirs nodes (pf.key (push pf.style dest rel)).dropLast) touched)
      fun _ => False := by
    rw [← hdrop]
    refine createDirAll_ok fun k hk hkpre c => ?_
    rw [hdrop] at hkpre
    exact laidOut.no_file_above empty hkeybegins apart hk
      (hkpre.trans (List.dropLast_prefix _)) c
  refine triple_bind hdirs fun _ => ?_
  refine triple_bind (createFile_ok hnil ?_ ?_) fun _ => triple_pure fun _ hs => hs
  · rw [withDirs, if_neg fun hpre => not_prefix_dropLast hkeynil hpre.2,
      laidOut.free empty hkeybegins hkeyne apart]
    simp
  · rw [hdrop]
    by_cases hparent : (push pf.style dest rel).dropLast = []
    · exact .inl hparent
    · have hkeyparent : (pf.key (push pf.style dest rel)).dropLast ≠ [] := by
        rw [← hdrop]
        exact fun heq => hparent (List.map_eq_nil_iff.mp heq)
      exact .inr (if_pos ⟨hkeyparent, List.prefix_refl _⟩)

theorem stripFiles_append (rel : String) : stripFiles (filesPrefix ++ rel) = some rel := by
  have hbegins : filesPrefix.toList <+: (filesPrefix ++ rel).toList := by
    rw [String.toList_append]
    exact List.prefix_append _ _
  rw [stripFiles, if_pos hbegins, String.toList_append]
  have hlen : filesPrefix.length = filesPrefix.toList.length := rfl
  rw [hlen, List.drop_left, String.ofList_toList]

/-- A payload file is never taken for an entry of the container itself. -/
theorem files_ne (rel : String) :
    filesPrefix ++ rel ≠ metaPath ∧ filesPrefix ++ rel ≠ registryPath := by
  have hhead : (filesPrefix ++ rel).toList.head? = some 'f' := by
    rw [String.toList_append]
    rfl
  constructor
  · intro heq
    rw [heq] at hhead
    exact absurd hhead (by decide)
  · intro heq
    rw [heq] at hhead
    exact absurd hhead (by decide)

theorem unpackEntry_file (acc : Option ArchiveMeta × Option Bytes) (rel : String) (data : Bytes) :
    unpackEntry fmt pf dest acc ⟨filesPrefix ++ rel, data, false⟩
      = (do unpackFile pf dest rel ⟨filesPrefix ++ rel, data, false⟩; pure acc) := by
  rw [unpackEntry, if_neg (files_ne rel).1, if_neg (files_ne rel).2, stripFiles_append]

/-- The keys under which the payload ends up. -/
def laidKeys (pf : Platform) (dest : PathBuf) (payload : List (String × Bytes)) :
    List (PathBuf × Bytes) :=
  payload.map fun f => (pf.key (push pf.style dest f.1), f.2)

/-- A single file is laid out. -/
theorem LaidOut.single (h : LaidOut nodes₀ nodes [(key, content)]) (hne : key ≠ []) :
    nodes = Function.update (withDirs nodes₀ key.dropLast) key (some (.file content)) := by
  funext k
  by_cases hk : k = key
  · subst hk
    rw [Function.update_self]
    exact h.file (k, content) (List.mem_singleton_self _)
  · rw [Function.update_of_ne hk, withDirs]
    split_ifs with habove
    · exact h.dir (key, content) (List.mem_singleton_self _) k habove.1
        (habove.2.trans (List.dropLast_prefix key)) hk
    · refine h.rest k fun hnil f hf hbegins => habove ⟨hnil, ?_⟩
      obtain rfl := List.mem_singleton.mp hf
      exact prefix_dropLast_of_ne hbegins hk

/-- The payload is laid out under the destination, file by file. -/
theorem unpackEntry_payload {payload : List (String × Bytes)}
    (names : ∀ f ∈ payload, RelName pf.style f.1)
    (apart : payload.Pairwise fun f g =>
      Apart (pf.key (push pf.style dest f.1)) (pf.key (push pf.style dest g.1)))
    (empty : EmptyDir nodes₀ (pf.key dest)) (acc : Option ArchiveMeta × Option Bytes) :
    Triple (fun s => s.Is nodes₀ touched)
      ((payload.map fun f => (⟨filesPrefix ++ f.1, f.2, false⟩ : TarEntry)).foldlM
        (unpackEntry fmt pf dest) acc)
      (fun acc' s => acc' = acc ∧ ∃ nodes touched, s.Is nodes touched ∧
        LaidOut nodes₀ nodes (laidKeys pf dest payload)) fun _ => False := by
  rw [List.foldlM_map]
  refine (triple_foldlM (fun done acc' s => acc' = acc ∧ ∃ nodes touched, s.Is nodes touched ∧
    LaidOut nodes₀ nodes (laidKeys pf dest done)) ?_).conseq
    (fun s hs => ⟨rfl, nodes₀, touched, hs, ?_⟩) (fun _ _ hs => hs) fun _ hs => hs
  · rintro done f rest acc' hsplit s ⟨rfl, nodes, touched, hs, laidOut⟩
    have hf : RelName pf.style f.1 := names f (by rw [hsplit]; simp)
    have hdone : ∀ g ∈ laidKeys pf dest done, Apart g.1 (pf.key (push pf.style dest f.1)) := by
      intro laid hlaid
      obtain ⟨g, hg, rfl⟩ := List.mem_map.mp hlaid
      rw [hsplit] at apart
      exact (List.pairwise_append.mp apart).2.2 g hg f (List.mem_cons_self ..)
    rw [unpackEntry_file]
    refine (triple_bind (unpackFile_ok hf laidOut empty hdone _) fun _ =>
      triple_pure fun s' hs' => ⟨rfl, _, _, hs', ?_⟩) s hs
    rw [laidKeys, List.map_append]
    exact laidOut.snoc (hf.key_push_ne dest) hdone
  · exact ⟨fun _ hf => absurd hf List.not_mem_nil, fun _ hf => absurd hf List.not_mem_nil,
      fun _ _ => rfl⟩

/-- The container's own entries are read off first. -/
theorem foldlM_packEntries (metadata : ArchiveMeta) (payload : List (String × Bytes))
    (registry : Option Bytes) :
    ((packEntries fmt metadata payload registry).map
        fun e => (⟨e.1, e.2, false⟩ : TarEntry)).foldlM (unpackEntry fmt pf dest) (none, none)
      = (payload.map fun f => (⟨filesPrefix ++ f.1, f.2, false⟩ : TarEntry)).foldlM
          (unpackEntry fmt pf dest) (some metadata, registry) := by
  have hmeta : unpackEntry fmt pf dest (none, none) ⟨metaPath, fmt.toJson metadata, false⟩
      = pure (some metadata, none) := by
    rw [unpackEntry, if_pos rfl, fmt.fromJson_toJson]
    rfl
  have hregistry : ∀ bytes, unpackEntry fmt pf dest (some metadata, none)
      ⟨registryPath, bytes, false⟩ = pure (some metadata, some bytes) := by
    intro bytes
    have hne : registryPath ≠ metaPath := by decide
    rw [unpackEntry, if_neg hne, if_pos rfl]
    rfl
  have hfiles : (payload.map fun f => (filesPrefix ++ f.1, f.2)).map
      (fun e => (⟨e.1, e.2, false⟩ : TarEntry))
      = payload.map fun f => ⟨filesPrefix ++ f.1, f.2, false⟩ := by
    rw [List.map_map]
    rfl
  cases registry with
  | none =>
      rw [packEntries, Option.map_none, Option.toList_none, List.cons_append, List.nil_append,
        List.map_cons, List.foldlM_cons, hmeta, pure_bind, hfiles]
  | some bytes =>
      rw [packEntries, Option.map_some, Option.toList_some, List.cons_append,
        List.singleton_append, List.map_cons, List.map_cons, List.foldlM_cons, hmeta, pure_bind,
        List.foldlM_cons, hregistry, pure_bind, hfiles]

/-- Unpacking into an empty directory lays the payload out, as long as nothing is refused. -/
theorem unpack_ok {payload : List (String × Bytes)} {metadata : ArchiveMeta}
    {registry : Option Bytes} (names : ∀ f ∈ payload, RelName pf.style f.1)
    (apart : payload.Pairwise fun f g =>
      Apart (pf.key (push pf.style dest f.1)) (pf.key (push pf.style dest g.1)))
    (empty : EmptyDir nodes₀ (pf.key dest)) :
    Triple (fun s => s.Is nodes₀ touched)
      (unpack fmt pf (fmt.write (packEntries fmt metadata payload registry)) dest)
      (fun r s => r = ⟨metadata, registry⟩ ∧ ∃ nodes touched, s.Is nodes touched ∧
        LaidOut nodes₀ nodes (laidKeys pf dest payload)) fun _ => False := by
  rw [unpack, fmt.read_write]
  dsimp only
  rw [foldlM_packEntries]
  refine triple_bind (unpackEntry_payload names apart empty _) fun acc => ?_
  rintro s ⟨rfl, hs⟩
  exact triple_pure (P := fun s => ∃ nodes touched, s.Is nodes touched ∧
    LaidOut nodes₀ nodes (laidKeys pf dest payload)) (fun _ hs => ⟨rfl, hs⟩) s hs

/-- Where the sources are files, their contents are read, in order. -/
theorem readPayload_ok {payload : List (String × PathBuf)} {contents : String → Bytes}
    (names : ∀ f ∈ payload, RelName pf.style f.1)
    (sources : ∀ f ∈ payload, nodes (pf.key f.2) = some (.file (contents f.1))) :
    Triple (fun s => s.Is nodes touched) (readPayload fmt pf payload)
      (fun r s => r = payload.map (fun f => (f.1, contents f.1)) ∧ s.Is nodes touched)
      fun _ => False := by
  induction payload with
  | nil => exact triple_pure fun _ hs => ⟨rfl, hs⟩
  | cons f payload ih =>
      refine triple_bind (readFile_ok (sources f (List.mem_cons_self ..))) fun content => ?_
      rintro s ⟨rfl, hs⟩
      rw [if_pos ((names f (List.mem_cons_self ..)).accepted fmt)]
      refine triple_bind (ih (fun g hg => names g (List.mem_cons_of_mem f hg))
        fun g hg => sources g (List.mem_cons_of_mem f hg)) (fun rest => ?_) s hs
      rintro s ⟨rfl, hs⟩
      exact triple_pure (P := fun s => s.Is nodes touched) (fun _ hs => ⟨rfl, hs⟩) s hs

/-- Only a payload whose names the tar takes is read to its end. -/
theorem readPayload_accepted {payload : List (String × PathBuf)} :
    Triple (fun _ => True) (readPayload fmt pf payload)
      (fun _ _ => ∀ f ∈ payload, fmt.accepts pf.style (filesPrefix ++ f.1) = true)
      fun _ => True := by
  induction payload with
  | nil => exact triple_pure fun _ _ f hf => absurd hf List.not_mem_nil
  | cons f payload ih =>
      refine triple_bind triple_any fun content => ?_
      split_ifs with haccepted
      · refine triple_bind (ih.conseq (fun _ _ => trivial) (fun _ _ h => h) fun _ h => h)
          fun rest => triple_pure fun _ hrest => ?_
        exact List.forall_mem_cons.mpr ⟨haccepted, hrest⟩
      · exact triple_throw fun _ _ => trivial

/-- **The tar refuses a payload whose name leads out of the archive**, unless the name is too long
for the header. -/
theorem pack_names {metadata : ArchiveMeta} {payload : List (String × PathBuf)}
    {registry : Option Bytes} {bytes : Bytes} {s s' : Fs}
    (h : pack fmt pf metadata payload registry s = (.ok bytes, s')) {f : String × PathBuf}
    (hf : f ∈ payload) (short : (filesPrefix ++ f.1).utf8ByteSize < 100) {c : Component}
    (hc : c ∈ components pf.style (filesPrefix ++ f.1)) : c.isNormal ∨ c = .curDir := by
  obtain ⟨read, s₁, hread, -⟩ := bind_eq_ok_iff.mp h
  have haccepted := readPayload_accepted.ok trivial hread f hf
  by_contra hrefused
  rw [not_or] at hrefused
  rw [fmt.refuses pf.style _ short ⟨c, hc, hrefused⟩] at haccepted
  cases haccepted

/-- What lies below the destination once the payload is laid out there. -/
theorem LaidOut.below {payload : List (String × Bytes)}
    (h : LaidOut nodes₀ nodes (laidKeys pf dest payload)) (empty : EmptyDir nodes₀ (pf.key dest))
    {k : PathBuf} (hk : pf.key dest <+: k) (hne : k ≠ pf.key dest) :
    (∀ c, nodes k = some (.file c) ↔
      ∃ f ∈ payload, k = pf.key (push pf.style dest f.1) ∧ c = f.2) ∧
    (nodes k = some .dir ↔ ∃ f ∈ payload, k <+: pf.key (push pf.style dest f.1) ∧
      k ≠ pf.key (push pf.style dest f.1)) := by
  have hnil : k ≠ [] := by
    rintro rfl
    exact hne (List.prefix_nil.mp hk).symm
  have hfile : ∀ f ∈ payload, nodes (pf.key (push pf.style dest f.1)) = some (.file f.2) :=
    fun f hf => h.file _ (List.mem_map_of_mem hf)
  have hdir : ∀ f ∈ payload, k <+: pf.key (push pf.style dest f.1) →
      k ≠ pf.key (push pf.style dest f.1) → nodes k = some .dir :=
    fun f hf hpre hkne => h.dir _ (List.mem_map_of_mem hf) k hnil hpre hkne
  have hrest : (∀ f ∈ payload, ¬ k <+: pf.key (push pf.style dest f.1)) → nodes k = none := by
    intro hnone
    rw [h.rest k fun _ laid hlaid => ?_, empty.below k hk hne]
    obtain ⟨f, hf, rfl⟩ := List.mem_map.mp hlaid
    exact hnone f hf
  refine ⟨fun c => ⟨fun hnode => ?_, ?_⟩, fun hnode => ?_, ?_⟩
  · by_cases habove : ∃ f ∈ payload, k <+: pf.key (push pf.style dest f.1)
    · obtain ⟨f, hf, hpre⟩ := habove
      by_cases heq : k = pf.key (push pf.style dest f.1)
      · have hc := hfile f hf
        rw [← heq, hnode] at hc
        cases hc
        exact ⟨f, hf, heq, rfl⟩
      · rw [hdir f hf hpre heq] at hnode
        cases hnode
    · push Not at habove
      rw [hrest habove] at hnode
      cases hnode
  · rintro ⟨f, hf, rfl, rfl⟩
    exact hfile f hf
  · by_cases habove : ∃ f ∈ payload, k <+: pf.key (push pf.style dest f.1)
    · obtain ⟨f, hf, hpre⟩ := habove
      refine ⟨f, hf, hpre, ?_⟩
      rintro rfl
      rw [hfile f hf] at hnode
      cases hnode
    · push Not at habove
      rw [hrest habove] at hnode
      cases hnode
  · rintro ⟨f, hf, hpre, hkne⟩
    exact hdir f hf hpre hkne

/-- Nothing changes outside of the destination. -/
theorem LaidOut.outside {payload : List (String × Bytes)}
    (h : LaidOut nodes₀ nodes (laidKeys pf dest payload)) (empty : EmptyDir nodes₀ (pf.key dest))
    (hbelow : ∀ f ∈ payload, pf.key dest <+: pf.key (push pf.style dest f.1) ∧
      pf.key (push pf.style dest f.1) ≠ pf.key dest)
    {k : PathBuf} (hk : ¬ pf.key dest <+: k) :
    (nodes k).bind Node.content = (nodes₀ k).bind Node.content := by
  by_cases habove : k ≠ [] ∧ ∃ f ∈ payload, k <+: pf.key (push pf.style dest f.1)
  · -- a directory on the way to the destination stays one
    obtain ⟨hnil, f, hf, hpre⟩ := habove
    have hkne : k ≠ pf.key (push pf.style dest f.1) := fun heq => hk (heq ▸ (hbelow f hf).1)
    have hkdest : k <+: pf.key dest :=
      (List.prefix_or_prefix_of_prefix hpre (hbelow f hf).1).resolve_right hk
    rw [h.dir _ (List.mem_map_of_mem hf) k hnil hpre hkne]
    cases hnode : nodes₀ k with
    | none => rfl
    | some node =>
        cases node with
        | dir => rfl
        | file c => exact absurd hnode (empty.above k hnil hkdest c)
  · rw [h.rest k fun hnil laid hlaid hpre => ?_]
    obtain ⟨f, hf, rfl⟩ := List.mem_map.mp hlaid
    exact habove ⟨hnil, f, hf, hpre⟩

theorem Fs.files_eq_some_iff {s : Fs} {k : PathBuf} {c : Bytes} :
    s.files k = some c ↔ s.tree.nodeAt k = some (.file c) := by
  rw [Fs.files]
  cases s.tree.nodeAt k with
  | none => simp
  | some node => cases node <;> simp [Node.content]

/-- **The archive round-trips.**  Unpacking what was packed, into an empty directory, gives
back the metadata and the registry; below the destination there are then exactly the files
of the payload, with their contents, and the directories they need. -/
theorem unpack_pack (dest : PathBuf) (payload : List (String × PathBuf))
    (contents : String → Bytes) (metadata : ArchiveMeta) (registry : Option Bytes) {s : Fs}
    (granted : s.fates = [])
    (sources : ∀ f ∈ payload, s.files (pf.key f.2) = some (contents f.1))
    (names : ∀ f ∈ payload, RelName pf.style f.1)
    (apart : payload.Pairwise fun f g =>
      Apart (pf.key (components pf.style f.1)) (pf.key (components pf.style g.1)))
    (empty : EmptyDir s.tree.nodeAt (pf.key dest)) :
    ∃ s', (do
        let bytes ← pack fmt pf metadata payload registry
        unpack fmt pf bytes dest) s = (.ok ⟨metadata, registry⟩, s') ∧
      (∀ k c, pf.key dest <+: k → k ≠ pf.key dest → (s'.files k = some c ↔
        ∃ f ∈ payload, k = pf.key (push pf.style dest f.1) ∧ c = contents f.1)) ∧
      (∀ k, pf.key dest <+: k → k ≠ pf.key dest → (s'.tree.nodeAt k = some .dir ↔
        ∃ f ∈ payload, k <+: pf.key (push pf.style dest f.1) ∧
          k ≠ pf.key (push pf.style dest f.1))) ∧
      ∀ k, ¬ pf.key dest <+: k → s'.files k = s.files k := by
  have hpack : Triple (fun s' => s'.Is s.tree.nodeAt s.touched)
      (pack fmt pf metadata payload registry)
      (fun bytes s' => bytes = fmt.write (packEntries fmt metadata
        (payload.map fun f => (f.1, contents f.1)) registry) ∧
        s'.Is s.tree.nodeAt s.touched) fun _ => False := by
    refine triple_bind (readPayload_ok names fun f hf =>
      Fs.files_eq_some_iff.mp (sources f hf)) ?_
    rintro read s' ⟨rfl, hs'⟩
    exact triple_pure (P := fun s' => s'.Is s.tree.nodeAt s.touched) (fun _ hs => ⟨rfl, hs⟩) s' hs'
  have hnames : ∀ f ∈ payload.map fun f => (f.1, contents f.1), RelName pf.style f.1 := by
    intro f hf
    obtain ⟨g, hg, rfl⟩ := List.mem_map.mp hf
    exact names g hg
  have hpush : ∀ f ∈ payload, pf.key (push pf.style dest f.1)
      = pf.key dest ++ pf.key (components pf.style f.1) := fun f hf => by
    rw [(names f hf).push_eq, pf.key_append]
  have hapart : (payload.map fun f => (f.1, contents f.1)).Pairwise fun f g =>
      Apart (pf.key (push pf.style dest f.1)) (pf.key (push pf.style dest g.1)) := by
    rw [List.pairwise_map]
    refine apart.imp_of_mem fun {f g} hf hg hfg => ?_
    rw [hpush f hf, hpush g hg, Apart, List.prefix_append_right_inj,
      List.prefix_append_right_inj]
    exact hfg
  have hrun : Triple (fun s' => s'.Is s.tree.nodeAt s.touched)
      (do
        let bytes ← pack fmt pf metadata payload registry
        unpack fmt pf bytes dest)
      (fun r s' => r = ⟨metadata, registry⟩ ∧ ∃ nodes touched, s'.Is nodes touched ∧
        LaidOut s.tree.nodeAt nodes (laidKeys pf dest
          (payload.map fun f => (f.1, contents f.1)))) fun _ => False := by
    refine triple_bind hpack ?_
    rintro bytes s' ⟨rfl, hs'⟩
    exact unpack_ok hnames hapart empty s' hs'
  obtain ⟨unpacked, s', hs', rfl, nodes, touched, his, laidOut⟩ :=
    hrun.returns ⟨granted, rfl, rfl⟩
  refine ⟨s', hs', ?_, ?_, ?_⟩
  · intro k c hk hne
    rw [Fs.files_eq_some_iff, his.nodes, (laidOut.below empty hk hne).1 c]
    simp only [List.mem_map, exists_exists_and_eq_and]
  · intro k hk hne
    rw [his.nodes, (laidOut.below empty hk hne).2]
    simp only [List.mem_map, exists_exists_and_eq_and]
  · intro k hk
    rw [Fs.files, Fs.files, his.nodes]
    exact laidOut.outside empty (fun f hf => (hnames f hf).key_push_below dest) hk

end RoundTrip

end Savr
