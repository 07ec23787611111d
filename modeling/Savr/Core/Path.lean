import Mathlib.Data.List.TakeWhile
import Savr.Core.Types

/-!
# Paths

`std::path` as far as the save paths of a game need it, under the rules of Unix and of
Windows, with `rel_path` of `savr-core/src/snapshot.rs` and `is_safe_rel_path` of
`archive.rs`.

## Design notes

* A path that is only taken apart and extended is the list of its components; a path that
  is printed is a `String`, and `components` reads the one from the other.
* A Windows drive letter is upper case, as `std` compares it, and a share is written with
  backslashes.  Verbatim and device volumes are left out.

## Main results

* `components_joined` — file names joined by `/` are read back as these names.
* `pushAll_of_starts` — a path is rebuilt by pushing its components one by one.
-/

namespace Savr

/-- The rules a path is read by. -/
inductive PathStyle
  | unix
  | windows
  deriving DecidableEq, Repr

namespace PathStyle

/-- `MAIN_SEPARATOR`. -/
def sep : PathStyle → Char
  | .unix => '/'
  | .windows => '\\'

/-- `is_separator`: a forward slash is one on every platform. -/
def isSep (style : PathStyle) (c : Char) : Bool :=
  c = '/' || c = style.sep

end PathStyle

/-- `std::path::Component`; the two first are the volumes a Windows path may start with. Two
paths are equal when their components are. -/
inductive Component
  | disk (letter : Char)
  | unc (server share : String)
  | rootDir
  | curDir
  | parentDir
  | normal (name : String)
  deriving DecidableEq, Repr

/-- `PathBuf`, taken apart. -/
abbrev PathBuf := List Component

namespace Component

/-- `Component::as_os_str`. -/
def text (style : PathStyle) : Component → String
  | .disk letter => String.ofList [letter, ':']
  | .unc server share => "\\\\" ++ server ++ "\\" ++ share
  | .rootDir => String.ofList [style.sep]
  | .curDir => "."
  | .parentDir => ".."
  | .normal name => name

/-- The component names a drive or a share. -/
def isVolume : Component → Bool
  | .disk _ | .unc _ _ => true
  | _ => false

/-- `Component::Normal`. -/
def isNormal : Component → Bool
  | .normal _ => true
  | _ => false

end Component

/-! ### Reading a path -/

section Reading

variable (style : PathStyle)

/-- The text up to the next separator. -/
def segmentOf (chars : List Char) : List Char :=
  chars.takeWhile fun c => !style.isSep c

/-- The text from the next separator on. -/
def afterSegment (chars : List Char) : List Char :=
  chars.dropWhile fun c => !style.isSep c

/-- A server and a share after two separators. Such a volume has a root of its own, so what
follows is absolute. -/
def readUnc (chars : List Char) : PathBuf × List Char :=
  match chars with
  | a :: b :: rest =>
      let server := segmentOf style rest
      let rest := (afterSegment style rest).drop 1
      let share := segmentOf style rest
      if style.isSep a ∧ style.isSep b ∧ server ≠ [] ∧ share ≠ [] then
        ([.unc (String.ofList server) (String.ofList share), .rootDir], afterSegment style rest)
      else ([], chars)
  | _ => ([], chars)

/-- The volume of a path, and the text after it. -/
def readVolume (chars : List Char) : PathBuf × List Char :=
  match style, chars with
  | .windows, letter :: ':' :: rest =>
      if letter.isAlpha then ([.disk letter.toUpper], rest) else ([], chars)
  | .windows, chars => readUnc .windows chars
  | .unix, chars => ([], chars)

/-- What a path starts with after its volume: a root, or a leading `.`. -/
def readRoot (volume : PathBuf) (rest : List Char) : PathBuf :=
  if .rootDir ∈ volume then []
  else if rest.head?.any style.isSep then [.rootDir]
  else if segmentOf style rest = ['.'] then [.curDir]
  else []

/-- One segment between separators.  Empty ones and `.` are skipped. -/
def readSegment (segment : List Char) : Option Component :=
  if segment = [] ∨ segment = ['.'] then none
  else if segment = ['.', '.'] then some .parentDir
  else some (.normal (String.ofList segment))

/-- `Path::components`. -/
def components (path : String) : PathBuf :=
  let (volume, rest) := readVolume style path.toList
  volume ++ readRoot style volume rest ++ (rest.splitOnP style.isSep).filterMap readSegment

/-! ### Operations -/

/-- `PathBuf::push`: a path with a volume replaces all, a path with a root all but the
volume. -/
def push (path : PathBuf) (sub : String) : PathBuf :=
  match components style sub with
  | .disk letter :: rest => .disk letter :: rest
  | .unc server share :: rest => .unc server share :: rest
  | .rootDir :: rest => path.takeWhile Component.isVolume ++ .rootDir :: rest
  | .curDir :: rest => if path.all Component.isVolume then path ++ .curDir :: rest else path ++ rest
  | rest => path ++ rest

/-- Push the components of a path one by one, from the empty path on. -/
def pushAll (path : PathBuf) : PathBuf :=
  path.foldl (fun acc c => push style acc (c.text style)) []

/-- `Path::parent`. -/
def parent (path : PathBuf) : Option PathBuf :=
  match path.getLast? with
  | some (.normal _) | some .curDir | some .parentDir => some path.dropLast
  | _ => none

/-- `Path::join` on paths that are printed afterwards: on texts, with a separator in between
where none is. A rooted or prefixed second path replaces the first, or its part behind the
volume. -/
def join (path sub : String) : String :=
  let (volume, rest) := readVolume style path.toList
  match components style sub with
  | .disk _ :: _ | .unc _ _ :: _ => sub
  | .rootDir :: _ => String.ofList (path.toList.take (path.length - rest.length)) ++ sub
  | _ =>
      -- a bare drive letter takes a relative path without a separator
      let bareDisk := volume ≠ [] ∧ rest = [] ∧ .rootDir ∉ volume
      if path.toList.getLast?.all style.isSep ∨ bareDisk then path ++ sub
      else path ++ String.ofList [style.sep] ++ sub

/-- `Path::strip_prefix`, and `rel_path`: a path that does not lie under the anchor is kept
whole. -/
def relPath (path anchor : PathBuf) : String :=
  let rel := if anchor <+: path then path.drop anchor.length else path
  "/".intercalate (rel.map (Component.text style))

/-- `is_safe_rel_path`. -/
def isSafeRelPath (rel : String) : Bool :=
  (components style rel).all Component.isNormal

end Reading

/-- A name a file can have: on Windows it holds no colon. -/
structure FileName (style : PathStyle) (name : String) : Prop where
  ne_empty : name ≠ ""
  ne_dot : name ≠ "."
  ne_dots : name ≠ ".."
  noSep : ∀ c ∈ name.toList, style.isSep c = false
  noColon : style = .windows → ':' ∉ name.toList

/-- Whether a file can have this name. -/
def isFileName (style : PathStyle) (name : String) : Bool :=
  name ≠ "" && name ≠ "." && name ≠ ".." && name.toList.all (fun c => !style.isSep c) &&
    (style == .unix || name.toList.all (· ≠ ':'))

/-- The check decides what a file name is. -/
theorem isFileName_iff {style : PathStyle} {name : String} :
    isFileName style name = true ↔ FileName style name := by
  simp only [isFileName, Bool.and_eq_true, decide_eq_true_eq, List.all_eq_true, Bool.or_eq_true,
    Bool.not_eq_true', beq_iff_eq]
  constructor
  · rintro ⟨⟨⟨⟨hempty, hdot⟩, hdots⟩, hsep⟩, hcolon⟩
    refine ⟨hempty, hdot, hdots, hsep, ?_⟩
    rintro rfl hmem
    rcases hcolon with hunix | hall
    · cases hunix
    · exact hall ':' hmem rfl
  · intro h
    refine ⟨⟨⟨⟨h.ne_empty, h.ne_dot⟩, h.ne_dots⟩, h.noSep⟩, ?_⟩
    cases style with
    | unix => exact .inl rfl
    | windows =>
        refine .inr fun c hc => ?_
        rintro rfl
        exact h.noColon rfl hc

/-! ### File names are read back -/

section Names

variable {style : PathStyle} {name : String} {names : List String}

theorem isSep_slash (style : PathStyle) : style.isSep '/' = true := by
  cases style <;> rfl

theorem toList_ne_nil (h : name ≠ "") : name.toList ≠ [] := by
  intro hnil
  exact h (String.toList_inj.mp hnil)

/-- The text is over, or a separator comes next. -/
def AtSep (style : PathStyle) (rest : List Char) : Prop :=
  ∀ c, rest.head? = some c → style.isSep c

theorem atSep_nil : AtSep style [] := by
  rintro c hc
  cases hc

theorem segmentOf_append {l rest : List Char} (hl : ∀ c ∈ l, style.isSep c = false)
    (hrest : AtSep style rest) : segmentOf style (l ++ rest) = l := by
  rw [segmentOf, List.takeWhile_append_of_pos fun c hc => by simp [hl c hc]]
  cases rest with
  | nil => simp
  | cons c rest => simp [hrest c rfl]

theorem afterSegment_append {l rest : List Char} (hl : ∀ c ∈ l, style.isSep c = false)
    (hrest : AtSep style rest) : afterSegment style (l ++ rest) = rest := by
  rw [afterSegment, List.dropWhile_append_of_pos fun c hc => by simp [hl c hc]]
  cases rest with
  | nil => simp
  | cons c rest => simp [hrest c rfl]

theorem FileName.toList_cons (h : FileName style name) :
    ∃ c rest, name.toList = c :: rest ∧ style.isSep c = false := by
  obtain ⟨c, rest, heq⟩ := List.exists_cons_of_ne_nil (toList_ne_nil h.ne_empty)
  exact ⟨c, rest, heq, h.noSep c (by rw [heq]; exact List.mem_cons_self)⟩

theorem readUnc_plain {a : Char} (ha : style.isSep a = false) (rest : List Char) :
    readUnc style (a :: rest) = ([], a :: rest) := by
  cases rest with
  | nil => rfl
  | cons b rest => simp [readUnc, ha]

/-- A text that begins with a name has no volume. -/
theorem readVolume_plain {a : Char} {rest : List Char} (ha : style.isSep a = false)
    (hcolon : rest.head? ≠ some ':') : readVolume style (a :: rest) = ([], a :: rest) := by
  cases style with
  | unix => rfl
  | windows =>
      cases rest with
      | nil => exact readUnc_plain ha []
      | cons b rest =>
          have hb : b ≠ ':' := by
            rintro rfl
            exact hcolon rfl
          rw [readVolume]
          · exact readUnc_plain ha (b :: rest)
          · rintro _ _ heq
            injection heq with _ htail
            injection htail with hb' _
            exact hb hb'

/-- A text that is a file name, or starts with one and a separator, has no volume. -/
theorem readVolume_name (h : FileName style name) {rest : List Char}
    (hrest : AtSep style rest) :
    readVolume style (name.toList ++ rest) = ([], name.toList ++ rest) := by
  obtain ⟨a, tail, heq, ha⟩ := h.toList_cons
  cases style with
  | unix => rfl
  | windows =>
      have hcolon := h.noColon rfl
      rw [heq] at hcolon ⊢
      refine readVolume_plain ha fun hhead => ?_
      cases tail with
      | cons b tail =>
          have hb : b = ':' := by simpa using hhead
          exact hcolon (by simp [hb])
      | nil => exact absurd (hrest _ hhead) (by decide)

/-- A file name is a segment of its own and is read as that name. -/
theorem readSegment_name (h : FileName style name) :
    readSegment name.toList = some (.normal name) := by
  rw [readSegment, if_neg, if_neg, String.ofList_toList]
  · intro hdots
    exact h.ne_dots (String.toList_inj.mp hdots)
  · rintro (hempty | hdot)
    · exact toList_ne_nil h.ne_empty hempty
    · exact h.ne_dot (String.toList_inj.mp hdot)

/-- Joined names fall apart at the separators again. -/
theorem splitOnP_names (hnames : ∀ name ∈ names, FileName style name) (hne : names ≠ []) :
    (['/'].intercalate (names.map String.toList)).splitOnP style.isSep =
      names.map String.toList := by
  induction names with
  | nil => exact absurd rfl hne
  | cons name names ih =>
      obtain ⟨hname, hnames⟩ := List.forall_mem_cons.mp hnames
      cases names with
      | nil =>
          rw [List.map_singleton, List.intercalate_singleton,
            List.splitOnP_eq_singleton hname.noSep]
      | cons next names =>
          rw [List.map_cons, List.map_cons, List.intercalate_cons_cons, List.append_assoc,
            List.singleton_append, List.splitOnP_append_cons_of_forall_mem hname.noSep _
              (isSep_slash style), ← List.map_cons, ih hnames (List.cons_ne_nil _ _)]

/-- Names that are joined begin with the first, and a separator or the end follows it. -/
theorem intercalate_atSep (style : PathStyle) (name : String) (names : List String) :
    ∃ rest, ['/'].intercalate ((name :: names).map String.toList) = name.toList ++ rest ∧
      AtSep style rest := by
  cases names with
  | nil => exact ⟨[], by simp, atSep_nil⟩
  | cons next names =>
      refine ⟨'/' :: ['/'].intercalate ((next :: names).map String.toList), by simp, ?_⟩
      rintro c hc
      injection hc with hc
      rw [← hc, isSep_slash]

theorem readRoot_name (h : FileName style name) {rest : List Char} (hrest : AtSep style rest) :
    readRoot style [] (name.toList ++ rest) = [] := by
  obtain ⟨a, tail, heq, ha⟩ := h.toList_cons
  have hdot : name.toList ≠ ['.'] := fun hdot => h.ne_dot (String.toList_inj.mp hdot)
  rw [readRoot, if_neg List.not_mem_nil, segmentOf_append h.noSep hrest, if_neg, if_neg hdot]
  rw [heq]
  simp [ha]

/-- **Names are read back.**  File names joined by `/` are the components of the text. -/
theorem components_joined (hnames : ∀ name ∈ names, FileName style name) :
    components style ("/".intercalate names) = names.map Component.normal := by
  cases names with
  | nil => cases style <;> rfl
  | cons name names =>
      have hname := hnames name List.mem_cons_self
      have hsegments := splitOnP_names hnames (List.cons_ne_nil _ _)
      obtain ⟨rest, htext, hrest⟩ := intercalate_atSep style name names
      rw [htext] at hsegments
      rw [components, String.toList_intercalate, show "/".toList = ['/'] from rfl, htext,
        readVolume_name hname hrest]
      change readRoot style [] _ ++ _ = _
      rw [readRoot_name hname hrest, hsegments, List.nil_append, List.filterMap_map]
      exact List.filterMap_eq_map_iff_forall_eq_some.mpr fun n hn => readSegment_name (hnames n hn)

/-- A file name is a path of one component. -/
theorem components_name (h : FileName style name) : components style name = [.normal name] := by
  have hjoined : components style ("/".intercalate [name]) = [.normal name] :=
    components_joined (by simpa using h)
  rwa [String.intercalate_singleton] at hjoined

end Names

/-! ### The shape of a path -/

/-- The ways a path begins before its first name. Behind the opening come only names and
`..`, in either style. -/
inductive Opening : PathStyle → PathBuf → Prop
  | relative {style : PathStyle} : Opening style []
  | current {style : PathStyle} : Opening style [.curDir]
  | root {style : PathStyle} : Opening style [.rootDir]
  | disk {letter : Char} (alpha : letter.isAlpha) : Opening .windows [.disk letter.toUpper]
  | diskCurrent {letter : Char} (alpha : letter.isAlpha) :
      Opening .windows [.disk letter.toUpper, .curDir]
  | diskRoot {letter : Char} (alpha : letter.isAlpha) :
      Opening .windows [.disk letter.toUpper, .rootDir]
  | share {server share : List Char} (hserver : server ≠ []) (hshare : share ≠ [])
      (hnoSep : ∀ c ∈ server ++ share, PathStyle.windows.isSep c = false) :
      Opening .windows [.unc (String.ofList server) (String.ofList share), .rootDir]

/-- A component after the opening: a file name, but for a colon, or `..`. -/
def Inner (style : PathStyle) (c : Component) : Prop :=
  c = .parentDir ∨ ∃ name, c = .normal name ∧
    ((style = .windows → ':' ∉ name.toList) → FileName style name)

section Shape

variable {style : PathStyle} {path rest head body : PathBuf} {text : String}

/-- A segment between separators has none in it. -/
theorem noSep_of_mem_splitOnP {chars segment : List Char}
    (h : segment ∈ chars.splitOnP style.isSep) : ∀ c ∈ segment, style.isSep c = false := by
  induction chars generalizing segment with
  | nil =>
      rw [List.splitOnP_nil, List.mem_singleton] at h
      simp [h]
  | cons a chars ih =>
      rw [List.splitOnP_cons_eq_if_modifyHead] at h
      by_cases ha : style.isSep a
      · rw [if_pos ha, List.mem_cons] at h
        rcases h with rfl | h
        · simp
        · exact ih h
      · rw [if_neg ha] at h
        obtain ⟨first, others, hsplit⟩ :=
          List.exists_cons_of_ne_nil (List.splitOnP_ne_nil style.isSep chars)
        rw [hsplit] at h ih
        rw [List.modifyHead_cons, List.mem_cons] at h
        rcases h with rfl | h
        · refine List.forall_mem_cons.mpr ⟨by simpa using ha, ih List.mem_cons_self⟩
        · exact ih (List.mem_cons_of_mem _ h)

/-- What a segment reads as can stand inside a path. -/
theorem inner_of_readSegment {segment : List Char} {c : Component}
    (hsep : ∀ c ∈ segment, style.isSep c = false) (h : readSegment segment = some c) :
    Inner style c := by
  rw [readSegment] at h
  split at h
  · exact absurd h (by simp)
  · rename_i hsome
    rw [not_or] at hsome
    split at h
    · injection h with h
      exact .inl h.symm
    · rename_i hdots
      injection h with h
      refine .inr ⟨_, h.symm, fun hcolon => ⟨?_, ?_, ?_, ?_, hcolon⟩⟩
      · intro heq
        exact hsome.1 (by simpa using congrArg String.toList heq)
      · intro heq
        exact hsome.2 (by simpa using congrArg String.toList heq)
      · intro heq
        exact hdots (by simpa using congrArg String.toList heq)
      · rwa [String.toList_ofList]

/-- Behind a volume without a root comes a root, a `.` or neither. -/
theorem readRoot_cases {volume : PathBuf} (h : .rootDir ∉ volume) (chars : List Char) :
    readRoot style volume chars = [] ∨ readRoot style volume chars = [.rootDir] ∨
      readRoot style volume chars = [.curDir] := by
  rw [readRoot, if_neg h]
  split
  · exact .inr (.inl rfl)
  · split
    · exact .inr (.inr rfl)
    · exact .inl rfl

theorem noSep_segmentOf (chars : List Char) :
    ∀ c ∈ segmentOf style chars, style.isSep c = false := by
  intro c hc
  simpa using List.mem_takeWhile_imp hc

/-- A text begins with a share, which has a server and a name, or it does not. -/
theorem readUnc_cases (chars : List Char) :
    readUnc style chars = ([], chars) ∨
      ∃ server share rest, server ≠ [] ∧ share ≠ [] ∧
        (∀ c ∈ server ++ share, style.isSep c = false) ∧
        readUnc style chars =
          ([.unc (String.ofList server) (String.ofList share), .rootDir], rest) := by
  fun_cases readUnc style chars with
  | case1 a b rest server rest' share h =>
      refine .inr ⟨server, share, _, h.2.2.1, h.2.2.2, ?_, rfl⟩
      intro c hc
      rcases List.mem_append.mp hc with hc | hc
      · exact noSep_segmentOf _ c hc
      · exact noSep_segmentOf _ c hc
  | case2 => exact .inl rfl
  | case3 => exact .inl rfl

/-- Without a volume the path opens with a root, a `.` or nothing. -/
theorem opening_plain (chars : List Char) : Opening style ([] ++ readRoot style [] chars) := by
  rw [List.nil_append]
  obtain h | h | h := readRoot_cases List.not_mem_nil chars
  · rw [h]
    exact .relative
  · rw [h]
    exact .root
  · rw [h]
    exact .current

/-- A text that is taken apart begins with one of the openings. -/
theorem opening_of_readVolume (style : PathStyle) (chars : List Char) :
    Opening style ((readVolume style chars).1 ++
      readRoot style (readVolume style chars).1 (readVolume style chars).2) := by
  fun_cases readVolume style chars with
  | case1 letter rest alpha =>
      obtain h | h | h : readRoot .windows [.disk letter.toUpper] rest = [] ∨ _ ∨ _ :=
        readRoot_cases (by simp) rest
      · rw [h]
        exact .disk alpha
      · rw [h]
        exact .diskRoot alpha
      · rw [h]
        exact .diskCurrent alpha
  | case2 letter rest alpha => exact opening_plain _
  | case3 chars =>
      obtain h | ⟨server, share, rest, hserver, hshare, hsep, h⟩ :=
        @readUnc_cases .windows chars
      · rw [h]
        exact opening_plain _
      · rw [h]
        exact .share hserver hshare hsep
  | case4 chars => exact opening_plain _

theorem components_eq (style : PathStyle) (text : String) : ∃ head body,
    components style text = head ++ body ∧ Opening style head ∧ ∀ c ∈ body, Inner style c := by
  refine ⟨_, _, rfl, opening_of_readVolume style text.toList, fun c hc => ?_⟩
  obtain ⟨segment, hsegment, hread⟩ := List.mem_filterMap.mp hc
  exact inner_of_readSegment (noSep_of_mem_splitOnP hsegment) hread

/-- A name that occurs among the components is a file name, but for a colon on Windows. -/
theorem fileName_of_mem {name : String} (h : .normal name ∈ components style text)
    (hcolon : style = .windows → ':' ∉ name.toList) : FileName style name := by
  obtain ⟨head, body, heq, hhead, hbody⟩ := components_eq style text
  rw [heq, List.mem_append] at h
  rcases h with h | h
  · cases hhead <;> simp at h
  · obtain hname | ⟨_, hname, hfile⟩ := hbody _ h
    · cases hname
    · cases hname
      exact hfile hcolon

/-! ### Rebuilding a path -/

theorem components_rootText (style : PathStyle) :
    components style (Component.rootDir.text style) = [.rootDir] := by
  cases style <;> rfl

theorem components_curText (style : PathStyle) :
    components style (Component.curDir.text style) = [.curDir] := by
  cases style <;> rfl

theorem components_parentText (style : PathStyle) :
    components style (Component.parentDir.text style) = [.parentDir] := by
  cases style <;> rfl

theorem toNat_lt_of_isAlpha {letter : Char} (alpha : letter.isAlpha) : letter.toNat < 128 := by
  have halpha : letter.isUpper = true ∨ letter.isLower = true := Bool.or_eq_true _ _ ▸ alpha
  rcases halpha with hupper | hlower
  · have h : 'A'.val ≤ letter.val ∧ letter.val ≤ 'Z'.val := of_decide_eq_true hupper
    exact lt_of_le_of_lt (UInt32.le_iff_toNat_le.mp h.2) (by decide)
  · have h : decide (letter.val ≤ 'z'.val) = true := (Bool.and_eq_true _ _ ▸ hlower).2
    exact lt_of_le_of_lt (UInt32.le_iff_toNat_le.mp (of_decide_eq_true h)) (by decide)

theorem toUpper_of_isAlpha {letter : Char} (alpha : letter.isAlpha) :
    letter.toUpper.isAlpha ∧ letter.toUpper.toUpper = letter.toUpper := by
  have hascii : ∀ n < 128, (Char.ofNat n).isAlpha → (Char.ofNat n).toUpper.isAlpha ∧
      (Char.ofNat n).toUpper.toUpper = (Char.ofNat n).toUpper := by decide +kernel
  have h := hascii letter.toNat (toNat_lt_of_isAlpha alpha)
  rw [Char.ofNat_toNat] at h
  exact h alpha

theorem components_diskText {letter : Char} (alpha : letter.isAlpha) :
    components .windows ((Component.disk letter.toUpper).text .windows) =
      [.disk letter.toUpper] := by
  obtain ⟨halpha, hupper⟩ := toUpper_of_isAlpha alpha
  rw [Component.text, components, String.toList_ofList, readVolume, if_pos halpha, hupper]
  rfl

/-- A share is read back from its text. -/
theorem components_uncText {server share : List Char} (hserver : server ≠ []) (hshare : share ≠ [])
    (hsep : ∀ c ∈ server ++ share, PathStyle.windows.isSep c = false) :
    components .windows
        ((Component.unc (String.ofList server) (String.ofList share)).text .windows) =
      [.unc (String.ofList server) (String.ofList share), .rootDir] := by
  have hs : ∀ c ∈ server, PathStyle.windows.isSep c = false :=
    fun c hc => hsep c (List.mem_append_left _ hc)
  have hn : ∀ c ∈ share, PathStyle.windows.isSep c = false :=
    fun c hc => hsep c (List.mem_append_right _ hc)
  have hat : AtSep .windows ('\\' :: share) := by
    rintro c hc
    injection hc with hc
    rw [← hc]
    rfl
  have htext : ((Component.unc (String.ofList server) (String.ofList share)).text
      .windows).toList = '\\' :: '\\' :: (server ++ '\\' :: share) := by
    simp [Component.text]
  have hread : readVolume .windows ('\\' :: '\\' :: (server ++ '\\' :: share)) =
      ([.unc (String.ofList server) (String.ofList share), .rootDir], []) := by
    have hshareSeg : segmentOf .windows share = share := by
      simpa using segmentOf_append hn atSep_nil
    have hshareRest : afterSegment .windows share = [] := by
      simpa using afterSegment_append hn atSep_nil
    rw [readVolume, readUnc, segmentOf_append hs hat, afterSegment_append hs hat]
    · simp [hshareSeg, hshareRest, hserver, hshare, PathStyle.isSep, PathStyle.sep]
    · simp
  rw [components, htext, hread]
  rfl

/-- The beginnings of a path of two components. -/
theorem starts_pair {a b : Component} (h : path <+: [a, b]) :
    path = [] ∨ path = [a] ∨ path = [a, b] := by
  rcases List.prefix_cons_iff.mp h with rfl | ⟨rest, rfl, hrest⟩
  · exact .inl rfl
  · rcases List.prefix_cons_iff.mp hrest with rfl | ⟨last, rfl, hlast⟩
    · exact .inr (.inl rfl)
    · rw [List.prefix_nil.mp hlast]
      exact .inr (.inr rfl)

theorem starts_single {a : Component} (h : path <+: [a]) : path = [] ∨ path = [a] := by
  rcases List.prefix_cons_iff.mp h with rfl | ⟨rest, rfl, hrest⟩
  · exact .inl rfl
  · rw [List.prefix_nil.mp hrest]
    exact .inr rfl

/-- The beginnings of an opening are openings, except a share without its root. -/
theorem Opening.of_starts (h : Opening style head) (hpath : path <+: head)
    (hne : ∀ server share, path ≠ [.unc server share]) : Opening style path := by
  cases h with
  | relative =>
      rw [List.prefix_nil.mp hpath]
      exact .relative
  | current =>
      obtain rfl | rfl := starts_single hpath
      · exact .relative
      · exact .current
  | root =>
      obtain rfl | rfl := starts_single hpath
      · exact .relative
      · exact .root
  | disk alpha =>
      obtain rfl | rfl := starts_single hpath
      · exact .relative
      · exact .disk alpha
  | diskCurrent alpha =>
      obtain rfl | rfl | rfl := starts_pair hpath
      · exact .relative
      · exact .disk alpha
      · exact .diskCurrent alpha
  | diskRoot alpha =>
      obtain rfl | rfl | rfl := starts_pair hpath
      · exact .relative
      · exact .disk alpha
      · exact .diskRoot alpha
  | share hserver hshare hsep =>
      obtain rfl | rfl | rfl := starts_pair hpath
      · exact .relative
      · exact absurd rfl (hne _ _)
      · exact .share hserver hshare hsep

/-- An opening is put together from its components. -/
theorem pushAll_opening (h : Opening style head) : pushAll style head = head := by
  cases h with
  | relative => rfl
  | current => simp [pushAll, push, components_curText]
  | root => simp [pushAll, push, components_rootText]
  | disk alpha => simp [pushAll, push, components_diskText alpha]
  | diskCurrent alpha =>
      simp [pushAll, push, components_diskText alpha, components_curText, Component.isVolume]
  | diskRoot alpha =>
      simp [pushAll, push, components_diskText alpha, components_rootText, Component.isVolume,
        List.takeWhile]
  | share hserver hshare hsep =>
      simp [pushAll, push, components_uncText hserver hshare hsep, components_rootText,
        Component.isVolume, List.takeWhile]

theorem push_inner {c : Component} (h : Inner style c)
    (hcolon : ∀ name, c = .normal name → style = .windows → ':' ∉ name.toList) :
    push style path (c.text style) = path ++ [c] := by
  obtain rfl | ⟨name, rfl, hname⟩ := h
  · rw [push, components_parentText]
  · rw [push, Component.text, components_name (hname (hcolon name rfl))]

/-- Pushing components that are not rooted one by one appends them. -/
theorem pushAll_append_inner (hbody : ∀ c ∈ body, Inner style c)
    (hcolon : ∀ name, .normal name ∈ body → style = .windows → ':' ∉ name.toList) :
    body.foldl (fun acc c => push style acc (c.text style)) path = path ++ body := by
  induction body generalizing path with
  | nil => simp
  | cons c body ih =>
      obtain ⟨hc, hbody⟩ := List.forall_mem_cons.mp hbody
      rw [List.foldl_cons, push_inner hc fun name hname => hcolon name (by simp [hname]),
        ih hbody fun name hname => hcolon name (List.mem_cons_of_mem _ hname),
        List.append_assoc, List.singleton_append]

/-- **A path is rebuilt from its components.**  Pushing the components a text starts with
gives them back, unless they end between a share and its root. -/
theorem pushAll_of_starts (hpath : path <+: components style text)
    (hcolon : ∀ name, .normal name ∈ path → style = .windows → ':' ∉ name.toList)
    (hne : ∀ server share, path ≠ [.unc server share]) : pushAll style path = path := by
  obtain ⟨head, body, heq, hhead, hbody⟩ := components_eq style text
  rw [heq] at hpath
  rcases List.prefix_or_prefix_of_prefix hpath (List.prefix_append head body) with h | ⟨rest, rfl⟩
  · exact pushAll_opening (hhead.of_starts h hne)
  · have hrest : rest <+: body := (List.prefix_append_right_inj head).mp hpath
    rw [pushAll, List.foldl_append, ← pushAll, pushAll_opening hhead]
    refine pushAll_append_inner (fun c hc => hbody c (hrest.subset hc)) fun name hname => ?_
    exact hcolon name (List.mem_append_right _ hname)

/-! ### A share has a root -/

/-- A share is followed by its root. -/
def Rooted (path : PathBuf) : Prop :=
  ∀ server share, [.unc server share] <+: path → [.unc server share, .rootDir] <+: path

/-- What is read off a text is rooted as a whole or not at all. -/
theorem rooted_components (style : PathStyle) (text : String) :
    Rooted (components style text) := by
  intro server share h
  obtain ⟨head, body, heq, hhead, hbody⟩ := components_eq style text
  rw [heq] at h ⊢
  cases hhead with
  | relative =>
      -- a name or `..` is no share
      obtain ⟨rest, hrest⟩ := h
      have hc := hbody (.unc server share) (by rw [List.nil_append] at hrest; simp [← hrest])
      obtain hc | ⟨_, hc, -⟩ := hc
      · cases hc
      · cases hc
  | share hserver hshare hsep =>
      rw [List.cons_append, List.cons_prefix_cons] at h
      rw [h.1]
      exact List.prefix_append _ _
  | _ => simp at h

/-- What is appended to a rooted path leaves it rooted. -/
theorem rooted_append (h : Rooted path) (hrest : path = [] → Rooted rest) :
    Rooted (path ++ rest) := by
  intro server share hstart
  cases path with
  | nil => exact hrest rfl server share hstart
  | cons c path =>
      rw [List.cons_append, List.cons_prefix_cons] at hstart
      have hpath : [.unc server share] <+: c :: path := by
        rw [hstart.1]
        simp
      exact (h server share hpath).trans (List.prefix_append _ _)

/-- Pushing onto a rooted path gives a rooted one. -/
theorem rooted_push (h : Rooted path) (sub : String) : Rooted (push style path sub) := by
  have hsub := rooted_components style sub
  unfold push
  split
  · rename_i heq
    rwa [heq] at hsub
  · rename_i heq
    rwa [heq] at hsub
  · intro server share hstart
    -- only a share of the path itself is left in front of the root
    cases path with
    | nil => simp at hstart
    | cons c path =>
        cases hc : c.isVolume with
        | false => simp [List.takeWhile, hc] at hstart
        | true =>
            simp only [List.takeWhile, hc, List.cons_append, List.cons_prefix_cons] at hstart
            have hroot := h server share (by rw [hstart.1]; simp)
            rw [List.cons_prefix_cons] at hroot
            obtain ⟨rest, rfl⟩ := hroot.2
            rw [← hstart.1]
            simp [List.takeWhile, Component.isVolume]
  · split
    · exact rooted_append h fun _ _ _ hstart => by simp at hstart
    · rename_i hvolumes
      refine rooted_append h fun hnil => ?_
      rw [hnil] at hvolumes
      simp at hvolumes
  · exact rooted_append h fun _ => hsub

theorem rooted_pushAll (path : PathBuf) : Rooted (pushAll style path) := by
  have hfold : ∀ acc, Rooted acc →
      Rooted (path.foldl (fun acc c => push style acc (c.text style)) acc) := by
    induction path with
    | nil => exact fun acc h => h
    | cons c path ih => exact fun acc h => ih _ (rooted_push h _)
  exact hfold [] fun _ _ hstart => by simp at hstart

theorem parent_eq_some (h : parent path = some rest) :
    rest = path.dropLast ∧ path.getLast? ≠ some .rootDir := by
  unfold parent at h
  split at h <;> simp_all

theorem rooted_parent (h : Rooted path) (hparent : parent path = some rest) : Rooted rest := by
  intro server share hstart
  obtain ⟨rfl, hlast⟩ := parent_eq_some hparent
  obtain ⟨rest, rfl⟩ := h server share (hstart.trans (List.dropLast_prefix path))
  cases rest with
  | nil => simp at hlast
  | cons c rest => simp [List.dropLast]

end Shape

/-! ### Relative paths -/

section Relative

variable {style : PathStyle} {anchor rest : PathBuf} {names : List String}

theorem relPath_append (style : PathStyle) (anchor rest : PathBuf) :
    relPath style (anchor ++ rest) anchor =
      "/".intercalate (rest.map (Component.text style)) := by
  rw [relPath, if_pos (List.prefix_append anchor rest), List.drop_left]

theorem relPath_names (style : PathStyle) (anchor : PathBuf) (names : List String) :
    relPath style (anchor ++ names.map .normal) anchor = "/".intercalate names := by
  rw [relPath_append, List.map_map]
  exact congrArg _ (List.map_id names)

theorem normal_of_names (names : List String) :
    ∀ c ∈ names.map Component.normal, c.isNormal := by
  intro c hc
  obtain ⟨name, -, rfl⟩ := List.mem_map.mp hc
  rfl

/-- Components that are names, as their names. -/
theorem exists_names (h : ∀ c ∈ rest, c.isNormal) :
    ∃ names : List String, rest = names.map .normal := by
  induction rest with
  | nil => exact ⟨[], rfl⟩
  | cons c rest ih =>
      obtain ⟨hc, hrest⟩ := List.forall_mem_cons.mp h
      obtain ⟨names, rfl⟩ := ih hrest
      cases c with
      | normal name => exact ⟨name :: names, rfl⟩
      | _ => cases hc

/-- A relative path of names only is appended. -/
theorem push_of_normal {rel : String} (h : ∀ c ∈ components style rel, c.isNormal) :
    push style anchor rel = anchor ++ components style rel := by
  unfold push
  split <;> simp_all [Component.isNormal]

theorem FileName.noSlash {name : String} (h : FileName style name) : '/' ∉ name.toList := by
  intro hmem
  have hsep := h.noSep '/' hmem
  rw [isSep_slash] at hsep
  cases hsep

/-- Names are read back from the text they are joined to, also on another system. -/
theorem joined_injective {other : List String} (h : ∀ name ∈ names, '/' ∉ name.toList)
    (hother : ∀ name ∈ other, '/' ∉ name.toList) (hne : names ≠ []) (hne' : other ≠ [])
    (heq : "/".intercalate names = "/".intercalate other) : names = other := by
  have hchars : ['/'].intercalate (names.map String.toList) =
      ['/'].intercalate (other.map String.toList) := by
    have := congrArg String.toList heq
    rwa [String.toList_intercalate, String.toList_intercalate] at this
  have hsplit := congrArg (List.splitOn '/') hchars
  rw [List.splitOn_intercalate _ (by simpa using h) (by simpa using hne),
    List.splitOn_intercalate _ (by simpa using hother) (by simpa using hne')] at hsplit
  exact List.map_injective_iff.mpr (fun _ _ => String.toList_inj.mp) hsplit

end Relative

end Savr
