import Mathlib.Data.Nat.Bitwise
import Savr.Daemon.Paths
import Savr.Daemon.Vdf

/-!
# The games that Steam has installed

`parse_library_paths`, `is_non_game_app`, `parse_app_manifest` and `discover_libraries` of
`savr-daemon/src/detection/steam.rs`, against the files as Steam lays them out: a list of library
folders in its root, and one manifest for each app below `steamapps` of a library.

What is on disk beside these files does not matter: an entry of another name, a manifest that
cannot be read or parsed, a library that is not mounted.

## Main results

* `parse_layout` — a tree in Steam's layout is parsed back.
* `parseAppManifest_document` — when a manifest is a game, and which.
* `installed_games_discovered` — what is discovered is what is installed.
-/

namespace Savr

namespace Vdf

/-- Look up a direct child by key (first match). -/
def Kv.get (node : Kv) (key : String) : Option Kv :=
  match node with
  | .obj entries => (entries.find? fun e => e.1 = key).map Prod.snd
  | .str _ => none

/-- `Kv::as_str`. -/
def Kv.asStr : Kv → Option String
  | .str s => some s
  | .obj _ => none

/-- `Kv::entries`. -/
def Kv.entries : Kv → List (String × Kv)
  | .obj entries => entries
  | .str _ => []

/-! ### Steam's layout -/

/-- The indentation of a line. -/
def indent (depth : ℕ) : List Char := List.replicate depth '\t'

mutual

/-- What follows a key: its text on the same line, or its entries one level deeper. -/
def Kv.layout (depth : ℕ) : Kv → List Char
  | .str s => '\t' :: '\t' :: (quoted s ++ ['\n'])
  | .obj entries =>
      '\n' :: (indent depth ++ ('{' :: '\n' ::
        (layoutEntries (depth + 1) entries ++ (indent depth ++ ['}', '\n']))))

/-- The entries of an object, each on its line. -/
def layoutEntries (depth : ℕ) : List (String × Kv) → List Char
  | [] => []
  | (key, value) :: entries =>
      indent depth ++ (quoted key ++ (value.layout depth ++ layoutEntries depth entries))

end

section Layout

theorem lexes_tab : Lexes ['\t'] [] := by
  intro rest
  rw [List.singleton_append, lexChars, if_neg (by decide), if_neg (by decide), if_neg (by decide),
    if_neg fun h => absurd h.1 (by decide),
    escapesAscii_other (by decide) fun h => absurd h.1 (by decide)]
  exact ⟨by simp, rfl⟩

theorem lexes_indent (depth : ℕ) : Lexes (indent depth) [] := by
  induction depth with
  | zero => exact lexes_nil
  | succ depth ih => exact lexes_tab.append ih

theorem lexes_newline : Lexes ['\n'] [] := lexes_blank (.inr rfl)

mutual

/-- A value lexes to its tokens, however deep it is indented. -/
theorem Kv.lexes_layout (depth : ℕ) (value : Kv) : Lexes (value.layout depth) value.tokens := by
  cases value with
  | str s =>
      rw [Kv.layout, Kv.tokens]
      exact lexes_tab.append (lexes_tab.append ((lexes_quoted s).append lexes_newline))
  | obj entries =>
      rw [Kv.layout, Kv.tokens]
      exact lexes_newline.append ((lexes_indent depth).append (lexes_open.append
        (lexes_newline.append ((lexes_layoutEntries (depth + 1) entries).append
          ((lexes_indent depth).append (lexes_close.append lexes_newline))))))

/-- The entries of an object lex to their tokens, one line after the other. -/
theorem lexes_layoutEntries (depth : ℕ) (entries : List (String × Kv)) :
    Lexes (layoutEntries depth entries) (entryTokens entries) := by
  cases entries with
  | nil =>
      rw [layoutEntries, entryTokens]
      exact lexes_nil
  | cons entry entries =>
      rw [layoutEntries, entryTokens]
      exact (lexes_indent depth).append ((lexes_quoted entry.1).append
        ((entry.2.lexes_layout depth).append (lexes_layoutEntries depth entries)))

end

/-- A document of these entries. -/
def document (entries : List (String × Kv)) : String := String.ofList (layoutEntries 0 entries)

/-- **A tree in Steam's layout is parsed back.** -/
theorem parse_layout (entries : List (String × Kv)) :
    parse (document entries) = some (.obj entries) := by
  rw [parse, document, tokenize_of_lexes (lexes_layoutEntries 0 entries), Option.bind_some,
    parseTokens_eq_some_iff.mpr rfl]
  rfl

end Layout

end Vdf

/-! ## The source -/

namespace Steam

open Vdf

/-- The digits behind a plus sign, if there is one. -/
def unsigned (chars : List Char) : List Char :=
  match chars with
  | [] => []
  | c :: rest => if c = '+' then rest else c :: rest

/-- `str::parse::<u32>`. -/
def parseU32 (text : String) : Option ℕ :=
  let digits := unsigned text.toList
  if digits ≠ [] ∧ digits.all Char.isDigit then
    let n := Nat.ofDigitChars 10 digits 0
    if n < 2 ^ 32 then some n else none
  else none

/-- `char::is_whitespace`: the property White_Space. -/
def isWhiteSpace (c : Char) : Bool :=
  let n := c.toNat
  (9 ≤ n ∧ n ≤ 13) ∨ n = 0x20 ∨ n = 0x85 ∨ n = 0xA0 ∨ n = 0x1680 ∨ (0x2000 ≤ n ∧ n ≤ 0x200A) ∨
    n = 0x2028 ∨ n = 0x2029 ∨ n = 0x202F ∨ n = 0x205F ∨ n = 0x3000

/-- `str::trim`. -/
def trimText (text : String) : String :=
  String.ofList ((text.toList.dropWhile isWhiteSpace).reverse.dropWhile isWhiteSpace).reverse

/-- `str::starts_with`. -/
def startsWith (text start : String) : Bool := start.toList.isPrefixOf text.toList

/-- `str::ends_with`. -/
def endsWith (text ending : String) : Bool := ending.toList.isSuffixOf text.toList

/-- Valve's keys are case-insensitive. -/
def isLibraryFolders (key : String) : Bool :=
  key.toList.map Char.toLower = "libraryfolders".toList

/-- The path of an entry, in the object form or in the legacy string form. -/
def libraryPath (entry : String × Kv) : Option String :=
  if (parseU32 entry.1).isNone then none
  else
    match entry.2 with
    | .str p => some p
    | .obj fields => ((Kv.obj fields).get "path").bind Kv.asStr

/-- `parse_library_paths`: the folders of the modern or the legacy form. -/
def parseLibraryPaths (vdf : String) : List String :=
  match parse vdf with
  | none => []
  | some root =>
      let container := ((root.entries.find? fun e => isLibraryFolders e.1).map Prod.snd).getD root
      container.entries.filterMap libraryPath

/-- Infrastructure of Steam: the redistributables, SteamVR, Proton and the Linux runtimes.
They are known by id or by the name of their directory. -/
def isNonGameApp (appid : ℕ) (installdir : String) : Bool :=
  appid = 228980 || appid = 250820 ||
    startsWith installdir "SteamLinuxRuntime" || installdir = "Steamworks Shared" ||
    installdir = "Proton Hotfix" || installdir = "Proton Next" ||
    startsWith installdir "Proton - " || startsWith installdir "Proton EasyAntiCheat" ||
    match List.isPrefixOf? "Proton ".toList installdir.toList with
    | some (c :: _) => c.isDigit
    | _ => false

/-- `SteamGame` with its display name. -/
structure App extends SteamGame where
  name : String

/-- `parse_app_manifest`: a game that is installed to its end. One bit of its flags says so,
and a game without a name goes by its directory. -/
def parseAppManifest (acf : String) : Option App := do
  let root ← parse acf
  let state ← root.get "AppState"
  let appid ← ((state.get "appid").bind Kv.asStr).bind parseU32
  let flags := (((state.get "StateFlags").bind Kv.asStr).bind parseU32).getD 0
  if flags &&& 4 = 0 then none
  else
    let installdir ← (state.get "installdir").bind Kv.asStr
    if isNonGameApp appid installdir then none
    else
      let name := ((((state.get "name").bind Kv.asStr).map trimText).filter
        fun name => name ≠ "").getD installdir
      some { appid, installdir, name }

/-- What reading the disk gives. -/
structure Disk where
  /-- `read_to_string`, or that it fails. -/
  readText : String → Option String
  /-- `read_dir`: the names of the entries, each with what `read_to_string` gives for it. -/
  readDir : String → Option (List (String × Option String))

/-- A library with its installed games. -/
structure Library where
  path : String
  games : List App

/-- The file is named like a manifest. -/
def isAppManifest (name : String) : Bool :=
  startsWith name "appmanifest_" && endsWith name ".acf"

section Discovery

variable (style : PathStyle) (disk : Disk)

/-- The folders that are listed, and the root. -/
def libraryPaths (steamRoot : String) : List String :=
  let vdfPath := join style (join style steamRoot "steamapps") "libraryfolders.vdf"
  let libPaths := ((disk.readText vdfPath).map parseLibraryPaths).getD []
  -- the root is itself a library even if the list omits it
  if libPaths.any fun p => components style p = components style steamRoot then libPaths
  else libPaths ++ [steamRoot]

/-- The manifests of one folder; there are none where it is not mounted. -/
def readLibrary (lib : String) : Option Library :=
  (disk.readDir (join style lib "steamapps")).map fun entries =>
    { path := lib
      games := entries.filterMap fun e =>
        if isAppManifest e.1 then e.2.bind parseAppManifest else none }

/-- `discover_libraries`. -/
def discoverLibraries (steamRoot : String) : List Library :=
  (libraryPaths style disk steamRoot).filterMap (readLibrary style disk)

end Discovery

/-! ## What Steam has written -/

/-- An entry of the list of the library folders. -/
inductive FolderEntry
  /-- The legacy form. -/
  | plain (index : ℕ) (path : String)
  | object (index : ℕ) (path : String) (before after : List (String × Kv))
  /-- Anything that is no library. -/
  | other (key : String) (value : Kv)

namespace FolderEntry

/-- The entry, as Steam writes it. -/
def entry : FolderEntry → String × Kv
  | plain index path => (toString index, .str path)
  | object index path before after =>
      (toString index, .obj (before ++ ("path", .str path) :: after))
  | other key value => (key, value)

/-- The folder that the entry lists. -/
def path : FolderEntry → Option String
  | plain _ p | object _ p _ _ => some p
  | other _ _ => none

/-- The entry cannot be taken for another one. -/
def WellFormed : FolderEntry → Prop
  | plain index _ => index < 2 ^ 32
  | object index _ before _ => index < 2 ^ 32 ∧ ∀ field ∈ before, field.1 ≠ "path"
  | other key _ => parseU32 key = none

end FolderEntry

/-- What Steam notes about an app. -/
structure AppState where
  appid : ℕ
  name : String
  stateFlags : ℕ
  installdir : String

namespace AppState

/-- The app is fully installed, and no infrastructure. -/
def IsGame (a : AppState) : Prop :=
  a.stateFlags.testBit 2 = true ∧ isNonGameApp a.appid a.installdir = false

instance (a : AppState) : Decidable a.IsGame :=
  inferInstanceAs (Decidable (_ ∧ _))

/-- The display name, or the install directory where there is none. -/
def app (a : AppState) : App where
  appid := a.appid
  installdir := a.installdir
  name := if trimText a.name = "" then a.installdir else trimText a.name

/-- The fields of a manifest, in any order and with any others. -/
structure WrittenAs (a : AppState) (fields : List (String × Kv)) : Prop where
  appid : (Kv.obj fields).get "appid" = some (.str (toString a.appid))
  name : (Kv.obj fields).get "name" = some (.str a.name)
  stateFlags : (Kv.obj fields).get "StateFlags" = some (.str (toString a.stateFlags))
  installdir : (Kv.obj fields).get "installdir" = some (.str a.installdir)
  appidBound : a.appid < 2 ^ 32
  flagsBound : a.stateFlags < 2 ^ 32

end AppState

/-- An entry of `steamapps`. -/
inductive FolderFile
  | manifest (name : String) (state : AppState) (fields : List (String × Kv))
  /-- A manifest that cannot be read, or not be parsed. -/
  | broken (name : String) (text : Option String)
  | other (name : String) (text : Option String)

namespace FolderFile

/-- The file, as the directory lists it. -/
def entry : FolderFile → String × Option String
  | manifest name _ fields => (name, some (document [("AppState", .obj fields)]))
  | broken name text | other name text => (name, text)

/-- The installed game that the file tells of. -/
def game : FolderFile → Option App
  | manifest _ state _ => if state.IsGame then some state.app else none
  | broken _ _ | other _ _ => none

/-- The file is named and written as Steam does it. -/
def WellFormed : FolderFile → Prop
  | manifest name state fields => isAppManifest name = true ∧ state.WrittenAs fields
  | broken _ text => ∀ t, text = some t → parse t = none
  | other name _ => isAppManifest name = false

end FolderFile

/-- A Steam root with its libraries. -/
structure Installation where
  /-- Modern files say "libraryfolders", legacy ones "LibraryFolders". -/
  folderKey : String
  folders : List FolderEntry
  /-- What is below `steamapps` of a library, if that can be read. -/
  steamapps : String → Option (List FolderFile)

/-- The installation is what is on disk: the list of library folders as Steam writes it, and
the manifests in each of them. -/
structure Installation.OnDisk (style : PathStyle) (inst : Installation) (steamRoot : String)
    (disk : Disk) : Prop where
  key : isLibraryFolders inst.folderKey = true
  folders : ∀ e ∈ inst.folders, e.WellFormed
  files : ∀ lib files, inst.steamapps lib = some files → ∀ f ∈ files, f.WellFormed
  vdf : disk.readText (join style (join style steamRoot "steamapps") "libraryfolders.vdf")
    = some (document [(inst.folderKey, .obj (inst.folders.map FolderEntry.entry))])
  dir : ∀ lib, disk.readDir (join style lib "steamapps")
    = (inst.steamapps lib).map (List.map FolderFile.entry)

/-- The libraries: those listed, and the root. -/
def Installation.paths (style : PathStyle) (inst : Installation) (steamRoot : String) :
    List String :=
  let listed := inst.folders.filterMap FolderEntry.path
  if ∃ p ∈ listed, components style p = components style steamRoot then listed
  else listed ++ [steamRoot]

/-! ## Reading it back -/

section ReadBack

/-- A number is read back from its digits. -/
theorem parseU32_toString {n : ℕ} (h : n < 2 ^ 32) : parseU32 (toString n) = some n := by
  have hlist : (toString n).toList = Nat.toDigits 10 n := Nat.toList_repr
  have hdigits : ∀ c ∈ Nat.toDigits 10 n, c.isDigit = true :=
    fun c hc => Nat.isDigit_of_mem_toDigits (by decide) le_rfl hc
  have hsigned : unsigned (Nat.toDigits 10 n) = Nat.toDigits 10 n := by
    cases hdigit : Nat.toDigits 10 n with
    | nil => rfl
    | cons c rest =>
        have hc : c ≠ '+' := by
          rintro rfl
          exact absurd (hdigits '+' (hdigit ▸ List.mem_cons_self)) (by decide)
        exact if_neg hc
  rw [parseU32, hlist, hsigned, if_pos ⟨Nat.toDigits_ne_nil, List.all_eq_true.mpr hdigits⟩,
    Nat.ofDigitChars_ten_toDigits, if_pos h]

/-- The first field of a key that is not there before is found. -/
theorem get_append {fields after : List (String × Kv)} {key : String} {value : Kv}
    (h : ∀ field ∈ fields, field.1 ≠ key) :
    (Kv.obj (fields ++ (key, value) :: after)).get key = some value := by
  have hnone : fields.find? (fun e => e.1 = key) = none :=
    List.find?_eq_none.mpr fun field hfield => by simpa using h field hfield
  rw [Kv.get, List.find?_append, hnone, Option.none_or,
    List.find?_cons_of_pos (by simp)]
  rfl

/-- The entry of a folder lists this folder. -/
theorem libraryPath_entry {e : FolderEntry} (h : e.WellFormed) : libraryPath e.entry = e.path := by
  cases e with
  | plain index path =>
      rw [FolderEntry.entry, libraryPath, parseU32_toString h]
      rfl
  | object index path before after =>
      rw [FolderEntry.entry, libraryPath, parseU32_toString h.1]
      show ((Kv.obj (before ++ ("path", .str path) :: after)).get "path").bind Kv.asStr = some path
      rw [get_append h.2]
      rfl
  | other key value =>
      rw [FolderEntry.entry, libraryPath, show parseU32 key = none from h]
      rfl

/-- The paths of the list of the library folders. -/
theorem parseLibraryPaths_document {key : String} {folders : List FolderEntry}
    (hkey : isLibraryFolders key = true) (h : ∀ e ∈ folders, e.WellFormed) :
    parseLibraryPaths (document [(key, .obj (folders.map FolderEntry.entry))])
      = folders.filterMap FolderEntry.path := by
  have hcontainer : ([(key, Kv.obj (folders.map FolderEntry.entry))].find?
      fun e => isLibraryFolders e.1) = some (key, .obj (folders.map FolderEntry.entry)) :=
    List.find?_cons_of_pos hkey
  rw [parseLibraryPaths, parse_layout]
  show ((([(key, Kv.obj (folders.map FolderEntry.entry))].find?
    fun e => isLibraryFolders e.1).map Prod.snd).getD _).entries.filterMap libraryPath = _
  rw [hcontainer]
  show (folders.map FolderEntry.entry).filterMap libraryPath = _
  rw [List.filterMap_map]
  exact List.filterMap_congr fun e he => libraryPath_entry (h e he)

/-- The bit of an installed app. -/
theorem flags_and_four (flags : ℕ) : flags &&& 4 = 0 ↔ flags.testBit 2 = false := by
  have h := Nat.and_two_pow flags 2
  rw [show (4 : ℕ) = 2 ^ 2 from rfl, h]
  cases flags.testBit 2 <;> simp

/-- **When a manifest is a game, and which.** -/
theorem parseAppManifest_document {a : AppState} {fields : List (String × Kv)}
    (h : a.WrittenAs fields) :
    parseAppManifest (document [("AppState", .obj fields)])
      = if a.IsGame then some a.app else none := by
  have hstate : (Kv.obj [("AppState", .obj fields)]).get "AppState" = some (.obj fields) := rfl
  have happid : ((((Kv.obj fields).get "appid").bind Kv.asStr).bind parseU32) = some a.appid := by
    rw [h.appid]
    exact parseU32_toString h.appidBound
  have hflags : ((((Kv.obj fields).get "StateFlags").bind Kv.asStr).bind parseU32)
      = some a.stateFlags := by
    rw [h.stateFlags]
    exact parseU32_toString h.flagsBound
  have hdir : (((Kv.obj fields).get "installdir").bind Kv.asStr) = some a.installdir := by
    rw [h.installdir]
    rfl
  have hname : ((((Kv.obj fields).get "name").bind Kv.asStr).map trimText)
      = some (trimText a.name) := by
    rw [h.name]
    rfl
  rw [parseAppManifest, parse_layout]
  simp only [Option.bind_eq_bind, Option.bind_some, hstate, happid, hflags, hdir, hname,
    Option.getD_some, flags_and_four]
  by_cases hbit : a.stateFlags.testBit 2 = true
  · rw [if_neg (by simp [hbit])]
    by_cases hgame : isNonGameApp a.appid a.installdir = true
    · rw [if_pos hgame, if_neg fun hboth => Bool.false_ne_true (hboth.2.symm.trans hgame)]
    · rw [if_neg hgame, if_pos ⟨hbit, by simpa using hgame⟩, AppState.app]
      by_cases hempty : trimText a.name = ""
      · simp [Option.filter, hempty]
      · simp [Option.filter, hempty]
  · rw [if_pos (by simpa using hbit), if_neg fun hboth => hbit hboth.1]

/-- A file of the folder tells of its game. -/
theorem game_entry {f : FolderFile} (h : f.WellFormed) :
    (if isAppManifest f.entry.1 then f.entry.2.bind parseAppManifest else none) = f.game := by
  cases f with
  | manifest name state fields =>
      rw [FolderFile.entry, if_pos h.1, Option.bind_some, parseAppManifest_document h.2]
      rfl
  | broken name text =>
      rw [FolderFile.entry, FolderFile.game]
      cases text with
      | none => simp
      | some text =>
          have hparse : parseAppManifest text = none := by
            rw [parseAppManifest, h text rfl]
            rfl
          simp [hparse]
  | other name text =>
      have hother : isAppManifest name = false := h
      rw [FolderFile.entry, hother]
      rfl

variable {style : PathStyle} {inst : Installation} {steamRoot : String} {disk : Disk}

/-- Reading a library of an installation gives its games. -/
theorem readLibrary_onDisk (h : inst.OnDisk style steamRoot disk) (lib : String) :
    readLibrary style disk lib = (inst.steamapps lib).map fun files =>
      ⟨lib, files.filterMap FolderFile.game⟩ := by
  rw [readLibrary, h.dir lib]
  cases hfiles : inst.steamapps lib with
  | none => rfl
  | some files =>
      show some (Library.mk lib ((files.map FolderFile.entry).filterMap _)) = some _
      rw [List.filterMap_map]
      exact congrArg (fun games => some (Library.mk lib games))
        (List.filterMap_congr fun f hf => game_entry (h.files lib files hfiles f hf))

/-- **What is discovered is what is installed.**  For every Steam root whose files are as Steam
lays them out: the libraries are those listed, in this order, and the root itself, as far as
`steamapps` can be read; and the games of a library are its apps that are fully installed and no
infrastructure, under their display names.  A broken manifest and a file of another name cost no
other game. -/
theorem installed_games_discovered (h : inst.OnDisk style steamRoot disk) :
    discoverLibraries style disk steamRoot =
      (inst.paths style steamRoot).filterMap fun lib => (inst.steamapps lib).map fun files =>
        ⟨lib, files.filterMap FolderFile.game⟩ := by
  have hpaths : libraryPaths style disk steamRoot = inst.paths style steamRoot := by
    simp only [libraryPaths, h.vdf, Option.map_some, Option.getD_some,
      parseLibraryPaths_document h.key h.folders, Installation.paths, List.any_eq_true,
      decide_eq_true_eq]
  rw [discoverLibraries, hpaths]
  exact List.filterMap_congr fun lib _ => readLibrary_onDisk h lib

end ReadBack

section Example

/-- What Steam notes about Half-Life 2, with an icon that no field of `AppState` is for. -/
def halfLife : AppState := ⟨220, " Half-Life 2", 4, "Half-Life 2"⟩

/-- The manifest of a game. -/
def halfLifeFields : List (String × Kv) :=
  [("appid", .str "220"), ("name", .str " Half-Life 2"), ("StateFlags", .str "4"),
    ("installdir", .str "Half-Life 2"), ("UserConfig", .obj [("language", .str "english")])]

/-- A runtime of Proton, which is installed beside it. -/
def proton : AppState := ⟨2805730, "Proton 9.0", 4, "Proton 9.0 (Beta)"⟩

/-- The manifest of a tool, with its fields in another order. -/
def protonFields : List (String × Kv) :=
  [("appid", .str "2805730"), ("installdir", .str "Proton 9.0 (Beta)"),
    ("StateFlags", .str "4"), ("name", .str "Proton 9.0")]

/-- What is below the two directories `steamapps` that can be read. -/
def deckFolder (path : String) : Option (List FolderFile) :=
  if path = "/deck/Steam/steamapps" then
    some [.manifest "appmanifest_2805730.acf" proton protonFields,
      .broken "appmanifest_1.acf" none, .other "common" none]
  else if path = "/sd/steamapps" then
    some [.manifest "appmanifest_220.acf" halfLife halfLifeFields]
  else none

/-- The root is not listed; one library is on a card, another is not mounted. -/
def deck : Installation where
  folderKey := "LibraryFolders"
  folders := [.other "TimeNextStatsReport" (.str "1"), .object 0 "/sd" [("label", .str "")] [],
    .plain 1 "/gone"]
  steamapps lib := deckFolder (join .unix lib "steamapps")

/-- The disk of the example. -/
def deckDisk : Disk where
  readText path :=
    if path = "/deck/Steam/steamapps/libraryfolders.vdf" then
      some (document [(deck.folderKey, .obj (deck.folders.map FolderEntry.entry))])
    else none
  readDir path := (deckFolder path).map (List.map FolderFile.entry)

theorem halfLife_written : halfLife.WrittenAs halfLifeFields :=
  ⟨rfl, rfl, rfl, rfl, by decide, by decide⟩

theorem proton_written : proton.WrittenAs protonFields :=
  ⟨rfl, rfl, rfl, rfl, by decide, by decide⟩

/-- The disk of the example is as Steam lays it out. -/
theorem deck_onDisk : deck.OnDisk .unix "/deck/Steam" deckDisk where
  key := by decide +kernel
  folders := by
    have hother : parseU32 "TimeNextStatsReport" = none := by decide +kernel
    have hcard : ∀ field ∈ [("label", Kv.str "")], field.1 ≠ "path" :=
      List.forall_mem_singleton.mpr (by decide)
    have hgone : 1 < 2 ^ 32 := by decide
    exact List.forall_mem_cons.mpr ⟨hother, List.forall_mem_cons.mpr ⟨⟨by decide, hcard⟩,
      List.forall_mem_singleton.mpr hgone⟩⟩
  files := by
    intro lib files hfiles
    have hcommon : isAppManifest "common" = false := by decide +kernel
    have hproton : isAppManifest "appmanifest_2805730.acf" = true := by decide +kernel
    have hgame : isAppManifest "appmanifest_220.acf" = true := by decide +kernel
    simp only [deck, deckFolder] at hfiles
    split_ifs at hfiles with hroot hcard
    · obtain rfl := Option.some.inj hfiles
      exact List.forall_mem_cons.mpr ⟨⟨hproton, proton_written⟩,
        List.forall_mem_cons.mpr ⟨fun t ht => (by cases ht), List.forall_mem_singleton.mpr hcommon⟩⟩
    · obtain rfl := Option.some.inj hfiles
      exact List.forall_mem_singleton.mpr ⟨hgame, halfLife_written⟩
  vdf := by
    have hpath : join .unix (join .unix "/deck/Steam" "steamapps") "libraryfolders.vdf"
        = "/deck/Steam/steamapps/libraryfolders.vdf" := by decide +kernel
    rw [hpath]
    simp only [deckDisk, if_true]
  dir := fun _ => rfl

/-- The card, and then the root, where Proton is no game. -/
theorem deck_discovered :
    discoverLibraries .unix deckDisk "/deck/Steam" =
      [⟨"/sd", [⟨⟨220, "Half-Life 2"⟩, "Half-Life 2"⟩]⟩, ⟨"/deck/Steam", []⟩] := by
  rw [installed_games_discovered deck_onDisk]
  have hpaths : deck.paths .unix "/deck/Steam" = ["/sd", "/gone", "/deck/Steam"] := by
    decide +kernel
  rw [hpaths]
  rfl

end Example

end Steam

end Savr
