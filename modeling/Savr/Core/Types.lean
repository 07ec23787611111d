import Mathlib.Data.List.Basic
import Mathlib.Data.List.Nodup
import Mathlib.Tactic

/-!
# Core wire types

The structs of `savr-core/src/types.rs` that the daemon and the server exchange,
together with the digest they are addressed by.

## Design notes

* A UUID is only ever compared and printed, so it is a natural number; `nil` is
  `0`.  Points in time are natural numbers as well.
* `Blake3Hash` is a digest of unbounded length.  The digest function itself is
  third-party code: it is the parameter `Blake3`, and where a result needs that
  distinct inputs have distinct digests, it says so in a hypothesis.
-/

namespace Savr

/-- `uuid::Uuid`. -/
abbrev Uuid := ℕ

/-- `Uuid::nil`, which is never drawn. -/
def Uuid.nil : Uuid := 0

/-- The id of a game of an account. -/
abbrev GameId := Uuid
/-- The id of a version. -/
abbrev VersionId := Uuid
/-- The id of a paired device. -/
abbrev DeviceId := Uuid
/-- The id of an account. -/
abbrev AccountId := Uuid

/-- `DateTime<Utc>`, in nanoseconds since the epoch. -/
abbrev Timestamp := ℕ

/-- The content of a file. -/
abbrev Bytes := List UInt8

/-- The lowercase hex digits of `n`, padded to `width`. -/
def hexPadded (width n : ℕ) : String :=
  let digits := Nat.toDigits 16 n
  String.ofList (List.replicate (width - digits.length) '0' ++ digits)

/-- The hyphenated text of a UUID: 8, 4, 4, 4 and 12 hex digits. -/
def Uuid.text (u : Uuid) : String :=
  "-".intercalate
    [hexPadded 8 (u / 2 ^ 96 % 2 ^ 32), hexPadded 4 (u / 2 ^ 80 % 2 ^ 16),
     hexPadded 4 (u / 2 ^ 64 % 2 ^ 16), hexPadded 4 (u / 2 ^ 48 % 2 ^ 16),
     hexPadded 12 (u % 2 ^ 48)]

theorem Uuid.text_ne_empty (u : Uuid) : Uuid.text u ≠ "" := by
  intro hempty
  have hlist := congrArg String.toList hempty
  simp [Uuid.text] at hlist

section Hex

variable {P : Char → Prop}

/-- Hexadecimal digits are all that a number is written with. -/
theorem forall_mem_toDigits (h : ∀ d < 16, P (Nat.digitChar d)) (n : ℕ) :
    ∀ c ∈ Nat.toDigits 16 n, P c := by
  induction n using Nat.strong_induction_on with
  | h n ih =>
      intro c hc
      rw [Nat.toDigits_eq_if (by decide)] at hc
      split at hc
      · obtain rfl := List.mem_singleton.mp hc
        exact h n (by assumption)
      · rcases List.mem_append.mp hc with hc | hc
        · exact ih (n / 16) (by omega) c hc
        · obtain rfl := List.mem_singleton.mp hc
          exact h _ (Nat.mod_lt n (by decide))

theorem toList_hexPadded (width n : ℕ) : (hexPadded width n).toList =
    List.replicate (width - (Nat.toDigits 16 n).length) '0' ++ Nat.toDigits 16 n := by
  simp [hexPadded]

theorem hexPadded_ne_empty (width n : ℕ) : hexPadded width n ≠ "" := by
  intro hempty
  have hlist := toList_hexPadded width n
  rw [hempty] at hlist
  exact Nat.toDigits_ne_nil (List.append_eq_nil_iff.mp hlist.symm).2

/-- What holds of the sixteen digits holds of every character of a hex number. -/
theorem forall_mem_hexPadded (h : ∀ d < 16, P (Nat.digitChar d)) (width n : ℕ) :
    ∀ c ∈ (hexPadded width n).toList, P c := by
  intro c hc
  rw [toList_hexPadded] at hc
  rcases List.mem_append.mp hc with hc | hc
  · rw [(List.mem_replicate.mp hc).2]
    exact h 0 (by decide)
  · exact forall_mem_toDigits h n c hc

/-- The characters of a joined text come from the separator and the segments. -/
theorem forall_mem_intercalate {sep : String} {segs : List String}
    (hsep : ∀ c ∈ sep.toList, P c) (hsegs : ∀ s ∈ segs, ∀ c ∈ s.toList, P c) :
    ∀ c ∈ (sep.intercalate segs).toList, P c := by
  induction segs with
  | nil => simp
  | cons s segs ih =>
      intro c hc
      cases segs with
      | nil => exact hsegs s (by simp) c (by simpa using hc)
      | cons t segs =>
          rw [String.intercalate_cons_cons, String.toList_append, String.toList_append] at hc
          rcases List.mem_append.mp hc with hc | hc
          · rcases List.mem_append.mp hc with hc | hc
            · exact hsegs s (by simp) c hc
            · exact hsep c hc
          · exact ih (fun u hu => hsegs u (List.mem_cons_of_mem s hu)) c hc

/-- What holds of the hex digits and of the hyphen holds of every character of a UUID's text. -/
theorem Uuid.forall_mem_text (h : ∀ d < 16, P (Nat.digitChar d)) (hsep : P '-') (u : Uuid) :
    ∀ c ∈ (Uuid.text u).toList, P c := by
  refine forall_mem_intercalate ?_ fun s hs => ?_
  · intro c hc
    rw [List.mem_singleton.mp hc]
    exact hsep
  · simp only [List.mem_cons, List.not_mem_nil, or_false] at hs
    rcases hs with rfl | rfl | rfl | rfl | rfl <;> exact forall_mem_hexPadded h _ _

end Hex

/-- A blake3 content hash. -/
structure Blake3Hash where
  digest : List ℕ
  deriving DecidableEq, Repr

/-- `VersionKind`: whether a version stands on its own. -/
inductive VersionKind
  | full
  | differential
  deriving DecidableEq, Repr

/-- One file of a save set, as a snapshot lists it. -/
structure FileEntry where
  relPath : String
  size : ℕ
  mtime : ℤ
  hash : Blake3Hash
  deriving DecidableEq, Repr

/-- A version as the API lists it: its place in the history, its files and its archive. A
client makes all of it but the id, the `seq` and the time. -/
structure Version where
  id : VersionId
  gameId : GameId
  deviceId : DeviceId
  parent : Option VersionId
  kind : VersionKind
  files : List FileEntry
  blobHash : Blake3Hash
  bytes : ℕ
  /-- Server-assigned, per game. -/
  seq : ℕ
  createdAt : Timestamp
  deriving DecidableEq, Repr

/-- The history lists no id twice. -/
def DistinctIds (versions : List Version) : Prop :=
  (versions.map Version.id).Nodup

/-- Request body of `POST /games/{id}/versions`: the server assigns `id`, `seq`
and `createdAt`, the client supplies the rest. -/
structure CreateVersion where
  parent : Option VersionId
  kind : VersionKind
  files : List FileEntry
  blobHash : Blake3Hash
  bytes : ℕ
  deviceId : DeviceId
  deriving DecidableEq, Repr

/-- The client-supplied part of a stored version. -/
def Version.request (v : Version) : CreateVersion where
  parent := v.parent
  kind := v.kind
  files := v.files
  blobHash := v.blobHash
  bytes := v.bytes
  deviceId := v.deviceId

/-- How many full versions of a game are kept, and how many differentials on each of them. -/
structure Retention where
  full : ℕ
  diffPerFull : ℕ
  deriving DecidableEq, Repr

/-- `Retention::default`. -/
instance : Inhabited Retention where
  default := { full := 5, diffPerFull := 10 }

/-! ### Games and the synced config -/

/-- The operating systems a device runs. -/
inductive Os
  | windows
  | linux
  | macos
  deriving DecidableEq, Repr

/-- What a file pattern of the manifest is for. -/
inductive SaveTag
  | save
  | config
  deriving DecidableEq, Repr

/-- Where a game of the catalog comes from. It decides how its save targets are found. -/
inductive GameSource
  /-- Matched a manifest entry. -/
  | manifest
  /-- An installed Steam game without one. -/
  | steam
  /-- Added by hand. -/
  | custom
  deriving DecidableEq, Repr

/-- A save location template, which still holds its placeholders. -/
structure SaveTarget where
  glob : String
  tags : List SaveTag
  osHint : Option Os
  /-- A Windows registry key, not a path. -/
  registry : Bool
  deriving DecidableEq, Repr

/-- A game; the play statistics are defaulted, as in the source. What a catalog says of a
game is joined with them when it is listed. -/
structure Game where
  id : GameId
  title : String
  source : GameSource
  steamAppid : Option ℕ
  saveTargets : List SaveTarget
  running : Bool := false
  lastPlayed : Option Timestamp := none
  lastSessionSecs : Option ℤ := none
  totalSecs : ℤ := 0
  deriving DecidableEq, Repr

/-- Save paths that the user set for a game. -/
structure PathOverride where
  gameId : GameId
  globs : List String
  deriving DecidableEq, Repr

/-- How a conflict is to be resolved when the user is not asked. -/
inductive ConflictPolicy
  | manual
  | latestWins
  | theirsWins
  | mineWins
  deriving DecidableEq, Repr

/-- What the daemon does with a version of another device. -/
inductive AutoPullPolicy
  | ask
  | auto
  deriving DecidableEq, Repr

/-- Account-level config, synced to every device. The tag changes with every accepted write,
and a write has to name the tag it was made from. -/
structure SyncedConfig where
  tag : String
  customGames : List Game
  overrides : List PathOverride
  conflictPolicy : ConflictPolicy
  autopullPolicy : AutoPullPolicy
  retention : Retention
  deriving DecidableEq, Repr

/-- `SyncedConfig::default`. -/
instance : Inhabited SyncedConfig where
  default :=
    { tag := "", customGames := [], overrides := [], conflictPolicy := .manual,
      autopullPolicy := .ask, retention := default }

/-- The same config, stored under another tag. -/
def SyncedConfig.withTag (cfg : SyncedConfig) (tag : String) : SyncedConfig :=
  { cfg with tag }

/-- The same settings, whatever the tags. -/
def SyncedConfig.SameUpToTag (cfg cfg' : SyncedConfig) : Prop :=
  cfg.withTag "" = cfg'.withTag ""

instance (cfg cfg' : SyncedConfig) : Decidable (cfg.SameUpToTag cfg') :=
  inferInstanceAs (Decidable (cfg.withTag "" = cfg'.withTag ""))

/-- `meta.json` of a `.savr` archive: what the archive is a version of, and how it changes
the archives before it. -/
structure ArchiveMeta where
  gameId : GameId
  deviceId : DeviceId
  parent : Option VersionId
  kind : VersionKind
  /-- Full logical file set of the snapshot. -/
  files : List FileEntry
  /-- `rel_path`s removed since the diff base (differential only). -/
  deletions : List String
  createdAt : Timestamp
  deriving DecidableEq, Repr

/-- What a `.savr` archive carries: its metadata, the packed files with their
contents, and the registry export if there is one.  The container around it
(JSON, tar, zstd) reproduces what was written to it. -/
structure Archive where
  metadata : ArchiveMeta
  payload : List (String × Bytes)
  registry : Option Bytes
  deriving DecidableEq, Repr

/-- The digest of file contents and of packed archives (`Blake3Hash::of`), and the
byte length of a packed archive. -/
class Blake3 where
  ofBytes : Bytes → Blake3Hash
  ofArchive : Archive → Blake3Hash
  packedLen : Archive → ℕ

end Savr
