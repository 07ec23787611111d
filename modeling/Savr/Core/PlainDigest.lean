import Savr.Core.Types
import Savr.Lib.PrefixCode

/-!
# A digest that is easy to compute

Results that need distinct archives to have distinct digests say so in a
hypothesis about `Blake3`.  `plainDigest` writes the content out instead of hashing
it: it has this property, and concrete runs can be evaluated with it.
-/

namespace Savr

open PrefixCode

/-- A code for digests. -/
def hashCode : Code Blake3Hash :=
  (list nat).comap Blake3Hash.digest fun a b h => by
    cases a
    cases b
    simpa using h

/-- A code for the kinds of a version. -/
def kindCode : Code VersionKind :=
  nat.comap (fun | .full => 0 | .differential => 1) fun a b h => by
    cases a <;> cases b <;> simp_all

/-- A code for the file entries of a version. -/
def fileEntryCode : Code FileEntry :=
  (pair string (pair nat (pair int hashCode))).comap
    (fun f => (f.relPath, f.size, f.mtime, f.hash)) fun a b h => by
      cases a
      cases b
      simpa using h

/-- A code for `meta.json`: its fields one behind the other, each by its own code. No two
records have the same code. -/
def archiveMetaCode : Code ArchiveMeta :=
  (pair nat (pair nat (pair (option nat) (pair kindCode
    (pair (list fileEntryCode) (pair (list string) nat)))))).comap
    (fun m => (m.gameId, m.deviceId, m.parent, m.kind, m.files, m.deletions, m.createdAt))
    fun a b h => by
      cases a
      cases b
      simpa using h

/-- A code for whole archives; it is what `plainDigest` takes as their digest. -/
def archiveCode : Code Archive :=
  (pair archiveMetaCode (pair (list (pair string (list byte))) (option (list byte)))).comap
    (fun a => (a.metadata, a.payload, a.registry)) fun a b h => by
      cases a
      cases b
      simpa using h

/-- The content itself as the digest. -/
@[reducible] def plainDigest : Blake3 where
  ofBytes bytes := ⟨(list byte).encode bytes⟩
  ofArchive a := ⟨archiveCode.encode a⟩
  packedLen a := (archiveCode.encode a).length

theorem plainDigest_injective : Function.Injective plainDigest.ofArchive := by
  intro a b h
  exact archiveCode.injective (Blake3Hash.mk.inj h)

end Savr
