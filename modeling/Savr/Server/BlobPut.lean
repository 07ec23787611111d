import Savr.Core.Types
import Savr.Lib.Inodes
import Savr.Lib.Interleaving
import Mathlib.Data.UInt
import Mathlib.Logic.Equiv.Basic

/-!
# Uploading blobs

`FsBlobStore::put` of `savr-server/src/blobs.rs`, for the calls of `blob_put` in
`savr-server/src/api.rs`: a body is written to the one temp file of its hash while its bytes
are hashed, and the temp file is renamed once the digest is right.

The digest is that of the bytes received, and the object is what the temp file holds.  Two
uploads of one blob at a time share the temp file, and then these can be different; the code
leaves that to its callers ("safe for the single-writer model").

## Main results

* `BlobPut.exec_sound`, `BlobPut.exec_frame` — what a step does to its own files and to others.
* `PutWorld.Sound.step` — with one writer for each blob, a temp file holds what its writer has
  received.
* `objects_match_names` — objects match their names, and completed uploads stay.
-/

namespace Savr

open Inodes Interleaving LabelledRun

/-! ## Names -/

/-- The components of a path under the root of the store. -/
abbrev ObjPath := List String

/-- `is_ascii_hexdigit`. -/
def isHexDigit (c : Char) : Bool :=
  ('0' ≤ c ∧ c ≤ '9') ∨ ('a' ≤ c ∧ c ≤ 'f') ∨ ('A' ≤ c ∧ c ≤ 'F')

/-- The check of `object_path`: 64 hexadecimal digits, of either case. -/
def validHash (hash : String) : Bool := hash.utf8ByteSize = 64 ∧ hash.toList.all isHexDigit

/-- `blobs/<hh>/<hash>`: fan out by the first two hex chars. -/
def objPath (hash : String) : ObjPath := [String.ofList (hash.toList.take 2), hash]

/-- `with_extension("tmp")`; a valid hash has no extension yet. -/
def objTmpPath (hash : String) : ObjPath :=
  [String.ofList (hash.toList.take 2), hash ++ ".tmp"]

section Names

variable {hash hash' : String}

theorem objPath_inj (h : objPath hash = objPath hash') : hash = hash' :=
  (List.cons.inj (List.cons.inj h).2).1

theorem objTmpPath_inj (h : objTmpPath hash = objTmpPath hash') : hash = hash' := by
  have happend : hash ++ ".tmp" = hash' ++ ".tmp" := (List.cons.inj (List.cons.inj h).2).1
  have hlist := congrArg String.toList happend
  rw [String.toList_append, String.toList_append] at hlist
  exact String.toList_injective (List.append_cancel_right hlist)

/-- No temp file has the name of an object. -/
theorem objTmpPath_ne_objPath (hvalid : validHash hash = true) :
    objTmpPath hash' ≠ objPath hash := by
  intro h
  have hname : hash' ++ ".tmp" = hash := (List.cons.inj (List.cons.inj h).2).1
  have hdot : '.' ∈ hash.toList := by
    rw [← hname, String.toList_append]
    exact List.mem_append_right _ (by decide)
  have hhex := List.all_eq_true.mp (of_decide_eq_true hvalid).2 _ hdot
  cases hhex

end Names

/-! ## The calls -/

/-- Why an upload fails. -/
inductive BlobError
  | io
  | body
  | hashMismatch (expected got : String)
  deriving DecidableEq, Repr

/-- Where a call is. Between two phases the call may be dropped, and other calls may make
their steps. -/
inductive PutPhase
  | create
  /-- The temp file is open: its inode, the offset of the next write, what has been received
  and hashed, and what of the last chunk is not written yet. -/
  | writing (inode offset : ℕ) (received pending : Bytes)
  | committing (received : Bytes)
  | removing (got : String)
  /-- The call has returned, for `Ok` the number of these bytes. -/
  | ended (outcome : Except BlobError Bytes)
  | aborted
  deriving DecidableEq

/-- The temp file has been created, and the call has not ended. -/
def PutPhase.holdsTemp : PutPhase → Bool
  | writing _ _ _ _ | committing _ | removing _ => true
  | create | ended _ | aborted => false

/-- The upload has yet to return. -/
def PutPhase.inProgress : PutPhase → Bool
  | create | writing _ _ _ _ | committing _ | removing _ => true
  | ended _ | aborted => false

/-- The next item of the body. -/
inductive BodyItem
  | chunk (bytes : Bytes)
  | fails
  | ends
  deriving DecidableEq, Repr

/-- What the environment decides about a step: whether the call is dropped, what arrives, and
what the file system does with it. -/
structure PutDraw where
  /-- The call is dropped. -/
  abort : Bool
  /-- The operation on the files succeeds. -/
  ok : Bool
  item : BodyItem
  /-- How many bytes the next write takes. -/
  len : ℕ
  deriving DecidableEq, Repr

/-- An upload under the hash of its URL. -/
structure BlobPut where
  hash : String
  phase : PutPhase

/-- The files of the object store. -/
abbrev BlobFiles := Files ObjPath UInt8

namespace BlobPut

section Digest

variable (digest : Bytes → String)

/-- A call that is not dropped makes its next step; `digest` is `blake3`, as hex. The object
appears by a rename, after the digest has been compared. -/
def advance (files : BlobFiles) (hash : String) (draw : PutDraw) :
    PutPhase → BlobFiles × PutPhase
  | .create =>
      if draw.ok then
        (files.create (objTmpPath hash), .writing (files.created (objTmpPath hash)) 0 [] [])
      else (files, .ended (.error .io))
  | .writing inode offset received [] =>
      match draw.item with
      | .chunk bytes => (files, .writing inode offset (received ++ bytes) bytes)
      | .fails => (files, .ended (.error .body))
      | .ends =>
          if draw.ok then
            (files, if digest received = hash then .committing received
              else .removing (digest received))
          else (files, .ended (.error .io))
  | .writing inode offset received pending =>
      if draw.ok then
        (files.write inode offset (pending.take draw.len),
          .writing inode (offset + (pending.take draw.len).length) received
            (pending.drop draw.len))
      else (files, .ended (.error .io))
  | .committing received =>
      match if draw.ok then files.rename (objTmpPath hash) (objPath hash) else none with
      | some files => (files, .ended (.ok received))
      | none => (files, .ended (.error .io))
  | .removing got =>
      ((if draw.ok then files.remove (objTmpPath hash) else none).getD files,
        .ended (.error (.hashMismatch hash got)))
  | phase => (files, phase)

/-- One step of an upload; the client may abort it at any of them. -/
def exec (files : BlobFiles) (draw : PutDraw) (p : BlobPut) : BlobFiles × BlobPut :=
  if draw.abort then (files, { p with phase := .aborted })
  else
    ((advance digest files p.hash draw p.phase).1,
      { p with phase := (advance digest files p.hash draw p.phase).2 })

end Digest

end BlobPut

/-- Any number of calls, each for a valid hash. -/
def blobProgram (digest : Bytes → String) : Program BlobFiles ℕ BlobPut PutDraw where
  Init p := validHash p.hash = true ∧ p.phase = .create
  Ready _ _ p _ := p.phase.inProgress = true
  exec files _ p draw := p.exec digest files draw

instance (digest : Bytes → String) : DecidablePred (blobProgram digest).Init :=
  fun p => inferInstanceAs (Decidable (validHash p.hash = true ∧ p.phase = .create))

instance (digest : Bytes → String) :
    ∀ files i p draw, Decidable ((blobProgram digest).Ready files i p draw) :=
  fun _ _ p _ => inferInstanceAs (Decidable (p.phase.inProgress = true))

/-- The object store and its uploads. -/
abbrev PutWorld := World BlobFiles ℕ BlobPut

/-- One step of some call. -/
def PutStep (digest : Bytes → String) : PutWorld → Event ℕ BlobPut PutDraw → PutWorld → Prop :=
  (blobProgram digest).Step

/-- The single-writer model: a call creates its temp file only while no other call for the
same blob has one. -/
def PutWorld.SingleWriter (w : PutWorld) : Event ℕ BlobPut PutDraw → Prop
  | .start _ _ => True
  | .exec i _ => ∀ p, w.procs i = some p → p.phase = .create →
      ∀ j q, j ≠ i → w.procs j = some q → q.hash = p.hash → q.phase.holdsTemp = false

/-- The server has just started, on a store whose objects match their names. -/
structure PutWorld.New (digest : Bytes → String) (w : PutWorld) : Prop where
  objects : ∀ hash content, validHash hash = true → w.shared.read (objPath hash) = some content →
    digest content = hash
  procs : ∀ i, w.procs i = none

/-! ## What a call knows -/

namespace BlobPut

variable {digest : Bytes → String} {files files' : BlobFiles} {p q : BlobPut} {draw : PutDraw}
  {hash : String} {received : Bytes}

/-- What holds of the temp file and the object of a call in a phase: what was written is what
was received, up to what is still pending. -/
def Holds (digest : Bytes → String) (files : BlobFiles) (hash : String) : PutPhase → Prop
  | .writing inode offset received pending =>
      files.names (objTmpPath hash) = some inode ∧ ∃ written,
        files.read (objTmpPath hash) = some written ∧ offset = written.length ∧
          received = written ++ pending
  | .committing received =>
      files.read (objTmpPath hash) = some received ∧ digest received = hash
  | .ended (.ok received) =>
      files.read (objPath hash) = some received ∧ digest received = hash
  | _ => True

/-- Nothing changes at this name. -/
structure Same (files files' : BlobFiles) (path : ObjPath) : Prop where
  names : files'.names path = files.names path
  read : files'.read path = files.read path

theorem Same.refl (path : ObjPath) : Same files files path := ⟨rfl, rfl⟩

/-- A call goes on knowing what it knows while others leave its files alone; where it has no
temp file, only the object counts, and another upload of it does no harm. -/
theorem Holds.of_same {phase : PutPhase} (h : Holds digest files hash phase)
    (htmp : phase.holdsTemp = true → Same files files' (objTmpPath hash))
    (hobj : ∀ content, files.read (objPath hash) = some content → digest content = hash →
      files'.read (objPath hash) = some content) :
    Holds digest files' hash phase := by
  match phase, h with
  | .writing inode offset received pending, ⟨hnames, written, hread, hrest⟩ =>
      have hsame := htmp rfl
      exact ⟨hsame.names.trans hnames, written, hsame.read.trans hread, hrest⟩
  | .committing received, ⟨hread, hdigest⟩ => exact ⟨(htmp rfl).read.trans hread, hdigest⟩
  | .ended (.ok received), ⟨hread, hdigest⟩ => exact ⟨hobj received hread hdigest, hdigest⟩
  | .create, _ | .removing _, _ | .ended (.error _), _ | .aborted, _ => trivial

/-- What a step does to the files of other names, and to the object of its own. -/
theorem advance_frame {phase : PutPhase} (h : Holds digest files hash phase)
    (hvalid : validHash hash = true) :
    (∀ path, path ≠ objTmpPath hash → path ≠ objPath hash →
      Same files (advance digest files hash draw phase).1 path) ∧
    ((advance digest files hash draw phase).1.read (objPath hash) =
        files.read (objPath hash) ∨
      ∃ content, (advance digest files hash draw phase).1.read (objPath hash) = some content ∧
        digest content = hash) := by
  have hne : objPath hash ≠ objTmpPath hash := (objTmpPath_ne_objPath hvalid).symm
  have hquiet : ∀ {files'}, (∀ path, path ≠ objTmpPath hash → Same files files' path) →
      (∀ path, path ≠ objTmpPath hash → path ≠ objPath hash → Same files files' path) ∧
        (files'.read (objPath hash) = files.read (objPath hash) ∨
          ∃ content, files'.read (objPath hash) = some content ∧ digest content = hash) :=
    fun hsame => ⟨fun path htmp _ => hsame path htmp, .inl (hsame _ hne).read⟩
  match phase, h with
  | .create, _ =>
      rw [advance]
      split_ifs
      · exact hquiet fun path htmp =>
          ⟨Files.names_create_of_ne htmp, Files.read_create_of_ne htmp⟩
      · exact hquiet fun path _ => .refl path
  | .writing inode offset received [], _ =>
      rw [advance]
      cases draw.item with
      | chunk bytes | fails => exact hquiet fun path _ => .refl path
      | ends =>
          dsimp only
          split_ifs <;> exact hquiet fun path _ => .refl path
  | .writing inode offset received (b :: pending), ⟨hnames, _⟩ =>
      rw [advance]
      split_ifs
      · exact hquiet fun path htmp => ⟨rfl, Files.read_write_of_ne hnames htmp⟩
      · exact hquiet fun path _ => .refl path
      · exact nofun
  | .committing received, ⟨hread, hdigest⟩ =>
      rw [advance]
      split
      · rename_i files' hrename
        split_ifs at hrename
        refine ⟨fun path htmp hobj => ⟨Files.names_rename_of_ne hrename htmp hobj,
          Files.read_rename_of_ne hrename htmp hobj⟩, .inr ⟨received, ?_, hdigest⟩⟩
        exact (Files.read_rename hrename).trans hread
      · exact hquiet fun path _ => .refl path
  | .removing got, _ =>
      rw [advance]
      cases hremove : if draw.ok then files.remove (objTmpPath hash) else none with
      | none => exact hquiet fun path _ => .refl path
      | some files' =>
          split_ifs at hremove
          exact hquiet fun path htmp =>
            ⟨Files.names_remove_of_ne hremove htmp, Files.read_remove_of_ne hremove htmp⟩
  | .ended outcome, _ => exact hquiet fun path _ => .refl path
  | .aborted, _ => exact hquiet fun path _ => .refl path

/-- A step of a call keeps what it knows: what it has received is in its temp file, as far as
it is written. -/
theorem advance_holds {phase : PutPhase} (h : Holds digest files hash phase) :
    Holds digest (advance digest files hash draw phase).1 hash
      (advance digest files hash draw phase).2 := by
  match phase, h with
  | .create, _ =>
      rw [advance]
      split_ifs
      · exact ⟨Files.names_create files _, [], Files.read_create files _, rfl, rfl⟩
      · trivial
  | .writing inode offset received [], ⟨hnames, written, hread, hoffset, hreceived⟩ =>
      rw [List.append_nil] at hreceived
      subst hreceived
      rw [advance]
      cases draw.item with
      | chunk bytes => exact ⟨hnames, _, hread, hoffset, rfl⟩
      | fails => trivial
      | ends =>
          dsimp only
          split_ifs with hok hdigest
          · exact ⟨hread, hdigest⟩
          · trivial
          · trivial
  | .writing inode offset received (b :: pending), ⟨hnames, written, hread, hoffset, hreceived⟩ =>
      rw [advance]
      · split_ifs
        · -- the write is at the end of what is written
          have hcontent : files.content inode = written :=
            Option.some.inj ((Files.read_eq hnames).symm.trans hread)
          refine ⟨hnames, written ++ (b :: pending).take draw.len, ?_, ?_, ?_⟩
          · show (files.write inode offset _).read _ = _
            rw [Files.read_write hnames, hcontent, hoffset, Files.splice_length]
          · rw [hoffset, List.length_append]
          · rw [hreceived, List.append_assoc, List.take_append_drop]
        · trivial
      · exact nofun
  | .committing received, ⟨hread, hdigest⟩ =>
      rw [advance]
      split
      · rename_i files' hrename
        split_ifs at hrename
        exact ⟨(Files.read_rename hrename).trans hread, hdigest⟩
      · trivial
  | .removing got, _ =>
      rw [advance]
      trivial
  | .ended outcome, h => exact h
  | .aborted, _ => trivial

/-- What a step does to the files of other names, and to the object of its own. -/
theorem exec_frame (draw : PutDraw) (h : Holds digest files p.hash p.phase)
    (hvalid : validHash p.hash = true) :
    (∀ path, path ≠ objTmpPath p.hash → path ≠ objPath p.hash →
      Same files (p.exec digest files draw).1 path) ∧
    ((p.exec digest files draw).1.read (objPath p.hash) = files.read (objPath p.hash) ∨
      ∃ content, (p.exec digest files draw).1.read (objPath p.hash) = some content ∧
        digest content = p.hash) := by
  rw [exec]
  split_ifs
  · exact ⟨fun path _ _ => .refl path, .inl rfl⟩
  · exact advance_frame h hvalid

theorem exec_hash : (p.exec digest files draw).2.hash = p.hash := by
  rw [exec]
  split_ifs <;> rfl

theorem exec_holds (h : Holds digest files p.hash p.phase) :
    Holds digest (p.exec digest files draw).1 p.hash (p.exec digest files draw).2.phase := by
  rw [exec]
  split_ifs
  · trivial
  · exact advance_holds h

end BlobPut

/-! ## Runs -/

namespace PutWorld

variable {digest : Bytes → String} {w w' w₀ : PutWorld} {ev : Event ℕ BlobPut PutDraw}
  {trace : List (Event ℕ BlobPut PutDraw)}

/-- Objects match their names, each call knows what its files hold, and a temp file has one
writer. -/
structure Sound (digest : Bytes → String) (w : PutWorld) : Prop where
  objects : ∀ hash content, validHash hash = true → w.shared.read (objPath hash) = some content →
    digest content = hash
  valid : ∀ i p, w.procs i = some p → validHash p.hash = true
  holds : ∀ i p, w.procs i = some p → BlobPut.Holds digest w.shared p.hash p.phase
  alone : ∀ i j p q, w.procs i = some p → w.procs j = some q → p.hash = q.hash →
    p.phase.holdsTemp = true → q.phase.holdsTemp = true → i = j

theorem New.sound (h : w.New digest) : w.Sound digest := by
  have hnone : ∀ {i p}, w.procs i ≠ some p := fun heq => by
    rw [h.procs] at heq
    cases heq
  exact ⟨h.objects, fun _ _ hp => absurd hp hnone, fun _ _ hp => absurd hp hnone,
    fun _ _ _ _ hp => absurd hp hnone⟩

/-- An upload starts without a temporary file. -/
theorem Sound.start (h : w.Sound digest) {i : ℕ} {p : BlobPut}
    (hvalid : validHash p.hash = true) (hcreate : p.phase = .create) :
    PutWorld.Sound digest { w with procs := Function.update w.procs i (some p) } := by
  refine ⟨h.objects, fun j q hq => ?_, fun j q hq => ?_, fun j k q r hq hr hhash hq' hr' => ?_⟩
  · rcases Program.update_eq_some hq with ⟨-, rfl⟩ | ⟨-, hq⟩
    · exact hvalid
    · exact h.valid j q hq
  · rcases Program.update_eq_some hq with ⟨-, rfl⟩ | ⟨-, hq⟩
    · rw [hcreate]
      trivial
    · exact h.holds j q hq
  · -- a call that starts has no temp file
    rcases Program.update_eq_some hq with ⟨-, rfl⟩ | ⟨-, hq⟩
    · rw [hcreate] at hq'
      cases hq'
    · rcases Program.update_eq_some hr with ⟨-, rfl⟩ | ⟨-, hr⟩
      · rw [hcreate] at hr'
        cases hr'
      · exact h.alone j k q r hq hr hhash hq' hr'

/-- A call that makes a step has the temp file of its blob to itself. -/
theorem Sound.only_writer (h : w.Sound digest) {i j : ℕ} {draw : PutDraw} {p q : BlobPut}
    (hp : w.procs i = some p) (hsingle : w.SingleWriter (.exec i draw))
    (hready : p.phase.inProgress = true) (hj : j ≠ i) (hq : w.procs j = some q)
    (hhash : q.hash = p.hash) : q.phase.holdsTemp = false := by
  have hother : p.phase.holdsTemp = true → q.phase.holdsTemp = false := by
    intro hholds
    by_contra hother
    exact hj (h.alone j i q p hq hp hhash (Bool.not_eq_false _ ▸ hother) hholds)
  cases hphase : p.phase with
  | create => exact hsingle p hp hphase j q hj hq hhash
  | writing _ _ _ _ | committing _ | removing _ => exact hother (by rw [hphase]; rfl)
  | ended _ | aborted =>
      rw [hphase] at hready
      cases hready

/-- A step keeps every object named by what it holds, if the upload is alone with its
temporary file. -/
theorem Sound.exec (hinj : Function.Injective digest) (h : w.Sound digest) {i : ℕ}
    {draw : PutDraw} {p : BlobPut} (hp : w.procs i = some p)
    (hready : p.phase.inProgress = true) (hsingle : w.SingleWriter (.exec i draw)) :
    PutWorld.Sound digest
      { shared := (p.exec digest w.shared draw).1
        procs := Function.update w.procs i (some (p.exec digest w.shared draw).2) } := by
  have hvalid := h.valid i p hp
  obtain ⟨hframe, hobject⟩ := BlobPut.exec_frame draw (h.holds i p hp) hvalid
  -- an object is left alone, or uploaded again
  have hobjects : ∀ hash, validHash hash = true →
      (p.exec digest w.shared draw).1.read (objPath hash) = w.shared.read (objPath hash) ∨
        ∃ content, (p.exec digest w.shared draw).1.read (objPath hash) = some content ∧
          digest content = hash := by
    intro hash hhash
    by_cases hmine : hash = p.hash
    · exact hmine ▸ hobject
    · exact .inl (hframe _ (objTmpPath_ne_objPath hhash).symm
        fun heq => hmine (objPath_inj heq)).read
  refine ⟨fun hash content hhash hread => ?_, fun j q hq => ?_, fun j q hq => ?_,
    fun j k q r hq hr hhash hq' hr' => ?_⟩
  · rcases hobjects hash hhash with hsame | ⟨content', hread', hdigest⟩
    · exact h.objects hash content hhash (hsame.symm.trans hread)
    · obtain rfl := Option.some.inj (hread'.symm.trans hread)
      exact hdigest
  · rcases Program.update_eq_some hq with ⟨-, rfl⟩ | ⟨-, hq⟩
    · rw [BlobPut.exec_hash]
      exact hvalid
    · exact h.valid j q hq
  · rcases Program.update_eq_some hq with ⟨-, rfl⟩ | ⟨hj, hq⟩
    · rw [BlobPut.exec_hash]
      exact BlobPut.exec_holds (h.holds i p hp)
    · refine (h.holds j q hq).of_same (fun hholds => ?_) fun content hread hdigest => ?_
      · -- the other call writes another blob
        have hother : q.hash ≠ p.hash := fun hhash => by
          rw [h.only_writer hp hsingle hready hj hq hhash] at hholds
          cases hholds
        exact hframe _ (fun heq => hother (objTmpPath_inj heq))
          (objTmpPath_ne_objPath hvalid)
      · rcases hobjects q.hash (h.valid j q hq) with hsame | ⟨content', hread', hdigest'⟩
        · exact hsame.trans hread
        · rw [hread', hinj (hdigest'.trans hdigest.symm)]
  · have hone : ∀ {j q}, j ≠ i → w.procs j = some q →
        q.hash = (p.exec digest w.shared draw).2.hash → q.phase.holdsTemp = false :=
      fun hj hq hhash => h.only_writer hp hsingle hready hj hq (hhash.trans BlobPut.exec_hash)
    rcases Program.update_eq_some hq with ⟨hj, rfl⟩ | ⟨hj, hq₀⟩ <;>
      rcases Program.update_eq_some hr with ⟨hk, rfl⟩ | ⟨hk, hr₀⟩
    · rw [hj, hk]
    · rw [hone hk hr₀ hhash.symm] at hr'
      cases hr'
    · rw [hone hj hq₀ hhash] at hq'
      cases hq'
    · exact h.alone j k q r hq₀ hr₀ hhash hq' hr'

theorem Sound.step (hinj : Function.Injective digest) (h : w.Sound digest)
    (step : PutStep digest w ev w') (hsingle : w.SingleWriter ev) : w'.Sound digest := by
  rcases step.cases with ⟨i, p, rfl, -, ⟨hvalid, hcreate⟩, rfl⟩ | ⟨i, draw, p, rfl, hp, hready, rfl⟩
  · exact h.start hvalid hcreate
  · exact h.exec hinj hp hready hsingle

theorem Sound.run (hinj : Function.Injective digest)
    (run : Run (under (PutStep digest) SingleWriter) w trace w') (h : w.Sound digest) :
    w'.Sound digest :=
  run.invariant (fun _ _ _ h step => h.step hinj step.1 step.2) h

/-- One call by itself is in the single-writer model. -/
theorem singleWriter_of_lone {i : ℕ} (hlone : ∀ j, j ≠ i → w.procs j = none)
    (henabled : EnabledAll (blobProgram digest).Enabled (blobProgram digest).next w trace)
    (hall : ∀ ev ∈ trace, ev.process = i) :
    EnabledAll (fun w ev => (blobProgram digest).Enabled w ev ∧ SingleWriter w ev)
      (blobProgram digest).next w trace := by
  induction trace generalizing w with
  | nil => trivial
  | cons ev trace ih =>
      have hmine : ev.process = i := hall ev List.mem_cons_self
      refine ⟨⟨henabled.1, ?_⟩, ih (fun j hj => ?_) henabled.2 fun ev hev =>
        hall ev (List.mem_cons_of_mem _ hev)⟩
      · cases ev with
        | start j p => trivial
        | exec j draw =>
            obtain rfl : j = i := hmine
            intro p _ _ k q hk hq
            rw [hlone k hk] at hq
            cases hq
      · rw [Program.next_procs_of_ne (hmine.symm ▸ hj)]
        exact hlone j hj

/-- A call that has returned stays so. -/
theorem ended_of_run (run : Run (PutStep digest) w trace w') {i : ℕ} {hash : String}
    {outcome : Except BlobError Bytes} (h : w.procs i = some ⟨hash, .ended outcome⟩) :
    w'.procs i = some ⟨hash, .ended outcome⟩ := by
  refine run.invariant (I := fun w => w.procs i = some ⟨hash, .ended outcome⟩) ?_ h
  intro w ev w' h step
  rcases step.procs_next h with ⟨-, hstays⟩ | ⟨draw, -, hready, -⟩
  · exact hstays
  · cases hready

end PutWorld

open PutWorld in
/-- **Objects match their names**, in the single-writer model.  For every interleaving of the
steps of any number of uploads, any of which is dropped after any step, and in which a call
creates its temp file only while no other call for the same blob has one: whatever is under
the name of an object hashes to that name, in every state; and what a completed upload has
received is there in every later one. -/
theorem objects_match_names {digest : Bytes → String} (hinj : Function.Injective digest)
    {w₀ w : PutWorld} (new : w₀.New digest) {trace : List (Event ℕ BlobPut PutDraw)}
    (run : Run (under (PutStep digest) SingleWriter) w₀ trace w) :
    (∀ hash content, validHash hash = true → w.shared.read (objPath hash) = some content →
      digest content = hash) ∧
    ∀ i hash received, w.procs i = some ⟨hash, .ended (.ok received)⟩ →
      digest received = hash ∧
      ∀ more w', Run (under (PutStep digest) SingleWriter) w more w' →
        w'.shared.read (objPath hash) = some received := by
  have sound : w.Sound digest := Sound.run hinj run new.sound
  refine ⟨sound.objects, fun i hash received hended => ⟨(sound.holds i _ hended).2, ?_⟩⟩
  intro more w' later
  have hended' := ended_of_run (later.mono fun _ _ _ h => h.1) hended
  exact ((Sound.run hinj later sound).holds i _ hended').1

section Example

/-- A hash that passes the check. -/
def blobHash : String := String.ofList (List.replicate 64 'a')

/-- A character for each byte. -/
def spell (bytes : Bytes) : String := String.ofList (bytes.map Char.ofUInt8)

/-- A digest for which `[7, 7]` is the content of the blob. -/
def blobDigest (bytes : Bytes) : String := Equiv.swap (spell [7, 7]) blobHash (spell bytes)

/-- Different bytes are spelled differently. -/
theorem spell_injective : Function.Injective spell := by
  intro a b h
  have hchars : a.map Char.ofUInt8 = b.map Char.ofUInt8 := String.ofList_injective h
  refine List.map_injective_iff.mpr (fun x y hxy => ?_) hchars
  have hval : x.toUInt32 = y.toUInt32 := congrArg Char.val hxy
  have hnat := congrArg UInt32.toNat hval
  rw [UInt8.toNat_toUInt32, UInt8.toNat_toUInt32] at hnat
  exact UInt8.toNat_inj.mp hnat

theorem blobDigest_injective : Function.Injective blobDigest :=
  (Equiv.injective _).comp spell_injective

/-- An empty store. -/
def emptyStore : PutWorld := ⟨Files.empty, fun _ => none⟩

theorem emptyStore_new (digest : Bytes → String) : emptyStore.New digest :=
  ⟨nofun, fun _ => rfl⟩

/-- A step of a call for which all goes well. -/
def well (item : BodyItem) : PutDraw := ⟨false, true, item, 2⟩

/-- One upload creates, writes and verifies its temp file; another one creates it again; the
first renames it, and the second is dropped. -/
def twoUploads : List (Event ℕ BlobPut PutDraw) :=
  [.start 1 ⟨blobHash, .create⟩, .start 2 ⟨blobHash, .create⟩, .exec 1 (well .ends),
    .exec 1 (well (.chunk [7, 7])), .exec 1 (well .ends), .exec 1 (well .ends),
    .exec 2 (well .ends), .exec 1 (well .ends), .exec 2 ⟨true, true, .ends, 0⟩]

/-- One upload, by itself. -/
def loneUpload : List (Event ℕ BlobPut PutDraw) :=
  [.start 1 ⟨blobHash, .create⟩, .exec 1 (well .ends), .exec 1 (well (.chunk [7, 7])),
    .exec 1 (well .ends), .exec 1 (well .ends), .exec 1 (well .ends)]

/-- Two uploads of one hash write to one temporary file. -/
theorem uploads_share_temp_file : Function.Injective blobDigest ∧
    ¬∀ w₀ w trace, PutWorld.New blobDigest w₀ → Run (PutStep blobDigest) w₀ trace w →
      (∀ i p, w.procs i = some p → p.hash = blobHash → p.phase.inProgress = false) →
      ∀ content, w.shared.read (objPath blobHash) = some content →
        blobDigest content = blobHash := by
  refine ⟨blobDigest_injective, fun h => ?_⟩
  have run : Run (PutStep blobDigest) emptyStore twoUploads
      (twoUploads.foldl (blobProgram blobDigest).next emptyStore) :=
    Run.of_enabled (by decide +kernel)
  refine absurd (h _ _ _ (emptyStore_new _) run ?_ [] (by decide +kernel)) (by decide +kernel)
  intro i p hp _
  match i, hp with
  | 1, hp | 2, hp =>
      obtain rfl := Option.some.inj hp
      rfl
  | 0, hp | _ + 3, hp => cases hp

/-- An upload on its own is stored. -/
theorem lone_upload_is_stored :
    ((loneUpload.foldl (blobProgram blobDigest).next emptyStore).shared.read (objPath blobHash)) =
      some [7, 7] := by
  have run : Run (under (PutStep blobDigest) PutWorld.SingleWriter) emptyStore loneUpload
      (loneUpload.foldl (blobProgram blobDigest).next emptyStore) :=
    Run.under_of_enabled (Run.of_enabled
      (PutWorld.singleWriter_of_lone (i := 1) (fun _ _ => rfl) (by decide +kernel)
        (by decide +kernel)))
  have ended : (loneUpload.foldl (blobProgram blobDigest).next emptyStore).procs 1 =
      some ⟨blobHash, .ended (.ok [7, 7])⟩ := rfl
  exact ((objects_match_names blobDigest_injective (emptyStore_new _) run).2 1 _ _ ended).2 _ _
    Run.nil

end Example

end Savr
