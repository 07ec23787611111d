import Mathlib.Algebra.Group.Defs
import Mathlib.Data.Nat.Notation
import Mathlib.Data.Option.Basic
import Mathlib.Logic.Function.Basic

/-!
# Files as inodes

A directory names inodes, and a handle keeps its inode: a file that is created again under
the same name is emptied for everyone who has it open, a renamed or removed one goes on
under its handles.  A write has the offset of its handle.

## Main results

* `read_create_of_ne`, `read_write_of_ne`, `read_rename_of_ne`, `read_remove_of_ne` — an
  operation on a name leaves what is read under the others.
* `splice_length` — a write at the end appends.
-/

namespace Inodes

universe u v

/-! ## Directories -/

section Names

variable {N : Type u} [DecidableEq N] {names : N → Option ℕ} {p q : N} {i fresh : ℕ}

/-- No two names are one inode. -/
def Distinct (names : N → Option ℕ) : Prop :=
  ∀ p q i, names p = some i → names q = some i → p = q

/-- The inodes that have been given out. -/
def Allocated (fresh : ℕ) (names : N → Option ℕ) : Prop :=
  ∀ p i, names p = some i → i < fresh

omit [DecidableEq N] in
theorem Allocated.unused (h : Allocated fresh names) (p : N) : names p ≠ some fresh := fun heq =>
  Nat.lt_irrefl fresh (h p fresh heq)

/-- With a name taken away, no two names share a file. -/
theorem Distinct.unlink (h : Distinct names) (p : N) :
    Distinct (Function.update names p none) := by
  intro q r i hq hr
  have hnamed : ∀ {s}, Function.update names p none s = some i → names s = some i := by
    intro s hs
    by_cases hsp : s = p
    · subst hsp
      rw [Function.update_self] at hs
      cases hs
    · rwa [Function.update_of_ne hsp] at hs
  exact h q r i (hnamed hq) (hnamed hr)

/-- A name that leads to an unused inode shares it with no other. -/
theorem Distinct.link (h : Distinct names) (hunused : ∀ q, names q ≠ some i) (p : N) :
    Distinct (Function.update names p (some i)) := by
  intro q r j hq hr
  by_cases hqp : q = p <;> by_cases hrp : r = p
  · rw [hqp, hrp]
  · subst hqp
    rw [Function.update_self] at hq
    rw [Function.update_of_ne hrp, ← hq] at hr
    exact absurd hr (hunused r)
  · subst hrp
    rw [Function.update_self] at hr
    rw [Function.update_of_ne hqp, ← hr] at hq
    exact absurd hq (hunused q)
  · rw [Function.update_of_ne hqp] at hq
    rw [Function.update_of_ne hrp] at hr
    exact h q r j hq hr

/-- A file whose name is taken away has no name. -/
theorem Distinct.unused_unlink (h : Distinct names) (hp : names p = some i) (q : N) :
    Function.update names p none q ≠ some i := by
  intro hq
  by_cases hqp : q = p
  · subst hqp
    rw [Function.update_self] at hq
    cases hq
  · rw [Function.update_of_ne hqp] at hq
    exact hqp (h q p i hq hp)

/-- With a name taken away, every file that has one is allocated. -/
theorem Allocated.unlink (h : Allocated fresh names) (p : N) :
    Allocated fresh (Function.update names p none) := by
  intro q i hq
  by_cases hqp : q = p
  · subst hqp
    rw [Function.update_self] at hq
    cases hq
  · exact h q i (by rwa [Function.update_of_ne hqp] at hq)

/-- A name for an allocated file keeps this. -/
theorem Allocated.link (h : Allocated fresh names) (hi : i < fresh) (p : N) :
    Allocated fresh (Function.update names p (some i)) := by
  intro q j hq
  by_cases hqp : q = p
  · subst hqp
    rw [Function.update_self] at hq
    rwa [← Option.some.inj hq]
  · exact h q j (by rwa [Function.update_of_ne hqp] at hq)

omit [DecidableEq N] in
theorem Allocated.mono {fresh' : ℕ} (h : Allocated fresh names) (hle : fresh ≤ fresh') :
    Allocated fresh' names := fun p i hp => Nat.lt_of_lt_of_le (h p i hp) hle

end Names

/-! ## Files -/

variable {N : Type u} {β : Type v}

/-- Names and the inodes they lead to; no two names share one. -/
structure Files (N : Type u) (β : Type v) where
  names : N → Option ℕ
  content : ℕ → List β
  /-- The next inode. -/
  fresh : ℕ
  distinct : Distinct names
  allocated : Allocated fresh names

namespace Files

/-- No files. -/
def empty : Files N β where
  names := fun _ => none
  content := fun _ => []
  fresh := 0
  distinct := nofun
  allocated := nofun

/-- What is read under a name. -/
def read (f : Files N β) (p : N) : Option (List β) := (f.names p).map f.content

variable {f g : Files N β} {p q r : N} {i offset : ℕ} {data : List β}

theorem read_eq (h : f.names p = some i) : f.read p = some (f.content i) := by
  rw [read, h, Option.map_some]

/-- What is read under a name depends on its own inode only. -/
theorem read_congr (hnames : g.names q = f.names q)
    (hcontent : ∀ i, f.names q = some i → g.content i = f.content i) : g.read q = f.read q := by
  rw [read, read, hnames]
  cases hq : f.names q with
  | none => rfl
  | some i => rw [Option.map_some, Option.map_some, hcontent i hq]

theorem content_update_of_ne (h : f.names p = some i) (hne : q ≠ p) (data : List β) :
    ∀ j, f.names q = some j → Function.update f.content i data j = f.content j := by
  intro j hq
  refine Function.update_of_ne ?_ _ _
  rintro rfl
  exact hne (f.distinct q p j hq h)

/-! ### Writing -/

section Write

variable [Zero β]

/-- What a write at an offset makes of a content: a gap is filled with zeros. -/
def splice (content : List β) (offset : ℕ) (data : List β) : List β :=
  (content ++ List.replicate (offset - content.length) 0).take offset ++ data ++
    content.drop (offset + data.length)

theorem splice_length (content data : List β) :
    splice content content.length data = content ++ data := by
  rw [splice, Nat.sub_self, List.replicate_zero, List.append_nil, List.take_length,
    List.drop_eq_nil_of_le (Nat.le_add_right _ _), List.append_nil]

/-- Write at an offset of an inode. -/
def write (f : Files N β) (i offset : ℕ) (data : List β) : Files N β :=
  { f with content := Function.update f.content i (splice (f.content i) offset data) }

theorem read_write (h : f.names p = some i) :
    (f.write i offset data).read p = some (splice (f.content i) offset data) := by
  have hnames : (f.write i offset data).names p = some i := h
  rw [read_eq hnames]
  exact congrArg some (Function.update_self i _ f.content)

theorem read_write_of_ne (h : f.names p = some i) (hne : q ≠ p) :
    (f.write i offset data).read q = f.read q :=
  read_congr rfl (content_update_of_ne h hne _)

end Write

variable [DecidableEq N]

/-- Create the file, or empty the one that is there. Whoever has the old one open has the
emptied one. -/
def create (f : Files N β) (p : N) : Files N β :=
  match f.names p with
  | some i => { f with content := Function.update f.content i [] }
  | none =>
      { names := Function.update f.names p (some f.fresh)
        content := Function.update f.content f.fresh []
        fresh := f.fresh + 1
        distinct := f.distinct.link f.allocated.unused p
        allocated := (f.allocated.mono f.fresh.le_succ).link f.fresh.lt_succ_self p }

/-- The inode of the handle that `create` returns. -/
def created (f : Files N β) (p : N) : ℕ := (f.names p).getD f.fresh

/-- Rename, in place of what has the new name. What was there before loses its name and keeps
its content. -/
def rename (f : Files N β) (p q : N) : Option (Files N β) :=
  match h : f.names p with
  | none => none
  | some i => some
      { f with
        names := Function.update (Function.update f.names p none) q (some i)
        distinct := (f.distinct.unlink p).link (f.distinct.unused_unlink h) q
        allocated := (f.allocated.unlink p).link (f.allocated p i h) q }

/-- Take a name away. The file stays for whoever has it open. -/
def remove (f : Files N β) (p : N) : Option (Files N β) :=
  match f.names p with
  | none => none
  | some _ => some
      { f with
        names := Function.update f.names p none
        distinct := f.distinct.unlink p
        allocated := f.allocated.unlink p }

/-! ### Creating -/

/-- Where the file is there, it is emptied. -/
theorem create_of_some (h : f.names p = some i) :
    f.create p = { f with content := Function.update f.content i [] } := by
  unfold create
  split
  · rename_i j hj
    obtain rfl := Option.some.inj (hj.symm.trans h)
    rfl
  · rename_i hnone
    cases hnone.symm.trans h

/-- Where it is not, a fresh empty file gets the name. -/
theorem create_of_none (h : f.names p = none) :
    (f.create p).names = Function.update f.names p (some f.fresh) ∧
      (f.create p).content = Function.update f.content f.fresh [] := by
  unfold create
  split
  · rename_i j hj
    cases hj.symm.trans h
  · exact ⟨rfl, rfl⟩

theorem names_create (f : Files N β) (p : N) : (f.create p).names p = some (f.created p) := by
  cases h : f.names p with
  | none => rw [(create_of_none h).1, Function.update_self, created, h, Option.getD_none]
  | some i => rw [create_of_some h, created, h, Option.getD_some]

theorem names_create_of_ne (h : q ≠ p) : (f.create p).names q = f.names q := by
  cases hp : f.names p with
  | none => rw [(create_of_none hp).1, Function.update_of_ne h]
  | some i => rw [create_of_some hp]

theorem read_create (f : Files N β) (p : N) : (f.create p).read p = some [] := by
  rw [read_eq (names_create f p)]
  cases hp : f.names p with
  | none => rw [(create_of_none hp).2, created, hp, Option.getD_none, Function.update_self]
  | some i =>
      rw [create_of_some hp, created, hp, Option.getD_some]
      exact congrArg some (Function.update_self i [] f.content)

/-- Creating a file changes what is read under no other name. -/
theorem read_create_of_ne (h : q ≠ p) : (f.create p).read q = f.read q := by
  refine read_congr (names_create_of_ne h) ?_
  cases hp : f.names p with
  | none =>
      intro j hq
      rw [(create_of_none hp).2]
      refine Function.update_of_ne ?_ _ _
      exact Nat.ne_of_lt (f.allocated q j hq)
  | some i =>
      rw [create_of_some hp]
      exact content_update_of_ne hp h []

/-! ### Renaming and removing -/

/-- A rename that succeeds moves the name and touches no content. -/
theorem rename_some (h : f.rename p q = some g) : ∃ i, f.names p = some i ∧
    g.names = Function.update (Function.update f.names p none) q (some i) ∧
    g.content = f.content := by
  unfold rename at h
  split at h
  · cases h
  · rename_i i hi
    obtain rfl := Option.some.inj h
    exact ⟨i, hi, rfl, rfl⟩

theorem read_rename (h : f.rename p q = some g) : g.read q = f.read p := by
  obtain ⟨i, hp, hnames, hcontent⟩ := rename_some h
  have hq : g.names q = some i := by rw [hnames, Function.update_self]
  rw [read_eq hq, read_eq hp, hcontent]

theorem names_rename_of_ne (h : f.rename p q = some g) (hp : r ≠ p) (hq : r ≠ q) :
    g.names r = f.names r := by
  obtain ⟨i, -, hnames, -⟩ := rename_some h
  rw [hnames, Function.update_of_ne hq, Function.update_of_ne hp]

theorem read_rename_of_ne (h : f.rename p q = some g) (hp : r ≠ p) (hq : r ≠ q) :
    g.read r = f.read r := by
  obtain ⟨i, -, -, hcontent⟩ := rename_some h
  exact read_congr (names_rename_of_ne h hp hq) fun j _ => by rw [hcontent]

theorem remove_some (h : f.remove p = some g) :
    g.names = Function.update f.names p none ∧ g.content = f.content := by
  unfold remove at h
  split at h
  · cases h
  · obtain rfl := Option.some.inj h
    exact ⟨rfl, rfl⟩

theorem names_remove_of_ne (h : f.remove p = some g) (hne : q ≠ p) : g.names q = f.names q := by
  rw [(remove_some h).1, Function.update_of_ne hne]

theorem read_remove_of_ne (h : f.remove p = some g) (hne : q ≠ p) : g.read q = f.read q :=
  read_congr (names_remove_of_ne h hne) fun j _ => by rw [(remove_some h).2]

end Files

end Inodes
