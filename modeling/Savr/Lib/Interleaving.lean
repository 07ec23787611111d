import Savr.Lib.Run

/-!
# Interleavings

Processes that run their statements against one shared state, in any order.  A statement is
atomic: it reads and writes the shared state and says where its process goes on.  Values
that a statement draws from outside are part of its label.

## Main results

* `Program.invariant` — the rely-guarantee rule: a statement keeps the shared invariant and
  establishes the assertion of its own process, and the assertions of the others are stable
  under it.
* `Program.Step.cases`, `Program.Step.procs_cases`, `Program.Step.procs_next` — what a step can
  be, and what it can be for one process, seen from its end and from its beginning.
* `Program.exists_start` — where a process came from.
-/

namespace Interleaving

open LabelledRun

universe u v w x

variable {S : Type u} {ι : Type v} {P : Type w} {E : Type x}

/-- A shared state and where each process is; `none` is a process that has not started. -/
structure World (S : Type u) (ι : Type v) (P : Type w) where
  shared : S
  procs : ι → Option P

/-- A process starts, or makes one step, for which the environment draws what it decides. -/
inductive Event (ι : Type v) (P : Type w) (E : Type x)
  | start (i : ι) (p : P)
  | exec (i : ι) (draw : E)

/-- Whose event it is. -/
def Event.process : Event ι P E → ι
  | .start i _ => i
  | .exec i _ => i

/-- What processes there are: where they may start, and their statements. -/
structure Program (S : Type u) (ι : Type v) (P : Type w) (E : Type x) where
  Init : P → Prop
  Ready : S → ι → P → E → Prop
  exec : S → ι → P → E → S × P

namespace Program

variable [DecidableEq ι] (prog : Program S ι P E)

/-- A process starts under a new index in an initial state, and goes on where it is ready. -/
def Enabled (w : World S ι P) : Event ι P E → Prop
  | .start i p => w.procs i = none ∧ prog.Init p
  | .exec i draw => ∃ p, w.procs i = some p ∧ prog.Ready w.shared i p draw

instance decidableEnabled [DecidablePred prog.Init]
    [∀ s i p draw, Decidable (prog.Ready s i p draw)] (w : World S ι P) :
    ∀ ev, Decidable (prog.Enabled w ev)
  | .start i p =>
      have : Decidable (w.procs i = none) := decidable_of_iff _ Option.isNone_iff_eq_none
      inferInstanceAs (Decidable (w.procs i = none ∧ prog.Init p))
  | .exec i draw =>
      match h : w.procs i with
      | none => isFalse fun ⟨p, hp, _⟩ => by rw [h] at hp; cases hp
      | some p =>
          decidable_of_iff (prog.Ready w.shared i p draw)
            ⟨fun hready => ⟨p, h, hready⟩, fun ⟨q, hq, hready⟩ => by
              rw [h] at hq
              cases hq
              exact hready⟩

/-- The state after an event. A process that has not been started has no step. -/
def next (w : World S ι P) : Event ι P E → World S ι P
  | .start i p => { w with procs := Function.update w.procs i (some p) }
  | .exec i draw =>
      match w.procs i with
      | none => w
      | some p =>
          { shared := (prog.exec w.shared i p draw).1
            procs := Function.update w.procs i (some (prog.exec w.shared i p draw).2) }

/-- One atomic statement of some process, or a process starts. -/
def Step : World S ι P → Event ι P E → World S ι P → Prop :=
  guarded prog.Enabled prog.next

variable {prog} {w w' w₀ : World S ι P} {ev : Event ι P E} {trace : List (Event ι P E)}

/-- An event leaves the processes alone that it is not about. -/
theorem next_procs_of_ne {i : ι} (h : i ≠ ev.process) :
    (prog.next w ev).procs i = w.procs i := by
  cases ev with
  | start j p => exact Function.update_of_ne h _ _
  | exec j draw =>
      cases hp : w.procs j with
      | none => simp only [next, hp]
      | some p =>
          simp only [next, hp]
          exact Function.update_of_ne h _ _

/-- What a step can be. -/
theorem Step.cases (h : prog.Step w ev w') :
    (∃ i p, ev = .start i p ∧ w.procs i = none ∧ prog.Init p ∧
      w' = { w with procs := Function.update w.procs i (some p) }) ∨
    ∃ i draw p, ev = .exec i draw ∧ w.procs i = some p ∧ prog.Ready w.shared i p draw ∧
      w' = { shared := (prog.exec w.shared i p draw).1
             procs := Function.update w.procs i (some (prog.exec w.shared i p draw).2) } := by
  obtain ⟨enabled, rfl⟩ := h
  cases ev with
  | start i p => exact Or.inl ⟨i, p, rfl, enabled.1, enabled.2, rfl⟩
  | exec i draw =>
      obtain ⟨p, hp, hready⟩ := enabled
      exact Or.inr ⟨i, draw, p, rfl, hp, hready, by simp [next, hp]⟩

omit prog in
/-- A process that is set is what it is set to, and the others stay. -/
theorem update_eq_some {procs : ι → Option P} {i j : ι} {p q : P}
    (h : Function.update procs i (some p) j = some q) :
    j = i ∧ p = q ∨ j ≠ i ∧ procs j = some q := by
  by_cases hj : j = i
  · subst hj
    rw [Function.update_self] at h
    exact .inl ⟨rfl, Option.some.inj h⟩
  · rw [Function.update_of_ne hj] at h
    exact .inr ⟨hj, h⟩

/-- Where a process is after a step: where it was, at its start, or where its own statement
leads. -/
theorem Step.procs_cases {i : ι} {q : P} (h : prog.Step w ev w') (hq : w'.procs i = some q) :
    w.procs i = some q ∨ (ev = .start i q ∧ prog.Init q ∧ w.procs i = none) ∨
      ∃ draw p, ev = .exec i draw ∧ w.procs i = some p ∧ prog.Ready w.shared i p draw ∧
        prog.exec w.shared i p draw = (w'.shared, q) := by
  rcases h.cases with ⟨j, p, rfl, hnone, hinit, rfl⟩ | ⟨j, draw, p, rfl, hp, hready, rfl⟩
  · rcases update_eq_some hq with ⟨rfl, rfl⟩ | ⟨-, hq⟩
    · exact .inr (.inl ⟨rfl, hinit, hnone⟩)
    · exact .inl hq
  · rcases update_eq_some hq with ⟨rfl, hexec⟩ | ⟨-, hq⟩
    · exact .inr (.inr ⟨draw, p, rfl, hp, hready, Prod.ext rfl hexec⟩)
    · exact .inl hq

/-- Where a process gets by a step: it stays where it is, or makes the step itself. -/
theorem Step.procs_next {i : ι} {p : P} (h : prog.Step w ev w') (hp : w.procs i = some p) :
    ((∀ draw, ev ≠ .exec i draw) ∧ w'.procs i = some p) ∨
      ∃ draw, ev = .exec i draw ∧ prog.Ready w.shared i p draw ∧
        w'.shared = (prog.exec w.shared i p draw).1 ∧
        w'.procs i = some (prog.exec w.shared i p draw).2 := by
  rcases h.cases with ⟨j, q, rfl, hnone, -, rfl⟩ | ⟨j, draw, q, rfl, hq, hready, rfl⟩
  · have hij : i ≠ j := by
      rintro rfl
      cases hnone.symm.trans hp
    exact .inl ⟨nofun, (Function.update_of_ne hij _ _).trans hp⟩
  · by_cases hij : i = j
    · subst hij
      obtain rfl := Option.some.inj (hq.symm.trans hp)
      exact .inr ⟨draw, rfl, hready, rfl, Function.update_self i _ _⟩
    · refine .inl ⟨fun draw' heq => hij ?_, (Function.update_of_ne hij _ _).trans hp⟩
      exact (Event.exec.inj heq).1.symm

section Rule

variable {I : S → Prop} {A : S → ι → Option P → Prop}

/-- **The rely-guarantee rule.**  Every run keeps the shared invariant and the assertion of
every process. -/
theorem invariant
    (hstart : ∀ s i p, I s → A s i none → prog.Init p → A s i (some p))
    (hown : ∀ s i p draw, I s → A s i (some p) → prog.Ready s i p draw →
      I (prog.exec s i p draw).1 ∧ A (prog.exec s i p draw).1 i (some (prog.exec s i p draw).2))
    (hother : ∀ s i p draw j q, j ≠ i → I s → A s i (some p) → prog.Ready s i p draw →
      A s j q → A (prog.exec s i p draw).1 j q)
    (run : Run prog.Step w₀ trace w) (shared : I w₀.shared)
    (procs : ∀ i, A w₀.shared i (w₀.procs i)) :
    I w.shared ∧ ∀ i, A w.shared i (w.procs i) := by
  refine run.invariant (I := fun w => I w.shared ∧ ∀ i, A w.shared i (w.procs i)) ?_
    ⟨shared, procs⟩
  rintro w ev w' ⟨hI, hA⟩ step
  rcases step.cases with ⟨i, p, -, hnone, hinit, rfl⟩ | ⟨i, draw, p, -, hp, hready, rfl⟩
  · refine ⟨hI, fun j => ?_⟩
    by_cases hj : j = i
    · subst hj
      have hnew := hA j
      rw [hnone] at hnew
      simpa using hstart _ _ _ hI hnew hinit
    · simpa [hj] using hA j
  · have hmine := hA i
    rw [hp] at hmine
    obtain ⟨hI', hA'⟩ := hown _ _ _ _ hI hmine hready
    refine ⟨hI', fun j => ?_⟩
    by_cases hj : j = i
    · subst hj
      simpa using hA'
    · simpa [hj] using hother _ _ _ _ j (w.procs j) hj hI hmine hready (hA j)

end Rule

/-- **A process that is where processes start** was started there, if no statement leads to
such a place. -/
theorem exists_start (hleave : ∀ s i p draw, ¬ prog.Init (prog.exec s i p draw).2)
    (run : Run prog.Step w₀ trace w) (hnew : ∀ i, w₀.procs i = none) {i : ι} {p : P}
    (hp : w.procs i = some p) (hinit : prog.Init p) :
    ∃ pre post before, trace = pre ++ .start i p :: post ∧ Run prog.Step w₀ pre before ∧
      Run prog.Step before (.start i p :: post) w := by
  induction run with
  | nil =>
      rw [hnew i] at hp
      cases hp
  | snoc run step ih =>
      rename_i ls t u ev
      have hearlier : t.procs i = some p → ∃ pre post before,
          ls ++ [ev] = pre ++ .start i p :: post ∧ Run prog.Step w₀ pre before ∧
            Run prog.Step before (.start i p :: post) u := by
        intro hp
        obtain ⟨pre, post, before, rfl, hpre, hpost⟩ := ih hp
        exact ⟨pre, post ++ [ev], before, by simp, hpre, hpost.snoc step⟩
      rcases step.procs_cases hp with hp | ⟨rfl, -, -⟩ | ⟨draw, q, -, -, -, hexec⟩
      · exact hearlier hp
      · exact ⟨ls, [], t, rfl, run, Run.single step⟩
      · have hq : p = (prog.exec t.shared i q draw).2 := by rw [hexec]
        rw [hq] at hinit
        exact absurd hinit (hleave _ _ _ _)

end Program

end Interleaving
