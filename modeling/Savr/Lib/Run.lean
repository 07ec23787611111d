import Mathlib.Data.List.Induction

/-!
# Runs of a labelled transition system

A system is a step relation `step : S → L → S → Prop`; a run is a list of labels
together with the states it connects.  Runs are built at their end, so that a
safety proof inspects the *last* step and has the invariant for everything
before it.

## Main results

* `Run.invariant` — a predicate kept by every step is kept by every run.
* `Run.trans`, `Run.split` — runs compose, and fall apart at every label.
* `Run.mono` — a run of a smaller step relation is a run of a larger one;
  `under` is the smaller relation whose steps also meet a side condition.
* `Run.into_iff_under`, `Run.into_iff_under_of_invariant` — which condition on the steps
  keeps a run in good states.
* `guarded` — the steps of a function that are enabled; `Run.of_enabled` runs a list
  of labels that are enabled one after the other, and `EnabledAll.map_iff` carries
  enabledness along a simulation.
-/

namespace LabelledRun

universe u v

variable {S : Type u} {L : Type v}

/-- `Run step s ls t`: the labels `ls`, taken in order from `s`, lead to `t`. -/
inductive Run (step : S → L → S → Prop) (s : S) : List L → S → Prop
  | nil : Run step s [] s
  | snoc {ls : List L} {t u : S} {l : L} :
      Run step s ls t → step t l u → Run step s (ls ++ [l]) u

/-- The step relation restricted to steps that meet a side condition on the
state before the step and its label. -/
def under (step : S → L → S → Prop) (cond : S → L → Prop) : S → L → S → Prop :=
  fun s l t => step s l t ∧ cond s l

/-- The step relation restricted to steps into states with a property. -/
def into (step : S → L → S → Prop) (good : S → Prop) : S → L → S → Prop :=
  fun s l t => step s l t ∧ good t

/-- The steps of a function, where they are enabled. -/
def guarded (enabled : S → L → Prop) (next : S → L → S) : S → L → S → Prop :=
  fun s l t => enabled s l ∧ t = next s l

/-- Each label is enabled in the state the labels before it lead to. -/
def EnabledAll (enabled : S → L → Prop) (next : S → L → S) : S → List L → Prop
  | _, [] => True
  | s, l :: ls => enabled s l ∧ EnabledAll enabled next (next s l) ls

instance EnabledAll.decidable {enabled : S → L → Prop} {next : S → L → S}
    [∀ s l, Decidable (enabled s l)] :
    ∀ (s : S) (ls : List L), Decidable (EnabledAll enabled next s ls)
  | _, [] => isTrue trivial
  | s, l :: ls =>
      have : Decidable (EnabledAll enabled next (next s l) ls) := EnabledAll.decidable (next s l) ls
      inferInstanceAs (Decidable (enabled s l ∧ EnabledAll enabled next (next s l) ls))

/-- A sequence is enabled when its first part is, and its second from where the first ends. -/
theorem EnabledAll.append_iff {enabled : S → L → Prop} {next : S → L → S} {s : S}
    {ls ms : List L} :
    EnabledAll enabled next s (ls ++ ms) ↔
      EnabledAll enabled next s ls ∧ EnabledAll enabled next (ls.foldl next s) ms := by
  induction ls generalizing s with
  | nil => exact (and_iff_right trivial).symm
  | cons l ls ih =>
      rw [List.cons_append, EnabledAll, EnabledAll, ih, List.foldl_cons, and_assoc]

/-- Enabledness is seen through a simulation of one system by another. -/
theorem EnabledAll.map_iff {T : Type*} {M : Type*} {enabled : S → L → Prop}
    {next : S → L → S} {enabled' : T → M → Prop} {next' : T → M → T} (f : S → T) (g : L → M)
    (henabled : ∀ s l, enabled s l ↔ enabled' (f s) (g l))
    (hnext : ∀ s l, f (next s l) = next' (f s) (g l)) {s : S} {ls : List L} :
    EnabledAll enabled next s ls ↔ EnabledAll enabled' next' (f s) (ls.map g) := by
  induction ls generalizing s with
  | nil => exact Iff.rfl
  | cons l ls ih => rw [List.map_cons, EnabledAll, EnabledAll, henabled, ih, hnext]

namespace Run

variable {step step' : S → L → S → Prop} {s t u : S} {ls ms : List L} {l : L}

/-- **The invariant rule.**  What every step keeps, every run keeps. -/
theorem invariant {I : S → Prop} (hstep : ∀ s l t, I s → step s l t → I t)
    (run : Run step s ls t) (init : I s) : I t := by
  induction run with
  | nil => exact init
  | snoc _ last ih => exact hstep _ _ _ ih last

/-- The invariant rule for predicates that also speak about the labels taken so
far. -/
theorem invariant_trace {I : List L → S → Prop}
    (hstep : ∀ ls s l t, I ls s → step s l t → I (ls ++ [l]) t)
    (run : Run step s ls t) (init : I [] s) : I ls t := by
  induction run with
  | nil => exact init
  | snoc _ last ih => exact hstep _ _ _ _ ih last

theorem single (h : step s l t) : Run step s [l] t := by
  simpa using Run.snoc Run.nil h

/-- Runs compose. -/
theorem trans (first : Run step s ls t) (second : Run step t ms u) :
    Run step s (ls ++ ms) u := by
  induction second with
  | nil => simpa using first
  | snoc _ last ih =>
      rw [← List.append_assoc]
      exact Run.snoc ih last

/-- A run without labels ends where it begins. -/
theorem nil_iff : Run step s [] t ↔ s = t := by
  constructor
  · intro h
    generalize hls : ([] : List L) = ls at h
    cases h with
    | nil => rfl
    | snoc _ _ => simp at hls
  · rintro rfl
    exact Run.nil

/-- The last step of a run. -/
theorem snoc_iff : Run step s (ls ++ [l]) u ↔ ∃ t, Run step s ls t ∧ step t l u := by
  constructor
  · intro h
    generalize hms : ls ++ [l] = ms at h
    cases h with
    | nil => simp at hms
    | snoc run last =>
        obtain ⟨rfl, hl⟩ := List.append_inj' hms rfl
        obtain rfl : l = _ := by simpa using hl
        exact ⟨_, run, last⟩
  · rintro ⟨t, run, last⟩
    exact Run.snoc run last

/-- A run falls apart at every point of its label list. -/
theorem append_iff : Run step s (ls ++ ms) u ↔ ∃ t, Run step s ls t ∧ Run step t ms u := by
  constructor
  · intro h
    induction ms using List.reverseRecOn generalizing u with
    | nil => exact ⟨u, by simpa using h, Run.nil⟩
    | append_singleton ms m ih =>
        rw [← List.append_assoc, snoc_iff] at h
        obtain ⟨t, run, last⟩ := h
        obtain ⟨r, first, second⟩ := ih run
        exact ⟨r, first, Run.snoc second last⟩
  · rintro ⟨t, first, second⟩
    exact first.trans second

/-- A run isolates any one of its steps. -/
theorem split (run : Run step s (ls ++ l :: ms) u) :
    ∃ t t', Run step s ls t ∧ step t l t' ∧ Run step t' ms u := by
  obtain ⟨t, first, rest⟩ := append_iff.mp run
  rw [← List.singleton_append] at rest
  obtain ⟨t', one, last⟩ := append_iff.mp rest
  rw [← List.nil_append [l], snoc_iff] at one
  obtain ⟨r, hnil, hstep⟩ := one
  obtain rfl := nil_iff.mp hnil
  exact ⟨t, t', first, hstep, last⟩

/-- A run of a smaller step relation is a run of a larger one. -/
theorem mono (hsub : ∀ s l t, step s l t → step' s l t) (run : Run step s ls t) :
    Run step' s ls t := by
  induction run with
  | nil => exact Run.nil
  | snoc _ last ih => exact Run.snoc ih (hsub _ _ _ last)

/-- **Exactly the good runs**, for a system with an invariant.  If from good states a step
leads to a good state exactly when it meets a condition, then the runs through good states
are the runs all of whose steps meet it. -/
theorem into_iff_under_of_invariant {I good : S → Prop} {cond : S → L → Prop}
    (hinv : ∀ s l t, I s → step s l t → I t) (inv₀ : I s) (good₀ : good s)
    (hstep : ∀ s l t, I s → good s → step s l t → (good t ↔ cond s l)) :
    Run (into step good) s ls t ↔ Run (under step cond) s ls t := by
  have hkeep : ∀ {ls t}, Run (into step good) s ls t → I t ∧ good t := fun run =>
    run.invariant (I := fun t => I t ∧ good t)
      (fun _ _ _ h last => ⟨hinv _ _ _ h.1 last.1, last.2⟩) ⟨inv₀, good₀⟩
  constructor
  · intro run
    induction run with
    | nil => exact Run.nil
    | snoc run last ih =>
        obtain ⟨hi, hg⟩ := hkeep run
        exact Run.snoc ih ⟨last.1, (hstep _ _ _ hi hg last.1).mp last.2⟩
  · intro run
    induction run with
    | nil => exact Run.nil
    | snoc _ last ih =>
        obtain ⟨hi, hg⟩ := hkeep ih
        exact Run.snoc ih ⟨last.1, (hstep _ _ _ hi hg last.1).mpr last.2⟩

/-- **Exactly the good runs.**  If from good states a step leads to a good state exactly
when it meets a condition, then the runs through good states are the runs all of whose
steps meet it. -/
theorem into_iff_under {good : S → Prop} {cond : S → L → Prop} (init : good s)
    (hstep : ∀ s l t, good s → step s l t → (good t ↔ cond s l)) :
    Run (into step good) s ls t ↔ Run (under step cond) s ls t :=
  into_iff_under_of_invariant (I := fun _ => True) (fun _ _ _ _ _ => trivial) trivial init
    fun s l t _ => hstep s l t

/-- Labels that are enabled one after the other are a run. -/
theorem of_enabled {enabled : S → L → Prop} {next : S → L → S} :
    ∀ {ls : List L} {s : S}, EnabledAll enabled next s ls →
      Run (guarded enabled next) s ls (ls.foldl next s) := by
  intro ls
  induction ls with
  | nil => exact fun _ => Run.nil
  | cons l ls ih => exact fun h => (single ⟨h.1, rfl⟩).trans (ih h.2)

/-- A side condition is one more thing that enables a step. -/
theorem under_of_enabled {enabled cond : S → L → Prop} {next : S → L → S}
    (run : Run (guarded (fun s l => enabled s l ∧ cond s l) next) s ls t) :
    Run (under (guarded enabled next) cond) s ls t :=
  run.mono fun _ _ _ h => ⟨⟨h.1.1, h.2⟩, h.1.2⟩

end Run

end LabelledRun
