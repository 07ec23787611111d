import Mathlib.Data.List.Basic
import Mathlib.Tactic

/-!
# Scripts of actions and their prefixes

An operation that performs several writes one after the other is a list of
actions over a state.  If it can be interrupted between two of them, what it
leaves behind is the state after a prefix of the list.

`Always P s as` says that `P` holds after every prefix.  It is the rule for
interrupted operations: split the script where its argument splits, and check each
action once.
-/

namespace Script

universe u v

variable {S : Type u} {A : Type v} (apply : S → A → S)

/-- The state after all actions. -/
def run (s : S) (as : List A) : S :=
  as.foldl apply s

/-- `P` holds after every prefix of the actions. -/
def Always (P : S → Prop) (s : S) (as : List A) : Prop :=
  ∀ k, P (run apply s (as.take k))

variable {apply} {P Q : S → Prop} {s : S} {as bs : List A} {a : A}

@[simp] theorem run_nil : run apply s [] = s := rfl

@[simp] theorem run_cons : run apply s (a :: as) = run apply (apply s a) as := rfl

@[simp] theorem run_append : run apply s (as ++ bs) = run apply (run apply s as) bs :=
  List.foldl_append

@[simp] theorem always_nil : Always apply P s [] ↔ P s := by
  simp [Always]

/-- Something holds throughout a script when it holds at its start and throughout the rest. -/
@[simp] theorem always_cons :
    Always apply P s (a :: as) ↔ P s ∧ Always apply P (apply s a) as := by
  constructor
  · intro h
    exact ⟨by simpa using h 0, fun k => by simpa using h (k + 1)⟩
  · rintro ⟨hnow, hlater⟩ k
    cases k with
    | zero => simpa using hnow
    | succ k => simpa using hlater k

theorem Always.start (h : Always apply P s as) : P s := by
  simpa using h 0

theorem Always.finish (h : Always apply P s as) : P (run apply s as) := by
  simpa using h as.length

/-- A script falls apart where two scripts were joined. -/
theorem always_append :
    Always apply P s (as ++ bs) ↔ Always apply P s as ∧ Always apply P (run apply s as) bs := by
  induction as generalizing s with
  | nil =>
      simp only [List.nil_append, always_nil, run_nil, iff_and_self]
      exact Always.start
  | cons a as ih => rw [List.cons_append, always_cons, always_cons, ih, run_cons, and_assoc]

/-- A predicate that every action of the script keeps holds throughout. -/
theorem Always.of_step (init : P s) (hstep : ∀ s, P s → ∀ a ∈ as, P (apply s a)) :
    Always apply P s as := by
  induction as generalizing s with
  | nil => simpa using init
  | cons a as ih =>
      rw [always_cons]
      exact ⟨init, ih (hstep s init a (by simp)) fun s hs b hb => hstep s hs b (by simp [hb])⟩

theorem Always.imp (h : Always apply P s as) (himp : ∀ s, P s → Q s) : Always apply Q s as :=
  fun k => himp _ (h k)

theorem Always.and (h : Always apply P s as) (h' : Always apply Q s as) :
    Always apply (fun s => P s ∧ Q s) s as :=
  fun k => ⟨h k, h' k⟩

end Script
