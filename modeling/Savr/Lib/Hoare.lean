import Mathlib.Data.List.Basic
import Mathlib.Tactic

/-!
# Programs with a state and errors

`Prog σ ε α` is a program over a state `σ` that returns a value or stops with an error; the
state it reached is kept in both cases.  `Triple P c Q E` says what holds afterwards: from a
state with `P`, the program `c` either returns a value and a state with `Q`, or stops in a
state with `E`.

## Main results

* `triple_bind`, `triple_forM`, `triple_foldlM` — sequencing, and loops with an invariant
  that may speak of what the loop has done so far.
* `triple_attempt` — an operation whose error is ignored.
* `triple_zoom` — a program that only works on a part of the state.
* `bind_eq_ok_iff` — a sequence succeeds exactly when its parts do.
* `keeps_bind`, `keeps_forM`, `keeps_foldlM` — a preorder on states that every part of a
  program moves up in, the whole program moves up in, however it ends.
-/

namespace Hoare

universe u

/-- A program over a state that may stop with an error. -/
def Prog (σ ε α : Type u) : Type u := σ → Except ε α × σ

variable {σ τ ε α β : Type u}

namespace Prog

/-- One program after the other; an error ends both. -/
protected def bind (c : Prog σ ε α) (f : α → Prog σ ε β) : Prog σ ε β := fun s =>
  match c s with
  | (.ok a, s') => f a s'
  | (.error e, s') => (.error e, s')

instance : Monad (Prog σ ε) where
  pure a := fun s => (.ok a, s)
  bind := Prog.bind

protected theorem bind_pure (c : Prog σ ε α) : Prog.bind c (fun a => pure a) = c := by
  funext s
  rw [Prog.bind]
  rcases c s with ⟨_ | _, _⟩ <;> rfl

protected theorem bind_assoc {γ : Type u} (c : Prog σ ε α) (f : α → Prog σ ε β)
    (g : β → Prog σ ε γ) :
    Prog.bind (Prog.bind c f) g = Prog.bind c fun a => Prog.bind (f a) g := by
  funext s
  simp only [Prog.bind]
  rcases c s with ⟨_ | _, _⟩ <;> rfl

instance : LawfulMonad (Prog σ ε) :=
  LawfulMonad.mk' _ Prog.bind_pure (fun _ _ => rfl) Prog.bind_assoc

/-- Stop with an error. -/
def throw (e : ε) : Prog σ ε α := fun s => (.error e, s)

/-- Read the state. -/
def get : Prog σ ε σ := fun s => (.ok s, s)

/-- Change the state. -/
def modify (f : σ → σ) : Prog σ ε PUnit := fun s => (.ok ⟨⟩, f s)

/-- Run a program for its effects, whether it succeeds or not. -/
def attempt (c : Prog σ ε α) : Prog σ ε PUnit := fun s => (.ok ⟨⟩, (c s).2)

/-- Replace the error. -/
def orElse (c : Prog σ ε α) (e : ε) : Prog σ ε α := fun s =>
  match c s with
  | (.ok a, s') => (.ok a, s')
  | (.error _, s') => (.error e, s')

/-- The result of a program, whether it succeeds or not. -/
def tried (c : Prog σ ε α) : Prog σ ε (Except ε α) := fun s => (.ok (c s).1, (c s).2)

/-- A value, or an error in its place. -/
def ofOption (e : ε) : Option α → Prog σ ε α
  | some a => pure a
  | none => throw e

/-- Run a program on a part of the state. -/
def zoom (part : τ → σ) (put : σ → τ → τ) (c : Prog σ ε α) : Prog τ ε α := fun t =>
  ((c (part t)).1, put (c (part t)).2 t)

end Prog

open Prog

/-! ### Results -/

/-- A sequence returns when its first part returns and its second returns from there. -/
theorem bind_eq_ok_iff {c : Prog σ ε α} {f : α → Prog σ ε β} {s s'' : σ} {b : β} :
    (c >>= f) s = (.ok b, s'') ↔ ∃ a s', c s = (.ok a, s') ∧ f a s' = (.ok b, s'') := by
  change Prog.bind c f s = _ ↔ _
  rw [Prog.bind]
  rcases c s with ⟨_ | a, s'⟩
  · simp
  · constructor
    · exact fun h => ⟨a, s', rfl, h⟩
    · rintro ⟨a, s', heq, h⟩
      cases heq
      exact h

theorem bind_of_ok {c : Prog σ ε α} {f : α → Prog σ ε β} {s s' : σ} {a : α}
    (h : c s = (.ok a, s')) : (c >>= f) s = f a s' := by
  change Prog.bind c f s = _
  rw [Prog.bind, h]

theorem bind_of_error {c : Prog σ ε α} {f : α → Prog σ ε β} {s s' : σ} {e : ε}
    (h : c s = (.error e, s')) : (c >>= f) s = (.error e, s') := by
  change Prog.bind c f s = _
  rw [Prog.bind, h]

theorem get_bind (f : σ → Prog σ ε β) (s : σ) : (get >>= f) s = f s s := rfl

theorem orElse_of_ok {c : Prog σ ε α} {e : ε} {s s' : σ} {a : α} (h : c s = (.ok a, s')) :
    orElse c e s = (.ok a, s') := by
  rw [orElse, h]

theorem orElse_of_error {c : Prog σ ε α} {e e' : ε} {s s' : σ} (h : c s = (.error e', s')) :
    orElse c e s = (.error e, s') := by
  rw [orElse, h]

/-! ### Triples -/

/-- From a state with `P` the program returns into `Q` or stops in `E`. -/
def Triple (P : σ → Prop) (c : Prog σ ε α) (Q : α → σ → Prop) (E : σ → Prop) : Prop :=
  ∀ s, P s →
    (∀ a s', c s = (.ok a, s') → Q a s') ∧ (∀ e s', c s = (.error e, s') → E s')

variable {P P' : σ → Prop} {E E' : σ → Prop} {c : Prog σ ε α} {Q Q' : α → σ → Prop}

theorem Triple.ok (h : Triple P c Q E) {s s' : σ} {a : α} (hs : P s)
    (hrun : c s = (.ok a, s')) : Q a s' :=
  (h s hs).1 a s' hrun

theorem Triple.error (h : Triple P c Q E) {s s' : σ} {e : ε} (hs : P s)
    (hrun : c s = (.error e, s')) : E s' :=
  (h s hs).2 e s' hrun

/-- A program that cannot stop with an error returns. -/
theorem Triple.returns (h : Triple P c Q fun _ => False) {s : σ} (hs : P s) :
    ∃ a s', c s = (.ok a, s') ∧ Q a s' := by
  rcases hrun : c s with ⟨e | a, s'⟩
  · exact (h.error hs hrun).elim
  · exact ⟨a, s', rfl, h.ok hs hrun⟩

/-- A condition that holds however the program ends. -/
theorem Triple.final {s : σ} {I : σ → Prop} (h : Triple (fun s' => s' = s) c (fun _ => I) I) :
    I (c s).2 := by
  rcases hrun : c s with ⟨e | a, s'⟩
  · exact h.error rfl hrun
  · exact h.ok rfl hrun

theorem Triple.conseq (h : Triple P c Q E) (hpre : ∀ s, P' s → P s)
    (hpost : ∀ a s, Q a s → Q' a s) (herr : ∀ s, E s → E' s) : Triple P' c Q' E' :=
  fun s hs => ⟨fun a s' hrun => hpost a s' (h.ok (hpre s hs) hrun),
    fun _ s' hrun => herr s' (h.error (hpre s hs) hrun)⟩

theorem Triple.and (h : Triple P c Q E) (h' : Triple P c Q' E') :
    Triple P c (fun a s => Q a s ∧ Q' a s) fun s => E s ∧ E' s :=
  fun _ hs => ⟨fun _ _ hrun => ⟨h.ok hs hrun, h'.ok hs hrun⟩,
    fun _ _ hrun => ⟨h.error hs hrun, h'.error hs hrun⟩⟩

/-- What is known of the state before a program may be used in what holds after it. -/
theorem triple_of_state (h : ∀ s₀, P s₀ → Triple (fun s => s = s₀) c Q E) : Triple P c Q E :=
  fun s hs => h s hs s rfl

theorem triple_any : Triple P c (fun _ _ => True) fun _ => True :=
  fun _ _ => ⟨fun _ _ _ => trivial, fun _ _ _ => trivial⟩

/-- The rule for a value that is returned as it is. -/
theorem triple_pure {a : α} (h : ∀ s, P s → Q a s) :
    Triple P (pure a : Prog σ ε α) Q E := by
  intro s hs
  refine ⟨?_, ?_⟩
  · intro b s' hrun
    cases hrun
    exact h s hs
  · intro e s' hrun
    cases hrun

/-- The rule for an error. -/
theorem triple_throw {e : ε} (h : ∀ s, P s → E s) : Triple P (throw e) Q E := by
  intro s hs
  refine ⟨?_, ?_⟩
  · intro b s' hrun
    cases hrun
  · intro e s' hrun
    cases hrun
    exact h s hs

/-- The rule for reading the state. -/
theorem triple_get {Q : σ → σ → Prop} (h : ∀ s, P s → Q s s) :
    Triple P (get : Prog σ ε σ) Q E := by
  intro s hs
  refine ⟨?_, ?_⟩
  · intro b s' hrun
    cases hrun
    exact h s hs
  · intro e s' hrun
    cases hrun

/-- The rule for changing the state. -/
theorem triple_modify {f : σ → σ} {Q : PUnit → σ → Prop} (h : ∀ s, P s → Q ⟨⟩ (f s)) :
    Triple P (modify f : Prog σ ε PUnit) Q E := by
  intro s hs
  refine ⟨?_, ?_⟩
  · intro b s' hrun
    cases hrun
    exact h s hs
  · intro e s' hrun
    cases hrun

/-- One program after the other. -/
theorem triple_bind {f : α → Prog σ ε β} {R : α → σ → Prop} {Q : β → σ → Prop}
    (hc : Triple P c R E) (hf : ∀ a, Triple (R a) (f a) Q E) : Triple P (c >>= f) Q E := by
  intro s hs
  change (∀ b s', Prog.bind c f s = _ → _) ∧ ∀ e s', Prog.bind c f s = _ → _
  rw [Prog.bind]
  rcases hrun : c s with ⟨e | a, s'⟩
  · refine ⟨?_, ?_⟩
    · intro b s'' h
      cases h
    · intro e' s'' h
      cases h
      exact hc.error hs hrun
  · exact hf a s' (hc.ok hs hrun)

/-- Reading the state fixes it for what follows. -/
theorem triple_get_bind {f : σ → Prog σ ε β} {Q : β → σ → Prop}
    (h : ∀ s₀, P s₀ → Triple (fun s => s = s₀) (f s₀) Q E) : Triple P (get >>= f) Q E :=
  triple_of_state fun s₀ hs₀ => triple_bind (R := fun a s => a = s₀ ∧ s = s₀)
    (triple_get fun _ hs => ⟨hs, hs⟩) fun a s hs => by
      obtain ⟨rfl, rfl⟩ := hs
      exact h s hs₀ s rfl

theorem triple_ofOption {e : ε} {o : Option α} (hsome : ∀ a, o = some a → ∀ s, P s → Q a s)
    (hnone : o = none → ∀ s, P s → E s) : Triple P (ofOption e o) Q E := by
  cases o with
  | none => exact triple_throw (hnone rfl)
  | some a => exact triple_pure (hsome a rfl)

/-- The rule for a part whose errors are dropped: both ends have to be good. -/
theorem triple_attempt {Q : PUnit → σ → Prop} (h : Triple P c (fun _ => Q ⟨⟩) (Q ⟨⟩)) :
    Triple P (attempt c) Q E := by
  intro s hs
  refine ⟨?_, ?_⟩
  · intro _ s' hrun
    cases hrun
    rcases hc : c s with ⟨e | a, s'⟩
    · exact h.error hs hc
    · exact h.ok hs hc
  · intro e s' hrun
    cases hrun

/-- The rule for a part whose error is looked at. It may use which start the error came from. -/
theorem triple_tried {Q : Except ε α → σ → Prop}
    (h : Triple P c (fun a => Q (.ok a)) fun s => ∀ e, (∃ s₀, P s₀ ∧ c s₀ = (.error e, s)) →
      Q (.error e) s) : Triple P (tried c) Q E := by
  intro s hs
  refine ⟨fun r s' hrun => ?_, fun e s' hrun => ?_⟩
  · cases hrun
    rcases hc : c s with ⟨e | a, s'⟩
    · exact h.error hs hc e ⟨s, hs, hc⟩
    · exact h.ok hs hc
  · cases hrun

/-- Replacing the error changes nothing else. -/
theorem triple_orElse {e : ε} (h : Triple P c Q E) : Triple P (orElse c e) Q E := by
  intro s hs
  rw [orElse]
  rcases hc : c s with ⟨e' | a, s'⟩
  · refine ⟨?_, ?_⟩
    · intro a s'' hrun
      cases hrun
    · intro e'' s'' hrun
      cases hrun
      exact h.error hs hc
  · refine ⟨?_, ?_⟩
    · intro b s'' hrun
      cases hrun
      exact h.ok hs hc
    · intro e'' s'' hrun
      cases hrun

/-- A program on a part of the state. -/
theorem triple_zoom {part : τ → σ} {put : σ → τ → τ} {P : τ → Prop} {Q : α → τ → Prop}
    {E : τ → Prop}
    (h : ∀ t, P t → Triple (fun s => s = part t) c (fun a s => Q a (put s t))
      fun s => E (put s t)) : Triple P (zoom part put c) Q E := by
  intro t ht
  refine ⟨?_, ?_⟩
  · intro a t' hrun
    obtain ⟨hres, rfl⟩ := Prod.mk.inj hrun
    exact (h t ht (part t) rfl).1 a (c (part t)).2 (Prod.ext hres rfl)
  · intro e t' hrun
    obtain ⟨hres, rfl⟩ := Prod.mk.inj hrun
    exact (h t ht (part t) rfl).2 e (c (part t)).2 (Prod.ext hres rfl)

/-! ### Loops -/

/-- **The loop rule.**  The invariant speaks of the part of the list that is done. -/
theorem triple_foldlM {f : β → α → Prog σ ε β} {xs : List α} {b : β}
    (I : List α → β → σ → Prop)
    (hstep : ∀ done x rest b, xs = done ++ x :: rest →
      Triple (I done b) (f b x) (fun b' => I (done ++ [x]) b') E) :
    Triple (I [] b) (xs.foldlM f b) (fun b' => I xs b') E := by
  suffices h : ∀ rest done b, xs = done ++ rest →
      Triple (I done b) (rest.foldlM f b) (fun b' => I xs b') E from h xs [] b rfl
  intro rest
  induction rest with
  | nil =>
      intro done b hxs
      rw [List.append_nil] at hxs
      subst hxs
      exact triple_pure fun _ hs => hs
  | cons x rest ih =>
      intro done b hxs
      rw [List.foldlM_cons]
      refine triple_bind (hstep done x rest b hxs) fun b' => ih (done ++ [x]) b' ?_
      rw [hxs, List.append_assoc]
      rfl

/-- A loop whose invariant speaks of what is done. -/
theorem triple_forM {f : α → Prog σ ε PUnit} {xs : List α} (I : List α → σ → Prop)
    (hstep : ∀ done x rest, xs = done ++ x :: rest →
      Triple (I done) (f x) (fun _ => I (done ++ [x])) E) :
    Triple (I []) (xs.forM f) (fun _ => I xs) E := by
  suffices h : ∀ rest done, xs = done ++ rest →
      Triple (I done) (rest.forM f) (fun _ => I xs) E from h xs [] rfl
  intro rest
  induction rest with
  | nil =>
      intro done hxs
      rw [List.append_nil] at hxs
      subst hxs
      exact triple_pure fun _ hs => hs
  | cons x rest ih =>
      intro done hxs
      change Triple _ (f x >>= fun _ => rest.forM f) _ _
      refine triple_bind (hstep done x rest hxs) fun _ => ih (done ++ [x]) ?_
      rw [hxs, List.append_assoc]
      rfl

/-- An invariant of the body is an invariant of the loop. -/
theorem triple_forM_of_invariant {f : α → Prog σ ε PUnit} {xs : List α} {I : σ → Prop}
    (hstep : ∀ x ∈ xs, Triple I (f x) (fun _ => I) E) :
    Triple I (xs.forM f) (fun _ => I) E :=
  triple_forM (fun _ => I) fun _ x _ hxs => hstep x (by rw [hxs]; simp)

/-! ### What a program does to the state, however it ends -/

/-- The state moves along `R`, whether the program returns or stops. -/
def Keeps (R : σ → σ → Prop) (c : Prog σ ε α) : Prop := ∀ s, R s (c s).2

section Keeps

variable {R : σ → σ → Prop} {f : α → Prog σ ε β}

theorem keeps_of_triple (h : ∀ s₀, Triple (fun s => s = s₀) c (fun _ s => R s₀ s) fun s => R s₀ s) :
    Keeps R c :=
  fun s => (h s).final

/-- A relation that a program keeps is a triple from each start. -/
theorem Keeps.triple (h : Keeps R c) {s₀ : σ} :
    Triple (fun s => s = s₀) c (fun _ s => R s₀ s) fun s => R s₀ s := by
  rintro s rfl
  refine ⟨fun a s' hrun => ?_, fun e s' hrun => ?_⟩
  · have hs := h s
    rwa [hrun] at hs
  · have hs := h s
    rwa [hrun] at hs

theorem Keeps.mono {R' : σ → σ → Prop} (h : Keeps R c) (himp : ∀ s s', R s s' → R' s s') :
    Keeps R' c :=
  fun s => himp s _ (h s)

/-- From a state that is reached along `R`, the program goes on along `R`. -/
theorem Keeps.triple_from [IsTrans σ R] (h : Keeps R c) {s₀ : σ} :
    Triple (fun s => R s₀ s) c (fun _ s => R s₀ s) fun s => R s₀ s :=
  triple_of_state fun _ hs => h.triple.conseq (fun _ h => h)
    (fun _ _ hs' => IsTrans.trans _ _ _ hs hs') fun _ hs' => IsTrans.trans _ _ _ hs hs'

/-- A condition that moves along the relation is kept, however the program ends. -/
theorem Keeps.invariant {I : σ → Prop} (h : Keeps R c) (hI : ∀ s s', R s s' → I s → I s') :
    Triple I c (fun _ => I) I :=
  triple_of_state fun _ hs₀ => h.triple.conseq (fun _ hs => hs) (fun _ _ hs => hI _ _ hs hs₀)
    fun _ hs => hI _ _ hs hs₀

theorem keeps_attempt (h : Keeps R c) : Keeps R (attempt c) := h

theorem keeps_orElse {e : ε} (h : Keeps R c) : Keeps R (orElse c e) := by
  intro s
  have hs := h s
  rw [orElse]
  rcases hrun : c s with ⟨_ | _, s'⟩
  · rwa [hrun] at hs
  · rwa [hrun] at hs

theorem keeps_zoom {part : τ → σ} {put : σ → τ → τ} {R' : τ → τ → Prop} (h : Keeps R c)
    (himp : ∀ t s, R (part t) s → R' t (put s t)) : Keeps R' (zoom part put c) :=
  fun t => himp t _ (h (part t))

/-- What comes second may rely on what came first. -/
theorem keeps_bind_of [IsTrans σ R] (hc : Keeps R c)
    (hf : ∀ s a s', c s = (.ok a, s') → R s' (f a s').2) : Keeps R (c >>= f) := by
  intro s
  have hs := hc s
  change R s (Prog.bind c f s).2
  rw [Prog.bind]
  rcases hrun : c s with ⟨e | a, s'⟩
  · rwa [hrun] at hs
  · rw [hrun] at hs
    exact IsTrans.trans _ _ _ hs (hf s a s' hrun)

theorem keeps_bind [IsTrans σ R] (hc : Keeps R c) (hf : ∀ a, Keeps R (f a)) :
    Keeps R (c >>= f) :=
  keeps_bind_of hc fun _ a s' _ => hf a s'

variable [Std.Refl R]

theorem keeps_pure (a : α) : Keeps R (pure a : Prog σ ε α) := fun s => Std.Refl.refl s

theorem keeps_throw (e : ε) : Keeps R (throw e : Prog σ ε α) := fun s => Std.Refl.refl s

theorem keeps_get : Keeps R (get : Prog σ ε σ) := fun s => Std.Refl.refl s

theorem keeps_ofOption (e : ε) (o : Option α) : Keeps R (ofOption e o : Prog σ ε α) := by
  cases o with
  | none => exact keeps_throw e
  | some a => exact keeps_pure a

variable [IsTrans σ R]

/-- A loop keeps a preorder that its rounds keep. -/
theorem keeps_forM {f : α → Prog σ ε PUnit} {xs : List α} (h : ∀ x ∈ xs, Keeps R (f x)) :
    Keeps R (xs.forM f) := by
  induction xs with
  | nil => exact keeps_pure _
  | cons x xs ih =>
      change Keeps R (f x >>= fun _ => xs.forM f)
      exact keeps_bind (h x (List.mem_cons_self ..)) fun _ =>
        ih fun y hy => h y (List.mem_cons_of_mem x hy)

/-- So does a loop that carries a value along. -/
theorem keeps_foldlM {f : β → α → Prog σ ε β} {xs : List α} {b : β}
    (h : ∀ b, ∀ x ∈ xs, Keeps R (f b x)) : Keeps R (xs.foldlM f b) := by
  induction xs generalizing b with
  | nil => exact keeps_pure _
  | cons x xs ih =>
      rw [List.foldlM_cons]
      exact keeps_bind (h b x (List.mem_cons_self ..)) fun b' =>
        ih fun b y hy => h b y (List.mem_cons_of_mem x hy)

end Keeps

end Hoare
