import Mathlib.Data.List.Basic
import Mathlib.Data.List.Nodup
import Mathlib.Data.List.Sort
import Mathlib.Tactic

/-!
# Lists in strictly increasing rank

The elements of a list are ranked by a natural number, oldest first.  Scans of such
a list are described by counting and by comparing ranks, without positions:

* `sortBy rank l` orders a list by rank, oldest first, keeping the order of equal
  ranks; with distinct ranks it is `Increasing`.
* `newest n l` is the last `n` elements; `mem_newest_iff` says that an element is
  among them exactly when fewer than `n` elements are newer.
* `withLast p l` pairs each element with the last element up to it that satisfies
  `p`; `eq_some_iff_of_mem_withLast` says that this is the `Nearest` one.
-/

namespace RankedList

universe u

variable {α : Type u}

/-- The last `n` elements. -/
def newest (n : ℕ) (l : List α) : List α :=
  l.drop (l.length - n)

/-- Each element of the list with the last element up to and including it that
satisfies `p`; `last` is the one found so far. -/
def withLast (p : α → Bool) : Option α → List α → List (α × Option α)
  | _, [] => []
  | last, a :: l =>
      if p a then (a, some a) :: withLast p (some a) l
      else (a, last) :: withLast p last l

variable (rank : α → ℕ)

/-- The list ordered by rank. -/
def sortBy (l : List α) : List α :=
  l.insertionSort fun a b => rank a ≤ rank b

/-- Ranks increase strictly along the list. -/
def Increasing (l : List α) : Prop :=
  l.Pairwise fun a b => rank a < rank b

/-- `f` is the newest element of `l` that is not newer than `a` and satisfies
`p`. -/
def Nearest (p : α → Bool) (l : List α) (f a : α) : Prop :=
  f ∈ l ∧ p f = true ∧ rank f ≤ rank a ∧
    ∀ b ∈ l, p b = true → rank b ≤ rank a → rank b ≤ rank f

instance [DecidableEq α] (p : α → Bool) (l : List α) (f a : α) :
    Decidable (Nearest rank p l f a) :=
  inferInstanceAs (Decidable (_ ∧ _ ∧ _ ∧ _))

variable {rank} {l : List α} {a b : α} {p : α → Bool}

theorem sortBy_perm (l : List α) : (sortBy rank l).Perm l :=
  List.perm_insertionSort _ l

@[simp] theorem mem_sortBy : a ∈ sortBy rank l ↔ a ∈ l :=
  (sortBy_perm l).mem_iff

/-- Among the elements that satisfy `p` there is a newest one. -/
theorem exists_max (h : ∃ a ∈ l, p a = true) :
    ∃ a ∈ l, p a = true ∧ ∀ b ∈ l, p b = true → rank b ≤ rank a := by
  obtain ⟨a, ha, hpa⟩ := h
  cases hmax : (l.filter p).argmax rank with
  | none =>
      rw [List.argmax_eq_none, List.filter_eq_nil_iff] at hmax
      exact absurd hpa (hmax a ha)
  | some m =>
      obtain ⟨hm, hpm⟩ := List.mem_filter.mp (List.argmax_mem hmax)
      exact ⟨m, hm, hpm, fun b hb hpb =>
        List.le_of_mem_argmax (List.mem_filter.mpr ⟨hb, hpb⟩) hmax⟩

/-- In a part of the list that still has it, the nearest anchor is nearest again. -/
theorem Nearest.of_subset {l' : List α} {f : α} (h : Nearest rank p l f a) (hsub : l' ⊆ l)
    (hf : f ∈ l') : Nearest rank p l' f a :=
  ⟨hf, h.2.1, h.2.2.1, fun b hb => h.2.2.2 b (hsub hb)⟩

/-- An element with an anchor before it has a nearest one. -/
theorem exists_nearest (h : ∃ f ∈ l, p f = true ∧ rank f ≤ rank a) :
    ∃ f, Nearest rank p l f a := by
  obtain ⟨f, hf, hpf, hle⟩ := h
  obtain ⟨g, hg, hpg, hmax⟩ : ∃ g ∈ l, (p g && decide (rank g ≤ rank a)) = true ∧
      ∀ b ∈ l, (p b && decide (rank b ≤ rank a)) = true → rank b ≤ rank g :=
    exists_max ⟨f, hf, by simp [hpf, hle]⟩
  obtain ⟨hpg, hga⟩ : p g = true ∧ rank g ≤ rank a := by simpa using hpg
  exact ⟨g, hg, hpg, hga, fun b hb hpb hba => hmax b hb (by simp [hpb, hba])⟩

theorem sortBy_pairwise (l : List α) :
    (sortBy rank l).Pairwise fun a b => rank a ≤ rank b := by
  have : Std.Total fun a b : α => rank a ≤ rank b := ⟨fun a b => le_total (rank a) (rank b)⟩
  have : IsTrans α fun a b => rank a ≤ rank b := ⟨fun _ _ _ => le_trans⟩
  exact List.pairwise_insertionSort _ l

/-- With distinct ranks, the ordered list increases strictly. -/
theorem sortBy_increasing (hne : l.Pairwise fun a b => rank a ≠ rank b) :
    Increasing rank (sortBy rank l) := by
  have hne' : (sortBy rank l).Pairwise fun a b => rank a ≠ rank b :=
    (sortBy_perm l).symm.pairwise hne fun h => h.symm
  refine ((sortBy_pairwise l).and hne').imp ?_
  rintro a b ⟨hle, hab⟩
  exact lt_of_le_of_ne hle hab

/-- Sorting is stable: what holds along the list still holds along each rank. -/
theorem sortBy_stable {R : α → α → Prop} (h : l.Pairwise R) :
    (sortBy rank l).Pairwise fun a b => rank a = rank b → R a b := by
  have hinsert : ∀ (a : α) (l : List α), (∀ b ∈ l, R a b) →
      l.Pairwise (fun b c => rank b = rank c → R b c) →
      (l.orderedInsert (fun a b => rank a ≤ rank b) a).Pairwise
        fun b c => rank b = rank c → R b c := by
    intro a l ha hl
    induction l with
    | nil => simp
    | cons b l ih =>
        by_cases hab : rank a ≤ rank b
        · rw [List.orderedInsert, if_pos hab]
          exact List.pairwise_cons.mpr ⟨fun c hc _ => ha c hc, hl⟩
        · -- `b` stays in front of `a`, and ranks lower
          rw [List.orderedInsert, if_neg hab]
          obtain ⟨hb, hl⟩ := List.pairwise_cons.mp hl
          refine List.pairwise_cons.mpr
            ⟨fun c hc heq => ?_, ih (fun c hc => ha c (by simp [hc])) hl⟩
          rcases (List.mem_orderedInsert _).mp hc with rfl | hc
          · exact absurd heq.ge hab
          · exact hb c hc heq
  induction l with
  | nil => exact List.Pairwise.nil
  | cons a l ih =>
      obtain ⟨ha, hl⟩ := List.pairwise_cons.mp h
      exact hinsert a _ (fun b hb => ha b (mem_sortBy.mp hb)) (ih hl)

/-- An element of the greatest rank is sorted to the end. -/
theorem sortBy_concat (hle : ∀ b ∈ l, rank b ≤ rank a) :
    sortBy rank (l ++ [a]) = sortBy rank l ++ [a] := by
  have hinsert : ∀ (b : α) (l : List α), rank b ≤ rank a →
      (l ++ [a]).orderedInsert (fun a b => rank a ≤ rank b) b =
        l.orderedInsert (fun a b => rank a ≤ rank b) b ++ [a] := by
    intro b l hb
    induction l with
    | nil => simp [hb]
    | cons c l ih =>
        by_cases hbc : rank b ≤ rank c
        · simp [List.orderedInsert, hbc]
        · simp [List.orderedInsert, hbc, ih]
  induction l with
  | nil => rfl
  | cons b l ih =>
      have ih := ih fun c hc => hle c (by simp [hc])
      unfold sortBy at ih ⊢
      rw [List.cons_append, List.insertionSort_cons, List.insertionSort_cons, ih,
        hinsert b _ (hle b (by simp))]

/-- Ranks identify the elements of the list. -/
theorem Increasing.eq_of_rank (sorted : Increasing rank l) (ha : a ∈ l) (hb : b ∈ l)
    (heq : rank a = rank b) : a = b := by
  induction l with
  | nil => cases ha
  | cons x l ih =>
      obtain ⟨hx, hl⟩ := List.pairwise_cons.mp sorted
      rcases List.mem_cons.mp ha with rfl | hal <;> rcases List.mem_cons.mp hb with rfl | hbl
      · rfl
      · exact absurd heq (hx b hbl).ne
      · exact absurd heq (hx a hal).ne'
      · exact ih hl hal hbl

theorem Increasing.filter (sorted : Increasing rank l) (p : α → Bool) :
    Increasing rank (l.filter p) :=
  List.Pairwise.filter p sorted

/-- **Among the newest.**  An element is among the newest `n` exactly when fewer
than `n` elements are newer than it. -/
theorem mem_newest_iff (sorted : Increasing rank l) (n : ℕ) :
    a ∈ newest n l ↔ a ∈ l ∧ l.countP (fun b => rank a < rank b) < n := by
  -- split the list at `a`: what is newer is exactly what follows
  have hsplit : ∀ {pre post : List α}, l = pre ++ a :: post →
      l.countP (fun b => rank a < rank b) = post.length := by
    intro pre post heq
    subst heq
    obtain ⟨-, hpost, hpre⟩ := List.pairwise_append.mp sorted
    have hpost' := (List.pairwise_cons.mp hpost).1
    rw [List.countP_append, List.countP_cons]
    have hzero : pre.countP (fun b => rank a < rank b) = 0 := by
      rw [List.countP_eq_zero]
      intro b hb
      have hlt := hpre b hb a (by simp)
      simp only [decide_eq_true_eq, not_lt]
      exact hlt.le
    have hall : post.countP (fun b => rank a < rank b) = post.length := by
      rw [List.countP_eq_length]
      intro b hb
      simpa using hpost' b hb
    simp [hzero, hall]
  constructor
  · intro hmem
    have hl : a ∈ l := List.mem_of_mem_drop hmem
    refine ⟨hl, ?_⟩
    obtain ⟨pre, post, heq⟩ := List.append_of_mem hmem
    have hwhole : l = (l.take (l.length - n) ++ pre) ++ a :: post := by
      rw [List.append_assoc, ← heq, newest, List.take_append_drop]
    rw [hsplit hwhole]
    have hlen := congrArg List.length heq
    rw [newest, List.length_drop, List.length_append, List.length_cons] at hlen
    omega
  · rintro ⟨hl, hcount⟩
    obtain ⟨pre, post, heq⟩ := List.append_of_mem hl
    rw [hsplit heq] at hcount
    rw [newest, heq, List.drop_append_of_le_length]
    · simp
    · rw [List.length_append, List.length_cons]
      omega

/-- The newest of those that satisfy `p`. -/
theorem mem_newest_filter_iff (sorted : Increasing rank l) {n : ℕ} :
    a ∈ newest n (l.filter p) ↔
      a ∈ l ∧ p a = true ∧ l.countP (fun b => p b ∧ rank a < rank b) < n := by
  rw [mem_newest_iff (sorted.filter _), List.mem_filter, List.countP_filter, and_assoc]
  have hcount : l.countP (fun b => decide (rank a < rank b) && p b) =
      l.countP (fun b => p b ∧ rank a < rank b) := by
    refine List.countP_congr fun b _ => ?_
    simp [and_comm]
  rw [hcount]

theorem length_newest_le (n : ℕ) (l : List α) : (newest n l).length ≤ n := by
  rw [newest, List.length_drop]
  omega

theorem map_fst_withLast (p : α → Bool) (last : Option α) (l : List α) :
    (withLast p last l).map Prod.fst = l := by
  induction l generalizing last with
  | nil => rfl
  | cons a l ih =>
      unfold withLast
      split <;> simp [ih]

section Scan

variable {pre rest : List α} {x f : α}

/-- The last element that qualifies. -/
def Latest (rank : α → ℕ) (p : α → Bool) (l : List α) (f : α) : Prop :=
  f ∈ l ∧ p f = true ∧ ∀ b ∈ l, p b = true → rank b ≤ rank f

/-- The last one is the latest if it counts. -/
theorem latest_append_of_pos (hxpre : ∀ b ∈ pre, rank b < rank x) (hpx : p x = true) :
    Latest rank p (pre ++ [x]) f ↔ x = f := by
  constructor
  · rintro ⟨hfmem, -, hmax⟩
    rcases List.mem_append.mp hfmem with hf | hf
    · exact absurd (hmax x (by simp) hpx) (not_le.mpr (hxpre f hf))
    · exact (List.mem_singleton.mp hf).symm
  · rintro rfl
    refine ⟨by simp, hpx, fun b hb _ => ?_⟩
    rcases List.mem_append.mp hb with hb | hb
    · exact (hxpre b hb).le
    · rw [List.mem_singleton.mp hb]

/-- Otherwise it makes no difference. -/
theorem latest_append_of_neg (hpx : ¬ p x = true) :
    Latest rank p (pre ++ [x]) f ↔ Latest rank p pre f := by
  constructor
  · rintro ⟨hfmem, hpf, hmax⟩
    refine ⟨?_, hpf, fun b hb => hmax b (by simp [hb])⟩
    rcases List.mem_append.mp hfmem with hf | hf
    · exact hf
    · exact absurd (List.mem_singleton.mp hf ▸ hpf) hpx
  · rintro ⟨hfmem, hpf, hmax⟩
    refine ⟨by simp [hfmem], hpf, fun b hb hpb => ?_⟩
    rcases List.mem_append.mp hb with hb | hb
    · exact hmax b hb hpb
    · exact absurd (List.mem_singleton.mp hb ▸ hpb) hpx

/-- An element that qualifies is nearest to itself. -/
theorem nearest_iff_of_pos (sorted : Increasing rank l) (hx : x ∈ l) (hpx : p x = true) :
    Nearest rank p l f x ↔ x = f := by
  constructor
  · rintro ⟨hfmem, -, hle, hmax⟩
    exact sorted.eq_of_rank hx hfmem (le_antisymm (hmax x hx hpx le_rfl) hle)
  · rintro rfl
    exact ⟨hx, hpx, le_rfl, fun b _ _ hb => hb⟩

/-- To another one the nearest is the last before it. -/
theorem nearest_iff_of_neg (sorted : Increasing rank (pre ++ x :: rest)) (hpx : ¬ p x = true) :
    Nearest rank p (pre ++ x :: rest) f x ↔ Latest rank p pre f := by
  obtain ⟨-, hright, hcross⟩ := List.pairwise_append.mp sorted
  have hxpre : ∀ b ∈ pre, rank b < rank x := fun b hb => hcross b hb x (by simp)
  have hxrest : ∀ b ∈ rest, rank x < rank b := (List.pairwise_cons.mp hright).1
  -- what qualifies and is not after `x` is before it
  have hbefore : ∀ b ∈ pre ++ x :: rest, p b = true → rank b ≤ rank x → b ∈ pre := by
    intro b hb hpb hle
    rcases List.mem_append.mp hb with hb | hb
    · exact hb
    · rcases List.mem_cons.mp hb with rfl | hb
      · exact absurd hpb hpx
      · exact absurd hle (not_le.mpr (hxrest b hb))
  constructor
  · rintro ⟨hfmem, hpf, hle, hmax⟩
    exact ⟨hbefore f hfmem hpf hle, hpf,
      fun b hb hpb => hmax b (by simp [hb]) hpb (hxpre b hb).le⟩
  · rintro ⟨hfmem, hpf, hmax⟩
    exact ⟨by simp [hfmem], hpf, (hxpre f hfmem).le,
      fun b hb hpb hle => hmax b (hbefore b hb hpb hle) hpb⟩

/-- The scan with a prefix already behind it. -/
theorem nearest_of_mem_withLast (sorted : Increasing rank (pre ++ rest)) {last : Option α}
    (hlast : ∀ f, last = some f ↔ Latest rank p pre f) :
    ∀ a o, (a, o) ∈ withLast p last rest →
      ∀ f, o = some f ↔ Nearest rank p (pre ++ rest) f a := by
  induction rest generalizing pre last with
  | nil => intro a o hmem; cases hmem
  | cons x rest ih =>
      have happ : pre ++ x :: rest = pre ++ [x] ++ rest := by simp
      intro a o hmem f
      unfold withLast at hmem
      by_cases hpx : p x = true
      · rw [if_pos hpx] at hmem
        rcases List.mem_cons.mp hmem with heq | hmem
        · obtain ⟨rfl, rfl⟩ := Prod.mk.inj heq
          rw [nearest_iff_of_pos sorted (by simp) hpx, Option.some_inj]
        · have hxpre : ∀ b ∈ pre, rank b < rank x := fun b hb =>
            (List.pairwise_append.mp sorted).2.2 b hb x (by simp)
          rw [happ] at sorted ⊢
          refine ih sorted (fun f => ?_) a o hmem f
          rw [latest_append_of_pos hxpre hpx, Option.some_inj]
      · rw [if_neg hpx] at hmem
        rcases List.mem_cons.mp hmem with heq | hmem
        · obtain ⟨rfl, rfl⟩ := Prod.mk.inj heq
          rw [hlast, nearest_iff_of_neg sorted hpx]
        · rw [happ] at sorted ⊢
          refine ih sorted (fun f => ?_) a o hmem f
          rw [hlast, latest_append_of_neg hpx]

end Scan

/-- **The scan finds the nearest.** -/
theorem eq_some_iff_of_mem_withLast (sorted : Increasing rank l) {o : Option α}
    (hmem : (a, o) ∈ withLast p none l) (f : α) : o = some f ↔ Nearest rank p l f a :=
  nearest_of_mem_withLast (show Increasing rank ([] ++ l) from sorted) (by simp [Latest]) a o hmem f

theorem mem_of_mem_withLast {o : Option α} (hmem : (a, o) ∈ withLast p none l) : a ∈ l := by
  rw [← map_fst_withLast p none l]
  exact List.mem_map.mpr ⟨(a, o), hmem, rfl⟩

theorem exists_mem_withLast (p : α → Bool) (ha : a ∈ l) : ∃ o, (a, o) ∈ withLast p none l := by
  rw [← map_fst_withLast p none l] at ha
  obtain ⟨⟨b, o⟩, hmem, rfl⟩ := List.mem_map.mp ha
  exact ⟨o, hmem⟩

end RankedList
