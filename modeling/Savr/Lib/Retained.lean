import Savr.Lib.Ranked

/-!
# Retention by groups

In a list of ranked elements some are *anchors* (`p`); every other element belongs
to the nearest anchor before it.  A retention keeps the guarded elements, each with
its anchor, the newest `anchors` anchors, and the newest `members` members behind
each of these.

## Main results

* `Retained.anchor` — with a kept member its anchor is kept.
* `retained_of_retained` — what is kept is kept again when the retention is applied
  to what is left: groups only shrink, and a survivor stays in its group.
-/

namespace RankedList

universe u

variable {α : Type u} [DecidableEq α]

/-- What a retention keeps of a list: the guarded ones and the anchors in front of them, the
newest anchors, and the newest members behind each of these. -/
def Retained (rank : α → ℕ) (p : α → Bool) (guarded : α → Prop) (anchors members : ℕ)
    (l : List α) (a : α) : Prop :=
  guarded a ∨
    (∃ b ∈ l, guarded b ∧ Nearest rank p l a b) ∨
    (p a = true ∧ l.countP (fun b => p b ∧ rank a < rank b) < anchors) ∨
    (p a = false ∧ ∃ f, Nearest rank p l f a ∧
      l.countP (fun b => p b ∧ rank f < rank b) < anchors ∧
      l.countP (fun b => p b = false ∧ rank a < rank b ∧ Nearest rank p l f b) < members)

variable {rank : α → ℕ} {p : α → Bool} {guarded guarded' : α → Prop} {anchors members : ℕ}
  {l l' : List α} {a b f : α}

/-- With a kept member its anchor is kept. -/
theorem Retained.anchor (h : Retained rank p guarded anchors members l a) (ha : a ∈ l)
    (hpa : p a = false) (hbehind : ∃ f ∈ l, p f = true ∧ rank f ≤ rank a) :
    ∃ f, Nearest rank p l f a ∧ Retained rank p guarded anchors members l f := by
  rcases h with hguard | ⟨b, -, -, hnear⟩ | ⟨hanchor, -⟩ | ⟨-, f, hnear, hnewer, -⟩
  · obtain ⟨f, hnear⟩ := exists_nearest hbehind
    exact ⟨f, hnear, Or.inr (Or.inl ⟨a, ha, hguard, hnear⟩)⟩
  · exact absurd hnear.2.1 (by simp [hpa])
  · exact absurd hanchor (by simp [hpa])
  · exact ⟨f, hnear, Or.inr (Or.inr (Or.inl ⟨hnear.2.1, hnewer⟩))⟩

/-- A survivor's nearest anchor among the survivors is the one it had. -/
theorem nearest_of_survivors (hsub : l' ⊆ l)
    (hkept : ∀ a ∈ l, a ∈ l' ↔ Retained rank p guarded anchors members l a)
    (ha : a ∈ l') (hpa : p a = false) (h : Nearest rank p l' f a) : Nearest rank p l f a := by
  obtain ⟨hf, hpf, hle, hmax⟩ := h
  obtain ⟨g, hnear, hg⟩ := ((hkept a (hsub ha)).mp ha).anchor (hsub ha) hpa
    ⟨f, hsub hf, hpf, hle⟩
  -- the old anchor survives, so it is not newer than `f`
  have hgf : rank g ≤ rank f :=
    hmax g ((hkept g hnear.1).mpr hg) hnear.2.1 hnear.2.2.1
  exact ⟨hsub hf, hpf, hle, fun b hb hpb hba => (hnear.2.2.2 b hb hpb hba).trans hgf⟩

/-- **What is kept is kept again.**  The retention of the survivors keeps all of
them, if every guarded survivor is still guarded. -/
theorem retained_of_retained (hsub : l'.Subperm l)
    (hkept : ∀ a ∈ l, a ∈ l' ↔ Retained rank p guarded anchors members l a)
    (hguard : ∀ a ∈ l', guarded a → guarded' a) (ha : a ∈ l') :
    Retained rank p guarded' anchors members l' a := by
  have hcount : ∀ f, l'.countP (fun b => p b ∧ rank f < rank b) ≤
      l.countP (fun b => p b ∧ rank f < rank b) := fun f => hsub.countP_le _
  rcases (hkept a (hsub.subset ha)).mp ha with
    hg | ⟨b, hb, hg, hnear⟩ | ⟨hpa, hnewer⟩ | ⟨hpa, f, hnear, hnewer, hmembers⟩
  · exact Or.inl (hguard a ha hg)
  · have hb' : b ∈ l' := (hkept b hb).mpr (Or.inl hg)
    exact Or.inr (Or.inl ⟨b, hb', hguard b hb' hg, hnear.of_subset hsub.subset ha⟩)
  · exact Or.inr (Or.inr (Or.inl ⟨hpa, (hcount a).trans_lt hnewer⟩))
  · have hf : f ∈ l' :=
      (hkept f hnear.1).mpr (Or.inr (Or.inr (Or.inl ⟨hnear.2.1, hnewer⟩)))
    refine Or.inr (Or.inr (Or.inr ⟨hpa, f, hnear.of_subset hsub.subset hf,
      (hcount f).trans_lt hnewer, lt_of_le_of_lt ?_ hmembers⟩))
    -- the group of `f` among the survivors is a part of what it was
    calc l'.countP (fun b => p b = false ∧ rank a < rank b ∧ Nearest rank p l' f b)
        ≤ l'.countP (fun b => p b = false ∧ rank a < rank b ∧ Nearest rank p l f b) := by
          refine List.countP_mono_left fun b hb h => ?_
          simp only [decide_eq_true_eq] at h ⊢
          exact ⟨h.1, h.2.1, nearest_of_survivors hsub.subset hkept hb h.1 h.2.2⟩
      _ ≤ l.countP (fun b => p b = false ∧ rank a < rank b ∧ Nearest rank p l f b) :=
          hsub.countP_le _

/-! ### Only the last element is guarded -/

section LastGuarded

/-- The elements behind an anchor. -/
def behind (rank : α → ℕ) (p : α → Bool) (l : List α) (f : α) : List α :=
  l.filter fun a => p a = false ∧ Nearest rank p l f a

theorem mem_behind : a ∈ behind rank p l f ↔ a ∈ l ∧ p a = false ∧ Nearest rank p l f a := by
  simp [behind]

/-- Newer elements behind an anchor are counted behind it. -/
theorem countP_behind : (behind rank p l f).countP (fun b => rank a < rank b) =
    l.countP (fun b => p b = false ∧ rank a < rank b ∧ Nearest rank p l f b) := by
  rw [behind, List.countP_filter]
  refine List.countP_congr fun b _ => ?_
  simp only [Bool.and_eq_true, decide_eq_true_eq]
  tauto

variable (sorted : Increasing rank l) (last : ∀ a ∈ l, guarded a → ∀ b ∈ l, rank b ≤ rank a)
  (pos : 0 < anchors)

omit [DecidableEq α] in
include last pos in
/-- No anchor is newer than that of the last element. -/
theorem countP_newer_of_guarded (hb : b ∈ l) (hguard : guarded b) (hnear : Nearest rank p l f b) :
    l.countP (fun c => p c ∧ rank f < rank c) < anchors := by
  have hnone : l.countP (fun c => p c ∧ rank f < rank c) = 0 := by
    rw [List.countP_eq_zero]
    intro c hc hnewer
    obtain ⟨hpc, hlt⟩ := of_decide_eq_true hnewer
    exact absurd (hnear.2.2.2 c hc hpc (last b hb hguard c hc)) (not_le.mpr hlt)
  rw [hnone]
  exact pos

include sorted last pos in
/-- What is kept is behind one of the newest anchors, or such an anchor itself. -/
theorem Retained.exists_newest (h : Retained rank p guarded anchors members l a) (ha : a ∈ l)
    (hanchored : ∃ f ∈ l, p f = true ∧ rank f ≤ rank a) :
    ∃ f, Nearest rank p l f a ∧ l.countP (fun b => p b ∧ rank f < rank b) < anchors := by
  rcases h with hguard | ⟨b, hb, hguard, hnear⟩ | ⟨hpa, hnewer⟩ | ⟨-, f, hnear, hnewer, -⟩
  · obtain ⟨f, hnear⟩ := exists_nearest hanchored
    exact ⟨f, hnear, countP_newer_of_guarded last pos ha hguard hnear⟩
  · exact ⟨a, (nearest_iff_of_pos sorted ha hnear.2.1).mpr rfl,
      countP_newer_of_guarded last pos hb hguard hnear⟩
  · exact ⟨a, (nearest_iff_of_pos sorted ha hpa).mpr rfl, hnewer⟩
  · exact ⟨f, hnear, hnewer⟩

include sorted in
/-- If no more than `members` elements are behind each of the newest anchors, apart from
the guarded one, then all of these are kept. -/
theorem retained_of_newest
    (fits : ∀ f ∈ l, p f = true → l.countP (fun b => p b ∧ rank f < rank b) < anchors →
      (∀ d ∈ behind rank p l f, guarded d) ∨ (behind rank p l f).length ≤ members)
    (ha : a ∈ l) (hnear : Nearest rank p l f a)
    (hnewer : l.countP (fun b => p b ∧ rank f < rank b) < anchors) :
    Retained rank p guarded anchors members l a := by
  by_cases hpa : p a = true
  · obtain rfl := (nearest_iff_of_pos sorted ha hpa).mp hnear
    exact Or.inr (Or.inr (Or.inl ⟨hpa, hnewer⟩))
  · have hbehind : a ∈ behind rank p l f := mem_behind.mpr ⟨ha, by simpa using hpa, hnear⟩
    rcases fits f hnear.1 hnear.2.1 hnewer with hguard | hfew
    · exact Or.inl (hguard a hbehind)
    · refine Or.inr (Or.inr (Or.inr ⟨by simpa using hpa, f, hnear, hnewer, ?_⟩))
      rw [← countP_behind]
      -- the newer ones do not count `a` itself
      have hlt : (behind rank p l f).countP (fun b => rank a < rank b) <
          (behind rank p l f).length :=
        List.countP_lt_length_iff.mpr ⟨a, hbehind, by simp⟩
      omega

include sorted last pos in
/-- **What is kept is a final part of the list**: with an element everything newer. -/
theorem Retained.of_le
    (hanchored : ∀ a ∈ l, ∃ f ∈ l, p f = true ∧ rank f ≤ rank a)
    (fits : ∀ f ∈ l, p f = true → l.countP (fun b => p b ∧ rank f < rank b) < anchors →
      (∀ d ∈ behind rank p l f, guarded d) ∨ (behind rank p l f).length ≤ members)
    (h : Retained rank p guarded anchors members l a) (ha : a ∈ l) (hb : b ∈ l)
    (hab : rank a ≤ rank b) : Retained rank p guarded anchors members l b := by
  obtain ⟨f, hnear, hnewer⟩ := h.exists_newest sorted last pos ha (hanchored a ha)
  obtain ⟨g, hnear'⟩ := exists_nearest (hanchored b hb)
  have hfg : rank f ≤ rank g := hnear'.2.2.2 f hnear.1 hnear.2.1 (hnear.2.2.1.trans hab)
  refine retained_of_newest sorted fits hb hnear' (lt_of_le_of_lt ?_ hnewer)
  refine List.countP_mono_left fun c _ hc => ?_
  simp only [decide_eq_true_eq] at hc ⊢
  exact ⟨hc.1, lt_of_le_of_lt hfg hc.2⟩

variable (nodup : l'.Nodup)
  (kept : ∀ a ∈ l', a ∈ l ∧ Retained rank p guarded anchors members l a)

include sorted last pos nodup kept in
/-- No more than `anchors` anchors are kept. -/
theorem countP_anchors_le : l'.countP p ≤ anchors := by
  have hsub : l'.filter p ⊆ newest anchors (l.filter p) := by
    intro a ha
    obtain ⟨ha, hpa⟩ := List.mem_filter.mp ha
    obtain ⟨hal, hret⟩ := kept a ha
    obtain ⟨f, hnear, hnewer⟩ := hret.exists_newest sorted last pos hal ⟨a, hal, hpa, le_rfl⟩
    obtain rfl := (nearest_iff_of_pos sorted hal hpa).mp hnear
    exact (mem_newest_filter_iff sorted).mpr ⟨hal, hpa, hnewer⟩
  rw [List.countP_eq_length_filter]
  exact ((nodup.filter _).length_le_of_subset hsub).trans (length_newest_le _ _)

include sorted last nodup kept in
/-- No more than `members` elements are kept behind each of the newest anchors, and the
guarded one. -/
theorem countP_members_le : l'.countP (fun a => p a = false) ≤ anchors * members + 1 := by
  let groups := (newest anchors (l.filter p)).flatMap fun f => newest members (behind rank p l f)
  have hlength : groups.length ≤ anchors * members := by
    have hsum : groups.length ≤ ((newest anchors (l.filter p)).map fun f =>
        (newest members (behind rank p l f)).length).length • members := by
      rw [List.length_flatMap]
      refine List.sum_le_card_nsmul _ _ fun n hn => ?_
      obtain ⟨f, -, rfl⟩ := List.mem_map.mp hn
      exact length_newest_le _ _
    rw [List.length_map, smul_eq_mul] at hsum
    exact hsum.trans (Nat.mul_le_mul_right _ (length_newest_le _ _))
  -- a kept member that is not guarded is among the newest of its group
  have hgroup : ∀ a ∈ l', p a = false → guarded a ∨ a ∈ groups := by
    intro a ha hpa
    obtain ⟨hal, hret⟩ := kept a ha
    rcases hret with hguard | ⟨b, -, -, hnear⟩ | ⟨hanchor, -⟩ | ⟨-, f, hnear, hnewer, hfew⟩
    · exact Or.inl hguard
    · exact absurd hnear.2.1 (by simp [hpa])
    · exact absurd hanchor (by simp [hpa])
    · refine Or.inr (List.mem_flatMap.mpr ⟨f, ?_, ?_⟩)
      · exact (mem_newest_filter_iff sorted).mpr ⟨hnear.1, hnear.2.1, hnewer⟩
      · rw [← countP_behind] at hfew
        exact (mem_newest_iff (sorted.filter _) _).mpr
          ⟨mem_behind.mpr ⟨hal, hpa, hnear⟩, hfew⟩
  rw [List.countP_eq_length_filter]
  by_cases hguard : ∃ a ∈ l', guarded a
  · obtain ⟨a, ha, hga⟩ := hguard
    have hsub : l'.filter (fun a => p a = false) ⊆ a :: groups := by
      intro b hb
      obtain ⟨hb, hpb⟩ := List.mem_filter.mp hb
      rcases hgroup b hb (by simpa using hpb) with hgb | hmem
      · have hal := (kept a ha).1
        have hbl := (kept b hb).1
        rw [sorted.eq_of_rank hbl hal
          (le_antisymm (last a hal hga b hbl) (last b hbl hgb a hal))]
        exact List.mem_cons_self
      · exact List.mem_cons_of_mem _ hmem
    have hle := (nodup.filter fun a => decide (p a = false)).length_le_of_subset hsub
    rw [List.length_cons] at hle
    omega
  · have hsub : l'.filter (fun a => p a = false) ⊆ groups := by
      intro b hb
      obtain ⟨hb, hpb⟩ := List.mem_filter.mp hb
      exact (hgroup b hb (by simpa using hpb)).resolve_left fun hgb => hguard ⟨b, hb, hgb⟩
    have hle := (nodup.filter fun a => decide (p a = false)).length_le_of_subset hsub
    omega

end LastGuarded

end RankedList
