import Mathlib.Data.List.DropRight
import Savr.Core.GlobPattern

/-!
# The text of a path

What `components` reads from the pieces of a text.  Behind a separator the pieces are read one
by one (`segmentsOf`), and the text of an absolute path is a volume and such pieces
(`exists_volume`).  So a text appended behind a separator adds its own components and changes
nothing before them.

## Main results

* `exists_volume` — the text of an absolute path is a volume and what the separators cut.
* `components_spliced` — the components of a directory with a further text behind it.
* `DiskPath.eq_of_push` — a `rel_path` that leads below its anchor leads to its own path.
-/

namespace Savr

/-! ## The parts of a text -/

section Parts

variable {style : PathStyle}

/-- The components that a text adds behind a directory. -/
def segmentsOf (style : PathStyle) (chars : List Char) : PathBuf :=
  (chars.splitOnP style.isSep).filterMap readSegment

theorem segmentsOf_append (a b : List Char) {c : Char} (hc : style.isSep c) :
    segmentsOf style (a ++ c :: b) = segmentsOf style a ++ segmentsOf style b := by
  rw [segmentsOf, List.splitOnP_append_cons _ _ hc, List.filterMap_append]
  rfl

theorem segmentsOf_nil : segmentsOf style [] = [] := rfl

theorem segmentsOf_sep {c : Char} (hc : style.isSep c) (chars : List Char) :
    segmentsOf style (c :: chars) = segmentsOf style chars :=
  segmentsOf_append [] chars hc

/-- Separators at the end add no segment. -/
theorem segmentsOf_rdropWhile (chars : List Char) :
    segmentsOf style (chars.rdropWhile (· = '/')) = segmentsOf style chars := by
  induction chars using List.reverseRecOn with
  | nil => rfl
  | append_singleton chars c ih =>
      by_cases hc : c = '/'
      · rw [List.rdropWhile_concat_pos _ _ _ (by simpa using hc), ih, hc,
          segmentsOf_append _ _ (isSep_slash style), segmentsOf_nil, List.append_nil]
      · rw [List.rdropWhile_concat_neg _ _ _ (by simpa using hc)]

/-- Separators at the front add no segment. -/
theorem segmentsOf_dropWhile (chars : List Char) :
    segmentsOf style (chars.dropWhile (· = '/')) = segmentsOf style chars := by
  induction chars with
  | nil => rfl
  | cons c chars ih =>
      by_cases hc : c = '/'
      · rw [List.dropWhile_cons_of_pos (by simpa using hc), ih, hc,
          segmentsOf_sep (isSep_slash style)]
      · rw [List.dropWhile_cons_of_neg (by simpa using hc)]

/-- `\` as the separator that it is on Windows. -/
def slash (c : Char) : Char := if c = '\\' then '/' else c

/-- No `\` of the text is an ordinary character. -/
def Separated (style : PathStyle) (chars : List Char) : Prop :=
  style = .windows ∨ '\\' ∉ chars

theorem slash_of_not_sep {c : Char} (h : style = .windows ∨ c ≠ '\\')
    (hc : style.isSep c = false) : slash c = c := by
  rw [slash, if_neg]
  rintro rfl
  rcases h with rfl | h
  · exact absurd hc (by decide)
  · exact h rfl

/-- Turning backslashes into slashes keeps separators and makes none out of other characters. -/
theorem isSep_slashChar {c : Char} (h : style = .windows ∨ c ≠ '\\') :
    style.isSep (slash c) = style.isSep c := by
  by_cases hc : c = '\\'
  · rcases h with rfl | h
    · subst hc
      decide
    · exact absurd hc h
  · rw [slash, if_neg hc]

theorem Separated.cons {c : Char} {chars : List Char} (h : Separated style (c :: chars)) :
    (style = .windows ∨ c ≠ '\\') ∧ Separated style chars := by
  rcases h with h | h
  · exact ⟨.inl h, .inl h⟩
  · obtain ⟨hc, hchars⟩ := not_or.mp (mt List.mem_cons.mpr h)
    exact ⟨.inr (Ne.symm hc), .inr hchars⟩

/-- A text is cut at the same places before and after its backslashes are turned. -/
theorem splitOnP_slash {chars : List Char} (h : Separated style chars) :
    (chars.map slash).splitOnP style.isSep = chars.splitOnP style.isSep := by
  induction chars with
  | nil => rfl
  | cons c chars ih =>
      obtain ⟨hc, hchars⟩ := h.cons
      rw [List.map_cons, List.splitOnP_cons_eq_if_modifyHead, List.splitOnP_cons_eq_if_modifyHead,
        ih hchars, isSep_slashChar hc]
      by_cases hsep : style.isSep c
      · rw [if_pos hsep, if_pos hsep]
      · rw [if_neg hsep, if_neg hsep, slash_of_not_sep hc (by simpa using hsep)]

theorem segmentsOf_slash {chars : List Char} (h : Separated style chars) :
    segmentsOf style (chars.map slash) = segmentsOf style chars := by
  rw [segmentsOf, splitOnP_slash h]
  rfl

theorem segmentOf_afterSegment (chars : List Char) :
    segmentOf style chars ++ afterSegment style chars = chars :=
  List.takeWhile_append_dropWhile

theorem atSep_afterSegment (chars : List Char) : AtSep style (afterSegment style chars) := by
  intro c hc
  have := List.head?_dropWhile_not (fun c => !style.isSep c) chars
  rw [afterSegment] at hc
  rw [hc] at this
  simpa using this

/-- Induction along the separators of a text. -/
theorem by_segments (style : PathStyle) {motive : List Char → Prop}
    (last : ∀ segment, (∀ c ∈ segment, style.isSep c = false) → motive segment)
    (more : ∀ segment c rest, (∀ c ∈ segment, style.isSep c = false) → style.isSep c →
      motive rest → motive (segment ++ c :: rest)) (chars : List Char) : motive chars := by
  have hsplit := @segmentOf_afterSegment style chars
  cases hafter : afterSegment style chars with
  | nil =>
      rw [hafter, List.append_nil] at hsplit
      rw [← hsplit]
      exact last _ (noSep_segmentOf chars)
  | cons c rest =>
      have hc : style.isSep c := atSep_afterSegment chars c (by rw [hafter]; rfl)
      have hlength : rest.length < chars.length := by
        rw [← hsplit, hafter, List.length_append, List.length_cons]
        omega
      rw [← hsplit, hafter]
      exact more _ c rest (noSep_segmentOf chars) hc (by_segments style last more rest)
termination_by chars.length

/-- A text without separators is one segment. -/
theorem segmentsOf_noSep {segment : List Char} (h : ∀ c ∈ segment, style.isSep c = false) :
    segmentsOf style segment = (readSegment segment).toList := by
  rw [segmentsOf, List.splitOnP_eq_singleton h]
  cases hread : readSegment segment with
  | none => simp [hread]
  | some c => simp [hread]

/-- A segment with any character but dots is a name. -/
theorem readSegment_of_mem {segment : List Char} {c : Char} (hc : c ∈ segment) (hdot : c ≠ '.') :
    readSegment segment = some (.normal (String.ofList segment)) := by
  rw [readSegment, if_neg, if_neg]
  · rintro rfl
    simp at hc
    exact hdot hc
  · rintro (rfl | rfl)
    · exact absurd hc List.not_mem_nil
    · exact hdot (List.mem_singleton.mp hc)

/-- The characters of a text that are no separators and no dots are in its names. -/
theorem exists_name_of_mem {chars : List Char} {c : Char} (hc : c ∈ chars)
    (hsep : style.isSep c = false) (hdot : c ≠ '.') :
    ∃ name, .normal name ∈ segmentsOf style chars ∧ c ∈ name.toList := by
  induction chars using by_segments style with
  | last segment hsegment =>
      refine ⟨String.ofList segment, ?_, by rwa [String.toList_ofList]⟩
      rw [segmentsOf_noSep hsegment, readSegment_of_mem hc hdot]
      exact List.mem_singleton.mpr rfl
  | more segment sep rest hsegment hsep' ih =>
      rw [segmentsOf_append _ _ hsep']
      rcases List.mem_append.mp hc with hc | hc
      · refine ⟨String.ofList segment, List.mem_append_left _ ?_, by rwa [String.toList_ofList]⟩
        rw [segmentsOf_noSep hsegment, readSegment_of_mem hc hdot]
        exact List.mem_singleton.mpr rfl
      · rcases List.mem_cons.mp hc with rfl | hc
        · rw [hsep] at hsep'
          cases hsep'
        · obtain ⟨name, hname, hmem⟩ := ih hc
          exact ⟨name, List.mem_append_right _ hname, hmem⟩

/-- The names in a text are pieces of it. -/
theorem subset_of_mem_segmentsOf {chars : List Char} {name : String}
    (h : .normal name ∈ segmentsOf style chars) : name.toList ⊆ chars := by
  have hone : ∀ segment, (∀ c ∈ segment, style.isSep c = false) →
      .normal name ∈ segmentsOf style segment → name.toList = segment := by
    intro segment hsegment h
    rw [segmentsOf_noSep hsegment, Option.mem_toList] at h
    unfold readSegment at h
    split_ifs at h with hskipped hparent
    · cases h
    · obtain rfl := Component.normal.inj (Option.some.inj h)
      rw [String.toList_ofList]
  induction chars using by_segments style with
  | last segment hsegment =>
      rw [hone segment hsegment h]
      exact List.Subset.refl segment
  | more segment sep rest hsegment hsep ih =>
      rw [segmentsOf_append _ _ hsep, List.mem_append] at h
      rcases h with h | h
      · rw [hone segment hsegment h]
        exact List.subset_append_left _ _
      · exact fun c hc => List.mem_append_right _ (List.mem_cons_of_mem sep (ih h hc))

/-- How many characters the names in a text have. -/
def nameWeight (style : PathStyle) (chars : List Char) : ℕ :=
  ((segmentsOf style chars).map Component.weight).sum

theorem nameWeight_append (a b : List Char) {c : Char} (hc : style.isSep c) :
    nameWeight style (a ++ c :: b) = nameWeight style a + nameWeight style b := by
  rw [nameWeight, segmentsOf_append a b hc, List.map_append, List.sum_append]
  rfl

/-- A text has at least as many characters besides separators as its names. -/
theorem nameWeight_le (chars : List Char) :
    nameWeight style chars ≤ chars.countP (fun c => !style.isSep c) := by
  have hone : ∀ segment : List Char, (∀ c ∈ segment, style.isSep c = false) →
      nameWeight style segment ≤ segment.countP (fun c => !style.isSep c) := by
    intro segment hsegment
    have hcount : segment.countP (fun c => !style.isSep c) = segment.length := by
      rw [List.countP_eq_length]
      intro c hc
      simp [hsegment c hc]
    rw [hcount, nameWeight, segmentsOf_noSep hsegment, readSegment]
    split_ifs
    · simp
    · simp [Component.weight]
    · simp [Component.weight]
  induction chars using by_segments style with
  | last segment hsegment => exact hone segment hsegment
  | more segment sep rest hsegment hsep ih =>
      have := hone segment hsegment
      rw [nameWeight_append _ _ hsep, List.countP_append,
        List.countP_cons_of_neg (by simpa using hsep)]
      omega

/-- On Unix, a `\` that becomes a separator is lost from the names. -/
theorem nameWeight_slash (chars : List Char) :
    nameWeight .unix (chars.map slash) ≤ nameWeight .unix chars ∧
      ('\\' ∈ chars → nameWeight .unix (chars.map slash) < nameWeight .unix chars) := by
  have hone : ∀ segment : List Char, (∀ c ∈ segment, PathStyle.unix.isSep c = false) →
      nameWeight .unix (segment.map slash) ≤ nameWeight .unix segment ∧
        ('\\' ∈ segment →
          nameWeight .unix (segment.map slash) < nameWeight .unix segment) := by
    intro segment hsegment
    by_cases hmem : '\\' ∈ segment
    · have hweight : nameWeight .unix segment = segment.length := by
        rw [nameWeight, segmentsOf_noSep hsegment, readSegment_of_mem hmem (by decide)]
        simp [Component.weight]
      have hcount : (segment.map slash).countP (fun c => !PathStyle.unix.isSep c) <
          segment.length := by
        rw [← List.length_map slash, List.countP_lt_length_iff]
        exact ⟨'/', List.mem_map.mpr ⟨'\\', hmem, rfl⟩, by decide⟩
      have := @nameWeight_le .unix (segment.map slash)
      omega
    · have hsame : segment.map slash = segment := by
        have : ∀ c ∈ segment, slash c = c := by
          intro c hc
          rw [slash, if_neg]
          rintro rfl
          exact hmem hc
        rw [List.map_congr_left this, List.map_id']
      rw [hsame]
      exact ⟨le_rfl, fun h => absurd h hmem⟩
  induction chars using by_segments .unix with
  | last segment hsegment => exact hone segment hsegment
  | more segment sep rest hsegment hsep ih =>
      obtain ⟨hle, hlt⟩ := hone segment hsegment
      obtain rfl : sep = '/' := by
        rw [PathStyle.isSep, Bool.or_eq_true] at hsep
        exact hsep.elim of_decide_eq_true of_decide_eq_true
      rw [List.map_append, List.map_cons, show slash '/' = '/' from rfl,
        nameWeight_append _ _ (isSep_slash .unix), nameWeight_append _ _ (isSep_slash .unix)]
      refine ⟨by omega, fun hmem => ?_⟩
      rcases List.mem_append.mp hmem with hmem | hmem
      · have := hlt hmem
        omega
      · have := ih.2 (by simpa using hmem)
        omega

end Parts

/-! ## Absolute texts -/

/-- `Path::is_absolute`. -/
def isAbsolute : PathStyle → PathBuf → Bool
  | .unix, .rootDir :: _ => true
  | .windows, .disk _ :: .rootDir :: _ => true
  | .windows, .unc _ _ :: .rootDir :: _ => true
  | _, _ => false

/-- The text that an absolute path starts with, and the components it is read as when a
separator comes next. -/
inductive Volume : PathStyle → List Char → PathBuf → Prop
  | unix : Volume .unix [] [.rootDir]
  | disk {letter : Char} (alpha : letter.isAlpha) :
      Volume .windows [letter, ':'] [.disk letter.toUpper, .rootDir]
  | share {a b c : Char} {server share : List Char}
      (ha : PathStyle.windows.isSep a) (hb : PathStyle.windows.isSep b)
      (hc : PathStyle.windows.isSep c) (hserver : server ≠ []) (hshare : share ≠ [])
      (hnoSep : ∀ d ∈ server ++ share, PathStyle.windows.isSep d = false) :
      Volume .windows (a :: b :: (server ++ c :: share))
        [.unc (String.ofList server) (String.ofList share), .rootDir]

section Absolute

variable {style : PathStyle} {volume rest : List Char} {head : PathBuf} {d g : String}

theorem components_disk {letter : Char} (alpha : letter.isAlpha) {c : Char}
    (hc : PathStyle.windows.isSep c) (rest : List Char) :
    components .windows (String.ofList (letter :: ':' :: c :: rest)) =
      [.disk letter.toUpper, .rootDir] ++ segmentsOf .windows (c :: rest) := by
  rw [components, String.toList_ofList, readVolume, if_pos alpha]
  simp [readRoot, hc, segmentsOf]

/-- A share is read with any of the separators around it. -/
theorem components_share {a b c : Char} {server share : List Char}
    (ha : PathStyle.windows.isSep a) (hb : PathStyle.windows.isSep b)
    (hc : PathStyle.windows.isSep c) (hserver : server ≠ []) (hshare : share ≠ [])
    (hnoSep : ∀ d ∈ server ++ share, PathStyle.windows.isSep d = false)
    (hrest : AtSep .windows rest) :
    components .windows (String.ofList (a :: b :: (server ++ c :: share) ++ rest)) =
      [.unc (String.ofList server) (String.ofList share), .rootDir] ++
        segmentsOf .windows rest := by
  have hbcolon : b ≠ ':' := by
    rintro rfl
    exact absurd hb (by decide)
  have hvolume : readVolume .windows (a :: b :: (server ++ c :: share) ++ rest) =
      ([.unc (String.ofList server) (String.ofList share), .rootDir], rest) := by
    have hread : readUnc .windows (a :: b :: (server ++ c :: share) ++ rest) =
        ([.unc (String.ofList server) (String.ofList share), .rootDir], rest) := by
      have hnext : AtSep .windows (c :: (share ++ rest)) := by
        rintro d hd
        obtain rfl : c = d := by simpa using hd
        exact hc
      have hserverSep := fun d hd => hnoSep d (List.mem_append_left share hd)
      have hshareSep := fun d hd => hnoSep d (List.mem_append_right server hd)
      rw [List.cons_append, List.cons_append, List.append_assoc, List.cons_append, readUnc]
      simp only [segmentOf_append hserverSep hnext, afterSegment_append hserverSep hnext,
        List.drop_succ_cons, List.drop_zero, segmentOf_append hshareSep hrest,
        afterSegment_append hshareSep hrest]
      rw [if_pos ⟨ha, hb, hserver, hshare⟩]
    rw [← hread]
    rw [List.cons_append, List.cons_append, readVolume]
    rintro _ _ heq
    injection heq with _ htail
    injection htail with hb' _
    exact hbcolon hb'
  rw [components, String.toList_ofList, hvolume]
  simp [readRoot, segmentsOf]

/-- The volume is read first, and the rest segment by segment. -/
theorem Volume.components_append (h : Volume style volume head) {c : Char}
    (hc : style.isSep c) (rest : List Char) :
    components style (String.ofList (volume ++ c :: rest)) =
      head ++ segmentsOf style (c :: rest) := by
  cases h with
  | unix =>
      rw [components, String.toList_ofList, List.nil_append]
      simp [readVolume, readRoot, hc, segmentsOf]
  | disk alpha => exact components_disk alpha hc rest
  | share ha hb hsep hserver hshare hnoSep =>
      refine components_share ha hb hsep hserver hshare hnoSep ?_
      rintro d hd
      obtain rfl : c = d := by simpa using hd
      exact hc

theorem inner_segmentsOf {c : Component} (h : c ∈ segmentsOf style rest) : Inner style c := by
  obtain ⟨segment, hsegment, hread⟩ := List.mem_filterMap.mp h
  exact inner_of_readSegment (noSep_of_mem_splitOnP hsegment) hread

/-- The segments of a text do not begin with a root. -/
theorem segmentsOf_ne_rootDir {path : PathBuf} : segmentsOf style rest ≠ .rootDir :: path := by
  intro heq
  have hmem : Component.rootDir ∈ segmentsOf style rest := by
    rw [heq]
    exact List.mem_cons_self
  obtain h | ⟨name, h, -⟩ := inner_segmentsOf hmem
  · cases h
  · cases h

/-- A root is read only where a separator stands. -/
theorem head_of_rootDir {volume path : PathBuf} (hvolume : .rootDir ∉ volume)
    (h : readRoot style volume rest ++ segmentsOf style rest = .rootDir :: path) :
    ∃ c more, rest = c :: more ∧ style.isSep c := by
  rw [readRoot, if_neg hvolume] at h
  by_cases hsep : rest.head?.any style.isSep
  · cases rest with
    | nil => cases hsep
    | cons c more => exact ⟨c, more, rfl, hsep⟩
  · rw [if_neg hsep] at h
    split_ifs at h
    · cases h
    · exact absurd h segmentsOf_ne_rootDir

/-- Without a volume, a Windows path is not absolute. -/
theorem not_isAbsolute_plain (rest : List Char) :
    isAbsolute .windows (readRoot .windows [] rest ++ segmentsOf .windows rest) = false := by
  obtain h | h | h := @readRoot_cases .windows [] List.not_mem_nil rest
  · rw [h, List.nil_append]
    cases hsegments : segmentsOf .windows rest with
    | nil => rfl
    | cons c path =>
        have hmem : c ∈ segmentsOf .windows rest := by
          rw [hsegments]
          exact List.mem_cons_self
        obtain rfl | ⟨name, rfl, -⟩ := inner_segmentsOf hmem
        · rfl
        · rfl
  · rw [h]
    rfl
  · rw [h]
    rfl

/-- A server and a share that were read stand at the start of the text. -/
theorem readUnc_append {chars : List Char} {volume : PathBuf}
    (h : readUnc .windows chars = (volume, rest)) (hne : volume ≠ []) :
    ∃ head, Volume .windows head volume ∧ chars = head ++ rest ∧ AtSep .windows rest := by
  revert h
  fun_cases readUnc .windows chars with
  | case1 a b more server next share hread =>
      intro h
      obtain ⟨rfl, rfl⟩ := Prod.mk.inj h
      obtain ⟨ha, hb, hserver, hshare⟩ := hread
      obtain ⟨c, hnext⟩ : ∃ c, afterSegment .windows more = c :: next := by
        cases hafter : afterSegment .windows more with
        | nil =>
            refine absurd ?_ hshare
            simp only [share, next, hafter]
            rfl
        | cons c tail => exact ⟨c, by simp [next, hafter]⟩
      have hc : PathStyle.windows.isSep c :=
        atSep_afterSegment more c (by rw [hnext]; rfl)
      refine ⟨a :: b :: (server ++ c :: share),
        .share ha hb hc hserver hshare ?_, ?_, atSep_afterSegment next⟩
      · intro x hx
        rcases List.mem_append.mp hx with hx | hx
        · exact noSep_segmentOf more x hx
        · exact noSep_segmentOf next x hx
      · have hmore := @segmentOf_afterSegment .windows more
        have hsplit := @segmentOf_afterSegment .windows next
        rw [hnext] at hmore
        simp only [List.cons_append, List.append_assoc, share, hsplit, server, hmore]
  | case2 =>
      intro h
      exact absurd (Prod.mk.inj h).1.symm hne
  | case3 =>
      intro h
      exact absurd (Prod.mk.inj h).1.symm hne

/-- What a Windows path may start with. -/
theorem readVolume_cases (chars : List Char) :
    (∃ letter rest, chars = letter :: ':' :: rest ∧ letter.isAlpha ∧
      readVolume .windows chars = ([.disk letter.toUpper], rest)) ∨
    (∃ volume head rest, chars = volume ++ rest ∧ Volume .windows volume head ∧
      AtSep .windows rest ∧ .rootDir ∈ head ∧ readVolume .windows chars = (head, rest)) ∨
    readVolume .windows chars = ([], chars) := by
  unfold readVolume
  split
  · rename_i letter rest _
    by_cases alpha : letter.isAlpha
    · exact .inl ⟨letter, rest, rfl, alpha, if_pos alpha⟩
    · exact .inr (.inr (if_neg alpha))
  · rename_i chars _ _ _ _
    obtain h | ⟨server, share, rest, -, -, -, h⟩ := @readUnc_cases .windows chars
    · exact .inr (.inr h)
    · obtain ⟨volume, hvolume, hchars, hrest⟩ := readUnc_append h (by simp)
      exact .inr (.inl ⟨volume, _, rest, hchars, hvolume, hrest, by simp, h⟩)
  · rename_i hstyle
    cases hstyle

/-- The text of an absolute path is a volume and what the separators cut. -/
theorem exists_volume (h : isAbsolute style (components style d)) :
    ∃ volume head rest, d.toList = volume ++ rest ∧ Volume style volume head ∧
      AtSep style rest ∧ components style d = head ++ segmentsOf style rest := by
  cases style with
  | unix =>
      have hread : components .unix d =
          readRoot .unix [] d.toList ++ segmentsOf .unix d.toList := rfl
      obtain ⟨path, hpath⟩ : ∃ path, components .unix d = .rootDir :: path := by
        revert h
        cases components .unix d with
        | nil => rintro ⟨⟩
        | cons c path => cases c <;> simp [isAbsolute]
      rw [hpath] at hread
      obtain ⟨c, more, hchars, hc⟩ := head_of_rootDir List.not_mem_nil hread.symm
      refine ⟨[], [.rootDir], d.toList, rfl, .unix, ?_, ?_⟩
      · rintro x hx
        obtain rfl : c = x := by simpa [hchars] using hx
        exact hc
      · have := Volume.unix.components_append hc more
        rwa [List.nil_append, ← hchars, String.ofList_toList] at this
  | windows =>
      have hread : components .windows d = (readVolume .windows d.toList).1 ++
          readRoot .windows (readVolume .windows d.toList).1 (readVolume .windows d.toList).2 ++
          segmentsOf .windows (readVolume .windows d.toList).2 := rfl
      obtain ⟨letter, rest, hchars, alpha, hvolume⟩ |
        ⟨volume, head, rest, hchars, hvolume, hrest, hroot, hcut⟩ | hvolume :=
          readVolume_cases d.toList
      · rw [hvolume, List.append_assoc] at hread
        obtain ⟨path, hpath⟩ : ∃ path, readRoot .windows [.disk letter.toUpper] rest ++
            segmentsOf .windows rest = .rootDir :: path := by
          rw [hread] at h
          revert h
          cases readRoot .windows [.disk letter.toUpper] rest ++ segmentsOf .windows rest with
          | nil => rintro ⟨⟩
          | cons c path => cases c <;> simp [isAbsolute]
        obtain ⟨c, more, rfl, hc⟩ := head_of_rootDir (by simp) hpath
        refine ⟨[letter, ':'], _, c :: more, hchars, .disk alpha, ?_, ?_⟩
        · rintro x hx
          obtain rfl : c = x := by simpa using hx
          exact hc
        · rw [← components_disk alpha hc more, ← hchars, String.ofList_toList]
      · rw [hcut] at hread
        refine ⟨volume, head, rest, hchars, hvolume, hrest, ?_⟩
        rw [hread, readRoot, if_pos hroot, List.append_nil]
      · rw [hread, hvolume, List.nil_append, not_isAbsolute_plain] at h
        cases h

/-- What stands behind a directory and a slash adds its own components. -/
theorem Volume.components_slash (h : Volume style volume head) (hrest : AtSep style rest)
    (chars : List Char) :
    components style (String.ofList (volume ++ rest ++ '/' :: chars)) =
      head ++ segmentsOf style rest ++ segmentsOf style chars := by
  rw [List.append_assoc]
  cases rest with
  | nil =>
      rw [List.nil_append, h.components_append (isSep_slash style), segmentsOf_nil,
        List.append_nil, segmentsOf_sep (isSep_slash style)]
  | cons c more =>
      rw [List.cons_append, h.components_append (hrest c rfl), ← List.cons_append,
        segmentsOf_append _ _ (isSep_slash style), List.append_assoc]

/-- **A directory at the start of a pattern.**  The components of the directory stay as they
are. -/
theorem components_spliced (hd : isAbsolute style (components style d)) :
    components style (d ++ "/" ++ g) = components style d ++ segmentsOf style g.toList := by
  obtain ⟨volume, head, rest, hchars, hvolume, hrest, hcomponents⟩ := exists_volume hd
  have htext : d ++ "/" ++ g = String.ofList (volume ++ rest ++ '/' :: g.toList) := by
    rw [← String.toList_inj, String.toList_ofList, String.toList_append, String.toList_append,
      hchars]
    simp
  rw [htext, hvolume.components_slash hrest, hcomponents]

theorem map_slash_of_noSep {l : List Char} (h : ∀ c ∈ l, PathStyle.windows.isSep c = false) :
    l.map slash = l := by
  have hsame : ∀ c ∈ l, slash c = c := fun c hc => slash_of_not_sep (.inl rfl) (h c hc)
  rw [List.map_congr_left hsame, List.map_id']

/-- A volume is one with forward slashes as well. -/
theorem Volume.map_slash (h : Volume style volume head) :
    Volume style (volume.map slash) head := by
  cases h with
  | unix => exact .unix
  | @disk letter alpha =>
      have hletter : slash letter = letter := by
        rw [slash, if_neg]
        rintro rfl
        exact absurd alpha (by decide)
      rw [List.map_cons, hletter]
      exact .disk alpha
  | @share a b c server share ha hb hc hserver hshare hnoSep =>
      have hserverSep := fun d hd => hnoSep d (List.mem_append_left share hd)
      have hshareSep := fun d hd => hnoSep d (List.mem_append_right server hd)
      rw [List.map_cons, List.map_cons, List.map_append, List.map_cons,
        map_slash_of_noSep hserverSep, map_slash_of_noSep hshareSep]
      have hslash : ∀ d, PathStyle.windows.isSep d → PathStyle.windows.isSep (slash d) := by
        intro d hd
        rwa [isSep_slashChar (.inl rfl)]
      exact .share (hslash a ha) (hslash b hb) (hslash c hc) hserver hshare hnoSep

/-- A volume does not end in a slash. -/
theorem Volume.rdropWhile_append (h : Volume style volume head) (rest : List Char) :
    (volume ++ rest).rdropWhile (· = '/') = volume ++ rest.rdropWhile (· = '/') := by
  induction rest using List.reverseRecOn with
  | nil =>
      rw [List.append_nil, List.rdropWhile_nil, List.append_nil, List.rdropWhile_eq_self_iff]
      intro hne
      cases h with
      | unix => exact absurd rfl hne
      | disk alpha => simp
      | @share a b c server share ha hb hc hserver hshare hnoSep =>
          have hlast : (a :: b :: (server ++ c :: share)).getLast hne = share.getLast hshare := by
            simp [List.getLast_cons hshare]
          rw [hlast, decide_eq_true_eq]
          intro heq
          have := hnoSep _ (List.mem_append_right server (List.getLast_mem hshare))
          rw [heq] at this
          exact absurd this (by decide)
  | append_singleton rest c ih =>
      rw [← List.append_assoc]
      by_cases hc : c = '/'
      · rw [List.rdropWhile_concat_pos _ _ _ (by simpa using hc),
          List.rdropWhile_concat_pos _ _ _ (by simpa using hc), ih]
      · rw [List.rdropWhile_concat_neg _ _ _ (by simpa using hc),
          List.rdropWhile_concat_neg _ _ _ (by simpa using hc), List.append_assoc]

/-- Where a segment ends it still ends after the backslashes are turned. -/
theorem AtSep.map_slash (h : AtSep style rest) : AtSep style (rest.map slash) := by
  cases rest with
  | nil => exact h
  | cons c rest =>
      rintro d hd
      obtain rfl : slash c = d := by simpa using hd
      rw [slash]
      split_ifs
      · exact isSep_slash style
      · exact h c rfl

theorem AtSep.of_starts {l : List Char} (h : AtSep style rest) (hl : l <+: rest) :
    AtSep style l := by
  intro c hc
  obtain ⟨more, rfl⟩ := hl
  cases l with
  | nil => cases hc
  | cons a l => exact h c hc

end Absolute

/-! ## Paths on a disk -/

/-- The path of something on a disk: it is absolute, and a file can have the names behind its
volume. -/
def DiskPath (style : PathStyle) (path : PathBuf) : Prop :=
  ∃ volume head, ∃ names : List String, Volume style volume head ∧
    (∀ name ∈ names, FileName style name) ∧ path = head ++ names.map .normal

section DiskPaths

variable {style : PathStyle} {volume : List Char} {path anchor head : PathBuf}
  {names more : List String}

/-- What joining with `/` puts behind the first text. -/
def slashedText (texts : List String) : List Char := texts.flatMap fun text => '/' :: text.toList

theorem toList_intercalate_cons (first : String) (texts : List String) :
    ("/".intercalate (first :: texts)).toList = first.toList ++ slashedText texts := by
  induction texts generalizing first with
  | nil => simp [slashedText]
  | cons text texts ih =>
      rw [String.intercalate_cons_cons, String.toList_append, String.toList_append, ih]
      simp [slashedText]

/-- Names behind slashes are read as these names. -/
theorem segmentsOf_slashedText (h : ∀ name ∈ names, FileName style name) :
    segmentsOf style (slashedText names) = names.map .normal := by
  induction names with
  | nil => rfl
  | cons name names ih =>
      obtain ⟨hname, hnames⟩ := List.forall_mem_cons.mp h
      have hfirst : segmentsOf style name.toList = [.normal name] := by
        rw [segmentsOf, List.splitOnP_eq_singleton hname.noSep,
          List.filterMap_cons_some (readSegment_name hname), List.filterMap_nil]
      have hrest := ih hnames
      rw [slashedText, List.flatMap_cons, ← slashedText, List.cons_append,
        segmentsOf_sep (isSep_slash style)]
      cases names with
      | nil => simpa [slashedText] using hfirst
      | cons next names =>
          rw [slashedText, List.flatMap_cons, ← slashedText, List.cons_append,
            segmentsOf_sep (isSep_slash style)] at hrest
          rw [slashedText, List.flatMap_cons, ← slashedText, List.cons_append,
            segmentsOf_append _ _ (isSep_slash style), hfirst, hrest]
          rfl

/-- **The text of a path on a disk is read back.** -/
theorem DiskPath.components_text (h : DiskPath style path) :
    components style ("/".intercalate (path.map (Component.text style))) = path := by
  obtain ⟨volume, head, names, hvolume, hnames, rfl⟩ := h
  have htexts : (names.map Component.normal).map (Component.text style) = names := by
    rw [List.map_map]
    exact List.map_id names
  have hread := segmentsOf_slashedText hnames
  have hchars : ∀ first rest, "/".intercalate (first :: rest)
      = String.ofList (first.toList ++ slashedText rest) := by
    intro first rest
    rw [← String.toList_inj, String.toList_ofList, toList_intercalate_cons]
  rw [List.map_append, htexts]
  have hroot : ∀ c, (Component.rootDir.text c).toList = [c.sep] := by
    intro c
    simp [Component.text]
  cases hvolume with
  | unix =>
      have happend := Volume.unix.components_append (isSep_slash .unix) (slashedText names)
      rw [List.nil_append, segmentsOf_sep (isSep_slash .unix), hread] at happend
      rw [List.map_singleton, List.singleton_append, hchars, hroot]
      exact happend
  | @disk letter alpha =>
      obtain ⟨halpha, hupper⟩ := toUpper_of_isAlpha alpha
      have hdisk : ((Component.disk letter.toUpper).text .windows).toList
          = [letter.toUpper, ':'] := by
        simp [Component.text]
      have happend := components_disk halpha (isSep_slash .windows) ('\\' :: slashedText names)
      rw [hupper, segmentsOf_sep (isSep_slash .windows), segmentsOf_sep (by decide), hread]
        at happend
      rw [List.map_cons, List.map_singleton, List.cons_append, List.singleton_append, hchars,
        hdisk, slashedText, List.flatMap_cons, hroot]
      exact happend
  | @share a b c server share ha hb hc hserver hshare hnoSep =>
      have htext : ((Component.unc (String.ofList server) (String.ofList share)).text
          .windows).toList = '\\' :: '\\' :: (server ++ '\\' :: share) := by
        simp [Component.text]
      have hat : AtSep .windows ('/' :: '\\' :: slashedText names) := by
        rintro d hd
        obtain rfl : '/' = d := by simpa using hd
        exact isSep_slash .windows
      have happend := components_share (a := '\\') (b := '\\') (c := '\\') (by decide)
        (by decide) (by decide) hserver hshare hnoSep hat
      rw [segmentsOf_sep (isSep_slash .windows), segmentsOf_sep (by decide), hread] at happend
      rw [List.map_cons, List.map_singleton, List.cons_append, List.singleton_append, hchars,
        htext, slashedText, List.flatMap_cons, hroot]
      exact happend

/-- A Windows text that starts with a separator is rooted, or has a share. -/
theorem components_of_sep {text : String} {c : Char} {chars : List Char}
    (htext : text.toList = c :: chars) (hc : PathStyle.windows.isSep c) :
    (∃ rest, components .windows text = .rootDir :: rest) ∨
      ∃ server share rest, components .windows text = .unc server share :: rest := by
  have hread : components .windows text = (readVolume .windows text.toList).1 ++
      readRoot .windows (readVolume .windows text.toList).1 (readVolume .windows text.toList).2 ++
      segmentsOf .windows (readVolume .windows text.toList).2 := rfl
  have hletter : ∀ letter rest, text.toList = letter :: rest → letter.isAlpha = false := by
    intro letter rest hchars
    obtain rfl : c = letter := (List.cons.inj (htext.symm.trans hchars)).1
    have hslash : c = '/' ∨ c = '\\' := by
      rcases Bool.or_eq_true _ _ ▸ hc with hslash | hslash
      · exact .inl (of_decide_eq_true hslash)
      · exact .inr (of_decide_eq_true hslash)
    rcases hslash with rfl | rfl <;> decide
  obtain ⟨letter, rest, hchars, alpha, -⟩ | ⟨volume, head, rest, hchars, hvolume, -, -, hcut⟩ |
    hnone := readVolume_cases text.toList
  · rw [hletter letter _ hchars] at alpha
    cases alpha
  · rw [hcut] at hread
    cases hvolume with
    | @disk letter alpha =>
        rw [hletter letter _ hchars] at alpha
        cases alpha
    | share => exact .inr ⟨_, _, _, hread⟩
  · rw [hnone, htext] at hread
    refine .inl ⟨segmentsOf .windows (c :: chars), ?_⟩
    rw [hread]
    simp [readRoot, hc]

/-- A path on a Unix disk, or any text there, has no volume. -/
theorem takeWhile_isVolume_unix (text : String) :
    (components .unix text).takeWhile Component.isVolume = [] := by
  obtain ⟨head, body, heq, hhead, hbody⟩ := components_eq .unix text
  rw [heq]
  cases hhead with
  | relative =>
      cases body with
      | nil => rfl
      | cons c body =>
          obtain rfl | ⟨name, rfl, -⟩ := hbody c List.mem_cons_self
          · rfl
          · rfl
  | current => rfl
  | root => rfl

/-- Pushing the text of a path on a disk replaces what it is pushed to. -/
theorem DiskPath.push_text (h : DiskPath style path) (text : String) :
    push style (components style text) ("/".intercalate (path.map (Component.text style)))
      = path := by
  have hread := h.components_text
  obtain ⟨volume, head, names, hvolume, -, rfl⟩ := h
  rw [push, hread]
  cases hvolume with
  | unix =>
      show (components .unix text).takeWhile Component.isVolume ++ _ = _
      rw [takeWhile_isVolume_unix]
      rfl
  | disk alpha => rfl
  | share => rfl

/-- From a drive without its root, the text of a rooted path leads elsewhere. -/
theorem push_drive_ne {letter : Char} :
    push .windows [.disk letter] ("/".intercalate
      ((Component.rootDir :: names.map Component.normal).map (Component.text .windows))) ≠
      [.disk letter] ++ more.map .normal := by
  intro hpush
  have hchars : ("/".intercalate ((Component.rootDir :: names.map Component.normal).map
      (Component.text .windows))).toList = '\\' :: slashedText
        ((names.map Component.normal).map (Component.text .windows)) := by
    rw [List.map_cons, toList_intercalate_cons]
    simp [Component.text, PathStyle.sep]
  rw [push] at hpush
  obtain ⟨r, hr⟩ | ⟨server, share, r, hr⟩ := components_of_sep hchars (by decide)
  · rw [hr] at hpush
    have hnormal := normal_of_names more
    rw [← List.append_cancel_left hpush] at hnormal
    exact absurd (hnormal .rootDir List.mem_cons_self) Bool.false_ne_true
  · rw [hr] at hpush
    cases hpush

/-- An anchor that ends before the root of a path has nothing in common with what it leads to. -/
theorem push_short_ne {text : String} {rest : PathBuf} (hvolume : Volume style volume head)
    (hnames : ∀ name ∈ names, FileName style name)
    (hrest : components style text ++ rest = head ++ names.map .normal)
    (hshort : components style text <+: head) (hroot : ¬ head <+: components style text) :
    push style (components style text) ("/".intercalate (rest.map (Component.text style))) ≠
      components style text ++ more.map .normal := by
  intro hpush
  have hempty : components style text ≠ [] := by
    intro hnil
    have hdisk : DiskPath style rest := by
      refine ⟨volume, head, names, hvolume, hnames, ?_⟩
      rw [← hrest, hnil, List.nil_append]
    have hpath := hdisk.push_text text
    rw [hpush, hnil, List.nil_append] at hpath
    have hnormal := normal_of_names more
    rw [hpath, show rest = head ++ names.map .normal by rw [← hrest, hnil]; rfl] at hnormal
    cases hvolume with
    | unix => exact absurd (hnormal .rootDir (by simp)) Bool.false_ne_true
    | disk alpha => exact absurd (hnormal .rootDir (by simp)) Bool.false_ne_true
    | share => exact absurd (hnormal .rootDir (by simp)) Bool.false_ne_true
  cases hvolume with
  | unix =>
      rcases starts_single hshort with hnil | hfull
      · exact hempty hnil
      · exact hroot (hfull ▸ List.prefix_refl _)
  | disk alpha =>
      rcases starts_pair hshort with hnil | hdrive | hfull
      · exact hempty hnil
      · rw [hdrive] at hrest hpush
        obtain rfl := (List.cons.inj hrest).2
        exact push_drive_ne hpush
      · exact hroot (hfull ▸ List.prefix_refl _)
  | share =>
      rcases starts_pair hshort with hnil | hshare | hfull
      · exact hempty hnil
      · have hstart := rooted_components .windows text _ _ (by rw [hshare])
        rw [hshare] at hstart
        exact absurd hstart.length_le (by simp)
      · exact hroot (hfull ▸ List.prefix_refl _)

/-- **Where a `rel_path` leads to.**  If the `rel_path` of a path on a disk leads from the anchor
through names, it leads to the path itself. -/
theorem DiskPath.eq_of_push (h : DiskPath style path) {text : String}
    (hpush : push style (components style text) (relPath style path (components style text)) =
      components style text ++ more.map .normal) :
    path = components style text ++ more.map .normal ∧ ∀ name ∈ more, FileName style name := by
  by_cases hbelow : components style text <+: path
  · obtain ⟨rest, hrest⟩ := hbelow
    obtain ⟨volume, head, names, hvolume, hnames, rfl⟩ := h
    rw [← hrest, relPath_append] at hpush
    by_cases hroot : head <+: components style text
    · obtain ⟨mid, hmid⟩ := hroot
      rw [← hmid, List.append_assoc, List.append_cancel_left_eq] at hrest
      obtain ⟨first, last, rfl, rfl, rfl⟩ := List.map_eq_append_iff.mp hrest.symm
      have hlast : ∀ name ∈ last, FileName style name :=
        fun name hname => hnames name (List.mem_append_right _ hname)
      have hread : components style ("/".intercalate ((last.map Component.normal).map
          (Component.text style))) = last.map .normal := by
        rw [List.map_map]
        exact (congrArg (fun l => components style ("/".intercalate l)) (List.map_id last)).trans
          (components_joined hlast)
      rw [push_of_normal (by rw [hread]; exact normal_of_names last), hread,
        List.append_cancel_left_eq] at hpush
      obtain rfl : last = more := List.map_injective_iff.mpr (fun _ _ => Component.normal.inj) hpush
      refine ⟨?_, hlast⟩
      rw [← hmid, List.map_append, List.append_assoc]
    · have hshort := (List.prefix_or_prefix_of_prefix ⟨rest, hrest⟩
        (List.prefix_append head _)).resolve_right hroot
      exact absurd hpush (push_short_ne hvolume hnames hrest hshort hroot)
  · rw [relPath, if_neg hbelow, h.push_text] at hpush
    exact absurd ⟨_, hpush.symm⟩ hbelow

end DiskPaths

end Savr
