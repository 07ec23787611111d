import Savr.Daemon.Catalog
import Savr.Daemon.Messages
import Savr.Daemon.RetryTimes
import Savr.Lib.Interleaving

/-!
# The hand-registered games

`add_custom_game`, `list_custom_games` and `remove_custom_game` of `savr-daemon/src/state.rs`,
with any number of calls at the same time: `add_custom_game` looks the title up in one statement
and inserts in another, and only the primary key of the table is sure.  The globs of a game are
stored as the lines of one text.

## Main results

* `splitGlobs_joinGlobs_iff` — which lists of globs survive the table.
* `custom_games_kept` — what the table holds, and what the calls were answered.
-/

namespace Savr

open LabelledRun Interleaving

/-! ## Globs as lines -/

/-- A line may end with a carriage return before its newline. -/
def dropReturn (line : List Char) : List Char :=
  if line.getLast? = some '\r' then line.dropLast else line

/-- The lines of a text, the first of which has begun; nothing behind the last newline is no
line. -/
def linesFrom (line : List Char) : List Char → List (List Char)
  | [] => if line = [] then [] else [line]
  | c :: chars =>
      if c = '\n' then dropReturn line :: linesFrom [] chars else linesFrom (line ++ [c]) chars

/-- `str::lines`. -/
def linesOf (text : String) : List String := (linesFrom [] text.toList).map String.ofList

/-- How globs are stored, and how they are read. -/
def joinGlobs (globs : List String) : String := "\n".intercalate globs

/-- `str::lines` without the empty lines. -/
def splitGlobs (text : String) : List String := (linesOf text).filter fun line => line ≠ ""

section Globs

variable {line chars rest : List Char} {lines : List (List Char)}

/-- A line ends at the newline, and the lines behind it follow. -/
theorem linesFrom_line (h : '\n' ∉ chars) (rest : List Char) :
    linesFrom line (chars ++ '\n' :: rest) = dropReturn (line ++ chars) :: linesFrom [] rest := by
  induction chars generalizing line with
  | nil => simp [linesFrom]
  | cons c chars ih =>
      obtain ⟨hc, hchars⟩ := List.ne_and_not_mem_of_not_mem_cons h
      rw [List.cons_append, linesFrom, if_neg (Ne.symm hc), ih hchars, List.append_assoc]
      rfl

/-- Without a newline there is one line, or none at all. -/
theorem linesFrom_last (h : '\n' ∉ chars) :
    linesFrom line chars = if line ++ chars = [] then [] else [line ++ chars] := by
  induction chars generalizing line with
  | nil => simp [linesFrom]
  | cons c chars ih =>
      obtain ⟨hc, hchars⟩ := List.ne_and_not_mem_of_not_mem_cons h
      rw [linesFrom, if_neg (Ne.symm hc), ih hchars, List.append_assoc]
      rfl

theorem not_mem_dropReturn (h : '\n' ∉ line) : '\n' ∉ dropReturn line := by
  rw [dropReturn]
  split_ifs
  · exact fun hmem => h (List.mem_of_mem_dropLast hmem)
  · exact h

/-- No line holds a newline. -/
theorem not_mem_linesFrom (h : '\n' ∉ line) : ∀ l ∈ linesFrom line chars, '\n' ∉ l := by
  induction chars generalizing line with
  | nil =>
      rw [linesFrom]
      split_ifs
      · exact List.forall_mem_nil _
      · exact List.forall_mem_singleton.mpr h
  | cons c chars ih =>
      rw [linesFrom]
      split_ifs with hc
      · exact List.forall_mem_cons.mpr ⟨not_mem_dropReturn h, ih List.not_mem_nil⟩
      · refine ih fun hmem => ?_
        rcases List.mem_append.mp hmem with hmem | hmem
        · exact h hmem
        · exact hc (List.mem_singleton.mp hmem).symm

/-- What is read of lines without newlines. -/
theorem filter_linesFrom (h : ∀ l ∈ lines, '\n' ∉ l) :
    (linesFrom [] (['\n'].intercalate lines)).filter (fun l => l ≠ []) =
      (lines.dropLast.map dropReturn ++ lines.getLast?.toList).filter fun l => l ≠ [] := by
  induction lines with
  | nil => rfl
  | cons l lines ih =>
      obtain ⟨hl, hlines⟩ := List.forall_mem_cons.mp h
      cases lines with
      | nil =>
          rw [List.intercalate_singleton, linesFrom_last hl, List.nil_append]
          by_cases hempty : l = []
          · simp [hempty]
          · simp [hempty]
      | cons l' lines =>
          rw [List.intercalate_cons_cons, List.append_assoc, List.singleton_append,
            linesFrom_line hl, List.nil_append, List.filter_cons, ih hlines,
            List.dropLast_cons_cons, List.map_cons, List.cons_append, List.filter_cons,
            List.getLast?_cons_cons]

/-- A line keeps its end unless that is a carriage return. -/
theorem dropReturn_eq_self_iff : dropReturn line = line ↔ line.getLast? ≠ some '\r' := by
  rw [dropReturn]
  split_ifs with hreturn
  · refine iff_of_false (fun heq => ?_) (fun hne => hne hreturn)
    have hlen := congrArg List.length heq
    cases line with
    | nil => cases hreturn
    | cons c line =>
        rw [List.length_dropLast, List.length_cons] at hlen
        omega
  · exact iff_of_true rfl hreturn

/-- Lines that are not empty come back if none but the last ends with a carriage return. -/
theorem filter_dropReturn_iff (h : ∀ l ∈ lines, l ≠ []) :
    (lines.dropLast.map dropReturn ++ lines.getLast?.toList).filter (fun l => l ≠ []) = lines ↔
      ∀ l ∈ lines.dropLast, l.getLast? ≠ some '\r' := by
  rcases List.eq_nil_or_concat lines with rfl | ⟨front, last, rfl⟩
  · simp
  · have hlast : [last].filter (fun l => l ≠ []) = [last] := by
      simpa using h last (by simp)
    have hfront : front.filter (fun l => l ≠ []) = front :=
      List.filter_eq_self.mpr fun l hl => by simpa using h l (by simp [hl])
    rw [List.concat_eq_append, List.dropLast_concat, List.getLast?_concat, Option.toList_some,
      List.filter_append, hlast, List.append_cancel_right_eq]
    constructor
    · intro heq l hl
      have hall : (front.map dropReturn).filter (fun l => l ≠ []) = front.map dropReturn :=
        List.filter_sublist.eq_of_length (by rw [heq, List.length_map])
      have hmap : front.map dropReturn = front.map id := by rw [← hall, heq, List.map_id]
      exact dropReturn_eq_self_iff.mp (List.map_inj_left.mp hmap l hl)
    · intro hreturn
      have hmap : front.map dropReturn = front := by
        calc front.map dropReturn = front.map id :=
              List.map_congr_left fun l hl => dropReturn_eq_self_iff.mpr (hreturn l hl)
          _ = front := List.map_id front
      rw [hmap, hfront]

/-- **Which globs survive the table**: those without newlines that are not empty, and that do not
end with a carriage return, except for the last. -/
theorem splitGlobs_joinGlobs_iff (globs : List String) :
    splitGlobs (joinGlobs globs) = globs ↔
      (∀ g ∈ globs, g ≠ "" ∧ '\n' ∉ g.toList) ∧
      ∀ g ∈ globs.dropLast, g.toList.getLast? ≠ some '\r' := by
  have hread : ∀ text, (splitGlobs text).map String.toList
      = (linesFrom [] text.toList).filter fun l => l ≠ [] := by
    intro text
    rw [splitGlobs, linesOf, List.filter_map, List.map_map]
    simp [Function.comp_def]
  have hchars : splitGlobs (joinGlobs globs) = globs ↔
      (linesFrom [] (['\n'].intercalate (globs.map String.toList))).filter (fun l => l ≠ [])
        = globs.map String.toList := by
    rw [← (List.map_injective_iff.mpr fun _ _ => String.toList_inj.mp).eq_iff, hread, joinGlobs,
      String.toList_intercalate]
    rfl
  have hlines : (∀ g ∈ globs, g ≠ "" ∧ '\n' ∉ g.toList) →
      ((linesFrom [] (['\n'].intercalate (globs.map String.toList))).filter (fun l => l ≠ [])
        = globs.map String.toList ↔ ∀ g ∈ globs.dropLast, g.toList.getLast? ≠ some '\r') := by
    intro hclean
    have hnewline : ∀ l ∈ globs.map String.toList, '\n' ∉ l :=
      List.forall_mem_map.mpr fun g hg => (hclean g hg).2
    have hempty : ∀ l ∈ globs.map String.toList, l ≠ [] :=
      List.forall_mem_map.mpr fun g hg => by simpa using (hclean g hg).1
    rw [filter_linesFrom hnewline, filter_dropReturn_iff hempty, ← List.map_dropLast,
      List.forall_mem_map]
  rw [hchars]
  refine ⟨fun heq => ?_, fun h => (hlines h.1).mpr h.2⟩
  have hclean : ∀ g ∈ globs, g ≠ "" ∧ '\n' ∉ g.toList := by
    intro g hg
    have hmem : g.toList ∈ globs.map String.toList := List.mem_map_of_mem hg
    rw [← heq] at hmem
    obtain ⟨hline, hne⟩ := List.mem_filter.mp hmem
    refine ⟨?_, not_mem_linesFrom List.not_mem_nil _ hline⟩
    rintro rfl
    simp at hne
  exact ⟨hclean, (hlines hclean).mp heq⟩

end Globs

/-! ## The table -/

/-- A hand-registered game has the fields of the request that adds it. -/
abbrev CustomGame := CustomGameSpec

/-- A row of `custom_games`; `normTitle` is the primary key. The lists of globs are stored as
one text each. -/
structure CustomRow where
  normTitle : String
  title : String
  installPath : Option String
  saveRoot : String
  includeGlob : String
  excludeGlob : String
  deriving DecidableEq, Repr

/-- The row that `add_custom_game` inserts. -/
def CustomGameSpec.row (g : CustomGame) : CustomRow where
  normTitle := normalizeTitle g.title
  title := g.title
  installPath := g.installPath
  saveRoot := g.saveRoot
  includeGlob := joinGlobs g.includeGlobs
  excludeGlob := joinGlobs g.excludeGlobs

/-- How a row is read back. -/
def CustomRow.game (r : CustomRow) : CustomGame where
  title := r.title
  installPath := r.installPath
  saveRoot := r.saveRoot
  includeGlobs := splitGlobs r.includeGlob
  excludeGlobs := splitGlobs r.excludeGlob

/-- `ORDER BY title`. -/
def TitleLe (a b : CustomGame) : Prop := textLe a.title b.title = true

instance : DecidableRel TitleLe := fun _ _ => inferInstanceAs (Decidable (_ = true))

/-- `list_custom_games`. -/
def listCustomGames (rows : List CustomRow) : List CustomGame :=
  (rows.map CustomRow.game).insertionSort TitleLe

/-- The table of hand-registered games, and the calls that work on it. -/
structure CustomStore where
  rows : List CustomRow
  /-- The calls of `add_custom_game` that found the title free, and insert next. -/
  adding : ℕ → Option CustomGame
  answers : ℕ → Option (Except String Unit)

/-- A statement of some call. -/
inductive CustomEvent
  /-- `add_custom_game` up to its first statement, which may fail. -/
  | select (i : ℕ) (g : CustomGame) (error : Option String)
  /-- Its `INSERT`. -/
  | insert (i : ℕ) (g : CustomGame) (error : Option String)
  | remove (normTitle : String) (ok : Bool)

namespace CustomStore

/-- No row has this key. -/
def Free (w : CustomStore) (normTitle : String) : Prop := ∀ r ∈ w.rows, r.normTitle ≠ normTitle

instance (w : CustomStore) (normTitle : String) : Decidable (w.Free normTitle) :=
  inferInstanceAs (Decidable (∀ r ∈ w.rows, r.normTitle ≠ normTitle))

/-- What `add_custom_game` is answered without an `INSERT`: a title with nothing to key it
by, an error of the `SELECT`, or a row that is there already. -/
def refusal (w : CustomStore) (g : CustomGame) (error : Option String) : Option String :=
  if normalizeTitle g.title = "" then some "game title must contain letters or digits"
  else
    match error with
    | some e => some e
    | none =>
        if w.Free (normalizeTitle g.title) then none
        else some ("a game named '" ++ g.title ++ "' is already added")

/-- The primary key fails an `INSERT` of a title that is taken by now. -/
def Enabled (w : CustomStore) : CustomEvent → Prop
  | .select i _ _ => w.adding i = none ∧ w.answers i = none
  | .insert i g error => w.adding i = some g ∧ (error = none → w.Free (normalizeTitle g.title))
  | .remove _ _ => True

/-- A call returns. -/
def answer (w : CustomStore) (i : ℕ) (reply : Except String Unit) : CustomStore :=
  { w with
    adding := Function.update w.adding i none
    answers := Function.update w.answers i (some reply) }

/-- The table after a statement. Between the `SELECT` and the `INSERT` of one call other
calls may run; then the primary key refuses the second row. -/
def next (w : CustomStore) : CustomEvent → CustomStore
  | .select i g error =>
      match w.refusal g error with
      | some e => w.answer i (.error e)
      | none => { w with adding := Function.update w.adding i (some g) }
  | .insert i g none => { w.answer i (.ok ()) with rows := w.rows ++ [g.row] }
  | .insert i g (some e) => w.answer i (.error ("could not add '" ++ g.title ++ "': " ++ e))
  | .remove normTitle ok =>
      if ok then { w with rows := w.rows.filter fun r => r.normTitle ≠ normTitle } else w

/-- Nothing is registered, and no call runs. -/
structure New (w : CustomStore) : Prop where
  rows : w.rows = []
  adding : ∀ i, w.adding i = none
  answers : ∀ i, w.answers i = none

end CustomStore

/-- One statement of some call. -/
def CustomStep : CustomStore → CustomEvent → CustomStore → Prop :=
  guarded CustomStore.Enabled CustomStore.next

/-! ## What it is for -/

/-- A change of the table that went through. -/
inductive CustomMark
  | added (g : CustomGame)
  | removed (normTitle : String)

/-- The normalized title it is about. -/
def CustomMark.key : CustomMark → String
  | added g => normalizeTitle g.title
  | removed normTitle => normTitle

/-- The game that is registered from then on. -/
def CustomMark.game : CustomMark → Option CustomGame
  | added g => some g
  | removed _ => none

/-- What a statement that went through did to the table. -/
def CustomEvent.mark : CustomEvent → Option CustomMark
  | .insert _ g none => some (.added g)
  | .remove normTitle true => some (.removed normTitle)
  | _ => none

/-- The changes of a run, the latest first. -/
def customMarks (trace : List CustomEvent) : List CustomMark :=
  (trace.filterMap CustomEvent.mark).reverse

/-- The game that was added last under a normalized title, and not removed since. -/
def lastAdded (normTitle : String) (log : List CustomMark) : Option CustomGame :=
  (log.find? fun m => m.key = normTitle).bind CustomMark.game

section Runs

variable {w w' w₀ : CustomStore} {ev : CustomEvent} {trace : List CustomEvent}
  {log : List CustomMark} {normTitle : String}

theorem lastAdded_cons (m : CustomMark) : lastAdded normTitle (m :: log) =
    if m.key = normTitle then m.game else lastAdded normTitle log := by
  rw [lastAdded, List.find?_cons]
  by_cases hkey : m.key = normTitle <;> simp [hkey, lastAdded]

theorem customMarks_append (trace : List CustomEvent) (ev : CustomEvent) :
    customMarks (trace ++ [ev]) = ev.mark.toList ++ customMarks trace := by
  rw [customMarks, List.filterMap_append, List.reverse_append, customMarks]
  cases h : ev.mark with
  | none => simp [h]
  | some m => simp [h]

/-- What the table holds, and what the calls know. -/
structure CustomStore.Holds (w : CustomStore) (log : List CustomMark) : Prop where
  rows : ∀ normTitle,
    w.rows.find? (fun r => r.normTitle = normTitle)
      = (lastAdded normTitle log).map CustomGameSpec.row
  keys : (w.rows.map CustomRow.normTitle).Nodup
  normal : ∀ r ∈ w.rows, r.normTitle = normalizeTitle r.title ∧ r.normTitle ≠ ""
  adding : ∀ i g, w.adding i = some g → normalizeTitle g.title ≠ ""

/-- A call that is answered does not insert any more. -/
theorem CustomStore.adding_answer {i j : ℕ} (reply : Except String Unit) {g : CustomGame}
    (h : (w.answer i reply).adding j = some g) : j ≠ i ∧ w.adding j = some g := by
  have hupdate : Function.update w.adding i none j = some g := h
  rw [Function.update_apply] at hupdate
  split_ifs at hupdate with hji
  exact ⟨hji, hupdate⟩

theorem CustomStore.answers_answer (i j : ℕ) (reply : Except String Unit) :
    (w.answer i reply).answers j = if j = i then some reply else w.answers j :=
  Function.update_apply ..

theorem CustomStore.Holds.answer (h : w.Holds log) (i : ℕ) (reply : Except String Unit) :
    (w.answer i reply).Holds log :=
  ⟨h.rows, h.keys, h.normal, fun j g hj => h.adding j g (CustomStore.adding_answer reply hj).2⟩

/-- An `INSERT` that goes through. -/
theorem CustomStore.Holds.insert (h : w.Holds log) {i : ℕ} {g : CustomGame}
    (hadding : w.adding i = some g) (free : w.Free (normalizeTitle g.title)) :
    (w.next (.insert i g none)).Holds (.added g :: log) := by
  have hanswer := h.answer i (.ok ())
  refine ⟨fun normTitle => ?_, ?_, ?_, hanswer.adding⟩
  · show (w.rows ++ [g.row]).find? (fun r => r.normTitle = normTitle) = _
    rw [List.find?_append, h.rows, lastAdded_cons]
    by_cases hkey : normalizeTitle g.title = normTitle
    · have hnone : lastAdded normTitle log = none := by
        rw [← Option.map_eq_none_iff, ← h.rows, List.find?_eq_none]
        intro r hr
        simpa [← hkey] using free r hr
      simp [CustomMark.key, CustomMark.game, hkey, hnone, CustomGameSpec.row]
    · simp [CustomMark.key, hkey, CustomGameSpec.row]
  · show ((w.rows ++ [g.row]).map CustomRow.normTitle).Nodup
    rw [List.map_append, List.nodup_append]
    refine ⟨h.keys, List.nodup_singleton _, ?_⟩
    rintro key hkey key' hkey' rfl
    obtain ⟨r, hr, rfl⟩ := List.mem_map.mp hkey
    exact free r hr (List.mem_singleton.mp hkey')
  · intro r hr
    rcases List.mem_append.mp hr with hr | hr
    · exact h.normal r hr
    · obtain rfl := List.mem_singleton.mp hr
      exact ⟨rfl, h.adding i g hadding⟩

/-- A removal takes the row of its title away. -/
theorem CustomStore.Holds.remove (h : w.Holds log) (removed : String) :
    (w.next (.remove removed true)).Holds (.removed removed :: log) := by
  refine ⟨fun normTitle => ?_, ?_, fun r hr => h.normal r (List.mem_of_mem_filter hr), h.adding⟩
  · show (w.rows.filter fun r => r.normTitle ≠ removed).find? (fun r => r.normTitle = normTitle) = _
    rw [List.find?_filter, lastAdded_cons, show (CustomMark.removed removed).key = removed from rfl]
    by_cases hkey : removed = normTitle
    · subst hkey
      rw [if_pos rfl, List.find?_eq_none.mpr fun r _ => by simp]
      rfl
    · rw [if_neg hkey, ← h.rows]
      refine List.find?_congr fun r _ => ?_
      by_cases hr : r.normTitle = normTitle
      · simp [hr, Ne.symm hkey]
      · simp [hr]
  · exact h.keys.sublist (List.filter_sublist.map _)

/-- No statement leaves the table with other rows than its log says. -/
theorem CustomStore.Holds.step (h : w.Holds log) (step : CustomStep w ev w') :
    w'.Holds (ev.mark.toList ++ log) := by
  obtain ⟨henabled, rfl⟩ := step
  cases ev with
  | select i g error =>
      rw [CustomStore.next]
      cases hrefusal : w.refusal g error with
      | some e => exact h.answer i _
      | none =>
          refine ⟨h.rows, h.keys, h.normal, fun j g' hj => ?_⟩
          have hnorm : normalizeTitle g.title ≠ "" := by
            intro hempty
            simp [CustomStore.refusal, hempty] at hrefusal
          rcases Program.update_eq_some hj with ⟨-, rfl⟩ | ⟨-, hbefore⟩
          · exact hnorm
          · exact h.adding j g' hbefore
  | insert i g error =>
      cases error with
      | none => exact h.insert henabled.1 (henabled.2 rfl)
      | some e => exact h.answer i _
  | remove removed ok =>
      cases ok with
      | false => exact h
      | true => exact h.remove removed

/-- So in every run the table holds what was added last and not removed since. -/
theorem holds_of_run (run : Run CustomStep w₀ trace w) (new : w₀.New) :
    w.Holds (customMarks trace) := by
  induction run with
  | nil =>
      refine ⟨fun normTitle => ?_, ?_, ?_, fun i g hg => ?_⟩
      · rw [new.rows]
        rfl
      · rw [new.rows]
        exact List.nodup_nil
      · rw [new.rows]
        exact List.forall_mem_nil _
      · rw [new.adding i] at hg
        cases hg
  | snoc run step ih =>
      rw [customMarks_append]
      exact ih.step step

/-- Only an `INSERT` that went through is answered with success. -/
structure CustomStore.Answered (w : CustomStore) (trace : List CustomEvent) : Prop where
  ok : ∀ i, w.answers i = some (.ok ()) ↔ ∃ g, CustomEvent.insert i g none ∈ trace
  waiting : ∀ i g, w.adding i = some g → w.answers i = none

/-- A refused call has inserted nothing. -/
theorem CustomStore.Answered.refused (h : w.Answered trace) {i : ℕ} (hi : w.answers i = none)
    (e : String) (hev : ∀ j g, CustomEvent.insert j g none ≠ ev) :
    (w.answer i (.error e)).Answered (trace ++ [ev]) := by
  have hmem : ∀ j g, CustomEvent.insert j g none ∈ trace ++ [ev] ↔
      CustomEvent.insert j g none ∈ trace := by
    intro j g
    simp [hev j g]
  refine ⟨fun j => ?_, fun j g hj => ?_⟩
  · simp only [hmem, ← h.ok j]
    rw [CustomStore.answers_answer]
    split_ifs with hji
    · subst hji
      simp [hi]
    · rfl
  · obtain ⟨hji, hbefore⟩ := CustomStore.adding_answer (.error e) hj
    rw [CustomStore.answers_answer, if_neg hji]
    exact h.waiting j g hbefore

/-- A call that is answered has done what its answer says. -/
theorem CustomStore.Answered.step (h : w.Answered trace) (step : CustomStep w ev w') :
    w'.Answered (trace ++ [ev]) := by
  obtain ⟨henabled, rfl⟩ := step
  cases ev with
  | select i g error =>
      rw [CustomStore.next]
      cases w.refusal g error with
      | some e => exact h.refused henabled.2 e fun _ _ => CustomEvent.noConfusion
      | none =>
          refine ⟨fun j => ?_, fun j g' hj => ?_⟩
          · simpa using h.ok j
          · rcases Program.update_eq_some hj with ⟨rfl, -⟩ | ⟨-, hbefore⟩
            · exact henabled.2
            · exact h.waiting j g' hbefore
  | insert i g error =>
      cases error with
      | some e => exact h.refused (h.waiting i g henabled.1) _ fun _ _ => by simp
      | none =>
          refine ⟨fun j => ?_, fun j g' hj => ?_⟩
          · show (w.answer i (.ok ())).answers j = some (.ok ()) ↔ _
            rw [CustomStore.answers_answer]
            split_ifs with hji
            · subst hji
              exact iff_of_true rfl ⟨g, by simp⟩
            · rw [h.ok j]
              simp [hji]
          · obtain ⟨hji, hbefore⟩ := CustomStore.adding_answer (.ok ()) hj
            show (w.answer i (.ok ())).answers j = none
            rw [CustomStore.answers_answer, if_neg hji]
            exact h.waiting j g' hbefore
  | remove removed ok =>
      have hsame : ∀ ok, (w.next (.remove removed ok)).answers = w.answers ∧
          (w.next (.remove removed ok)).adding = w.adding := by
        intro ok
        cases ok <;> exact ⟨rfl, rfl⟩
      refine ⟨fun j => ?_, fun j g hj => ?_⟩
      · rw [(hsame ok).1]
        simpa using h.ok j
      · rw [(hsame ok).2] at hj
        rw [(hsame ok).1]
        exact h.waiting j g hj

theorem answered_of_run (run : Run CustomStep w₀ trace w) (new : w₀.New) : w.Answered trace := by
  induction run with
  | nil =>
      refine ⟨fun i => ?_, fun i g hg => new.answers i⟩
      rw [new.answers i]
      simp
  | snoc run step ih => exact ih.step step

/-- The rows of the table, by the log. -/
theorem CustomStore.Holds.mem_rows_iff (h : w.Holds log) {r : CustomRow} : r ∈ w.rows ↔
    ∃ g, lastAdded r.normTitle log = some g ∧ r = g.row := by
  have hrow := h.rows r.normTitle
  constructor
  · intro hr
    have hfind : (w.rows.find? fun r' => r'.normTitle = r.normTitle).isSome :=
      List.find?_isSome.mpr ⟨r, hr, by simp⟩
    obtain ⟨r', hr'⟩ := Option.isSome_iff_exists.mp hfind
    have hkey : r'.normTitle = r.normTitle := by simpa using List.find?_some hr'
    obtain rfl := List.inj_on_of_nodup_map h.keys (List.mem_of_find?_eq_some hr') hr hkey
    rw [hr'] at hrow
    obtain ⟨g, hg, hgr⟩ := Option.map_eq_some_iff.mp hrow.symm
    exact ⟨g, hg, hgr.symm⟩
  · rintro ⟨g, hg, hgr⟩
    rw [hg] at hrow
    have hmem := List.mem_of_find?_eq_some hrow
    rwa [← hgr] at hmem

instance : Std.Total TitleLe := ⟨fun a b => by
  simpa [TitleLe, textLe, textLt] using le_total (bytesOf a.title) (bytesOf b.title)⟩

instance : IsTrans CustomGame TitleLe := ⟨fun a b c hab hbc => by
  simp only [TitleLe, textLe, textLt, Bool.not_eq_true', decide_eq_false_iff_not] at hab hbc ⊢
  exact List.le_trans hab hbc⟩

/-- **The hand-registered games.**  In every run of additions and removals, at the same time or
not, with any statement failing: under a normalized title there is the game that was added last
and not removed since, as it is read back, and no other; they are listed by title; no game is
without letters and digits; and a call is answered with success exactly if its game was added. -/
theorem custom_games_kept (run : Run CustomStep w₀ trace w) (new : w₀.New) :
    (∀ c, c ∈ listCustomGames w.rows ↔
      ∃ g, lastAdded (normalizeTitle c.title) (customMarks trace) = some g ∧ c = g.row.game) ∧
    ((listCustomGames w.rows).map fun c => normalizeTitle c.title).Nodup ∧
    (listCustomGames w.rows).Pairwise TitleLe ∧
    (∀ c ∈ listCustomGames w.rows, normalizeTitle c.title ≠ "") ∧
    ∀ i, w.answers i = some (.ok ()) ↔ ∃ g, CustomEvent.insert i g none ∈ trace := by
  have h := holds_of_run run new
  have hperm : (listCustomGames w.rows).Perm (w.rows.map CustomRow.game) :=
    List.perm_insertionSort _ _
  have hkey : ∀ r ∈ w.rows, r.normTitle = normalizeTitle r.game.title :=
    fun r hr => (h.normal r hr).1
  have hlisted : ∀ c, c ∈ listCustomGames w.rows ↔ ∃ r ∈ w.rows, r.game = c :=
    fun c => hperm.mem_iff.trans List.mem_map
  refine ⟨fun c => ?_, ?_, List.pairwise_insertionSort _ _, fun c hc => ?_,
    (answered_of_run run new).ok⟩
  · rw [hlisted]
    constructor
    · rintro ⟨r, hr, rfl⟩
      obtain ⟨g, hg, hgr⟩ := h.mem_rows_iff.mp hr
      exact ⟨g, hkey r hr ▸ hg, congrArg CustomRow.game hgr⟩
    · rintro ⟨g, hg, rfl⟩
      exact ⟨g.row, h.mem_rows_iff.mpr ⟨g, hg, rfl⟩, rfl⟩
  · refine (hperm.map _).nodup_iff.mpr ?_
    rw [List.map_map]
    have hsame : w.rows.map ((fun c => normalizeTitle c.title) ∘ CustomRow.game)
        = w.rows.map CustomRow.normTitle :=
      List.map_congr_left fun r hr => (hkey r hr).symm
    rw [hsame]
    exact h.keys
  · obtain ⟨r, hr, rfl⟩ := (hlisted c).mp hc
    rw [← hkey r hr]
    exact (h.normal r hr).2

end Runs

section Example

/-- A game with an include of two globs. -/
def hollowKnight : CustomGame where
  title := "Hollow Knight"
  installPath := none
  saveRoot := "/games/hollow"
  includeGlobs := ["**/*.dat", "config"]
  excludeGlobs := []

/-- The same game, spelled another way. -/
def respelled : CustomGame := { hollowKnight with title := "hollow-knight" }

/-- Both are added at the same time: both find the title free. -/
def racingAdditions : List CustomEvent :=
  [.select 0 hollowKnight none, .select 1 respelled none, .insert 0 hollowKnight none,
    .insert 1 respelled (some "UNIQUE constraint failed: custom_games.norm_title")]

/-- Nothing is registered yet. -/
def emptyCatalog : CustomStore where
  rows := []
  adding := fun _ => none
  answers := fun _ => none

theorem racingAdditions_run :
    Run CustomStep emptyCatalog racingAdditions
      (racingAdditions.foldl CustomStore.next emptyCatalog) :=
  Run.of_enabled ⟨⟨rfl, rfl⟩, ⟨rfl, rfl⟩, ⟨rfl, fun _ => List.forall_mem_nil _⟩,
    ⟨rfl, fun h => (by cases h)⟩, trivial⟩

/-- One of the two is there, and the other was told so. -/
theorem racingAdditions_kept :
    hollowKnight ∈ listCustomGames (racingAdditions.foldl CustomStore.next emptyCatalog).rows ∧
    (racingAdditions.foldl CustomStore.next emptyCatalog).answers 1 ≠ some (.ok ()) := by
  obtain ⟨hlisted, -, -, -, hanswers⟩ :=
    custom_games_kept racingAdditions_run ⟨rfl, fun _ => rfl, fun _ => rfl⟩
  have hadded : lastAdded (normalizeTitle hollowKnight.title) (customMarks racingAdditions)
      = some hollowKnight := by decide +kernel
  have hread : hollowKnight = hollowKnight.row.game := by decide +kernel
  refine ⟨(hlisted _).mpr ⟨hollowKnight, hadded, hread⟩, fun hok => ?_⟩
  obtain ⟨g, hg⟩ := (hanswers 1).mp hok
  simp [racingAdditions] at hg

end Example

end Savr
