import Savr.Core.Rfc3339
import Savr.Daemon.State

/-!
# The outbox and the texts of its retry times

`enqueue_outbox`, `bump_outbox_attempt`, `remove_outbox` and `due_outbox` of
`savr-daemon/src/state.rs`, on the table as it is stored: `next_retry` is a text, and the
query compares and sorts texts.

The same operations are written for any type of times, so that a table of texts and the table
of the times behind them can be held against each other; the backups are proved about the
latter.

## Main results

* `dueEntries_map` — a map of the times that keeps their order keeps the answers.
* `dueEntries_stored` — the entries that are due by their texts are due by their times.
* `outbox_run`, `dueOutbox_eq` — a device whose times are numbers keeps the same table, and
  answers with the same entries.
-/

namespace Savr

/-- A row of `outbox`, with times of some type. -/
structure OutboxEntry (τ : Type) where
  id : Uuid
  payload : Option OutboxPayload
  attempts : ℕ
  nextRetry : Option τ
  deriving DecidableEq

/-- A statement that writes to the table. -/
inductive OutboxWrite (τ : Type)
  | enqueue (id : Uuid) (payload : OutboxPayload) (nextRetry : τ)
  | bumpAttempt (id : Uuid) (nextRetry : τ)
  | remove (id : Uuid)

namespace OutboxEntry

variable {τ σ : Type}

/-- The entry with its retry time written in another way. -/
def map (f : τ → σ) (e : OutboxEntry τ) : OutboxEntry σ :=
  { id := e.id, payload := e.payload, attempts := e.attempts, nextRetry := e.nextRetry.map f }

/-- `ORDER BY next_retry ASC`: nulls come first. -/
def retriesBefore (le : τ → τ → Bool) (a b : OutboxEntry τ) : Prop :=
  match a.nextRetry, b.nextRetry with
  | none, _ => True
  | some _, none => False
  | some s, some t => le s t = true

instance (le : τ → τ → Bool) : DecidableRel (retriesBefore le) := fun a b =>
  match ha : a.nextRetry, hb : b.nextRetry with
  | none, _ => isTrue (by simp [retriesBefore, ha])
  | some _, none => isFalse (by simp [retriesBefore, ha, hb])
  | some s, some t => decidable_of_iff (le s t = true) (by simp [retriesBefore, ha, hb])

/-- `next_retry IS NULL OR next_retry <= ?`. -/
def isDue (le : τ → τ → Bool) (now : τ) (e : OutboxEntry τ) : Bool :=
  e.nextRetry.all fun t => le t now

end OutboxEntry

section Table

variable {τ σ : Type}

/-- The statements of `enqueue_outbox`, `bump_outbox_attempt` and `remove_outbox`. A row that
is enqueued again keeps its attempts. -/
def OutboxWrite.apply (table : List (OutboxEntry τ)) : OutboxWrite τ → List (OutboxEntry τ)
  | enqueue id payload nextRetry =>
      let attempts := ((table.find? fun r => r.id = id).map OutboxEntry.attempts).getD 0
      (table.filter fun r => r.id ≠ id) ++
        [{ id, payload := some payload, attempts, nextRetry := some nextRetry }]
  | bumpAttempt id nextRetry =>
      table.map fun r =>
        if r.id = id then { r with attempts := r.attempts + 1, nextRetry := some nextRetry }
        else r
  | remove id => table.filter fun r => r.id ≠ id

/-- The write with its retry time written in another way. -/
def OutboxWrite.map (f : τ → σ) : OutboxWrite τ → OutboxWrite σ
  | enqueue id payload nextRetry => enqueue id payload (f nextRetry)
  | bumpAttempt id nextRetry => bumpAttempt id (f nextRetry)
  | remove id => remove id

/-- The table after these statements. -/
def outboxAfter (table : List (OutboxEntry τ)) (writes : List (OutboxWrite τ)) :
    List (OutboxEntry τ) :=
  writes.foldl OutboxWrite.apply table

/-- `due_outbox`. -/
def dueEntries (le : τ → τ → Bool) (now : τ) (table : List (OutboxEntry τ)) :
    List (OutboxEntry τ) :=
  (table.filter (OutboxEntry.isDue le now)).insertionSort (OutboxEntry.retriesBefore le)

variable {f : τ → σ} {le : τ → τ → Bool} {le' : σ → σ → Bool}

/-- The writes do not look at how the retry times are written. -/
theorem map_apply (f : τ → σ) (table : List (OutboxEntry τ)) (write : OutboxWrite τ) :
    (write.apply table).map (OutboxEntry.map f) =
      (write.map f).apply (table.map (OutboxEntry.map f)) := by
  cases write with
  | enqueue id payload nextRetry =>
      have hfind : ((table.map (OutboxEntry.map f)).find? fun r => r.id = id).map
          OutboxEntry.attempts = (table.find? fun r => r.id = id).map OutboxEntry.attempts := by
        rw [List.find?_map, Option.map_map]
        rfl
      simp only [OutboxWrite.apply, OutboxWrite.map, List.map_append, List.map_singleton, hfind,
        List.filter_map]
      rfl
  | bumpAttempt id nextRetry =>
      simp only [OutboxWrite.apply, OutboxWrite.map, List.map_map]
      refine List.map_congr_left fun r _ => ?_
      simp only [Function.comp_apply]
      by_cases hid : r.id = id <;> simp [OutboxEntry.map, hid]
  | remove id =>
      simp only [OutboxWrite.apply, OutboxWrite.map, List.filter_map]
      rfl

/-- Writes act alike on the table of times and on that of their texts. -/
theorem outboxAfter_map (f : τ → σ) (table : List (OutboxEntry τ))
    (writes : List (OutboxWrite τ)) :
    outboxAfter (table.map (OutboxEntry.map f)) (writes.map (OutboxWrite.map f)) =
      (outboxAfter table writes).map (OutboxEntry.map f) := by
  induction writes generalizing table with
  | nil => rfl
  | cons write writes ih =>
      show outboxAfter ((write.map f).apply (table.map (OutboxEntry.map f))) _ = _
      rw [← map_apply, ih]
      rfl

/-- **Only the order of the times matters.** -/
theorem dueEntries_map (hf : ∀ s t, le' (f s) (f t) = le s t) (now : τ)
    (table : List (OutboxEntry τ)) :
    dueEntries le' (f now) (table.map (OutboxEntry.map f)) =
      (dueEntries le now table).map (OutboxEntry.map f) := by
  have hdue : ∀ e : OutboxEntry τ, (e.map f).isDue le' (f now) = e.isDue le now := by
    intro e
    cases hnext : e.nextRetry with
    | none => simp [OutboxEntry.isDue, OutboxEntry.map, hnext]
    | some t => simp [OutboxEntry.isDue, OutboxEntry.map, hnext, hf]
  have hbefore : ∀ a b : OutboxEntry τ, OutboxEntry.retriesBefore le a b ↔
      OutboxEntry.retriesBefore le' (a.map f) (b.map f) := by
    intro a b
    cases ha : a.nextRetry <;> cases hb : b.nextRetry <;>
      simp [OutboxEntry.retriesBefore, OutboxEntry.map, ha, hb, hf]
  rw [dueEntries, dueEntries, List.filter_map, List.map_insertionSort _ _ _ _
    fun a _ b _ => hbefore a b]
  exact congrArg (fun l => List.insertionSort _ (List.map _ l))
    (List.filter_congr fun e _ => hdue e)

/-- **The answer**: exactly the due entries, in order. -/
theorem dueEntries_spec (total : ∀ s t, le s t = true ∨ le t s = true)
    (trans : ∀ r s t, le r s = true → le s t = true → le r t = true) (now : τ)
    (table : List (OutboxEntry τ)) :
    (dueEntries le now table).Perm (table.filter (OutboxEntry.isDue le now)) ∧
      (dueEntries le now table).Pairwise (OutboxEntry.retriesBefore le) := by
  have htotal : Std.Total (OutboxEntry.retriesBefore le) := by
    constructor
    intro a b
    unfold OutboxEntry.retriesBefore
    cases a.nextRetry <;> cases b.nextRetry <;> simp [total]
  have htrans : IsTrans (OutboxEntry τ) (OutboxEntry.retriesBefore le) := by
    constructor
    intro a b c
    unfold OutboxEntry.retriesBefore
    cases a.nextRetry <;> cases b.nextRetry <;> cases c.nextRetry <;> simp
    exact trans _ _ _
  exact ⟨List.perm_insertionSort _ _, List.pairwise_insertionSort _ _⟩

end Table

/-! ## Texts and times -/

/-- `a <= b` in SQL, for text. -/
def textLe (a b : String) : Bool := !textLt b a

namespace UtcTime

/-- Chronological order. -/
def le (a b : UtcTime) : Bool := a.instant ≤ b.instant

theorem textLe_eq (a b : UtcTime) : textLe a.toRfc3339 b.toRfc3339 = a.le b := by
  have h := text_lt_iff (a := b) (b := a)
  rw [textLe, le, Bool.eq_iff_iff, Bool.not_eq_true', decide_eq_true_eq, ← Bool.not_eq_true, h,
    Nat.not_lt]

end UtcTime

/-- A table as it is stored. -/
def storedOutbox (table : List (OutboxEntry UtcTime)) : List (OutboxEntry String) :=
  table.map (OutboxEntry.map UtcTime.toRfc3339)

/-- A statement as it is sent. -/
def OutboxWrite.bound (write : OutboxWrite UtcTime) : OutboxWrite String :=
  write.map UtcTime.toRfc3339

/-- **The due entries of the stored table** are those that are due by their times. -/
theorem dueEntries_stored (table : List (OutboxEntry UtcTime)) (writes : List (OutboxWrite UtcTime))
    (now : UtcTime) :
    dueEntries textLe now.toRfc3339 (outboxAfter (storedOutbox table)
        (writes.map OutboxWrite.bound)) =
      storedOutbox (dueEntries UtcTime.le now (outboxAfter table writes)) := by
  have hwrites : writes.map OutboxWrite.bound = writes.map (OutboxWrite.map UtcTime.toRfc3339) :=
    rfl
  rw [storedOutbox, hwrites, outboxAfter_map, dueEntries_map UtcTime.textLe_eq, storedOutbox]

/-- The row of a device that an entry stands for. -/
def OutboxEntry.row (e : OutboxEntry Timestamp) : OutboxRow :=
  { id := e.id, payload := e.payload, attempts := e.attempts, nextRetry := e.nextRetry }

/-- The statement on a device that keeps its times as numbers. -/
def OutboxWrite.run (st : LocalState) : OutboxWrite Timestamp → LocalState
  | enqueue id payload nextRetry => st.enqueueOutbox id payload nextRetry
  | bumpAttempt id nextRetry => st.bumpOutboxAttempt id nextRetry
  | remove id => st.removeOutbox id

/-- The rows of the outbox after a write. -/
theorem outbox_run {st : LocalState} {table : List (OutboxEntry Timestamp)}
    (houtbox : st.outbox = table.map OutboxEntry.row) (write : OutboxWrite Timestamp) :
    (write.run st).outbox = (write.apply table).map OutboxEntry.row := by
  cases write with
  | enqueue id payload nextRetry =>
      have hfind : (st.outbox.find? fun r => r.id = id).map OutboxRow.attempts =
          (table.find? fun r => r.id = id).map OutboxEntry.attempts := by
        rw [houtbox, List.find?_map, Option.map_map]
        rfl
      simp only [OutboxWrite.run, LocalState.enqueueOutbox, hfind]
      rw [houtbox, OutboxWrite.apply, List.map_append, List.filter_map]
      rfl
  | bumpAttempt id nextRetry =>
      simp only [OutboxWrite.run, LocalState.bumpOutboxAttempt, OutboxWrite.apply, houtbox,
        List.map_map]
      refine List.map_congr_left fun r _ => ?_
      simp only [Function.comp_apply]
      by_cases hid : r.id = id <;> simp [OutboxEntry.row, hid]
  | remove id =>
      simp only [OutboxWrite.run, LocalState.removeOutbox, OutboxWrite.apply, houtbox,
        List.filter_map]
      rfl

/-- **The device answers with the due entries of its table.** -/
theorem dueOutbox_eq (st : LocalState) (table : List (OutboxEntry Timestamp))
    (houtbox : st.outbox = table.map OutboxEntry.row) (now : Timestamp) :
    st.dueOutbox now = (dueEntries (fun s t => s ≤ t) now table).map OutboxEntry.row := by
  rw [LocalState.dueOutbox, RankedList.sortBy, houtbox, dueEntries, List.filter_map,
    ← List.map_insertionSort (r := OutboxEntry.retriesBefore fun s t => decide (s ≤ t))]
  · refine congrArg (fun l => List.map _ (List.insertionSort _ l))
      (List.filter_congr fun e _ => ?_)
    cases hnext : e.nextRetry <;> simp [OutboxEntry.isDue, OutboxEntry.row, hnext]
  · intro a _ b _
    cases ha : a.nextRetry <;> cases hb : b.nextRetry <;>
      simp [OutboxEntry.retriesBefore, OutboxEntry.row, ha, hb]

end Savr
