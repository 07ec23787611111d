import Savr.Daemon.RetryTimes
import Savr.Server.PairingCodes

/-!
# Comparing stored timestamps

The queries of both databases that compare a stored timestamp with now: `due_outbox` of the
daemon, and the active codes of `create_pairing_code` and `redeem_pairing_code` of the server.
-/

namespace Savr

/-- The condition of both queries, read as a comparison of times. -/
theorem PairingCodeRow.active_iff {r : PairingCodeRow} {expiry now : UtcTime}
    (h : r.expiresAt = expiry.toRfc3339) :
    r.active now.toRfc3339 = true ↔ r.used = false ∧ now.instant < expiry.instant := by
  rw [active, Bool.and_eq_true, Bool.not_eq_true', h, UtcTime.text_lt_iff]

/-- **Comparing stored timestamps as text is comparing times.**  The texts are in the order of
the times; so `due_outbox` returns exactly the entries whose retry time is unset or not after
now, the unset ones first and the others in chronological order, whatever was written to the
table; and a pairing code is active exactly while it is unused and its expiry is later than
now: the `SELECT` of a redemption returns these codes, and the `COUNT` of a creation counts
them. -/
theorem stored_times_compare :
    (∀ a b : UtcTime,
      (textLt a.toRfc3339 b.toRfc3339 = true ↔ a.instant < b.instant) ∧
      (a.toRfc3339 = b.toRfc3339 ↔ a.instant = b.instant)) ∧
    (∀ (table : List (OutboxEntry UtcTime)) (writes : List (OutboxWrite UtcTime))
        (now : UtcTime), ∃ due,
      dueEntries textLe now.toRfc3339 (outboxAfter (storedOutbox table)
        (writes.map OutboxWrite.bound)) = storedOutbox due ∧
      due.Perm ((outboxAfter table writes).filter fun e =>
        e.nextRetry.all fun t => t.instant ≤ now.instant) ∧
      due.Pairwise fun a b => ∀ s, a.nextRetry = some s →
        ∃ t, b.nextRetry = some t ∧ s.instant ≤ t.instant) ∧
    (∀ (r : PairingCodeRow) (expiry now : UtcTime), r.expiresAt = expiry.toRfc3339 →
      (r.active now.toRfc3339 = true ↔ r.used = false ∧ now.instant < expiry.instant)) ∧
    ∀ (t : PairingTable) (expiry : PairingCodeRow → UtcTime) (now : UtcTime),
      (∀ r ∈ t.rows, r.expiresAt = (expiry r).toRfc3339) →
      (∀ code draw, (PairingCall.redeem code now .select).Ready t draw ↔
        draw.rows.Perm (t.rows.filter fun r =>
          r.used = false ∧ now.instant < (expiry r).instant)) ∧
      ∀ account expiresAt draw, PairingCall.execCreate t account now expiresAt draw .count =
        (t, if draw.ok then
            if maxActivePairingCodes ≤ t.rows.countP (fun r => r.accountId = account ∧
                r.used = false ∧ now.instant < (expiry r).instant) then .tooMany
            else .insert
          else .failed) := by
  refine ⟨fun a b => ⟨UtcTime.text_lt_iff, UtcTime.text_eq_iff⟩, fun table writes now => ?_,
    fun r expiry now => PairingCodeRow.active_iff, fun t expiry now written => ⟨?_, ?_⟩⟩
  · have htotal : ∀ s t : UtcTime, s.le t = true ∨ t.le s = true := fun s t => by
      simp only [UtcTime.le, decide_eq_true_eq]
      exact Nat.le_total _ _
    have htrans : ∀ r s t : UtcTime, r.le s = true → s.le t = true → r.le t = true :=
      fun r s t => by
        simp only [UtcTime.le, decide_eq_true_eq]
        exact Nat.le_trans
    obtain ⟨hperm, hsorted⟩ := dueEntries_spec htotal htrans now (outboxAfter table writes)
    refine ⟨_, dueEntries_stored table writes now, hperm, hsorted.imp ?_⟩
    intro a b hab s hs
    unfold OutboxEntry.retriesBefore at hab
    rw [hs] at hab
    cases hb : b.nextRetry with
    | none =>
        rw [hb] at hab
        exact hab.elim
    | some t =>
        rw [hb] at hab
        exact ⟨t, rfl, of_decide_eq_true hab⟩
  · intro code draw
    have hselect : t.rows.filter (·.active now.toRfc3339) =
        t.rows.filter fun r => r.used = false ∧ now.instant < (expiry r).instant :=
      List.filter_congr fun r hr => Bool.eq_iff_iff.mpr <| by
        rw [decide_eq_true_eq]
        exact PairingCodeRow.active_iff (written r hr)
    rw [← hselect]
    rfl
  · intro account expiresAt draw
    have hcount : (t.rows.countP fun r => r.accountId = account ∧ r.active now.toRfc3339) =
        t.rows.countP fun r => r.accountId = account ∧ r.used = false ∧
          now.instant < (expiry r).instant :=
      List.countP_congr fun r hr => by
        rw [decide_eq_true_eq, decide_eq_true_eq, PairingCodeRow.active_iff (written r hr)]
    rw [← hcount]
    rfl

end Savr
