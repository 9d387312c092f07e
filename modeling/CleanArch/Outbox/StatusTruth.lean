import CleanArch.Outbox.Routing

/-!
# The status of a relayed event

Relay runs that overlap may poll one event. What one of them has committed as `PUBLISHED` another
can still give up: it has loaded the row before, and its third failure sets `FAILED` whatever the
row has become.
-/

namespace CleanArch

open Async List Steps

variable {calls : Tid → RelayCall}

/-- Settled events stay settled. -/
def Kept (c : (relaySys calls).Config) (e : (relaySys calls).Event) : Prop :=
  ∀ row ∈ c.sh.rows, row.Settled → ∀ row' ∈ (Sys.step c e).sh.rows, row'.id = row.id → row'.Settled

instance (s : SharedOutbox) (id : UUID) : Decidable (s.Acked id) :=
  inferInstanceAs (Decidable (∃ p ∈ s.log, p.1.id = id))

/-- No statement gives up an event that the broker has by now. -/
def Unsent (statements : List (UUID × RowMark)) (s : SharedOutbox) : Prop :=
  ∀ x ∈ statements, x.2.givesUp = true → ¬ s.Acked x.1

instance : Decidable (Unsent statements s) := inferInstanceAs (Decidable (∀ x ∈ _, _))

/-- No run commits that it has given up an event that the broker has by then. -/
abbrev GivesUpUnsent : (relaySys calls).Config → (relaySys calls).Event → Prop :=
  Sys.Asks (fun _ r l s o => r.commits = true → o.fault ≠ some .refused → Unsent l.statements s)
    fun _ _ => True

lemma Relaying.eq_of_id (h : Relaying c) (hrow : row ∈ c.sh.rows) (hrow' : row' ∈ c.sh.rows)
    (hid : row'.id = row.id) : row' = row :=
  inj_on_of_nodup_map h.nodup hrow' hrow hid

lemma Relaying.kept {c : (relaySys calls).Config} {e : (relaySys calls).Event} (h : Relaying c)
    (hunsent : GivesUpUnsent c e) : Kept c e := by
  have hsame : (Sys.step c e).sh.rows = c.sh.rows → Kept c e :=
    fun hrows row hrow hs row' hrow' hid => h.eq_of_id hrow (hrows ▸ hrow') hid ▸ hs
  cases e with
  | world event =>
    by_cases hfresh : c.sh.rows.any fun e => e.id = event.row.id
    · exact hsame (by simp [Sys.step, SharedOutbox.store, hfresh])
    · intro row hrow hs row' hrow' hid
      simp only [Sys.step, SharedOutbox.store, hfresh] at hrow'
      rcases mem_append.mp hrow' with hrow' | hrow'
      · exact h.eq_of_id hrow hrow' hid ▸ hs
      · rw [mem_singleton.mp hrow'] at hid
        exact absurd (any_eq_true.mpr ⟨row, hrow, by simp [hid]⟩) hfresh
  | turn t o =>
    rcases (c.thr t).2.ended_or_awaits with hn | ⟨r, k, hp⟩
    · exact hsame (by rw [Sys.step_ended hn])
    obtain ⟨q, hq, hfollows⟩ := h.follows t
    rw [hp] at hfollows
    have hrows : (Sys.step c (.turn t o)).sh.rows = if r.commits ∧ o.fault ≠ some .refused then
        (c.thr t).1.view c.sh.rows else c.sh.rows := by
      rw [Sys.step_await hp]
      exact (RelayCmd.does o hfollows.1 (fun e he => (h.rows e he).1) (h.marks t) hq).rows
    have hgives := hunsent r (by rw [hp]; rfl)
    by_cases hcommit : r.commits = true ∧ o.fault ≠ some .refused
    · intro row hrow hs row' hrow' hid
      rw [hrows, if_pos hcommit] at hrow'
      obtain ⟨row2, hrow2, rfl⟩ := mem_map.mp hrow'
      have hmarked := (h.marks t).apply row2
      cases h.eq_of_id hrow hrow2 (hmarked.id.symm.trans hid)
      rcases hmarked.status with hstatus | ⟨-, x, hx, hxid, hgave⟩ | ⟨hsettled, -⟩
      · simpa [OutboxEventEntity.Settled, hstatus] using hs
      · -- a settled event is acknowledged, so no mark of the session has given it up
        have hacked := (h.rows row hrow).2 hs
        rw [← hxid] at hacked
        exact absurd hacked (hgives hcommit.1 hcommit.2 x hx hgave)
      · exact hsettled
    · exact hsame (by rw [hrows, if_neg hcommit])

def down : Answer := { fault := some .refused }

end CleanArch
