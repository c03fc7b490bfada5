import ConcordBackend.Indexer.Contracts

/-!
# What an event leaves in the rows

A row that a list of statements finds missing and leaves behind was inserted by one of them,
and holds in its creation columns what that statement bound. `EventRun.escrow`,
`EventRun.milestone` and `EventRun.dispute` say so of the statements of one event, however
its processing ended: the values in a new row are values its code computed. An event that ends
without an error leaves all the rows it inserts (`EventRun.isSome_escrow` and its siblings).
-/

namespace ConcordBackend

namespace View

variable {ws : List Write} {v : View}

/-- A new escrow row comes from an `upsert_escrow`. -/
theorem escrow_of_run {e : Int64} (hv : v.escrow e = none) {r : EscrowRow}
    (hr : (run ws v).escrow e = some r) :
    ∃ a, .upsertEscrow a ∈ ws ∧ a.id = e ∧ (a.row 0).Keeps r := by
  refine Replay.run_invariant View.apply (I := fun v' => ∀ r, v'.escrow e = some r →
    ∃ a, .upsertEscrow a ∈ ws ∧ a.id = e ∧ (a.row 0).Keeps r) ?_ (by simp [hv]) r hr
  intro w hw v' ih r' hr'
  rcases hrow : v'.escrow e with _ | r₀
  · -- only an `upsert_escrow` of this id makes a row where there is none
    have hins : w.onEscrow e none = some r' := hrow ▸ hr'
    cases w with
    | upsertEscrow a =>
      by_cases ha : a.id = e
      · rw [Write.onEscrow, if_pos ha] at hins
        exact ⟨a, hw, ha, by cases hins; rfl⟩
      · rw [Write.onEscrow, if_neg ha] at hins
        cases hins
    | setEscrowStatus id status ledger => simp [Write.onEscrow] at hins
    | _ => cases hins
  · obtain ⟨a, ha, hid, hkeeps⟩ := ih r₀ hrow
    obtain ⟨r₁, hr₁, hkeeps₁⟩ := (extends_apply w v').escrow e r₀ hrow
    obtain rfl := Option.some.inj (hr₁.symm.trans hr')
    exact ⟨a, ha, hid, hkeeps.trans hkeeps₁⟩

/-- A new milestone row comes from an `upsert_milestone`. -/
theorem milestone_of_run {k : MilestoneKey} (hv : v.milestone k = none) {r : MilestoneRow}
    (hr : (run ws v).milestone k = some r) :
    ∃ a, .upsertMilestone a ∈ ws ∧ (a.escrowId, a.milestoneId) = k ∧ (a.row 0).KeepsTerms r := by
  refine Replay.run_invariant View.apply (I := fun v' => ∀ r, v'.milestone k = some r →
    ∃ a, .upsertMilestone a ∈ ws ∧ (a.escrowId, a.milestoneId) = k ∧ (a.row 0).KeepsTerms r)
    ?_ (by simp [hv]) r hr
  intro w hw v' ih r' hr'
  rcases hrow : v'.milestone k with _ | r₀
  · have hins : w.onMilestone k none = some r' := hrow ▸ hr'
    obtain ⟨a, rfl, ha, rfl⟩ := upsert_of_onMilestone_none hins
    exact ⟨a, hw, ha, rfl⟩
  · obtain ⟨a, ha, hkey, hkeeps⟩ := ih r₀ hrow
    obtain ⟨r₁, hr₁, hkeeps₁⟩ := (extends_apply w v').milestone k r₀ hrow
    obtain rfl := Option.some.inj (hr₁.symm.trans hr')
    exact ⟨a, ha, hkey, hkeeps.trans hkeeps₁⟩

/-- A new dispute row comes from an `insert_dispute`. -/
theorem dispute_of_run {k : MilestoneKey} (hv : v.dispute k = none) {r : DisputeRow}
    (hr : (run ws v).dispute k = some r) :
    ∃ raisedBy reason, .insertDispute k.1 k.2 raisedBy reason ∈ ws ∧
      (DisputeRow.raised k.1 k.2 raisedBy reason 0).KeepsClaim r := by
  refine Replay.run_invariant View.apply (I := fun v' => ∀ r, v'.dispute k = some r →
    ∃ raisedBy reason, .insertDispute k.1 k.2 raisedBy reason ∈ ws ∧
      (DisputeRow.raised k.1 k.2 raisedBy reason 0).KeepsClaim r) ?_ (by simp [hv]) r hr
  intro w hw v' ih r' hr'
  rcases hrow : v'.dispute k with _ | r₀
  · have hins : w.onDispute k none = some r' := hrow ▸ hr'
    cases w with
    | insertDispute e m raisedBy reason =>
      by_cases hk : (e, m) = k
      · subst hk
        rw [Write.onDispute, if_pos rfl] at hins
        exact ⟨raisedBy, reason, hw, by cases hins; rfl⟩
      · rw [Write.onDispute, if_neg hk] at hins
        cases hins
    | resolveDispute e m kind bps => simp [Write.onDispute] at hins
    | _ => cases hins
  · obtain ⟨raisedBy, reason, hmem, hkeeps⟩ := ih r₀ hrow
    obtain ⟨r₁, hr₁, hkeeps₁⟩ := (extends_apply w v').dispute k r₀ hrow
    obtain rfl := Option.some.inj (hr₁.symm.trans hr')
    exact ⟨raisedBy, reason, hmem, hkeeps.trans hkeeps₁⟩

/-- A milestone written by an `upsert_milestone` exists afterwards. -/
theorem isSome_milestone_run_of_mem {a : UpsertMilestone} (h : .upsertMilestone a ∈ ws)
    (v : View) : ((run ws v).milestone (a.escrowId, a.milestoneId)).isSome = true := by
  obtain ⟨before, after, rfl⟩ := List.append_of_mem h
  rw [run_append, run_cons]
  obtain ⟨r, hr⟩ : ∃ r, ((run before v).apply (.upsertMilestone a)).milestone
      (a.escrowId, a.milestoneId) = some r := by
    simp [apply, Write.onMilestone]
  obtain ⟨r', hr', -⟩ := (extends_run after _).milestone _ r hr
  exact Option.isSome_iff_exists.mpr ⟨r', hr'⟩

/-- A dispute written by an `insert_dispute` exists afterwards. -/
theorem isSome_dispute_run_of_mem {e : Int64} {m : Int32} {raisedBy reason : String}
    (h : .insertDispute e m raisedBy reason ∈ ws) (v : View) :
    ((run ws v).dispute (e, m)).isSome = true := by
  obtain ⟨before, after, rfl⟩ := List.append_of_mem h
  rw [run_append, run_cons]
  obtain ⟨r, hr⟩ : ∃ r, ((run before v).apply (.insertDispute e m raisedBy reason)).dispute
      (e, m) = some r := by
    simp [apply, Write.onDispute]
  obtain ⟨r', hr', -⟩ := (extends_run after _).dispute _ r hr
  exact Option.isSome_iff_exists.mpr ⟨r', hr'⟩

end View

/-! ### One event -/

namespace EventRun

variable {E : Env} {crates : Crates} (r : EventRun E crates)

/-- What is left of an event in the tables: a beginning of its statements, run on the view. -/
theorem view_run : ∃ done, done <+: (processEvent crates r.event).writes ∧
    r.after.db.view = View.run done r.before.db.view :=
  ⟨_, executed_of_runEvent_isPrefix r.runs, view_of_runs r.runs⟩

/-- A new escrow row of an event holds what its `upsert_escrow` bound. -/
theorem escrow {e : Int64} {row : EscrowRow} (hnew : r.before.db.getEscrow e = none)
    (hrow : r.after.db.getEscrow e = some row) :
    ∃ a, .upsertEscrow a ∈ (processEvent crates r.event).writes ∧ a.id = e ∧
      (a.row 0).Keeps row.unclocked := by
  obtain ⟨done, hpre, hview⟩ := r.view_run
  have hnew' : r.before.db.view.escrow e = none := congrArg (Option.map EscrowRow.unclocked) hnew
  have hrow' : r.after.db.view.escrow e = some row.unclocked :=
    congrArg (Option.map EscrowRow.unclocked) hrow
  obtain ⟨a, ha, h⟩ := View.escrow_of_run hnew' (hview ▸ hrow')
  exact ⟨a, hpre.subset ha, h⟩

/-- A new milestone row of an event holds what its `upsert_milestone` bound. -/
theorem milestone {k : MilestoneKey} {row : MilestoneRow}
    (hnew : r.before.db.milestones.find? k = none)
    (hrow : r.after.db.milestones.find? k = some row) :
    ∃ a, .upsertMilestone a ∈ (processEvent crates r.event).writes ∧
      (a.escrowId, a.milestoneId) = k ∧ (a.row 0).KeepsTerms row.unclocked := by
  obtain ⟨done, hpre, hview⟩ := r.view_run
  have hnew' : r.before.db.view.milestone k = none :=
    congrArg (Option.map MilestoneRow.unclocked) hnew
  have hrow' : r.after.db.view.milestone k = some row.unclocked :=
    congrArg (Option.map MilestoneRow.unclocked) hrow
  obtain ⟨a, ha, h⟩ := View.milestone_of_run hnew' (hview ▸ hrow')
  exact ⟨a, hpre.subset ha, h⟩

/-- A new dispute row of an event holds what its `insert_dispute` bound. -/
theorem dispute {k : MilestoneKey} {row : DisputeRow}
    (hnew : r.before.db.disputes.find? k = none)
    (hrow : r.after.db.disputes.find? k = some row) :
    ∃ raisedBy reason,
      .insertDispute k.1 k.2 raisedBy reason ∈ (processEvent crates r.event).writes ∧
        (DisputeRow.raised k.1 k.2 raisedBy reason 0).KeepsClaim row.unclocked := by
  obtain ⟨done, hpre, hview⟩ := r.view_run
  have hnew' : r.before.db.view.dispute k = none := congrArg (Option.map DisputeRow.unclocked) hnew
  have hrow' : r.after.db.view.dispute k = some row.unclocked :=
    congrArg (Option.map DisputeRow.unclocked) hrow
  obtain ⟨raisedBy, reason, hmem, h⟩ := View.dispute_of_run hnew' (hview ▸ hrow')
  exact ⟨raisedBy, reason, hpre.subset hmem, h⟩

/-! What an event inserts is there when the event ends without an error. -/

theorem isSome_escrow (hdone : r.rest = .done ()) {a : UpsertEscrow}
    (h : .upsertEscrow a ∈ (processEvent crates r.event).writes) :
    (r.after.db.getEscrow a.id).isSome = true := by
  have hsome := View.isSome_run_of_mem h r.before.db.view
  rw [← r.view_of_done hdone] at hsome
  simpa [Db.view, Db.getEscrow] using hsome

theorem isSome_milestone (hdone : r.rest = .done ()) {a : UpsertMilestone}
    (h : .upsertMilestone a ∈ (processEvent crates r.event).writes) :
    (r.after.db.milestones.find? (a.escrowId, a.milestoneId)).isSome = true := by
  have hsome := View.isSome_milestone_run_of_mem h r.before.db.view
  rw [← r.view_of_done hdone] at hsome
  simpa [Db.view] using hsome

theorem isSome_dispute (hdone : r.rest = .done ()) {e : Int64} {m : Int32}
    {raisedBy reason : String}
    (h : .insertDispute e m raisedBy reason ∈ (processEvent crates r.event).writes) :
    (r.after.db.disputes.find? (e, m)).isSome = true := by
  have hsome := View.isSome_dispute_run_of_mem h r.before.db.view
  rw [← r.view_of_done hdone] at hsome
  simpa [Db.view] using hsome

end EventRun

end ConcordBackend
