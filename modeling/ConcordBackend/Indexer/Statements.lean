import ConcordBackend.Indexer.Reconstruction
import ConcordBackend.Library.Snapshot

/-!
# Statement by statement

The indexer runs the statements of an event one after the other, each a transaction of its
own. `Executes` relates the databases before and after some of them, wall-clock columns
included: runs of the indexer are such sequences (`executes_of_answers`), and a sequence of all
the statements of some events is a pass over them (`Processed.of_executes`).

What a statement leaves alone is told by its row (`Write.getEscrow_exec`,
`Write.listMilestones_exec`).
-/

namespace ConcordBackend

/-- Statements that succeed one after the other, each at the time its clock shows. -/
abbrev Executes : List Write → Db → Db → Prop :=
  Steps fun wr db db' => ∃ now, wr.exec now db = .ok db'

section Executes

variable {ws : List Write} {db db' : Db}

theorem Executes.view (h : Executes ws db db') : db'.view = View.run ws db.view := by
  induction h with
  | nil => rfl
  | cons hexec _ ih =>
    obtain ⟨now, hexec⟩ := hexec
    rw [ih, Write.view_exec hexec, View.run_cons]

/-- Statements that are all admitted can be executed. -/
theorem Executes.exists_of_ready (h : db.view.Ready ws) : ∃ db', Executes ws db db' := by
  induction ws generalizing db with
  | nil => exact ⟨db, .nil db⟩
  | cons wr ws ih =>
    rcases wr.exec_spec 0 db with ⟨-, db₁, hexec, hview⟩ | ⟨hnot, -⟩
    · obtain ⟨db', hrest⟩ := ih (hview ▸ h.2)
      exact ⟨db', .cons ⟨0, hexec⟩ hrest⟩
    · exact absurd h.1 hnot

end Executes

/-! ### What a statement leaves alone -/

section Frame

variable {wr : Write} {now : DateTime} {db db' : Db} {e : Int64}

/-- An escrow stays as it is under the statements of other rows. -/
theorem Write.getEscrow_exec (h : wr.exec now db = .ok db') (hrow : wr.row ≠ .escrow e) :
    db'.getEscrow e = db.getEscrow e := by
  cases wr with
  | upsertEscrow a =>
    have hne : ¬ (a.row now).id = e := fun heq => hrow (congrArg RowKey.escrow heq)
    rw [← Except.ok.inj h, Db.getEscrow, Db.upsertEscrow, Table.find?_upsert, if_neg hne]
    rfl
  | setEscrowStatus id status ledger =>
    rw [← Except.ok.inj h, Db.getEscrow, Db.setEscrowStatus, Table.find?_update]
    rcases hr : db.escrows.find? e with _ | r
    · exact hr.symm
    · have hne : r.id ≠ id := fun heq =>
        hrow (congrArg RowKey.escrow (heq.symm.trans (Table.key_of_find? hr)))
      simp [Db.getEscrow, hr, hne]
  | upsertMilestone a =>
    simp only [Write.exec, Db.upsertMilestone] at h
    split at h
    · exact Except.ok.inj h ▸ rfl
    · cases h
  | insertDispute e' m raisedBy reason =>
    simp only [Write.exec, Db.insertDispute] at h
    split at h
    · exact Except.ok.inj h ▸ rfl
    · cases h
  | _ => exact Except.ok.inj h ▸ rfl

/-- An update of a milestone of another escrow. -/
private theorem listMilestones_updateMilestone (db : Db) {e' : Int64} (hne : e' ≠ e) (m : Int32)
    {f : MilestoneRow → MilestoneRow} (hf : MilestoneRow.Keeps f) :
    (db.updateMilestone e' m f hf).listMilestones e = db.listMilestones e := by
  have hfilter := db.milestones.filter_update hf.keepsKey
    (p := fun r => r.escrowId = e' && r.milestoneId = m) (q := fun r => r.escrowId = e) (by
      intro r hr
      have he : r.escrowId = e' := of_decide_eq_true (Bool.and_eq_true_iff.mp hr).1
      rw [hf.escrowId r, he]
      exact ⟨decide_eq_false hne, decide_eq_false hne⟩)
  exact congrArg (List.insertionSort fun r r' => r.milestoneId ≤ r'.milestoneId) hfilter

/-- The milestones of an escrow stay as they are under the statements of other rows. -/
theorem Write.listMilestones_exec (h : wr.exec now db = .ok db')
    (hrow : ∀ m, wr.row ≠ .milestone (e, m)) : db'.listMilestones e = db.listMilestones e := by
  have hne : ∀ {e' : Int64} {m : Int32}, wr.row = .milestone (e', m) → e' ≠ e := by
    rintro e' m heq rfl
    exact hrow m heq
  cases wr with
  | upsertMilestone a =>
    simp only [Write.exec, Db.upsertMilestone] at h
    split at h
    · obtain rfl := Except.ok.inj h
      have hfilter := db.milestones.filter_upsert (r := a.row now) (p := fun _ => true)
        (q := fun r => r.escrowId = e) (MilestoneRow.keeps_setStatus a.status now).keepsKey (by
          intro r hr
          have hkey : r.escrowId = a.escrowId := congrArg Prod.fst hr
          rw [hkey]
          exact decide_eq_false (hne rfl))
      exact congrArg (List.insertionSort fun r r' => r.milestoneId ≤ r'.milestoneId) hfilter
    · cases h
  | setMilestoneStatus e' m status =>
    exact Except.ok.inj h ▸ listMilestones_updateMilestone db (hne rfl) m _
  | markMilestoneSubmitted e' m uri hash submittedAt =>
    exact Except.ok.inj h ▸ listMilestones_updateMilestone db (hne rfl) m _
  | releaseMilestone e' m via =>
    exact Except.ok.inj h ▸ listMilestones_updateMilestone db (hne rfl) m _
  | insertDispute e' m raisedBy reason =>
    simp only [Write.exec, Db.insertDispute] at h
    split at h
    · exact Except.ok.inj h ▸ rfl
    · cases h
  | _ => exact Except.ok.inj h ▸ rfl

end Frame

/-! ### Runs as statements -/

section Runs

variable {E : Env} {crates : Crates} {event : RpcEvent} {w w' : World E} {tr : Service.Trace}

/-- The operations of `get_escrow`. -/
inductive Looks : ServiceOp → Prop where
  | escrow (id : Int64) : Looks (.sql (.getEscrow id))
  | milestones (id : Int64) : Looks (.sql (.listMilestones id))

/-- Looking changes nothing. -/
theorem eq_of_looks {op : ServiceOp} {r : op.Reply} (hop : Looks op)
    (h : E.handler op w r w') : w' = w := by
  cases hop with
  | escrow id => exact World.eq_of (h.1.eq_of_reads fun _ => ⟨_, rfl⟩) h.2
  | milestones id => exact World.eq_of (h.1.eq_of_reads fun _ => ⟨_, rfl⟩) h.2

/-- An operation of an event, or one that looks, executes its statement. -/
theorem executes_of_handler {op : ServiceOp} {r : op.Reply} (hop : Processes op ∨ Looks op)
    (h : E.handler op w r w') : Executes (executed? ⟨op, r⟩).toList w.db w'.db := by
  rcases hop with (wr | hop) | hop
  · rcases r with e | a
    · rw [h.1.error_inv.1]
      exact .nil _
    · obtain ⟨now, hexec⟩ := h.1.ok_inv
      exact .cons ⟨now, Query.exec_write hexec⟩ (.nil _)
  · rw [eq_of_notifies hop h]
    cases hop <;> exact .nil _
  · rw [eq_of_looks hop h]
    cases hop <;> exact .nil _

/-- **Answered operations execute their statements**, one after the other. -/
theorem executes_of_answers (hops : ∀ x ∈ tr, Processes x.1 ∨ Looks x.1)
    (h : Answers E.handler w tr w') : Executes (executed tr) w.db w'.db := by
  induction h with
  | nil => exact .nil _
  | snoc _ hop ih =>
    have hlast := executes_of_handler (hops _ (List.mem_append_right _ List.mem_cons_self)) hop
    have hpast := ih fun x hx => hops x (List.mem_append_left _ hx)
    rw [executed_append, executed_cons, executed_nil, List.append_nil]
    exact hpast.append hlast

/-! ### Statements as runs -/

variable {db db' : Db}

/-- A script runs through its statements to its outcome. -/
theorem exists_toProg {α : Type} {s : Script α} (h : Executes s.writes db db') :
    ∃ tr, Runs Env.calm.handler s.toProg ⟨db, ()⟩ tr (Prog.ofExcept s.outcome) ⟨db', ()⟩ := by
  induction s generalizing db with
  | done a =>
    cases h
    exact ⟨[], .refl _ _⟩
  | fail e =>
    cases h
    exact ⟨[], .refl _ _⟩
  | write wr k ih =>
    cases h with
    | @cons _ _ _ db₁ _ hexec hrest =>
      obtain ⟨now, hexec⟩ := hexec
      obtain ⟨tr, hrun⟩ := ih hrest
      have hok : (Query.write wr).exec now db = .ok ((), db₁) := by
        rw [Query.exec, hexec]
        rfl
      have hop : Env.calm.handler (.sql (.write wr)) ⟨db, ()⟩ (.ok ()) ⟨db₁, ()⟩ := ⟨.ok hok, rfl⟩
      exact ⟨_, .step hop hrun⟩

/-- An event can be processed by executing its statements. -/
theorem exists_runEvent (h : Executes (processEvent crates event).writes db db') :
    ∃ r : EventRun Env.calm crates, r.event = event ∧ r.before = ⟨db, ()⟩ ∧ r.after = ⟨db', ()⟩ := by
  obtain ⟨tr, hrun⟩ := exists_toProg h
  rcases hout : (processEvent crates event).outcome with e | o
  · rw [hout] at hrun
    exact ⟨⟨event, _, tr, .fail e, _, hrun.bind, trivial⟩, rfl, rfl, rfl⟩
  · rw [hout] at hrun
    rcases o with _ | ⟨e, name⟩
    · exact ⟨⟨event, _, tr, .done (), _, hrun.bind, trivial⟩, rfl, rfl, rfl⟩
    · obtain ⟨tr', q, w', hnotify, hq⟩ := Runs.exists_finished
        (fun op w hop => exists_answer op w (.notify hop)) (notifyWebhooks_only crates e name)
        (⟨db', ()⟩ : World Env.calm)
      have hsame : w' = ⟨db', ()⟩ := by
        refine hnotify.invariant_of_only (I := fun w' => w' = ⟨db', ()⟩) ?_
          (notifyWebhooks_only crates e name) rfl
        intro op w₁ r w₂ hop hstep hw
        rw [eq_of_notifies hop hstep, hw]
      subst hsame
      exact ⟨⟨event, _, tr ++ tr', q, _, hrun.bind.append hnotify, hq⟩, rfl, rfl, rfl⟩

/-- **A sequence of all the statements of some events is a pass over them.** -/
theorem Processed.of_executes {events : List RpcEvent}
    (h : Executes (writesOf crates events) db db') : Processed crates events db db' := by
  suffices hall : ∀ n, ∃ m tr, Runs Env.calm.handler (runPage crates events n) ⟨db, ()⟩ tr
      (.done m) ⟨db', ()⟩ from hall 0
  induction events generalizing db with
  | nil =>
    cases h
    exact fun n => ⟨n, [], .refl _ _⟩
  | cons event events ih =>
    intro n
    rcases hcall : event.inSuccessfulContractCall with _ | _
    · rw [writesOf_cons_of_neg hcall] at h
      rw [runPage, hcall]
      exact ih h n
    · rw [writesOf_cons_of_pos hcall] at h
      obtain ⟨db₁, hhead, hrest⟩ := h.append_inv
      obtain ⟨⟨event, w, seg, q, w₁, hrun, hq⟩, rfl, rfl, rfl⟩ := exists_runEvent hhead
      obtain ⟨m, tr, hpage⟩ := ih hrest (n + 1)
      rw [runPage_cons hcall]
      refine ⟨m, seg ++ tr, hrun.attempt.bind.append ?_⟩
      rcases q with u | err | ⟨op, k⟩
      · exact hpage
      · exact hpage
      · exact hq.elim

end Runs

end ConcordBackend
