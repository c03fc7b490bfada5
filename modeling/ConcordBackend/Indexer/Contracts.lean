import ConcordBackend.Indexer.Isolation
import Mathlib.Data.List.Forall2

/-!
# Contracts over one database

A service that is started again for another contract goes on with the tables it finds. Rows
are keyed by the escrow id alone, so contracts whose escrows have different ids do not meet,
and contracts that use the same id work on the same rows: the first creation processed decides
for good the columns that only an insertion sets (`View.Extends`), a later one only sets the
statuses.
-/

namespace ConcordBackend

variable {crates : Crates}

/-! ### Columns that only an insertion sets -/

/-- The same row up to the columns that later writes of an escrow row set. -/
def EscrowRow.Keeps (r r' : EscrowRow) : Prop :=
  r' = { r with
    status := r'.status, updatedAt := r'.updatedAt, updatedLedger := r'.updatedLedger }

/-- The same row up to the columns that later writes of a milestone row set. -/
def MilestoneRow.KeepsTerms (r r' : MilestoneRow) : Prop :=
  r' = { r with
    status := r'.status, updatedAt := r'.updatedAt, submittedAt := r'.submittedAt,
    evidenceUri := r'.evidenceUri, evidenceHash := r'.evidenceHash,
    releasedVia := r'.releasedVia }

/-- The same row up to the columns that later writes of a dispute row set. -/
def DisputeRow.KeepsClaim (r r' : DisputeRow) : Prop :=
  r' = { r with
    status := r'.status, resolutionKind := r'.resolutionKind,
    resolutionProviderBps := r'.resolutionProviderBps, resolvedAt := r'.resolvedAt }

/-- `v'` has every row of `v`, with the columns that only its insertion sets. -/
structure View.Extends (v v' : View) : Prop where
  escrow : ∀ e, ∀ r ∈ v.escrow e, ∃ r' ∈ v'.escrow e, r.Keeps r'
  milestone : ∀ k, ∀ r ∈ v.milestone k, ∃ r' ∈ v'.milestone k, r.KeepsTerms r'
  dispute : ∀ k, ∀ r ∈ v.dispute k, ∃ r' ∈ v'.dispute k, r.KeepsClaim r'

theorem EscrowRow.Keeps.trans {r r' r'' : EscrowRow} (h : r.Keeps r') (h' : r'.Keeps r'') :
    r.Keeps r'' := by
  rw [Keeps, h', h]

theorem MilestoneRow.KeepsTerms.trans {r r' r'' : MilestoneRow} (h : r.KeepsTerms r')
    (h' : r'.KeepsTerms r'') : r.KeepsTerms r'' := by
  rw [KeepsTerms, h', h]

theorem DisputeRow.KeepsClaim.trans {r r' r'' : DisputeRow} (h : r.KeepsClaim r')
    (h' : r'.KeepsClaim r'') : r.KeepsClaim r'' := by
  rw [KeepsClaim, h', h]

namespace View

variable {v v' v'' : View}

theorem Extends.refl (v : View) : v.Extends v :=
  ⟨fun _ r hr => ⟨r, hr, rfl⟩, fun _ r hr => ⟨r, hr, rfl⟩, fun _ r hr => ⟨r, hr, rfl⟩⟩

theorem Extends.trans (h : v.Extends v') (h' : v'.Extends v'') : v.Extends v'' := by
  constructor
  · intro e r hr
    obtain ⟨r', hr', hkeeps⟩ := h.escrow e r hr
    obtain ⟨r'', hr'', hkeeps'⟩ := h'.escrow e r' hr'
    exact ⟨r'', hr'', hkeeps.trans hkeeps'⟩
  · intro k r hr
    obtain ⟨r', hr', hkeeps⟩ := h.milestone k r hr
    obtain ⟨r'', hr'', hkeeps'⟩ := h'.milestone k r' hr'
    exact ⟨r'', hr'', hkeeps.trans hkeeps'⟩
  · intro k r hr
    obtain ⟨r', hr', hkeeps⟩ := h.dispute k r hr
    obtain ⟨r'', hr'', hkeeps'⟩ := h'.dispute k r' hr'
    exact ⟨r'', hr'', hkeeps.trans hkeeps'⟩

private theorem keeps_onEscrow (w : Write) (e : Int64) (r : EscrowRow) :
    ∃ r' ∈ w.onEscrow e (some r), r.Keeps r' := by
  have hoffer : ∀ status ledger, r.Keeps (r.offer status ledger) := by
    intro status ledger
    unfold EscrowRow.offer
    split <;> rfl
  cases w with
  | upsertEscrow a =>
    by_cases he : a.id = e
    · exact ⟨_, by simp [Write.onEscrow, he], hoffer a.status a.ledger⟩
    · exact ⟨r, by simp [Write.onEscrow, he], rfl⟩
  | setEscrowStatus id status ledger =>
    by_cases he : id = e
    · exact ⟨_, by simp [Write.onEscrow, he], hoffer status ledger⟩
    · exact ⟨r, by simp [Write.onEscrow, he], rfl⟩
  | _ => exact ⟨r, rfl, rfl⟩

theorem keeps_onMilestone (w : Write) (k : MilestoneKey) (r : MilestoneRow) :
    ∃ r' ∈ w.onMilestone k (some r), r.KeepsTerms r' := by
  cases w with
  | upsertMilestone a =>
    by_cases hk : (a.escrowId, a.milestoneId) = k
    · exact ⟨r.setStatus a.status 0, by simp [Write.onMilestone, hk], rfl⟩
    · exact ⟨r, by simp [Write.onMilestone, hk], rfl⟩
  | setMilestoneStatus e m status =>
    by_cases hk : (e, m) = k
    · exact ⟨r.setStatus status 0, by simp [Write.onMilestone, hk], rfl⟩
    · exact ⟨r, by simp [Write.onMilestone, hk], rfl⟩
  | markMilestoneSubmitted e m uri hash submittedAt =>
    by_cases hk : (e, m) = k
    · exact ⟨r.markSubmitted uri hash submittedAt 0, by simp [Write.onMilestone, hk], rfl⟩
    · exact ⟨r, by simp [Write.onMilestone, hk], rfl⟩
  | releaseMilestone e m via =>
    by_cases hk : (e, m) = k
    · exact ⟨r.release via 0, by simp [Write.onMilestone, hk], rfl⟩
    · exact ⟨r, by simp [Write.onMilestone, hk], rfl⟩
  | _ => exact ⟨r, rfl, rfl⟩

/-- Only an `upsert_milestone` inserts a milestone. -/
theorem upsert_of_onMilestone_none {w : Write} {k : MilestoneKey} {r : MilestoneRow}
    (h : w.onMilestone k none = some r) :
    ∃ a, w = .upsertMilestone a ∧ (a.escrowId, a.milestoneId) = k ∧ r = a.row 0 := by
  cases w with
  | upsertMilestone a =>
    by_cases ha : (a.escrowId, a.milestoneId) = k
    · rw [Write.onMilestone, if_pos ha] at h
      exact ⟨a, rfl, ha, (Option.some.inj h).symm⟩
    · rw [Write.onMilestone, if_neg ha] at h
      cases h
  | upsertEscrow a => cases h
  | setEscrowStatus id status ledger => cases h
  | insertDispute e m raisedBy reason => cases h
  | resolveDispute e m kind bps => cases h
  | _ => simp [Write.onMilestone] at h

private theorem keeps_onDispute (w : Write) (k : MilestoneKey) (r : DisputeRow) :
    ∃ r' ∈ w.onDispute k (some r), r.KeepsClaim r' := by
  cases w with
  | insertDispute e m raisedBy reason =>
    exact ⟨r, by simp [Write.onDispute], rfl⟩
  | resolveDispute e m kind bps =>
    by_cases hk : (e, m) = k
    · exact ⟨r.resolve kind bps 0, by simp [Write.onDispute, hk], rfl⟩
    · exact ⟨r, by simp [Write.onDispute, hk], rfl⟩
  | _ => exact ⟨r, rfl, rfl⟩

/-- No write removes a row or changes the columns that only an insertion sets. -/
theorem extends_apply (w : Write) (v : View) : v.Extends (v.apply w) := by
  constructor
  · intro e r hr
    have hrow : (v.apply w).escrow e = w.onEscrow e (some r) := congrArg (fun o => w.onEscrow e o) hr
    rw [hrow]
    exact keeps_onEscrow w e r
  · intro k r hr
    have hrow : (v.apply w).milestone k = w.onMilestone k (some r) := congrArg (fun o => w.onMilestone k o) hr
    rw [hrow]
    exact keeps_onMilestone w k r
  · intro k r hr
    have hrow : (v.apply w).dispute k = w.onDispute k (some r) := congrArg (fun o => w.onDispute k o) hr
    rw [hrow]
    exact keeps_onDispute w k r

theorem extends_run (ws : List Write) (v : View) : v.Extends (run ws v) :=
  Replay.run_invariant View.apply (I := v.Extends)
    (fun w _ v' hv' => hv'.trans (extends_apply w v')) (.refl v)

end View

/-! ### Creations -/

/-- The row of a milestone that an `escrow_created` lists, as it is inserted. -/
def DecodedMilestone.row (e : Int64) (m : DecodedMilestone) : MilestoneRow where
  escrowId := e
  milestoneId := m.id.toInt32
  description := m.description
  amount := m.amount
  status := "pending"
  updatedAt := 0
  deadline := (unixSecondsToDatetime m.deadline).toOption
  submittedAt := none
  evidenceUri := none
  evidenceHash := none
  releasedVia := none

/-- The statement of a listed milestone inserts its row, and resets the status of a row that is
already there. -/
private theorem onMilestone_milestoneWrite {e : Int64} {m : DecodedMilestone} {w : Write}
    (hw : milestoneWrite e m = .ok w) (k : Int32) (o : Option MilestoneRow) :
    w.onMilestone (e, k) o = if m.id.toInt32 = k then
      some (o.elim (m.row e) (MilestoneRow.setStatus "pending" 0)) else o := by
  obtain ⟨deadline, hd, rfl⟩ := milestoneWrite_eq hw
  have hrow : ∀ a : UpsertMilestone, (Write.upsertMilestone a).onMilestone (e, k) o =
      if (a.escrowId, a.milestoneId) = (e, k) then
        some (o.elim (a.row 0) (MilestoneRow.setStatus a.status 0)) else o := fun a => rfl
  rw [hrow]
  by_cases hk : m.id.toInt32 = k
  · rw [if_pos hk, if_pos (by rw [hk])]
    rcases o with _ | r
    · simp only [Option.elim_none, DecodedMilestone.row, hd]
      rfl
    · rfl
  · rw [if_neg hk, if_neg fun heq => hk (Prod.mk.inj heq).2]

/-- The milestones of a creation, on tables without rows of the escrow: the row of each id is that
of the first entry that lists it. -/
theorem milestone_run_of_forall₂ {e : Int64} {ms : List DecodedMilestone} {ws : List Write}
    (h : List.Forall₂ (fun m w => milestoneWrite e m = .ok w) ms ws) (k : Int32) (v : View) :
    (∀ r, v.milestone (e, k) = some r → r.setStatus "pending" 0 = r →
      (View.run ws v).milestone (e, k) = some r) ∧
    (v.milestone (e, k) = none → (View.run ws v).milestone (e, k) =
      (ms.find? fun m => m.id.toInt32 = k).map (DecodedMilestone.row e)) := by
  induction h generalizing v with
  | nil => exact ⟨fun r hr _ => hr, id⟩
  | @cons m w ms ws hw _ ih =>
    have hstep : (v.apply w).milestone (e, k) = w.onMilestone (e, k) (v.milestone (e, k)) := rfl
    rw [onMilestone_milestoneWrite hw] at hstep
    constructor
    · intro r hr hpending
      refine (ih (v.apply w)).1 r ?_ hpending
      rw [hstep, hr, Option.elim_some, hpending]
      split <;> rfl
    · intro hnone
      rw [hnone, Option.elim_none] at hstep
      by_cases hk : m.id.toInt32 = k
      · rw [if_pos hk] at hstep
        rw [List.find?_cons_of_pos (by simpa using hk)]
        exact (ih (v.apply w)).1 _ hstep rfl
      · rw [if_neg hk] at hstep
        rw [List.find?_cons_of_neg (by simpa using hk)]
        exact (ih (v.apply w)).2 hstep

/-- The milestones of a creation leave the escrow row alone. -/
private theorem escrow_run_of_forall₂ {e e' : Int64} {ms : List DecodedMilestone}
    {ws : List Write} (h : List.Forall₂ (fun m w => milestoneWrite e m = .ok w) ms ws)
    (v : View) : (View.run ws v).escrow e' = v.escrow e' := by
  induction h generalizing v with
  | nil => rfl
  | cons hw _ ih =>
    obtain ⟨deadline, -, rfl⟩ := milestoneWrite_eq hw
    rw [View.run_cons, ih]
    rfl

/-- An escrow without a row has no milestones and disputes either. -/
theorem Db.lacks_of_escrow (db : Db) {e : Int64} (h : db.view.escrow e = none) :
    db.view.Lacks e := by
  have hfind : db.escrows.find? e = none := Option.map_eq_none_iff.mp h
  refine ⟨h, fun m => ?_, fun m => ?_⟩
  · refine Option.map_eq_none_iff.mpr (Option.eq_none_iff_forall_not_mem.mpr fun r hr => ?_)
    have hkey : r.escrowId = e := congrArg Prod.fst (Table.key_of_find? hr)
    have hfk := db.milestones_fk r (Table.mem_of_find? hr)
    rw [hkey, hfind] at hfk
    cases hfk
  · refine Option.map_eq_none_iff.mpr (Option.eq_none_iff_forall_not_mem.mpr fun r hr => ?_)
    have hkey : r.escrowId = e := congrArg Prod.fst (Table.key_of_find? hr)
    have hfk := db.disputes_fk r (Table.mem_of_find? hr)
    rw [hkey, hfind] at hfk
    cases hfk

variable {E : Env}

/-- **One creation.** An `escrow_created` that is processed without an error inserts the rows it
lists where the escrow is new. -/
theorem EventRun.created (r : EventRun E crates) {head : EventHead}
    (hhead : decodeHead crates r.event = .ok head) (hname : head.name = "escrow_created")
    (hdone : r.rest = .done ()) :
    ∃ a ms, createdEscrow crates r.event head.escrowId.toInt64 r.event.ledgerI64 head.data = .ok a ∧
      milestonesOf head.data = .ok ms ∧
      (r.before.db.view.escrow head.escrowId.toInt64 = none →
        r.after.db.view.escrow head.escrowId.toInt64 = some (a.row 0) ∧
          ∀ k, r.after.db.view.milestone (head.escrowId.toInt64, k) =
            (ms.find? fun m => m.id.toInt32 = k).map
              (DecodedMilestone.row head.escrowId.toInt64)) := by
  obtain ⟨o, hout, hall⟩ := r.executed_of_done hdone
  obtain ⟨head', b, hhead', hd, -⟩ := exists_dispatched_of_ok hout
  obtain rfl := Except.ok.inj (hhead'.symm.trans hhead)
  obtain ⟨a, ms, ws, ha, hms, hws, hforall⟩ := hd.created_inv hname rfl
  refine ⟨a, ms, ha, hms, fun hnone => ?_⟩
  have hid := (createdFrom_of_createdEscrow ha).id
  have hview := view_of_runs r.runs
  rw [hall, hws, View.run_cons] at hview
  rw [hview, escrow_run_of_forall₂ hforall]
  constructor
  · change Write.onEscrow _ (r.before.db.view.escrow _) (.upsertEscrow a) = _
    rw [hnone, Write.onEscrow, if_pos hid]
    rfl
  · intro k
    exact (milestone_run_of_forall₂ hforall k _).2 ((r.before.db.lacks_of_escrow hnone).milestone k)

/-- Polls one after the other, each for the contract the service was started with; each may be
cut off anywhere. -/
inductive Redeployed (E : Env) (crates : Crates) :
    World E → List (String × Service.Trace) → World E → Prop where
  | nil (w : World E) : Redeployed E crates w [] w
  | snoc {w w₁ w₂ : World E} {polls : List (String × Service.Trace)} {contractId : String}
      {tr : Service.Trace} {q : ServiceM Nat} (h : Redeployed E crates w polls w₁)
      (hrun : Runs E.handler (pollOnce crates contractId) w₁ tr q w₂) :
      Redeployed E crates w (polls ++ [(contractId, tr)]) w₂

/-- No run loses a row, or changes a column that only an insertion sets. -/
theorem Redeployed.extends (h : Redeployed E crates w polls w') :
    w.db.view.Extends w'.db.view := by
  induction h with
  | nil => exact .refl _
  | snoc _ hrun ih =>
    rw [view_of_runs hrun]
    exact ih.trans (View.extends_run _ _)

/-- A run that is served no event about an escrow id leaves the rows of the id alone. -/
theorem Redeployed.agreeOn (h : Redeployed E crates w polls w') {e : UInt64}
    (hpages : ∀ poll ∈ polls, ∀ page ∈ pages poll.2, ∀ event ∈ page.2.events,
      about crates e event = false) : w'.db.view.AgreeOn e.toInt64 w.db.view := by
  induction h with
  | nil => exact .refl _
  | snoc _ hrun ih =>
    refine .trans ?_ (ih fun poll hpoll => hpages poll (List.mem_append_left _ hpoll))
    rw [view_of_runs hrun]
    refine View.agreeOn_run (fun wr hwr heq => ?_) _
    -- a statement about the id was sent for an event about it
    obtain ⟨page, hpage, event, hev, hmem⟩ := (pollOnce_inv hrun).executed_mem hwr
    obtain ⟨e', he', hwre⟩ := escrowId_of_about hmem
    obtain rfl := toInt64_inj (hwre.symm.trans heq)
    have hnot := hpages _ (List.mem_append_right _ (List.mem_singleton_self _)) page hpage
      event hev
    simp [about, he'] at hnot

/-- **Contracts meet on escrow ids only, and there the first creation wins.** In a run of the
service for whatever contracts: no row is lost, and the columns that only an insertion sets
never change; the rows of an escrow id change only where an event about that id is served; and
an `escrow_created` that is processed without an error, on tables without the escrow, inserts
the row of its own contract and data, with the milestones it lists. -/
theorem first_creation_wins {w w' : World E} {polls : List (String × Service.Trace)}
    (h : Redeployed E crates w polls w') :
    w.db.view.Extends w'.db.view ∧
      (∀ e : UInt64, (∀ poll ∈ polls, ∀ page ∈ pages poll.2, ∀ event ∈ page.2.events,
          about crates e event = false) → w'.db.view.AgreeOn e.toInt64 w.db.view) ∧
      ∀ r : EventRun E crates, r.before = w' → ∀ head, decodeHead crates r.event = .ok head →
        head.name = "escrow_created" → r.rest = .done () →
        (r.before.db.view.escrow head.escrowId.toInt64 = none →
          ∃ a ms, CreatedFrom crates r.event head.escrowId.toInt64 r.event.ledgerI64 head.data a ∧
            milestonesOf head.data = .ok ms ∧
            r.after.db.view.escrow head.escrowId.toInt64 = some (a.row 0) ∧
            ∀ k, r.after.db.view.milestone (head.escrowId.toInt64, k) =
              (ms.find? fun m => m.id.toInt32 = k).map
                (DecodedMilestone.row head.escrowId.toInt64)) ∧
        ∀ row ∈ r.before.db.view.escrow head.escrowId.toInt64,
          ∃ row' ∈ r.after.db.view.escrow head.escrowId.toInt64, row.Keeps row' := by
  refine ⟨h.extends, fun e hpages => h.agreeOn hpages, ?_⟩
  rintro r rfl head hhead hname hdone
  constructor
  · intro hnone
    obtain ⟨a, ms, ha, hms, hrows⟩ := r.created hhead hname hdone
    exact ⟨a, ms, createdFrom_of_createdEscrow ha, hms, hrows hnone⟩
  · intro row hrow
    have hext := View.extends_run (executed r.trace) r.before.db.view
    rw [← view_of_runs r.runs] at hext
    exact hext.escrow _ row hrow

/-! ### Two contracts with an escrow of the same id -/

/-- A provider that serves any page, in a world without faults. -/
def openEnv : Env where
  Rpc := Unit
  faulty := fun _ => False
  latest := fun _ _ => True
  serves := fun _ _ _ _ => True

/-- Another contract than that of the sample. -/
def otherContract : String := "CACQKBIFAUCQKBIFAUCQKBIFAUCQKBIFAUCQKBIFAUCQKBIFAUCQLC2U"

/-- The sample's creation ends without an error, whatever the tables hold. -/
theorem exists_createdRun (contractId : String) (ledger : UInt32) (w : World openEnv) :
    ∃ r : EventRun openEnv sampleCrates, r.event = createdEvent contractId ledger ∧
      r.before = w ∧ r.rest = .done () ∧ r.after.db.view =
        View.run [.upsertEscrow (sampleEscrow contractId ledger), .upsertMilestone sampleMilestone]
          w.db.view :=
  EventRun.exists_done (fun _ => id)
    (congrArg Script.outcome (processEvent_createdEvent contractId ledger))
    (congrArg Script.writes (processEvent_createdEvent contractId ledger))
    ⟨fun hn => (by cases hn), fun _ => (View.isSome_apply ..).mpr (Or.inr rfl), trivial⟩

/-- The sample's funding, processed at the epoch on tables whose only webhook is `webhook`. -/
theorem runs_fundedEvent {db : Db} {webhook : WebhookRow}
    (hlist : db.listWebhooksForEscrow 1 = [webhook]) :
    Runs openEnv.handler (runEvent sampleCrates (fundedEvent sampleContract 1)) ⟨db, ()⟩
      [⟨.sql (.write (.setEscrowStatus 1 "funded" 1)), .ok ()⟩,
        ⟨.sql (.listWebhooksForEscrow 1), .ok [webhook]⟩, ⟨.utcNow, (0 : DateTime)⟩,
        ⟨.spawnDelivery (deliveryTo sampleCrates 0 (notificationBody 1 "escrow_funded") webhook),
          ()⟩]
      (.done ()) ⟨db.setEscrowStatus 0 1 "funded" 1, ()⟩ := by
  have hwrite : openEnv.handler (.sql (.write (.setEscrowStatus 1 "funded" 1))) ⟨db, ()⟩ (.ok ())
      ⟨db.setEscrowStatus 0 1 "funded" 1, ()⟩ := by
    have hexec : Query.exec 0 db (.write (.setEscrowStatus 1 "funded" 1)) =
      .ok ((), db.setEscrowStatus 0 1 "funded" 1) := rfl
    exact ⟨.ok hexec, rfl⟩
  have hlook : openEnv.handler (.sql (.listWebhooksForEscrow 1))
      ⟨db.setEscrowStatus 0 1 "funded" 1, ()⟩ (.ok [webhook])
      ⟨db.setEscrowStatus 0 1 "funded" 1, ()⟩ := by
    have hexec : Query.exec 0 (db.setEscrowStatus 0 1 "funded" 1) (.listWebhooksForEscrow 1) =
        .ok ([webhook], db.setEscrowStatus 0 1 "funded" 1) :=
      congrArg (fun rows => Except.ok (rows, _)) hlist
    exact ⟨.ok hexec, rfl⟩
  rw [runEvent, processEvent_fundedEvent]
  exact .step hwrite (.step hlook (.step rfl (.step rfl (.refl _ _))))

/-- After a poll of the other contract, which is served one event, escrow 1 is created by the
sample's contract. -/
theorem exists_created_after {event : RpcEvent} {ws : List Write}
    (hws : writesOf sampleCrates [event] = ws) (hready : View.empty.Ready ws) :
    ∃ (tr : Service.Trace) (r : EventRun openEnv sampleCrates),
      Redeployed openEnv sampleCrates ⟨Db.migrated, ()⟩ ([] ++ [(otherContract, tr)]) r.before ∧
      r.event = createdEvent sampleContract 2 ∧
      decodeHead sampleCrates r.event = .ok ⟨"escrow_created", 1, sampleCreated.2⟩ ∧
      r.rest = .done () ∧ r.before.db.view = View.run ws View.empty := by
  let page : GetEventsResult := ⟨[event], 17281, none⟩
  obtain ⟨trPage, n, w₁, hpage⟩ := exists_page sampleCrates page.events
    (⟨Db.migrated, ()⟩ : World openEnv)
  have hreq : RequestFrom openEnv otherContract ⟨Db.migrated, ()⟩
      (getEventsParams otherContract (some (bootstrapLedger 17281)) none pageLimit) :=
    .bootstrap rfl trivial
  have hcursor : nextCursor page = some event.id := rfl
  obtain ⟨tr, w', hrun, -, -, -, hdb⟩ := exists_commit sampleCrates hreq trivial hcursor hpage
  have hview : w'.db.view = View.run ws View.empty := by
    have hsame : w'.db.view = w₁.db.view := by
      rw [hdb]
      rfl
    have hprocess : View.process sampleCrates page.events Db.migrated.view =
        View.run ws View.empty := View.process_of_writesOf hws hready
    rw [hsame, view_of_page hpage (calm_of_runs (fun _ => id) hpage) trivial]
    exact hprocess
  obtain ⟨r, hev, rfl, hdone, -⟩ := exists_createdRun sampleContract 2 w'
  have hhead : decodeHead sampleCrates r.event =
      .ok ⟨"escrow_created", 1, sampleCreated.2⟩ := by
    rw [hev]
    exact decodeHead_createdEvent ..
  exact ⟨tr, r, .snoc (.nil _) hrun, hev, hhead, hdone, hview⟩

/-- The statements of the other contract's creation of escrow 1, which the tables are ready
for. -/
theorem writesOf_otherCreated : writesOf sampleCrates [createdEvent otherContract 1] =
    [.upsertEscrow (sampleEscrow otherContract 1), .upsertMilestone sampleMilestone] := by
  rw [writesOf_cons_of_pos rfl, processEvent_createdEvent]
  rfl

theorem ready_otherCreated : View.empty.Ready
    [.upsertEscrow (sampleEscrow otherContract 1), .upsertMilestone sampleMilestone] :=
  ⟨fun hn => (by cases hn), fun _ => rfl, trivial⟩

/-- Where the other contract has only funded an escrow 1 of which the tables know nothing, the
creation inserts the row of the sample's contract. Where it has created its own escrow 1, that
row stays. -/
theorem first_creation_wins_sample :
    (∃ (tr : Service.Trace) (r : EventRun openEnv sampleCrates),
      Redeployed openEnv sampleCrates ⟨Db.migrated, ()⟩ ([] ++ [(otherContract, tr)]) r.before ∧
      r.event = createdEvent sampleContract 2 ∧
      ∃ row ∈ r.after.db.view.escrow 1, row.contractId = sampleContract) ∧
    ∃ (tr : Service.Trace) (r : EventRun openEnv sampleCrates),
      Redeployed openEnv sampleCrates ⟨Db.migrated, ()⟩ ([] ++ [(otherContract, tr)]) r.before ∧
      r.event = createdEvent sampleContract 2 ∧
      ∃ row ∈ r.after.db.view.escrow 1, row.contractId = otherContract := by
  constructor
  · have hfunded : writesOf sampleCrates [fundedEvent otherContract 1] =
        [.setEscrowStatus 1 "funded" 1] := by
      rw [writesOf_cons_of_pos rfl, processEvent_fundedEvent]
      rfl
    obtain ⟨tr, r, hruns, hev, hhead, hdone, hview⟩ :=
      exists_created_after hfunded ⟨fun hn => (by cases hn), trivial⟩
    have hnone : r.before.db.view.escrow 1 = none := by
      rw [hview]
      rfl
    obtain ⟨a, ms, ha, -, hrow, -⟩ :=
      ((first_creation_wins hruns).2.2 r rfl _ hhead rfl hdone).1 hnone
    refine ⟨tr, r, hruns, hev, a.row 0, hrow, ?_⟩
    have hcontract := ha.contractId
    rw [hev] at hcontract
    exact hcontract
  · obtain ⟨tr, r, hruns, hev, hhead, hdone, hview⟩ :=
      exists_created_after writesOf_otherCreated ready_otherCreated
    have hrow : (sampleEscrow otherContract 1).row 0 ∈ r.before.db.view.escrow 1 := by
      rw [hview]
      rfl
    obtain ⟨row, hmem, hkeeps⟩ :=
      ((first_creation_wins hruns).2.2 r rfl _ hhead rfl hdone).2 _ hrow
    refine ⟨tr, r, hruns, hev, row, hmem, ?_⟩
    rw [hkeeps]
    rfl

/-- Contracts do interfere: where another contract's escrow 1 was created first, the creation of
escrow 1 of the sample's contract leaves the other contract's row. -/
theorem contracts_interfere : ¬ ∀ (E : Env) (crates : Crates) (w w' : World E)
    (polls : List (String × Service.Trace)), w.db = Db.migrated →
    Redeployed E crates w polls w' →
    ∀ r : EventRun E crates, r.before = w' → ∀ head, decodeHead crates r.event = .ok head →
    head.name = "escrow_created" → r.rest = .done () →
    ∃ row ∈ r.after.db.view.escrow head.escrowId.toInt64,
      row.contractId = r.event.contractId := by
  intro hseparate
  -- the other contract's creation is served and committed first
  obtain ⟨tr, r, hruns, hev, hhead, hdone, hview⟩ :=
    exists_created_after writesOf_otherCreated ready_otherCreated
  have hrow : (sampleEscrow otherContract 1).row 0 ∈ r.before.db.view.escrow 1 := by
    rw [hview]
    rfl
  obtain ⟨row, hmem, hcontract⟩ := hseparate openEnv sampleCrates ⟨Db.migrated, ()⟩ r.before _ rfl
    hruns r rfl _ hhead rfl hdone
  -- the row stays that of the other contract
  have hext := View.extends_run (executed r.trace) r.before.db.view
  rw [← view_of_runs r.runs] at hext
  obtain ⟨row', hmem', hkeeps⟩ := hext.escrow 1 _ hrow
  obtain rfl : row' = row := Option.mem_unique hmem' hmem
  rw [hkeeps, hev] at hcontract
  have hne : otherContract ≠ sampleContract := by decide
  exact hne hcontract

end ConcordBackend
