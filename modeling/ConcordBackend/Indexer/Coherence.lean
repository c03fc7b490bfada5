import ConcordBackend.Api.Disputes
import ConcordBackend.Api.Escrows
import ConcordBackend.Indexer.Contracts

/-!
# Rows whose columns belong together

The columns of a row are set by different statements, and the statuses are texts. A row is
coherent where its status is one the API filters by and the columns that go with it are set.
Every statement `process_event` sends keeps the rows coherent on its own
(`View.Coherent.apply`), so the order of the events, their ledgers and where their processing
is cut off do not matter (`coherent_of_indexed`).
-/

namespace ConcordBackend

/-! ### Coherent rows -/

/-- A coherent row of `escrows`. -/
structure EscrowRow.Coherent (r : EscrowRow) : Prop where
  status : (EscrowStatus.fromStr r.status).isSome = true
  metadata : r.metadataUri = none ↔ r.metadataHash = none
  title : r.title ≠ some ""
  metadataUri : r.metadataUri ≠ some ""

/-- A coherent row of `milestones`. -/
structure MilestoneRow.Coherent (r : MilestoneRow) : Prop where
  released : r.status = "released" →
    r.releasedVia = some "approved" ∨ r.releasedVia = some "auto_release"
  submitted : r.status = "submitted" → r.submittedAt ≠ none
  evidence : r.evidenceUri = none ↔ r.evidenceHash = none
  submittedAt : r.evidenceUri ≠ none → r.submittedAt ≠ none
  evidenceUri : r.evidenceUri ≠ some ""

/-- A coherent row of `disputes`. -/
structure DisputeRow.Coherent (r : DisputeRow) : Prop where
  status : (DisputeStatus.fromStr r.status).isSome = true
  kind : r.status = "resolved" ↔ r.resolutionKind ≠ none
  resolvedAt : r.resolutionKind ≠ none ↔ r.resolvedAt ≠ none
  split : r.resolutionProviderBps ≠ none ↔ r.resolutionKind = some "split"

/-- All rows of the three tables are coherent. -/
structure Db.Coherent (db : Db) : Prop where
  escrows : ∀ r ∈ db.escrows.rows, r.Coherent
  milestones : ∀ r ∈ db.milestones.rows, r.Coherent
  disputes : ∀ r ∈ db.disputes.rows, r.Coherent

/-- All rows of a view are coherent. -/
structure View.Coherent (v : View) : Prop where
  escrow : ∀ e, ∀ r ∈ v.escrow e, r.Coherent
  milestone : ∀ k, ∀ r ∈ v.milestone k, r.Coherent
  dispute : ∀ k, ∀ r ∈ v.dispute k, r.Coherent

/-- The clock columns say no more than whether a dispute is resolved. -/
theorem Db.coherent_of_view {db : Db} (h : db.view.Coherent) : db.Coherent where
  escrows r hr := by
    have hrow : r.unclocked.Coherent := h.escrow r.id _
      (congrArg (Option.map EscrowRow.unclocked) (Table.mem_rows_iff.mp hr))
    exact ⟨hrow.status, hrow.metadata, hrow.title, hrow.metadataUri⟩
  milestones r hr := by
    have hrow : r.unclocked.Coherent := h.milestone r.key _
      (congrArg (Option.map MilestoneRow.unclocked) (Table.mem_rows_iff.mp hr))
    exact ⟨hrow.released, hrow.submitted, hrow.evidence, hrow.submittedAt, hrow.evidenceUri⟩
  disputes r hr := by
    have hrow : r.unclocked.Coherent := h.dispute r.key _
      (congrArg (Option.map DisputeRow.unclocked) (Table.mem_rows_iff.mp hr))
    refine ⟨hrow.status, hrow.kind, hrow.resolvedAt.trans ?_, hrow.split⟩
    exact not_congr Option.map_eq_none_iff

/-! ### Coherent statements -/

/-- What a statement has to bring along for the row it writes to stay coherent. -/
def Write.Coherent : Write → Prop
  | .upsertEscrow a => (a.row 0).Coherent
  | .setEscrowStatus _ status _ => (EscrowStatus.fromStr status).isSome = true
  | .upsertMilestone a => a.status ≠ "released" ∧ a.status ≠ "submitted"
  | .setMilestoneStatus _ _ status => status ≠ "released" ∧ status ≠ "submitted"
  | .markMilestoneSubmitted _ _ uri hash _ => (uri = none ↔ hash = none) ∧ uri ≠ some ""
  | .releaseMilestone _ _ via => via = "approved" ∨ via = "auto_release"
  | .insertDispute _ _ _ _ => True
  | .resolveDispute _ _ kind bps => bps ≠ none ↔ kind = "split"

namespace Write

variable {w : Write}

private theorem coherent_offer {r : EscrowRow} {status : String} {ledger : Int64}
    (h : r.Coherent) (hs : (EscrowStatus.fromStr status).isSome = true) :
    (r.offer status ledger).Coherent := by
  unfold EscrowRow.offer
  split
  · exact ⟨hs, h.metadata, h.title, h.metadataUri⟩
  · exact h

theorem Coherent.onEscrow (hw : w.Coherent) {e : Int64} {o : Option EscrowRow}
    (ho : ∀ r ∈ o, r.Coherent) : ∀ r ∈ w.onEscrow e o, r.Coherent := by
  cases w with
  | upsertEscrow a =>
    simp only [Write.onEscrow]
    split
    · intro r hr
      obtain rfl := Option.some.inj hr
      cases o with
      | none => exact hw
      | some r => exact coherent_offer (ho r rfl) hw.status
    · exact ho
  | setEscrowStatus id status ledger =>
    simp only [Write.onEscrow]
    split
    · intro r hr
      obtain ⟨r', hr', rfl⟩ := Option.map_eq_some_iff.mp hr
      exact coherent_offer (ho r' hr') hw
    · exact ho
  | _ => exact ho

/-- A status other than the two that need a companion column. -/
private theorem coherent_setStatus {r : MilestoneRow} {status : String} (h : r.Coherent)
    (hs : status ≠ "released" ∧ status ≠ "submitted") : (r.setStatus status 0).Coherent :=
  ⟨fun hr => absurd hr hs.1, fun hr => absurd hr hs.2, h.evidence, h.submittedAt, h.evidenceUri⟩

theorem Coherent.onMilestone (hw : w.Coherent) {k : MilestoneKey} {o : Option MilestoneRow}
    (ho : ∀ r ∈ o, r.Coherent) : ∀ r ∈ w.onMilestone k o, r.Coherent := by
  have hmap : ∀ {f : MilestoneRow → MilestoneRow}, (∀ r : MilestoneRow, r.Coherent →
      (f r).Coherent) → ∀ r ∈ o.map f, r.Coherent := by
    intro f hf r hr
    obtain ⟨r', hr', rfl⟩ := Option.map_eq_some_iff.mp hr
    exact hf r' (ho r' hr')
  cases w with
  | upsertMilestone a =>
    simp only [Write.onMilestone]
    split
    · intro r hr
      obtain rfl := Option.some.inj hr
      cases o with
      | none =>
        -- a new row has neither of the two statuses, and no companion column
        exact ⟨fun h => absurd h hw.1, fun h => absurd h hw.2, Iff.rfl, fun h => absurd rfl h,
          (Option.some_ne_none _).symm⟩
      | some r => exact coherent_setStatus (ho r rfl) hw
    · exact ho
  | setMilestoneStatus e m status =>
    simp only [Write.onMilestone]
    split
    · exact hmap fun r hr => coherent_setStatus hr hw
    · exact ho
  | markMilestoneSubmitted e m uri hash submittedAt =>
    simp only [Write.onMilestone]
    split
    · exact hmap fun r _ => ⟨fun h => absurd h (by decide : "submitted" ≠ "released"),
        fun _ => Option.some_ne_none _, hw.1, fun _ => Option.some_ne_none _, hw.2⟩
    · exact ho
  | releaseMilestone e m via =>
    simp only [Write.onMilestone]
    split
    · exact hmap fun r hr => ⟨fun _ => hw.imp (congrArg some) (congrArg some),
        fun h => absurd h (by decide : "released" ≠ "submitted"), hr.evidence, hr.submittedAt,
        hr.evidenceUri⟩
    · exact ho
  | _ => exact ho

theorem Coherent.onDispute (hw : w.Coherent) {k : MilestoneKey} {o : Option DisputeRow}
    (ho : ∀ r ∈ o, r.Coherent) : ∀ r ∈ w.onDispute k o, r.Coherent := by
  cases w with
  | insertDispute e m raisedBy reason =>
    simp only [Write.onDispute]
    split
    · intro r hr
      obtain rfl := Option.some.inj hr
      cases o with
      | none =>
        refine ⟨rfl, ?_, ?_, ?_⟩
        · exact ⟨fun h => absurd h (by decide : "open" ≠ "resolved"), fun h => absurd rfl h⟩
        · exact ⟨fun h => absurd rfl h, fun h => absurd rfl h⟩
        · exact ⟨fun h => absurd rfl h, fun h => absurd h.symm (Option.some_ne_none _)⟩
      | some r => exact ho r rfl
    · exact ho
  | resolveDispute e m kind bps =>
    simp only [Write.onDispute]
    split
    · intro r hr
      obtain ⟨r', hr', rfl⟩ := Option.map_eq_some_iff.mp hr
      have hset : ∀ s : String, some s ≠ none := Option.some_ne_none
      refine ⟨rfl, ⟨fun _ => hset kind, fun _ => rfl⟩,
        ⟨fun _ => Option.some_ne_none _, fun _ => hset kind⟩, ?_⟩
      exact hw.trans ⟨congrArg some, Option.some.inj⟩
    · exact ho
  | _ => exact ho

end Write

/-- A coherent statement keeps a view coherent. -/
theorem View.Coherent.apply {v : View} (h : v.Coherent) {w : Write} (hw : w.Coherent) :
    (v.apply w).Coherent where
  escrow e := hw.onEscrow (h.escrow e)
  milestone k := hw.onMilestone (h.milestone k)
  dispute k := hw.onDispute (h.dispute k)

/-! ### The statements of an event -/

theorem emptyAsNone_ne (s : String) : emptyAsNone s ≠ some "" := by
  unfold emptyAsNone
  split
  · nofun
  · intro h
    exact absurd (Option.some.inj h) ‹_›

/-- The hash comes with the uri. -/
theorem hashFor_eq_ok {uri hash : Option String} {data : ScVal} {field : String}
    (h : hashFor uri data field = .ok hash) : uri = none ↔ hash = none := by
  cases uri with
  | none =>
    obtain rfl := Except.ok.inj h
    exact Iff.rfl
  | some uri =>
    simp only [hashFor, Except.bind_eq_ok] at h
    obtain ⟨_, -, hash', -, h⟩ := h
    obtain rfl := Except.ok.inj h
    exact ⟨nofun, nofun⟩

/-- Basis points come with a split. -/
theorem decodeResolution_eq_ok {val : ScVal} {kind : String} {bps : Option Int32}
    (h : decodeResolution val = .ok (kind, bps)) : bps ≠ none ↔ kind = "split" := by
  unfold decodeResolution at h
  split at h
  · cases h
  · split at h
    · obtain ⟨rfl, rfl⟩ := Prod.mk.inj (Except.ok.inj h)
      exact ⟨fun h => absurd rfl h, fun h => absurd h (by decide)⟩
    · obtain ⟨rfl, rfl⟩ := Prod.mk.inj (Except.ok.inj h)
      exact ⟨fun h => absurd rfl h, fun h => absurd h (by decide)⟩
    · split at h
      · cases h
      · obtain ⟨bps', -, h⟩ := Except.bind_eq_ok.mp h
        obtain ⟨rfl, rfl⟩ := Prod.mk.inj (Except.ok.inj h)
        exact ⟨fun _ => rfl, fun _ => nofun⟩
    · cases h
  · cases h
  · cases h

/-- The creation of an escrow inserts a coherent row. -/
private theorem coherent_createdEscrow {crates : Crates} {event : RpcEvent} {e ledger : Int64}
    {data : ScVal} {a : UpsertEscrow} (h : createdEscrow crates event e ledger data = .ok a) :
    (Write.upsertEscrow a).Coherent := by
  have hvalues := createdValues_of_createdEscrow h
  obtain ⟨title, -, htitle⟩ := hvalues.title
  obtain ⟨uri, -, huri⟩ := hvalues.metadataUri
  refine ⟨?_, hashFor_eq_ok hvalues.metadataHash, ?_, ?_⟩
  · change (EscrowStatus.fromStr a.status).isSome = true
    rw [(createdFrom_of_createdEscrow h).status]
    rfl
  · exact fun h => emptyAsNone_ne title (htitle.symm.trans h)
  · exact fun h => emptyAsNone_ne uri (huri.symm.trans h)

/-- Every statement of a dispatch is coherent. -/
theorem Dispatched.coherent {crates : Crates} {event : RpcEvent} {e ledger : Int64}
    {data : ScVal} {name : String} {ws : List Write} {r : Except Error Bool}
    (h : Dispatched crates event e ledger data name ws r) : ∀ w ∈ ws, w.Coherent := by
  intro w hw
  cases h with
  | unrecognized => cases hw
  | undecoded => cases hw
  | status hstatus =>
    obtain rfl := List.mem_singleton.mp hw
    unfold statusOf at hstatus
    split at hstatus
    all_goals cases hstatus
    all_goals rfl
  | submitted hm hev =>
    obtain ⟨⟨text, -, huri⟩, hhash⟩ := submittedEvidence_eq_ok hev
    rcases List.mem_cons.mp hw with rfl | hw
    · rfl
    · obtain rfl := List.mem_singleton.mp hw
      exact ⟨hashFor_eq_ok hhash, fun h => emptyAsNone_ne text (huri.symm.trans h)⟩
  | released hvia hm =>
    obtain rfl := List.mem_singleton.mp hw
    unfold viaOf at hvia
    split at hvia
    · exact Or.inl (Option.some.inj hvia).symm
    · exact Or.inr (Option.some.inj hvia).symm
    · cases hvia
  | expired hm =>
    obtain rfl := List.mem_singleton.mp hw
    exact ⟨by decide, by decide⟩
  | raised hm hby hreason =>
    rcases List.mem_cons.mp hw with rfl | hw
    · exact ⟨by decide, by decide⟩
    · obtain rfl := List.mem_singleton.mp hw
      trivial
  | resolved hm hres =>
    rcases List.mem_cons.mp hw with rfl | hw
    · exact ⟨by decide, by decide⟩
    · obtain rfl := List.mem_singleton.mp hw
      obtain ⟨val, -, hval⟩ := Except.bind_eq_ok.mp hres
      exact decodeResolution_eq_ok hval
  | createdOnly ha hms =>
    obtain rfl := List.mem_singleton.mp hw
    exact coherent_createdEscrow ha
  | created ha hms hloop =>
    rcases List.mem_cons.mp hw with rfl | hw
    · exact coherent_createdEscrow ha
    · obtain ⟨m, -, hm⟩ := hloop.mem hw
      obtain ⟨deadline, -, rfl⟩ := milestoneWrite_eq hm
      exact ⟨(by decide : "pending" ≠ "released"), (by decide : "pending" ≠ "submitted")⟩

/-- Every statement of an event is coherent. -/
theorem processEvent_coherent (crates : Crates) (event : RpcEvent) :
    ∀ w ∈ (processEvent crates event).writes, w.Coherent := by
  intro w hw
  obtain ⟨head, r, -, hd⟩ := exists_dispatched_of_mem hw
  exact hd.coherent w hw

/-! ### Every reachable state -/

/-- The states reached from the migrated database by processing events, whatever they are and
wherever the processing of each is cut off. -/
inductive Indexed (E : Env) (crates : Crates) : World E → Prop where
  | start (rpc : E.Rpc) : Indexed E crates ⟨Db.migrated, rpc⟩
  | event {w w' : World E} {event : RpcEvent} {tr : Service.Trace} {q : ServiceM Unit}
      (h : Indexed E crates w) (hrun : Runs E.handler (runEvent crates event) w tr q w') :
      Indexed E crates w'

/-- What every statement of every event preserves holds of every reachable view. -/
theorem Indexed.invariant {E : Env} {crates : Crates} {w : World E} (h : Indexed E crates w)
    {I : View → Prop} (hstart : I .empty)
    (hstep : ∀ event, ∀ wr ∈ (processEvent crates event).writes, ∀ v, I v → I (v.apply wr)) :
    I w.db.view := by
  induction h with
  | start rpc => exact hstart
  | @event w w' event tr q _ hrun ih =>
    rw [view_of_runs hrun]
    have hmem := (executed_of_runEvent_isPrefix hrun).subset
    exact Replay.run_invariant View.apply (fun wr hwr v hv => hstep event wr (hmem hwr) v hv) ih

/-- The request for the escrows with a status. -/
def escrowsWith (status : EscrowStatus) : ListEscrowsQuery :=
  ⟨none, none, some status.asStr, none, none⟩

/-- A coherent escrow is returned by exactly one status filter. -/
theorem EscrowRow.Coherent.existsUnique {r : EscrowRow} (h : r.Coherent) :
    ∃! status : EscrowStatus, ∃ filter, escrowFilter (escrowsWith status) = .ok filter ∧
      filter.selects r = true := by
  have hfilter : ∀ status : EscrowStatus, ∃ filter,
      escrowFilter (escrowsWith status) = .ok filter := by
    intro status
    have hstatus : escrowStatus (escrowsWith status) = .ok (some status.asStr) := by
      simp [escrowStatus, escrowsWith, EscrowStatus.fromStr_asStr]
    exact ⟨_, Except.bind_eq_ok.mpr ⟨_, hstatus, rfl⟩⟩
  obtain ⟨status, hstatus⟩ := Option.isSome_iff_exists.mp h.status
  refine ⟨status, ?_, ?_⟩
  · obtain ⟨filter, hf⟩ := hfilter status
    refine ⟨filter, hf, (selects_iff hf r).mpr ⟨nofun, nofun, ?_⟩⟩
    intro s hs
    obtain rfl := Option.some.inj hs
    exact (EscrowStatus.asStr_of_fromStr hstatus).symm
  · rintro status' ⟨filter, hf, hselects⟩
    have heq := ((selects_iff hf r).mp hselects).status _ rfl
    rw [heq, EscrowStatus.fromStr_asStr] at hstatus
    exact Option.some.inj hstatus

/-- A status that parses is printed back. -/
theorem DisputeStatus.asStr_of_fromStr {s : String} {status : DisputeStatus}
    (h : fromStr s = some status) : status.asStr = s := by
  unfold fromStr at h
  split at h
  all_goals first | cases h; rfl | cases h

/-- The request for the disputes with a status. -/
def disputesWith (status : DisputeStatus) : ListDisputesQuery := ⟨some status.asStr, none, none⟩

/-- A coherent dispute is returned by exactly one status filter. -/
theorem DisputeRow.Coherent.existsUnique {db : Db} {r : DisputeRow}
    (hr : r ∈ db.disputes.rows) (h : r.Coherent) :
    ∃! status : DisputeStatus, ∃ filter, disputeStatus (disputesWith status) = .ok filter ∧
      r ∈ db.disputesBy filter := by
  have hfilter : ∀ status : DisputeStatus,
      disputeStatus (disputesWith status) = .ok (some status.asStr) := by
    intro status
    cases status <;> rfl
  have hmem : ∀ status : DisputeStatus,
      r ∈ db.disputesBy (some status.asStr) ↔ r.status = status.asStr := by
    intro status
    rw [Db.disputesBy, List.mem_filter, nullOr_eq_true]
    simp [hr]
  obtain ⟨status, hstatus⟩ := Option.isSome_iff_exists.mp h.status
  refine ⟨status, ⟨_, hfilter status, ?_⟩, ?_⟩
  · exact (hmem status).mpr (DisputeStatus.asStr_of_fromStr hstatus).symm
  · rintro status' ⟨filter, hf, hsel⟩
    obtain rfl := Except.ok.inj ((hfilter status').symm.trans hf)
    rw [(hmem status').mp hsel, DisputeStatus.fromStr_asStr] at hstatus
    exact Option.some.inj hstatus

/-- **Rows are coherent in every reachable state**, and each escrow and each dispute is returned
by exactly one of the status filters of the list endpoints. -/
theorem coherent_of_indexed {E : Env} {crates : Crates} {w : World E}
    (h : Indexed E crates w) : w.db.Coherent ∧
      (∀ r ∈ w.db.escrows.rows, ∃! status : EscrowStatus,
        ∃ filter, escrowFilter (escrowsWith status) = .ok filter ∧ filter.selects r = true) ∧
      (∀ r ∈ w.db.disputes.rows, ∃! status : DisputeStatus,
        ∃ filter, disputeStatus (disputesWith status) = .ok filter ∧ r ∈ w.db.disputesBy filter) := by
  have hview : w.db.view.Coherent := by
    refine h.invariant ⟨fun _ _ hr => (by cases hr), fun _ _ hr => (by cases hr),
      fun _ _ hr => (by cases hr)⟩ fun event wr hwr v hv => ?_
    exact hv.apply (processEvent_coherent crates event wr hwr)
  have hdb := Db.coherent_of_view hview
  refine ⟨hdb, fun r hr => (hdb.escrows r hr).existsUnique, fun r hr => ?_⟩
  exact DisputeRow.Coherent.existsUnique hr (hdb.disputes r hr)

/-! ### A sample run -/

/-- Events that decode, and whose statements meet no missing escrow, can be processed one after
the other. -/
theorem Indexed.exists_run {E : Env} {crates : Crates} (hcalm : ∀ wr, ¬ E.faulty (.write wr))
    {w : World E} (h : Indexed E crates w) {events : List RpcEvent}
    (hdec : ∀ event ∈ events, ∃ o, (processEvent crates event).outcome = .ok o)
    {ws : List Write} (hws : (events.flatMap fun event => (processEvent crates event).writes) = ws)
    (hready : w.db.view.Ready ws) :
    ∃ w', Indexed E crates w' ∧ w'.db.view = View.run ws w.db.view := by
  subst hws
  induction events generalizing w with
  | nil => exact ⟨w, h, rfl⟩
  | cons event events ih =>
    rw [List.flatMap_cons, View.ready_append] at hready
    obtain ⟨o, hout⟩ := hdec event List.mem_cons_self
    obtain ⟨r, rfl, rfl, -, hview⟩ := EventRun.exists_done hcalm hout rfl hready.1
    obtain ⟨w', hindexed, hrun⟩ := ih (.event h r.runs)
      (fun event' hev => hdec event' (List.mem_cons_of_mem _ hev)) (hview ▸ hready.2)
    refine ⟨w', hindexed, ?_⟩
    rw [hrun, hview, List.flatMap_cons, View.run_append]

/-- The sample's creation, a submission of its milestone with evidence, its release, and a
dispute about it with its resolution. -/
def disputedLog : List RpcEvent :=
  [createdEvent sampleContract 1, submittedEvent sampleContract 2, approvedEvent sampleContract 3,
    raisedEvent sampleContract 4, resolvedEvent sampleContract 5]

/-- The statements of the sample. -/
theorem writes_disputedLog :
    (disputedLog.flatMap fun event => (processEvent sampleCrates event).writes) =
      [.upsertEscrow (sampleEscrow sampleContract 1), .upsertMilestone sampleMilestone,
        .setEscrowStatus 1 "in_progress" 2,
        .markMilestoneSubmitted 1 0 (some "e") (some (hexEncode (.replicate 32 7)))
          (.ofSeconds 1000),
        .releaseMilestone 1 0 "approved", .setMilestoneStatus 1 0 "disputed",
        .insertDispute 1 0 (sampleEscrow sampleContract 1).client "late",
        .setMilestoneStatus 1 0 "resolved", .resolveDispute 1 0 "split" (some 4000)] := by
  simp only [disputedLog, List.flatMap_cons, List.flatMap_nil, processEvent_createdEvent,
    processEvent_submittedEvent, processEvent_approvedEvent, processEvent_raisedEvent,
    processEvent_resolvedEvent]
  rfl

/-- The rows of the sample are coherent: its milestone was submitted, released and disputed, and
its dispute was resolved by a split. -/
theorem coherent_of_indexed_sample : ∃ w : World openEnv, Indexed openEnv sampleCrates w ∧
    (∃ r ∈ w.db.view.milestone (1, 0), r.status = "resolved" ∧ r.releasedVia = some "approved" ∧
      r.evidenceUri = some "e") ∧
    (∃ r ∈ w.db.view.dispute (1, 0), r.status = "resolved" ∧ r.resolutionProviderBps = some 4000) ∧
    w.db.Coherent ∧
    ∀ r ∈ w.db.disputes.rows, ∃! status : DisputeStatus,
      ∃ filter, disputeStatus (disputesWith status) = .ok filter ∧ r ∈ w.db.disputesBy filter := by
  have hdec : ∀ event ∈ disputedLog, ∃ o, (processEvent sampleCrates event).outcome = .ok o := by
    intro event hev
    simp only [disputedLog, List.mem_cons, List.not_mem_nil, or_false] at hev
    rcases hev with rfl | rfl | rfl | rfl | rfl
    · exact ⟨_, congrArg Script.outcome (processEvent_createdEvent ..)⟩
    · exact ⟨_, congrArg Script.outcome (processEvent_submittedEvent ..)⟩
    · exact ⟨_, congrArg Script.outcome (processEvent_approvedEvent ..)⟩
    · exact ⟨_, congrArg Script.outcome (processEvent_raisedEvent ..)⟩
    · exact ⟨_, congrArg Script.outcome (processEvent_resolvedEvent ..)⟩
  have hsome : ((View.apply (.upsertEscrow (sampleEscrow sampleContract 1)) .empty).escrow
      1).isSome = true := rfl
  have hstart : Indexed openEnv sampleCrates ⟨Db.migrated, ()⟩ := Indexed.start (E := openEnv) ()
  obtain ⟨w, hindexed, hview⟩ := hstart.exists_run (fun _ => id) hdec writes_disputedLog
    ⟨fun hn => (by cases hn), View.ready_of_isSome hsome (by
      simp [Write.escrowId, sampleMilestone])⟩
  obtain ⟨hcoherent, -, hdisputes⟩ := coherent_of_indexed hindexed
  refine ⟨w, hindexed, ?_, ?_, hcoherent, hdisputes⟩
  · rw [hview]
    exact ⟨_, rfl, rfl, rfl, rfl⟩
  · rw [hview]
    exact ⟨_, rfl, rfl, rfl⟩

end ConcordBackend
