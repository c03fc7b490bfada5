import ConcordBackend.Indexer.EventLog
import ConcordBackend.Indexer.Process
import Mathlib.Data.List.Induction

/-!
# Redelivered events and milestones

A page that is processed again after a failed `set_cursor` redelivers events. The writes of
escrow rows compare ledgers and let no older event through; the writes of milestone rows do
not, so a redelivered event takes effect as if it were new.

What an event says about a milestone is a `MilestoneUpdate`, read off its name and data
(`milestoneUpdate?`). The columns of a row that updates set are registers of which the last
writer wins (`state_of_process`), so a redelivery is harmless exactly where the event agrees
with the last writer of each register it sets (`redelivery_harmless_iff`).
-/

namespace ConcordBackend

variable {crates : Crates}

/-! ### The columns events set -/

/-- The evidence columns of a milestone row: uri, hash, and when it was submitted. -/
abbrev Evidence := Option String × Option String × Option DateTime

/-- The columns of a milestone row that events set after its creation. -/
structure MilestoneState where
  status : String
  releasedVia : Option String
  evidence : Evidence
  deriving DecidableEq

/-- The columns of a row that events set. -/
def MilestoneRow.state (r : MilestoneRow) : MilestoneState where
  status := r.status
  releasedVia := r.releasedVia
  evidence := (r.evidenceUri, r.evidenceHash, r.submittedAt)

/-- What an event sets on a milestone: always the status, the way of its release if it releases
it, the evidence if it submits it. An `escrow_created` also inserts the row. -/
@[ext] structure MilestoneUpdate where
  inserts : Bool
  status : String
  via : Option String
  evidence : Option Evidence
  deriving DecidableEq

/-- What an event of a given name and data sets, and on which milestones of its escrow. -/
def updateOf (closedAt : DateTime) (name : String) (data : ScVal) :
    Option (List UInt32 × MilestoneUpdate) :=
  let one := (milestoneIdOf data).toOption.map fun m => [m]
  match name with
  | "escrow_created" =>
    (milestonesOf data).toOption.map fun ms => (ms.map (·.id), ⟨true, "pending", none, none⟩)
  | "milestone_submitted" =>
    one.bind fun ms => (submittedEvidence data).toOption.map fun (uri, hash) =>
      (ms, ⟨false, "submitted", none, some (uri, hash, some closedAt)⟩)
  | "milestone_approved" => one.map fun ms => (ms, ⟨false, "released", some "approved", none⟩)
  | "milestone_auto_released" =>
    one.map fun ms => (ms, ⟨false, "released", some "auto_release", none⟩)
  | "milestone_expired" => one.map fun ms => (ms, ⟨false, "expired", none, none⟩)
  | "dispute_raised" => one.map fun ms => (ms, ⟨false, "disputed", none, none⟩)
  | "dispute_resolved" => one.map fun ms => (ms, ⟨false, "resolved", none, none⟩)
  | _ => none

/-- What an event sets on the milestone `k`, if it is about it. -/
def milestoneUpdate? (crates : Crates) (k : MilestoneKey) (event : RpcEvent) :
    Option MilestoneUpdate :=
  match decodeHead crates event with
  | .ok head => (updateOf event.ledgerClosedAt head.name head.data).bind fun (ms, u) =>
    if k ∈ ms.map fun m => (head.escrowId.toInt64, m.toInt32) then some u else none
  | .error _ => none

/-- The updates of the milestone `k` by the events the loop does not pass over, in order. -/
def updatesOf (crates : Crates) (k : MilestoneKey) (events : List RpcEvent) :
    List MilestoneUpdate :=
  (events.filter RpcEvent.inSuccessfulContractCall).filterMap (milestoneUpdate? crates k)

/-- The state of a row before its first update. -/
def MilestoneState.initial : MilestoneState := ⟨"", none, none, none, none⟩

/-- Set what an update sets. -/
def MilestoneUpdate.apply (u : MilestoneUpdate) (s : MilestoneState) : MilestoneState where
  status := u.status
  releasedVia := u.via.or s.releasedVia
  evidence := u.evidence.getD s.evidence

/-- An update of a row that may not exist. -/
def MilestoneUpdate.write (u : MilestoneUpdate) (o : Option MilestoneState) :
    Option MilestoneState :=
  if u.inserts then some (u.apply (o.getD .initial)) else o.map u.apply

/-! ### Events act on milestones by their updates -/

/-- The state of the milestone `k` in what the tables say. -/
def View.state (k : MilestoneKey) (v : View) : Option MilestoneState :=
  (v.milestone k).map MilestoneRow.state

theorem Db.state_view (db : Db) (k : MilestoneKey) :
    db.view.state k = (db.milestones.find? k).map MilestoneRow.state := by
  rw [View.state, Db.view, Option.map_map]
  rfl

/-- The milestone a write is about, and what it sets on it. -/
def Write.update? : Write → Option (MilestoneKey × MilestoneUpdate)
  | upsertMilestone a => some ((a.escrowId, a.milestoneId), ⟨true, a.status, none, none⟩)
  | setMilestoneStatus e m status => some ((e, m), ⟨false, status, none, none⟩)
  | markMilestoneSubmitted e m uri hash submittedAt =>
    some ((e, m), ⟨false, "submitted", none, some (uri, hash, some submittedAt)⟩)
  | releaseMilestone e m via => some ((e, m), ⟨false, "released", some via, none⟩)
  | _ => none

/-- Without an insertion only a row that exists is updated. -/
theorem MilestoneUpdate.write_none {u : MilestoneUpdate} (h : u.inserts = false) :
    u.write none = none := by
  rw [write, h]
  rfl

/-- An update of a row that exists. -/
@[simp] theorem MilestoneUpdate.write_some (u : MilestoneUpdate) (s : MilestoneState) :
    u.write (some s) = some (u.apply s) := by
  unfold write
  split <;> rfl

@[simp] theorem MilestoneUpdate.apply_apply (u : MilestoneUpdate) (s : MilestoneState) :
    u.apply (u.apply s) = u.apply s := by
  obtain ⟨inserts, status, via, evidence⟩ := u
  cases via <;> cases evidence <;> rfl

/-- An update made twice is an update made once. -/
theorem MilestoneUpdate.write_write (u : MilestoneUpdate) (o : Option MilestoneState) :
    u.write (u.write o) = u.write o := by
  rcases o with _ | s
  · unfold write
    split <;> simp
  · simp

private theorem state_onMilestone (w : Write) (k : MilestoneKey) (o : Option MilestoneRow) :
    (w.onMilestone k o).map MilestoneRow.state =
      (w.update?.filter fun p => p.1 = k).elim (o.map MilestoneRow.state) fun p =>
        p.2.write (o.map MilestoneRow.state) := by
  cases w with
  | upsertMilestone a =>
    by_cases hk : (a.escrowId, a.milestoneId) = k <;> cases o <;>
      simp [Write.onMilestone, Write.update?, Option.filter, hk] <;> rfl
  | setMilestoneStatus e m status =>
    by_cases hk : (e, m) = k <;> cases o <;>
      simp [Write.onMilestone, Write.update?, Option.filter, hk] <;> rfl
  | markMilestoneSubmitted e m uri hash submittedAt =>
    by_cases hk : (e, m) = k <;> cases o <;>
      simp [Write.onMilestone, Write.update?, Option.filter, hk] <;> rfl
  | releaseMilestone e m via =>
    by_cases hk : (e, m) = k <;> cases o <;>
      simp [Write.onMilestone, Write.update?, Option.filter, hk] <;> rfl
  | _ => rfl

/-- **One statement.** A write updates the state of the milestone it is about, and no other. -/
theorem View.state_apply (w : Write) (k : MilestoneKey) (v : View) :
    (v.apply w).state k =
      (w.update?.filter fun p => p.1 = k).elim (v.state k) fun p => p.2.write (v.state k) :=
  state_onMilestone w k (v.milestone k)

/-- Statements that all set the same update the state of each milestone they are about. -/
theorem View.state_run {u : MilestoneUpdate} {ws : List Write}
    (h : ∀ p ∈ ws.filterMap Write.update?, p.2 = u) (k : MilestoneKey) (v : View) :
    (View.run ws v).state k =
      if k ∈ (ws.filterMap Write.update?).map Prod.fst then u.write (v.state k)
      else v.state k := by
  induction ws generalizing v with
  | nil => rfl
  | cons w ws ih =>
    rw [run_cons]
    rcases hw : w.update? with _ | ⟨k', u'⟩
    · rw [List.filterMap_cons_none hw] at h ⊢
      rw [ih h, state_apply, hw]
      rfl
    · rw [List.filterMap_cons_some hw] at h ⊢
      obtain rfl : u' = u := h _ List.mem_cons_self
      rw [ih fun p hp => h p (List.mem_cons_of_mem _ hp), state_apply, hw, List.map_cons]
      by_cases hk : k' = k
      · simp [Option.filter, hk, MilestoneUpdate.write_write]
      · have hmem : ∀ ks : List MilestoneKey, k ∈ ks ↔ k ∈ k' :: ks := fun ks => by
          simp [Ne.symm hk]
        simp only [Option.filter, hk, decide_false]
        exact if_congr (hmem _) rfl rfl

private theorem updateOf_of_not_mem {closedAt : DateTime} {name : String} {data : ScVal}
    (h : name ∉ recognizedNames) : updateOf closedAt name data = none := by
  unfold updateOf
  split
  all_goals first | rfl | exact absurd (by decide) h

private theorem updateOf_of_statusOf {closedAt : DateTime} {name status : String}
    {data : ScVal} (h : statusOf name = some status) : updateOf closedAt name data = none := by
  unfold statusOf at h
  split at h
  on_goal 5 => cases h
  all_goals rfl

/-- An event that sets the same on its one milestone. -/
private theorem updateOf_of_one {closedAt : DateTime} {name : String} {data : ScVal}
    {u : MilestoneUpdate} {m : UInt32}
    (h : updateOf closedAt name data =
      ((milestoneIdOf data).toOption.map fun m => [m]).map fun ms => (ms, u))
    (hm : milestoneIdOf data = .ok m) : updateOf closedAt name data = some ([m], u) := by
  rw [h, hm]
  rfl

private theorem updateOf_of_viaOf {closedAt : DateTime} {name via : String} {data : ScVal}
    {m : UInt32} (h : viaOf name = some via) (hm : milestoneIdOf data = .ok m) :
    updateOf closedAt name data = some ([m], ⟨false, "released", some via, none⟩) := by
  unfold viaOf at h
  split at h
  on_goal 3 => cases h
  all_goals
    obtain rfl := Option.some.inj h
    exact updateOf_of_one rfl hm

private theorem filterMap_update_of_forall₂ {e : Int64} {ms : List DecodedMilestone}
    {ws : List Write} (h : List.Forall₂ (fun m w => milestoneWrite e m = .ok w) ms ws) :
    ws.filterMap Write.update? =
      (ms.map (·.id)).map fun m => ((e, m.toInt32), ⟨true, "pending", none, none⟩) := by
  induction h with
  | nil => rfl
  | cons hw _ ih =>
    obtain ⟨deadline, -, rfl⟩ := milestoneWrite_eq hw
    rw [List.map_cons, List.map_cons, ← ih]
    rfl

/-- The updates of a dispatch that ends without an error are those of its name and data. -/
private theorem updates_of_dispatched {event : RpcEvent} {e ledger : Int64} {data : ScVal}
    {name : String} {ws : List Write} {r : Except Error Bool}
    (h : Dispatched crates event e ledger data name ws r) {b : Bool} (hr : r = .ok b) :
    ws.filterMap Write.update? =
      ((updateOf event.ledgerClosedAt name data).map fun p =>
        p.1.map fun m => ((e, m.toInt32), p.2)).getD [] := by
  cases h with
  | unrecognized hname =>
    rw [updateOf_of_not_mem hname]
    rfl
  | undecoded => cases hr
  | status hs =>
    rw [updateOf_of_statusOf hs]
    rfl
  | @submitted m uri hash hm hev =>
    have hup : updateOf event.ledgerClosedAt "milestone_submitted" data =
        ((milestoneIdOf data).toOption.map fun m => [m]).bind fun ms =>
          (submittedEvidence data).toOption.map fun (uri, hash) =>
            (ms, ⟨false, "submitted", none, some (uri, hash, some event.ledgerClosedAt)⟩) := rfl
    rw [hup, hm, hev]
    rfl
  | released hv hm =>
    rw [updateOf_of_viaOf hv hm]
    rfl
  | expired hm =>
    have hup : updateOf event.ledgerClosedAt "milestone_expired" data =
        some (_, ⟨false, "expired", none, none⟩) := updateOf_of_one rfl hm
    rw [hup]
    rfl
  | raised hm _ _ =>
    have hup : updateOf event.ledgerClosedAt "dispute_raised" data =
        some (_, ⟨false, "disputed", none, none⟩) := updateOf_of_one rfl hm
    rw [hup]
    rfl
  | resolved hm _ =>
    have hup : updateOf event.ledgerClosedAt "dispute_resolved" data =
        some (_, ⟨false, "resolved", none, none⟩) := updateOf_of_one rfl hm
    rw [hup]
    rfl
  | createdOnly => cases hr
  | created ha hms hloop =>
    rename_i r'
    rcases r' with err | u
    · cases hr
    · have hup : updateOf event.ledgerClosedAt "escrow_created" data =
          (milestonesOf data).toOption.map fun ms =>
            (ms.map (·.id), ⟨true, "pending", none, none⟩) := rfl
      rw [hup, hms]
      exact (List.filterMap_cons_none rfl).trans (filterMap_update_of_forall₂ hloop.forall₂)

/-- **One event.** An event that decodes updates the state of each milestone as it says. -/
theorem state_of_event {event : RpcEvent} {r : Option (Int64 × String)}
    (h : (processEvent crates event).outcome = .ok r) (k : MilestoneKey) (v : View) :
    (View.run (processEvent crates event).writes v).state k =
      (milestoneUpdate? crates k event).elim (v.state k) fun u => u.write (v.state k) := by
  obtain ⟨head, b, hhead, hd, -⟩ := exists_dispatched_of_ok h
  have hups := updates_of_dispatched hd rfl
  simp only [milestoneUpdate?, hhead]
  rcases hu : updateOf event.ledgerClosedAt head.name head.data with _ | ⟨ms, u⟩
  · -- no statement of the event updates a milestone
    rw [hu] at hups
    have hall : ∀ p ∈ (processEvent crates event).writes.filterMap Write.update?,
        p.2 = ⟨false, "", none, none⟩ := by
      rw [hups]
      exact fun p hp => (by cases hp)
    rw [View.state_run hall, hups]
    rfl
  · -- all of them carry the one update `u`, to the milestones `ms`
    rw [hu] at hups
    have hall : ∀ p ∈ (processEvent crates event).writes.filterMap Write.update?, p.2 = u := by
      rw [hups]
      intro p hp
      obtain ⟨m, -, rfl⟩ := List.mem_map.mp hp
      rfl
    have hkeys : ((processEvent crates event).writes.filterMap Write.update?).map Prod.fst =
        ms.map fun m => (head.escrowId.toInt64, m.toInt32) := by
      rw [hups]
      exact List.map_map
    rw [View.state_run hall, hkeys, Option.bind_some]
    by_cases hk : k ∈ ms.map fun m => (head.escrowId.toInt64, m.toInt32)
    · rw [if_pos hk, if_pos hk]
      rfl
    · rw [if_neg hk, if_neg hk]
      rfl

/-! ### Registers of which the last writer wins -/

/-- The update agrees with the last writer of every column it sets. -/
structure MilestoneUpdate.UpToDate (u : MilestoneUpdate) (us : List MilestoneUpdate) : Prop where
  status : us.getLast?.map MilestoneUpdate.status = some u.status
  via : ∀ via ∈ u.via, (us.filterMap MilestoneUpdate.via).getLast? = some via
  evidence : ∀ ev ∈ u.evidence, (us.filterMap MilestoneUpdate.evidence).getLast? = some ev

section Registers

variable {us : List MilestoneUpdate} {u : MilestoneUpdate} {s : MilestoneState}

theorem status_run : (Replay.run MilestoneUpdate.apply us s).status =
    (us.getLast?.map MilestoneUpdate.status).getD s.status := by
  induction us using List.reverseRecOn with
  | nil => rfl
  | append_singleton us u _ => simp [MilestoneUpdate.apply]

theorem releasedVia_run : (Replay.run MilestoneUpdate.apply us s).releasedVia =
    (us.filterMap MilestoneUpdate.via).getLast?.or s.releasedVia := by
  induction us using List.reverseRecOn with
  | nil => rfl
  | append_singleton us u ih =>
    rw [Replay.run_append, List.filterMap_append]
    rcases hv : u.via with _ | via <;> simp [MilestoneUpdate.apply, hv, ih]

theorem evidence_run : (Replay.run MilestoneUpdate.apply us s).evidence =
    (us.filterMap MilestoneUpdate.evidence).getLast?.getD s.evidence := by
  induction us using List.reverseRecOn with
  | nil => rfl
  | append_singleton us u ih =>
    rw [Replay.run_append, List.filterMap_append]
    rcases hv : u.evidence with _ | ev <;> simp [MilestoneUpdate.apply, hv, ih]

/-- An update changes nothing exactly where every column it sets holds what it sets. -/
theorem MilestoneUpdate.apply_eq_self : u.apply s = s ↔ u.status = s.status ∧
    (∀ via ∈ u.via, s.releasedVia = some via) ∧ ∀ ev ∈ u.evidence, s.evidence = ev := by
  obtain ⟨inserts, status, via, evidence⟩ := u
  obtain ⟨status', via', evidence'⟩ := s
  rcases via with _ | via <;> rcases evidence with _ | ev <;>
    simp [apply, eq_comm]

/-- A column an update of the log sets has a last writer. -/
private theorem exists_lastWriter {α : Type} {column : MilestoneUpdate → Option α}
    (hu : u ∈ us) {x : α} (hx : x ∈ column u) :
    ∃ last, (us.filterMap column).getLast? = some last := by
  have hmem : x ∈ us.filterMap column := List.mem_filterMap.mpr ⟨u, hu, hx⟩
  exact ⟨_, List.getLast?_eq_some_getLast (List.ne_nil_of_mem hmem)⟩

/-- **The last writer wins.** An update of a log, made once more after the log, changes nothing
exactly where it agrees with the last writer of every column it sets. -/
theorem apply_run_eq_self (hu : u ∈ us) :
    u.apply (Replay.run MilestoneUpdate.apply us s) = Replay.run MilestoneUpdate.apply us s ↔
      u.UpToDate us := by
  obtain ⟨last, hlast⟩ : ∃ last, us.getLast? = some last :=
    ⟨_, List.getLast?_eq_some_getLast (List.ne_nil_of_mem hu)⟩
  rw [MilestoneUpdate.apply_eq_self, status_run, releasedVia_run, evidence_run, hlast]
  constructor
  · rintro ⟨hstatus, hv, he⟩
    refine ⟨by rw [hlast, hstatus]; rfl, fun via hmem => ?_, fun ev hmem => ?_⟩
    · obtain ⟨last', hlast'⟩ := exists_lastWriter hu hmem
      have hcol := hv via hmem
      rw [hlast'] at hcol ⊢
      exact hcol
    · obtain ⟨last', hlast'⟩ := exists_lastWriter hu hmem
      have hcol := he ev hmem
      rw [hlast'] at hcol ⊢
      exact congrArg some hcol
  · rintro ⟨hstatus, hv, he⟩
    rw [hlast] at hstatus
    refine ⟨(Option.some.inj hstatus).symm, fun via hmem => ?_, fun ev hmem => ?_⟩
    · rw [hv via hmem]
      rfl
    · rw [he ev hmem]
      rfl

end Registers

/-! ### Logs in which each escrow is created first -/

/-- A log of events the loop can process: those of successful calls decode, each escrow is
created once and before every other event about it, and ledgers do not decrease. -/
structure OrderedLog (crates : Crates) (log : List RpcEvent) : Prop where
  decodes : ∀ event ∈ log, event.inSuccessfulContractCall = true →
    ∃ r, (processEvent crates event).outcome = .ok r
  ledgers : log.Pairwise fun a b => a.ledger ≤ b.ledger
  created : CreatedFirst
    ((log.filter RpcEvent.inSuccessfulContractCall).filterMap (logEntry crates))

theorem OrderedLog.of_append {log rest : List RpcEvent} (h : OrderedLog crates (log ++ rest)) :
    OrderedLog crates log where
  decodes := fun event hev => h.decodes event (List.mem_append_left _ hev)
  ledgers := (List.pairwise_append.mp h.ledgers).1
  created := by
    have hcreated := h.created
    rw [List.filter_append, List.filterMap_append] at hcreated
    exact hcreated.of_append

/-- No statement of an ordered log meets a missing escrow. -/
theorem OrderedLog.ready {log : List RpcEvent} (h : OrderedLog crates log) (v : View) :
    v.Ready (writesOf crates log) :=
  h.created.ready (fun event hev =>
    h.decodes event (List.mem_filter.mp hev).1 (by simpa using (List.mem_filter.mp hev).2)) v

private theorem kindOf_of_updateOf {closedAt : DateTime} {name : String} {data : ScVal}
    {p : List UInt32 × MilestoneUpdate} (h : updateOf closedAt name data = some p) :
    ∃ kind, kindOf name data = some kind ∧
      (p.2.inserts = true → ∃ ms, kind = .created ms) := by
  unfold updateOf at h
  rcases hm : milestoneIdOf data with err | m
  · simp only [hm] at h
    split at h
    · obtain ⟨ms, hms, rfl⟩ := Option.map_eq_some_iff.mp h
      refine ⟨.created (ms.map (·.id)), ?_, fun _ => ⟨_, rfl⟩⟩
      rw [kindOf_created, hms, Option.map_some]
    all_goals cases h
  · simp only [hm] at h
    split at h
    · obtain ⟨ms, hms, rfl⟩ := Option.map_eq_some_iff.mp h
      refine ⟨.created (ms.map (·.id)), ?_, fun _ => ⟨_, rfl⟩⟩
      rw [kindOf_created, hms, Option.map_some]
    · obtain ⟨ev, -, rfl⟩ := Option.map_eq_some_iff.mp h
      exact ⟨.submitted m, kindOf_of_one rfl hm, fun h => (by cases h)⟩
    all_goals first
      | cases h
        exact ⟨_, kindOf_of_one rfl hm, fun h => (by cases h)⟩
      | cases h

/-- An event that sets something on a milestone is about its escrow, and creates the escrow if
it inserts the milestone. -/
theorem logEntry_of_update {k : MilestoneKey} {event : RpcEvent} {u : MilestoneUpdate}
    (h : milestoneUpdate? crates k event = some u) :
    ∃ x, logEntry crates event = some x ∧ x.escrowId.toInt64 = k.1 ∧
      (u.inserts = true → x.IsCreation) := by
  unfold milestoneUpdate? at h
  split at h
  on_goal 2 => cases h
  rename_i head hhead
  obtain ⟨p, hp, hif⟩ := Option.bind_eq_some_iff.mp h
  obtain ⟨kind, hkind, hcreated⟩ := kindOf_of_updateOf hp
  obtain ⟨hk, rfl⟩ : k ∈ p.1.map (fun m => (head.escrowId.toInt64, m.toInt32)) ∧ p.2 = u := by
    simpa using hif
  obtain ⟨m, -, rfl⟩ := List.mem_map.mp hk
  refine ⟨⟨head.escrowId, kind⟩, ?_, rfl, hcreated⟩
  rw [logEntry, hhead]
  simp only [hkind, Option.map_some]

theorem updatesOf_append (k : MilestoneKey) (events events' : List RpcEvent) :
    updatesOf crates k (events ++ events') =
      updatesOf crates k events ++ updatesOf crates k events' := by
  simp [updatesOf]

/-- Nothing is set on a milestone before it is inserted. -/
private theorem OrderedLog.updatesOf_eq_nil {k : MilestoneKey} {past : List RpcEvent}
    {event : RpcEvent} (h : OrderedLog crates (past ++ [event]))
    (hcall : event.inSuccessfulContractCall = true) {u : MilestoneUpdate}
    (hu : milestoneUpdate? crates k event = some u) (hins : u.inserts = true) :
    updatesOf crates k past = [] := by
  obtain ⟨x, hx, hxk, hcre⟩ := logEntry_of_update hu
  have hcreated := h.created
  rw [List.filter_append, List.filterMap_append, List.filter_cons_of_pos hcall,
    List.filter_nil, List.filterMap_cons_some hx] at hcreated
  refine List.filterMap_eq_nil_iff.mpr fun event' hev => ?_
  rcases hu' : milestoneUpdate? crates k event' with _ | u'
  · rfl
  · obtain ⟨y, hy, hyk, -⟩ := logEntry_of_update hu'
    have hmem := List.mem_filterMap.mpr ⟨event', hev, hy⟩
    exact absurd (toInt64_inj (hyk.trans hxk.symm)) (hcreated.ne_of_creation (hcre hins) hmem)

theorem updatesOf_singleton {event : RpcEvent} (k : MilestoneKey)
    (h : event.inSuccessfulContractCall = true) :
    updatesOf crates k [event] = (milestoneUpdate? crates k event).toList := by
  rw [updatesOf, List.filter_cons_of_pos h, List.filter_nil]
  rcases hu : milestoneUpdate? crates k event with _ | u
  · rw [List.filterMap_cons_none hu]
    rfl
  · rw [List.filterMap_cons_some hu]
    rfl

/-- **The state of a milestone** after an ordered log: the updates of the log, one after the
other. -/
theorem OrderedLog.state_run {log : List RpcEvent} (h : OrderedLog crates log)
    {k : MilestoneKey} {s : MilestoneState}
    (hs : (View.run (writesOf crates log) View.empty).state k = some s) :
    s = Replay.run MilestoneUpdate.apply (updatesOf crates k log) .initial := by
  induction log using List.reverseRecOn generalizing s with
  | nil => cases hs
  | append_singleton past event ih =>
    have hpast := @ih h.of_append
    rw [writesOf_append, View.run_append] at hs
    rw [updatesOf_append, Replay.run_append]
    rcases hcall : event.inSuccessfulContractCall with _ | _
    · rw [writesOf_cons_of_neg hcall] at hs
      rw [updatesOf, updatesOf, List.filter_cons_of_neg (by simp [hcall])]
      exact hpast hs
    · obtain ⟨r, hr⟩ := h.decodes event (by simp) hcall
      rw [writesOf_cons_of_pos hcall, writesOf_nil, List.append_nil, state_of_event hr] at hs
      rw [updatesOf_singleton k hcall]
      rcases hu : milestoneUpdate? crates k event with _ | u
      · rw [hu] at hs
        exact hpast hs
      · rw [hu] at hs
        rcases hstate : (View.run (writesOf crates past) View.empty).state k with _ | s₀
        · -- the event inserts the milestone, and none before it was about its escrow
          rw [hstate] at hs
          rcases hins : u.inserts with _ | _
          · rw [Option.elim_some, MilestoneUpdate.write_none hins] at hs
            cases hs
          · rw [Option.elim_some, MilestoneUpdate.write, hins] at hs
            rw [h.updatesOf_eq_nil hcall hu hins]
            exact (Option.some.inj hs).symm
        · rw [hstate, Option.elim_some, MilestoneUpdate.write_some] at hs
          rw [← hpast hstate]
          exact (Option.some.inj hs).symm

/-- **When a redelivery is harmless.** Processing an event of an ordered log once more leaves the
status, the release and the evidence of a milestone as they are exactly where the event agrees
with the last event of the log on each of these that it sets. -/
theorem redelivery_harmless_iff {events rest : List RpcEvent}
    (hlog : OrderedLog crates (events ++ rest)) {event : RpcEvent} (hevent : event ∈ events)
    (hcall : event.inSuccessfulContractCall = true) {k : MilestoneKey} {u : MilestoneUpdate}
    (hu : milestoneUpdate? crates k event = some u) {db db' : Db}
    (hdb : Processed crates events Db.migrated db)
    (hrow : (db.milestones.find? k).isSome = true) (hdb' : Processed crates [event] db db') :
    (db'.milestones.find? k).map MilestoneRow.state =
        (db.milestones.find? k).map MilestoneRow.state ↔
      u.UpToDate (updatesOf crates k events) := by
  have hord := hlog.of_append
  have hview : db.view = View.run (writesOf crates events) View.empty :=
    hdb.view_run rfl (hord.ready _)
  have hone : writesOf crates [event] = (processEvent crates event).writes := by
    rw [writesOf_cons_of_pos hcall, writesOf_nil, List.append_nil]
  -- the escrow of the event was there when it was processed first
  have hready : db.view.Ready (writesOf crates [event]) := by
    obtain ⟨past, future, rfl⟩ := List.append_of_mem hevent
    have hall := hord.ready View.empty
    rw [writesOf_append, writesOf_cons_of_pos hcall, View.ready_append,
      View.ready_append] at hall
    rw [hone, hview, writesOf_append, View.run_append]
    exact hall.2.1.mono (View.escrowsIn_run _ _)
  obtain ⟨s, hs⟩ : ∃ s, db.view.state k = some s := by
    rw [Db.state_view]
    obtain ⟨row, hrow⟩ := Option.isSome_iff_exists.mp hrow
    exact ⟨row.state, by rw [hrow]; rfl⟩
  have hs' : db'.view.state k = some (u.apply s) := by
    obtain ⟨r, hr⟩ := hord.decodes event hevent hcall
    rw [hdb'.view_run hone (hone ▸ hready), state_of_event hr, hu, hs]
    exact MilestoneUpdate.write_some u s
  have hmem : u ∈ updatesOf crates k events :=
    List.mem_filterMap.mpr ⟨event, List.mem_filter.mpr ⟨hevent, hcall⟩, hu⟩
  obtain rfl := hord.state_run (hview ▸ hs)
  rw [← Db.state_view, ← Db.state_view, hs, hs', Option.some_inj]
  exact apply_run_eq_self hmem

/-! ### The guard of escrow rows -/

/-- A row, if there is one, is not older than the ledger. -/
def NotOlder (ledger : Int64) (o : Option EscrowRow) : Prop := ∀ r ∈ o, ledger ≤ r.updatedLedger

private theorem EscrowRow.le_offer {status : String} {ledger : Int64} (r : EscrowRow) :
    ledger ≤ (r.offer status ledger).updatedLedger ∧
      r.updatedLedger ≤ (r.offer status ledger).updatedLedger := by
  unfold offer
  split
  · exact ⟨Int64.le_refl _, ‹_›⟩
  · exact ⟨Int64.le_of_lt (Int64.not_le.mp ‹_›), Int64.le_refl _⟩

/-- After a write of an escrow row the row is not older than the write. -/
theorem notOlder_of_write {w : Write} {e : Int64} {ledger : Int64} (hrow : w.row = .escrow e)
    (hledger : ∀ l ∈ w.ledger?, ledger ≤ l) (o : Option EscrowRow) :
    NotOlder ledger (w.onEscrow e o) := by
  intro r hr
  cases w with
  | upsertEscrow a =>
    obtain rfl := RowKey.escrow.inj hrow
    have hle := hledger a.ledger rfl
    simp only [Write.onEscrow, if_true, Option.mem_some_iff] at hr
    rcases o with _ | r₀
    · exact hr ▸ hle
    · exact hr ▸ Int64.le_trans hle (r₀.le_offer).1
  | setEscrowStatus id status l =>
    obtain rfl := RowKey.escrow.inj hrow
    have hle := hledger l rfl
    simp only [Write.onEscrow, if_true, Option.mem_map] at hr
    obtain ⟨r₀, -, rfl⟩ := hr
    exact Int64.le_trans hle (r₀.le_offer).1
  | _ => cases hrow

/-- Writes that are not older leave it so. -/
theorem NotOlder.run {ws : List Write} {e : Int64} {ledger : Int64} {v : View}
    (h : NotOlder ledger (v.escrow e)) (hws : ∀ w ∈ ws, ∀ l ∈ w.ledger?, ledger ≤ l) :
    NotOlder ledger ((View.run ws v).escrow e) := by
  refine Replay.run_invariant View.apply (I := fun v => NotOlder ledger (v.escrow e)) ?_ h
  intro w hw v hv
  by_cases hrow : w.row = .escrow e
  · exact notOlder_of_write hrow (hws w hw) _
  · change NotOlder ledger (w.onEscrow e (v.escrow e))
    rw [Write.onEscrow_of_row_ne hrow]
    exact hv

/-- Older writes do not get through to a row. -/
theorem NotOlder.eq_of_older {ws : List Write} {e : Int64} {ledger : Int64} {v : View}
    (h : NotOlder ledger (v.escrow e)) (hsome : (v.escrow e).isSome = true)
    (hws : ∀ w ∈ ws, ∀ l ∈ w.ledger?, l < ledger) :
    (View.run ws v).escrow e = v.escrow e := by
  obtain ⟨r, hr⟩ := Option.isSome_iff_exists.mp hsome
  have hle := h r hr
  have hstale : ∀ status l, l < ledger → r.offer status l = r := by
    intro status l hl
    exact if_neg fun hge => Int64.not_le.mpr hl (Int64.le_trans hle hge)
  refine Replay.run_invariant View.apply (I := fun v' => v'.escrow e = v.escrow e) ?_ rfl
  intro w hw v' hv'
  rw [← hv']
  change w.onEscrow e (v'.escrow e) = v'.escrow e
  rw [hv', hr]
  cases w with
  | upsertEscrow a =>
    simp [Write.onEscrow, hstale a.status a.ledger (hws _ hw _ rfl)]
  | setEscrowStatus id status l => simp [Write.onEscrow, hstale status l (hws _ hw _ rfl)]
  | _ => rfl

/-- **The guard of escrow rows.** An event of an ordered log that is processed once more leaves an
escrow row as it is, if an event of a later ledger wrote the row after it. -/
theorem redelivered_escrow_unchanged {past future : List RpcEvent} {event later : RpcEvent}
    (hlog : OrderedLog crates (past ++ event :: future)) (hlater : later ∈ future)
    (hledger : event.ledger < later.ledger) (hcall : later.inSuccessfulContractCall = true)
    {e : Int64} (hwrites : ∃ w ∈ (processEvent crates later).writes, w.row = .escrow e)
    {db db' : Db} (hdb : Processed crates (past ++ event :: future) Db.migrated db)
    (hrow : (db.view.escrow e).isSome = true) (hdb' : Processed crates [event] db db') :
    db'.view.escrow e = db.view.escrow e := by
  obtain ⟨between, after, rfl⟩ := List.append_of_mem hlater
  obtain ⟨w, hw, hwrow⟩ := hwrites
  -- from the later event on nothing is written with an older ledger than its
  have hle : ∀ event' ∈ later :: after, ∀ w ∈ (processEvent crates event').writes,
      ∀ l ∈ w.ledger?, later.ledgerI64 ≤ l := by
    intro event' hev w hw l hl
    rw [processEvent_ledger hw hl]
    have hsorted := (List.pairwise_append.mp (List.pairwise_cons.mp
      (List.pairwise_append.mp hlog.ledgers).2.1).2).2.1
    rcases List.mem_cons.mp hev with rfl | hev
    · exact Int64.le_refl _
    · exact ledgerI64_le ((List.pairwise_cons.mp hsorted).1 event' hev)
  have hnewer : NotOlder later.ledgerI64 (db.view.escrow e) := by
    obtain ⟨first, last, hsplit⟩ := List.append_of_mem hw
    have hview := hdb.view_run rfl (hlog.ready _)
    rw [← List.cons_append, ← List.append_assoc, writesOf_append, View.run_append,
      writesOf_cons_of_pos hcall, View.run_append, hsplit, View.run_append,
      View.run_cons] at hview
    rw [hview]
    refine (NotOlder.run ?_ fun w' hw' => hle later List.mem_cons_self w' ?_).run
      fun w' hw' => ?_
    · exact notOlder_of_write hwrow (hle later List.mem_cons_self w hw) _
    · rw [hsplit]
      exact List.mem_append_right _ (List.mem_cons_of_mem w hw')
    · obtain ⟨event', hev, hmem⟩ := List.mem_flatMap.mp hw'
      exact hle event' (List.mem_cons_of_mem later (List.mem_filter.mp hev).1) w' hmem
  -- the event that is processed once more writes with its own ledger, which is older
  obtain ⟨done, hpre, hrun⟩ := View.processEvent_eq_run crates event db.view
  rw [hdb'.view, View.process, Replay.run_cons, Replay.run_nil, hrun]
  refine hnewer.eq_of_older hrow fun w hw l hl => ?_
  rw [processEvent_ledger (hpre.subset hw) hl, Int64.lt_iff_toInt_lt, toInt_ledgerI64,
    toInt_ledgerI64]
  exact Int.ofNat_lt.mpr (UInt32.lt_iff_toNat_lt.mp hledger)

/-! ### The sample log, redelivered -/

/-- A well-formed log is one the loop can process. -/
theorem WellFormedLog.ordered {log : List RpcEvent} (h : WellFormedLog crates log) :
    OrderedLog crates log where
  decodes := fun event hev _ => h.decodes event hev
  ledgers := h.ledgers
  created := by
    rw [List.filter_eq_self.mpr h.successful]
    exact h.protocol.toCreatedFirst

section Sample

set_option maxRecDepth 4000

variable (contractId : String) (ledger : UInt32)

theorem milestoneUpdate?_createdEvent :
    milestoneUpdate? sampleCrates (1, 0) (createdEvent contractId ledger) =
      some ⟨true, "pending", none, none⟩ := by
  rw [milestoneUpdate?, decodeHead_createdEvent]
  rfl

theorem milestoneUpdate?_fundedEvent :
    milestoneUpdate? sampleCrates (1, 0) (fundedEvent contractId ledger) = none := (rfl)

theorem milestoneUpdate?_approvedEvent :
    milestoneUpdate? sampleCrates (1, 0) (approvedEvent contractId ledger) =
      some ⟨false, "released", some "approved", none⟩ := (rfl)

end Sample

/-- The statements of the sample log. -/
theorem writesOf_sampleLog : writesOf sampleCrates sampleLog =
    [.upsertEscrow (sampleEscrow sampleContract 1), .upsertMilestone sampleMilestone,
      .setEscrowStatus 1 "funded" 2, .releaseMilestone 1 0 "approved"] := by
  rw [sampleLog, writesOf_cons_of_pos rfl, writesOf_cons_of_pos rfl, writesOf_cons_of_pos rfl,
    processEvent_createdEvent, processEvent_fundedEvent, processEvent_approvedEvent]
  rfl

/-- The milestone of the sample is released in the end. -/
theorem state_of_sampleLog {db : Db} (h : Processed sampleCrates sampleLog Db.migrated db) :
    (db.milestones.find? (1, 0)).map MilestoneRow.state =
      some ⟨"released", some "approved", none, none, none⟩ := by
  rw [← Db.state_view, h.view_run writesOf_sampleLog ⟨fun hn => (by cases hn), fun _ => rfl,
    fun hn => (by cases hn), fun hn => (by cases hn), trivial⟩]
  rfl

/-- The approval of the sample is harmless when it is redelivered. -/
theorem redelivery_harmless_iff_sample : ∃ db db',
    Processed sampleCrates sampleLog Db.migrated db ∧
      Processed sampleCrates [approvedEvent sampleContract 3] db db' ∧
      (db'.milestones.find? (1, 0)).map MilestoneRow.state =
        (db.milestones.find? (1, 0)).map MilestoneRow.state := by
  obtain ⟨db, hdb⟩ := Processed.exists_of sampleCrates sampleLog Db.migrated
  obtain ⟨db', hdb'⟩ := Processed.exists_of sampleCrates [approvedEvent sampleContract 3] db
  have hlog : OrderedLog sampleCrates (sampleLog ++ []) := sampleLog_wellFormed.ordered
  have hrow : (db.milestones.find? (1, 0)).isSome = true := by
    rw [← Option.isSome_map, state_of_sampleLog hdb]
    rfl
  refine ⟨db, db', hdb, hdb', (redelivery_harmless_iff hlog (by simp [sampleLog]) rfl
    (milestoneUpdate?_approvedEvent ..) hdb hrow hdb').mpr ?_⟩
  have hups : updatesOf sampleCrates (1, 0) sampleLog =
      [⟨true, "pending", none, none⟩, ⟨false, "released", some "approved", none⟩] := by
    rw [updatesOf, List.filter_eq_self.mpr sampleLog_wellFormed.successful, sampleLog,
      List.filterMap_cons_some (milestoneUpdate?_createdEvent ..),
      List.filterMap_cons_none (milestoneUpdate?_fundedEvent ..),
      List.filterMap_cons_some (milestoneUpdate?_approvedEvent ..)]
    rfl
  rw [hups]
  exact ⟨rfl, fun via hvia => hvia, fun ev hev => (by cases hev)⟩

/-- Stale redeliveries do regress milestones: the sample's `escrow_created`, delivered once more
after the approval of its milestone, makes the released milestone pending again. -/
theorem stale_redelivery_regresses : ¬ ∀ (crates : Crates) (past between future : List RpcEvent)
    (event later : RpcEvent) (k : MilestoneKey) (u u' : MilestoneUpdate) (db db' : Db),
    OrderedLog crates (past ++ event :: between ++ later :: future) →
    event.inSuccessfulContractCall = true → later.inSuccessfulContractCall = true →
    milestoneUpdate? crates k event = some u → milestoneUpdate? crates k later = some u' →
    event.ledger < later.ledger →
    Processed crates (past ++ event :: between ++ later :: future) Db.migrated db →
    (db.milestones.find? k).isSome = true →
    Processed crates [event] db db' →
    (db'.milestones.find? k).map MilestoneRow.state =
      (db.milestones.find? k).map MilestoneRow.state := by
  intro hstable
  obtain ⟨db, hdb⟩ := Processed.exists_of sampleCrates sampleLog Db.migrated
  obtain ⟨db', hdb'⟩ := Processed.exists_of sampleCrates [createdEvent sampleContract 1] db
  have hstate := state_of_sampleLog hdb
  have hrow : (db.milestones.find? (1, 0)).isSome = true := by
    rw [← Option.isSome_map, hstate]
    rfl
  have hsame := hstable sampleCrates [] [fundedEvent sampleContract 2] []
    (createdEvent sampleContract 1) (approvedEvent sampleContract 3) (1, 0) _ _ db db'
    sampleLog_wellFormed.ordered rfl rfl (milestoneUpdate?_createdEvent ..)
    (milestoneUpdate?_approvedEvent ..) (by decide) hdb hrow hdb'
  have hwrites : writesOf sampleCrates [createdEvent sampleContract 1] =
      [.upsertEscrow (sampleEscrow sampleContract 1), .upsertMilestone sampleMilestone] := by
    rw [writesOf_cons_of_pos rfl, processEvent_createdEvent]
    rfl
  have hready : db.view.Ready
      [.upsertEscrow (sampleEscrow sampleContract 1), .upsertMilestone sampleMilestone] :=
    ⟨fun hn => (by cases hn), fun _ => (View.isSome_apply ..).mpr (Or.inr rfl), trivial⟩
  have hpending : db'.view.state (1, 0) =
      some ((⟨true, "pending", none, none⟩ : MilestoneUpdate).apply
        ⟨"released", some "approved", none, none, none⟩) := by
    rw [hdb'.view_run hwrites hready]
    rw [View.run_cons, View.run_cons, View.run_nil, View.state_apply, View.state_apply,
      Db.state_view, hstate]
    rfl
  rw [← Db.state_view, hpending, hstate] at hsame
  revert hsame
  decide

end ConcordBackend
