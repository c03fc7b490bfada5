import ConcordBackend.Absorb
import ConcordBackend.Indexer.ProcessEvent

/-!
# What `process_event` sends

`Dispatched` lists, case by case, the statements the `match` of `process_event` sends and how
it ends when no statement fails; `dispatch_spec` is the inversion of the code into these
cases, and everything later modules know about the code of `process_event` they take from it.
All statements of an event are about the escrow its topic names
(`processEvent_escrowId`) and carry no ledger but the event's own (`processEvent_ledger`).
-/

namespace ConcordBackend

/-! ### The milestone loop -/

/-- The statement of one entry of the milestone list, if its deadline converts. -/
def milestoneWrite (escrowId : Int64) (milestone : DecodedMilestone) : Except Error Write := do
  let deadline ← unixSecondsToDatetime milestone.deadline
  return .upsertMilestone {
    escrowId, milestoneId := milestone.id.toInt32, description := milestone.description,
    amount := milestone.amount, status := "pending", deadline }

theorem createMilestone_eq (e : Int64) (m : DecodedMilestone) :
    createMilestone e m = (liftM (milestoneWrite e m) : Script Write).bind Script.send := by
  unfold createMilestone milestoneWrite
  rcases unixSecondsToDatetime m.deadline with err | d <;> rfl

theorem milestoneWrite_eq {e : Int64} {m : DecodedMilestone} {w : Write}
    (h : milestoneWrite e m = .ok w) : ∃ deadline,
      unixSecondsToDatetime m.deadline = .ok deadline ∧
      w = .upsertMilestone {
        escrowId := e, milestoneId := m.id.toInt32, description := m.description,
        amount := m.amount, status := "pending", deadline } := by
  obtain ⟨deadline, hd, hw⟩ := Except.bind_eq_ok.mp h
  exact ⟨deadline, hd, (Except.ok.inj hw).symm⟩

/-- An entry has no statement only where its deadline does not convert. -/
theorem milestoneWrite_eq_error {e : Int64} {m : DecodedMilestone} {err : Error}
    (h : milestoneWrite e m = .error err) : unixSecondsToDatetime m.deadline = .error err := by
  rcases hd : unixSecondsToDatetime m.deadline with err' | d
  · rw [milestoneWrite, hd] at h
    exact congrArg Except.error (Except.error.inj h)
  · rw [milestoneWrite, hd] at h
    cases h

/-- The milestone loop sends the statements of its entries up to the first that does not
convert. -/
inductive MilestoneLoop (e : Int64) : List DecodedMilestone → List Write →
    Except Error Unit → Prop where
  | nil : MilestoneLoop e [] [] (.ok ())
  | cons {m : DecodedMilestone} {w : Write} {ms : List DecodedMilestone} {ws : List Write}
      {r : Except Error Unit} (hw : milestoneWrite e m = .ok w) (h : MilestoneLoop e ms ws r) :
      MilestoneLoop e (m :: ms) (w :: ws) r
  | stop {m : DecodedMilestone} {ms : List DecodedMilestone} {err : Error}
      (hw : milestoneWrite e m = .error err) : MilestoneLoop e (m :: ms) [] (.error err)

theorem milestoneLoop_forM (e : Int64) (ms : List DecodedMilestone) :
    MilestoneLoop e ms (forM ms (createMilestone e)).writes
      (forM ms (createMilestone e)).outcome := by
  induction ms with
  | nil => exact .nil
  | cons m ms ih =>
    rw [List.forM_cons, createMilestone_eq]
    rcases hw : milestoneWrite e m with err | w
    · exact .stop hw
    · exact .cons hw ih

/-- A milestone loop that ends without an error wrote every entry. -/
theorem MilestoneLoop.forall₂ {e : Int64} {ms : List DecodedMilestone} {ws : List Write}
    (h : MilestoneLoop e ms ws (.ok ())) :
    List.Forall₂ (fun m w => milestoneWrite e m = .ok w) ms ws := by
  generalize hr : (Except.ok () : Except Error Unit) = r at h
  induction h with
  | nil => exact .nil
  | cons hw _ ih => exact .cons hw (ih hr)
  | stop hw => cases hr

/-- The statements of a milestone loop are those of its entries. -/
theorem MilestoneLoop.mem {e : Int64} {ms : List DecodedMilestone} {ws : List Write}
    {r : Except Error Unit} (h : MilestoneLoop e ms ws r) {w : Write} (hw : w ∈ ws) :
    ∃ m ∈ ms, milestoneWrite e m = .ok w := by
  induction h with
  | nil => cases hw
  | cons hm _ ih =>
    rcases List.mem_cons.mp hw with rfl | hw
    · exact ⟨_, List.mem_cons_self, hm⟩
    · obtain ⟨m, hmem, hm⟩ := ih hw
      exact ⟨m, List.mem_cons_of_mem _ hmem, hm⟩
  | stop _ => cases hw

/-- What holds of every milestone that decodes holds of those of an event. -/
theorem forall_of_milestonesOf {data : ScVal} {ms : List DecodedMilestone}
    {P : DecodedMilestone → Prop} (hP : ∀ {entry m}, decodeMilestone entry = .ok m → P m)
    (h : milestonesOf data = .ok ms) : ∀ m ∈ ms, P m := by
  obtain ⟨val, -, hval⟩ := Except.bind_eq_ok.mp h
  unfold decodeMilestones at hval
  split at hval
  · have hread := (Except.mapM_eq_ok_iff.mp hval).flip.imp fun m entry hentry =>
      And.intro (hP hentry) hentry
    exact ((List.forall₂_and_left ms _).mp hread).1
  · cases hval

/-- A milestone loop that ends without an error wrote each of its entries. -/
theorem MilestoneLoop.exists_mem {e : Int64} {ms : List DecodedMilestone} {ws : List Write}
    {r : Except Error Unit} (h : MilestoneLoop e ms ws r) (hr : r = .ok ())
    {m : DecodedMilestone} (hm : m ∈ ms) : ∃ w ∈ ws, milestoneWrite e m = .ok w := by
  induction h with
  | nil => cases hm
  | @cons m' w _ _ _ hw _ ih =>
    rcases List.mem_cons.mp hm with rfl | hm
    · exact ⟨w, List.mem_cons_self, hw⟩
    · obtain ⟨w', hw', hmw⟩ := ih hr hm
      exact ⟨w', List.mem_cons_of_mem w hw', hmw⟩
  | stop => cases hr

/-- A milestone loop ends in an error only where a deadline does not convert. -/
theorem MilestoneLoop.error_inv {e : Int64} {ms : List DecodedMilestone} {ws : List Write}
    {r : Except Error Unit} (h : MilestoneLoop e ms ws r) {err : Error}
    (hr : r = .error err) : ∃ m ∈ ms, unixSecondsToDatetime m.deadline = .error err := by
  induction h with
  | nil => cases hr
  | cons _ _ ih =>
    obtain ⟨m, hm, herr⟩ := ih hr
    exact ⟨m, List.mem_cons_of_mem _ hm, herr⟩
  | stop hw =>
    obtain rfl := Except.error.inj hr
    exact ⟨_, List.mem_cons_self, milestoneWrite_eq_error hw⟩

/-! ### The values of the escrow row -/

/-- The escrow row of an `escrow_created` holds what the event's fields decode to. -/
structure CreatedFrom (crates : Crates) (event : RpcEvent) (e ledger : Int64) (data : ScVal)
    (a : UpsertEscrow) : Prop where
  id : a.id = e
  contractId : a.contractId = event.contractId
  status : a.status = "created"
  ledger : a.ledger = ledger
  client : (mapGet data "client").bind (scValToAddress crates) = .ok a.client
  provider : (mapGet data "provider").bind (scValToAddress crates) = .ok a.provider
  arbitrator : (mapGet data "arbitrator").bind (scValToAddress crates) = .ok a.arbitrator
  token : (mapGet data "token").bind (scValToAddress crates) = .ok a.token

theorem createdFrom_of_createdEscrow {crates : Crates} {event : RpcEvent} {e ledger : Int64}
    {data : ScVal} {a : UpsertEscrow} (h : createdEscrow crates event e ledger data = .ok a) :
    CreatedFrom crates event e ledger data a := by
  simp only [createdEscrow, Except.bind_eq_ok] at h
  obtain ⟨_, hc, client, hclient, _, hp, provider, hprovider, _, ha, arbitrator, harbitrator,
    _, ht, token, htoken, _, -, _, -, _, -, _, -, _, -, _, -, _, -, _, -, _, -, _, -, h⟩ := h
  obtain rfl := Except.ok.inj h
  refine ⟨rfl, rfl, rfl, rfl, ?_, ?_, ?_, ?_⟩
  · rw [hc]
    exact hclient
  · rw [hp]
    exact hprovider
  · rw [ha]
    exact harbitrator
  · rw [ht]
    exact htoken

/-- The numbers, times and texts of the escrow row of an `escrow_created`. -/
structure CreatedValues (data : ScVal) (a : UpsertEscrow) : Prop where
  reviewPeriod : ∃ v, (mapGet data "review_period").bind scValToU64 = .ok v ∧
    a.reviewPeriod = v.toInt64
  chainCreatedAt : ∃ v, (mapGet data "created_at").bind scValToU64 = .ok v ∧
    unixSecondsToDatetime v = .ok a.chainCreatedAt
  title : ∃ s, (mapGet data "title").bind scValToString = .ok s ∧ a.title = emptyAsNone s
  metadataUri : ∃ s, (mapGet data "metadata_uri").bind scValToString = .ok s ∧
    a.metadataUri = emptyAsNone s
  metadataHash : hashFor a.metadataUri data "metadata_hash" = .ok a.metadataHash

theorem createdValues_of_createdEscrow {crates : Crates} {event : RpcEvent} {e ledger : Int64}
    {data : ScVal} {a : UpsertEscrow} (h : createdEscrow crates event e ledger data = .ok a) :
    CreatedValues data a := by
  simp only [createdEscrow, Except.bind_eq_ok] at h
  obtain ⟨_, -, _, -, _, -, _, -, _, -, _, -, _, -, _, -, _, hperiod, period, hperiod', _, hcreated,
    created, hcreated', at_, hat, _, htitle, title, htitle', _, huri, uri, huri', hash, hhash, h⟩ := h
  obtain rfl := Except.ok.inj h
  exact ⟨⟨period, Except.bind_eq_ok.mpr ⟨_, hperiod, hperiod'⟩, rfl⟩,
    ⟨created, Except.bind_eq_ok.mpr ⟨_, hcreated, hcreated'⟩, hat⟩,
    ⟨title, Except.bind_eq_ok.mpr ⟨_, htitle, htitle'⟩, rfl⟩,
    ⟨uri, Except.bind_eq_ok.mpr ⟨_, huri, huri'⟩, rfl⟩, hhash⟩

/-- The evidence of a submission, field by field. -/
theorem submittedEvidence_eq_ok {data : ScVal} {uri hash : Option String}
    (h : submittedEvidence data = .ok (uri, hash)) :
    (∃ s, (mapGet data "evidence_uri").bind scValToString = .ok s ∧ uri = emptyAsNone s) ∧
      hashFor uri data "evidence_hash" = .ok hash := by
  simp only [submittedEvidence, Except.bind_eq_ok] at h
  obtain ⟨_, huri, text, htext, hash', hhash, h⟩ := h
  obtain ⟨rfl, rfl⟩ := Prod.mk.inj (Except.ok.inj h)
  exact ⟨⟨text, Except.bind_eq_ok.mpr ⟨_, huri, htext⟩, rfl⟩, hhash⟩

/-! ### The cases of the dispatch -/

/-- The status an event that only sets the escrow status sets. -/
def statusOf : String → Option String
  | "escrow_funded" => some "funded"
  | "escrow_cancelled" => some "cancelled"
  | "escrow_mutually_cancelled" => some "cancelled"
  | "escrow_completed" => some "completed"
  | _ => none

/-- How the milestone of a release was released. -/
def viaOf : String → Option String
  | "milestone_approved" => some "approved"
  | "milestone_auto_released" => some "auto_release"
  | _ => none

/-- The names of the events `process_event` recognizes. -/
def recognizedNames : List String :=
  ["escrow_created", "escrow_funded", "milestone_submitted", "milestone_approved",
    "milestone_auto_released", "milestone_expired", "escrow_cancelled",
    "escrow_mutually_cancelled", "escrow_completed", "dispute_raised", "dispute_resolved"]

/-- The statements the dispatch on `name` sends, and how it ends, when no statement fails. -/
inductive Dispatched (crates : Crates) (event : RpcEvent) (e ledger : Int64) (data : ScVal) :
    String → List Write → Except Error Bool → Prop where
  /-- a name that is not recognized -/
  | unrecognized {name : String} (h : name ∉ recognizedNames) :
      Dispatched crates event e ledger data name [] (.ok false)
  /-- a field that does not decode, before anything is written -/
  | undecoded {name : String} (err : Error) :
      Dispatched crates event e ledger data name [] (.error err)
  | status {name status : String} (h : statusOf name = some status) :
      Dispatched crates event e ledger data name [.setEscrowStatus e status ledger] (.ok true)
  | submitted {m : UInt32} {uri hash : Option String} (hm : milestoneIdOf data = .ok m)
      (hev : submittedEvidence data = .ok (uri, hash)) :
      Dispatched crates event e ledger data "milestone_submitted"
        [.setEscrowStatus e "in_progress" ledger,
          .markMilestoneSubmitted e m.toInt32 uri hash event.ledgerClosedAt] (.ok true)
  | released {name via : String} {m : UInt32} (h : viaOf name = some via)
      (hm : milestoneIdOf data = .ok m) :
      Dispatched crates event e ledger data name [.releaseMilestone e m.toInt32 via] (.ok true)
  | expired {m : UInt32} (hm : milestoneIdOf data = .ok m) :
      Dispatched crates event e ledger data "milestone_expired"
        [.setMilestoneStatus e m.toInt32 "expired"] (.ok true)
  | raised {m : UInt32} {raisedBy reason : String} (hm : milestoneIdOf data = .ok m)
      (hby : (mapGet data "raised_by").bind (scValToAddress crates) = .ok raisedBy)
      (hreason : (mapGet data "reason").bind scValToString = .ok reason) :
      Dispatched crates event e ledger data "dispute_raised"
        [.setMilestoneStatus e m.toInt32 "disputed",
          .insertDispute e m.toInt32 raisedBy reason] (.ok true)
  | resolved {m : UInt32} {kind : String} {bps : Option Int32}
      (hm : milestoneIdOf data = .ok m)
      (hres : (mapGet data "resolution").bind decodeResolution = .ok (kind, bps)) :
      Dispatched crates event e ledger data "dispute_resolved"
        [.setMilestoneStatus e m.toInt32 "resolved",
          .resolveDispute e m.toInt32 kind bps] (.ok true)
  /-- a created escrow whose milestone list does not decode -/
  | createdOnly {a : UpsertEscrow} {err : Error}
      (ha : createdEscrow crates event e ledger data = .ok a)
      (hms : milestonesOf data = .error err) :
      Dispatched crates event e ledger data "escrow_created" [.upsertEscrow a] (.error err)
  | created {a : UpsertEscrow} {ms : List DecodedMilestone} {ws : List Write}
      {r : Except Error Unit} (ha : createdEscrow crates event e ledger data = .ok a)
      (hms : milestonesOf data = .ok ms) (hloop : MilestoneLoop e ms ws r) :
      Dispatched crates event e ledger data "escrow_created" (.upsertEscrow a :: ws)
        (r.map fun _ => true)

section Dispatch

variable (crates : Crates) (event : RpcEvent) (e ledger : Int64) (data : ScVal)

theorem dispatch_escrow_created : dispatch crates event "escrow_created" e ledger data =
    (escrowCreated crates event e ledger data).bind fun _ => .done true := rfl

theorem dispatch_milestone_submitted :
    dispatch crates event "milestone_submitted" e ledger data =
      (milestoneSubmitted event e ledger data).bind fun _ => .done true := rfl

theorem dispatch_milestone_expired : dispatch crates event "milestone_expired" e ledger data =
    (milestoneExpired e data).bind fun _ => .done true := rfl

theorem dispatch_dispute_raised : dispatch crates event "dispute_raised" e ledger data =
    (disputeRaised crates e data).bind fun _ => .done true := rfl

theorem dispatch_dispute_resolved : dispatch crates event "dispute_resolved" e ledger data =
    (disputeResolved e data).bind fun _ => .done true := rfl

variable {crates event e ledger data} in
/-- A creation whose escrow row does not decode sends nothing. -/
theorem dispatch_uncreated {err : Error}
    (ha : createdEscrow crates event e ledger data = .error err) :
    dispatch crates event "escrow_created" e ledger data = .fail err := by
  simp [dispatch_escrow_created, escrowCreated, ha]

variable {crates event e ledger data} in
/-- A creation whose milestone list does not decode sends the escrow row. -/
theorem dispatch_createdOnly {a : UpsertEscrow} {err : Error}
    (ha : createdEscrow crates event e ledger data = .ok a) (hms : milestonesOf data = .error err) :
    dispatch crates event "escrow_created" e ledger data =
      .write (.upsertEscrow a) (.fail err) := by
  simp [dispatch_escrow_created, escrowCreated, ha, hms]

variable {crates event e ledger data} in
/-- A creation that decodes sends the escrow row, then runs the milestone loop. -/
theorem dispatch_created {a : UpsertEscrow} {ms : List DecodedMilestone}
    (ha : createdEscrow crates event e ledger data = .ok a) (hms : milestonesOf data = .ok ms) :
    ∃ ws r, MilestoneLoop e ms ws r ∧
      (dispatch crates event "escrow_created" e ledger data).writes = .upsertEscrow a :: ws ∧
      (dispatch crates event "escrow_created" e ledger data).outcome = r.map fun _ => true := by
  refine ⟨_, _, milestoneLoop_forM e ms, ?_⟩
  simp only [dispatch_escrow_created, escrowCreated, Script.bind_eq_bind, ha, hms,
    Script.liftM_ok, Script.done_bind, Script.send_bind, Script.write_bind, Script.writes_write,
    Script.outcome_write, Script.writes_bind, Script.outcome_bind, List.forM_eq_forM]
  rcases (forM ms (createMilestone e)).outcome with err | u
  · exact ⟨by rw [List.append_nil], rfl⟩
  · refine ⟨?_, rfl⟩
    change Write.upsertEscrow a :: ((forM ms (createMilestone e)).writes ++ []) = _
    rw [List.append_nil]

private theorem created_spec :
    Dispatched crates event e ledger data "escrow_created"
      (dispatch crates event "escrow_created" e ledger data).writes
      (dispatch crates event "escrow_created" e ledger data).outcome := by
  rcases ha : createdEscrow crates event e ledger data with err | a
  · rw [dispatch_uncreated ha]
    exact .undecoded err
  rcases hms : milestonesOf data with err | ms
  · rw [dispatch_createdOnly ha hms]
    exact .createdOnly ha hms
  obtain ⟨ws, r, hloop, hwrites, hout⟩ := dispatch_created ha hms
  rw [hwrites, hout]
  exact .created ha hms hloop

private theorem submitted_spec :
    Dispatched crates event e ledger data "milestone_submitted"
      (dispatch crates event "milestone_submitted" e ledger data).writes
      (dispatch crates event "milestone_submitted" e ledger data).outcome := by
  simp only [dispatch_milestone_submitted, milestoneSubmitted, Script.bind_eq_bind]
  rcases hm : milestoneIdOf data with err | m
  · exact .undecoded err
  rcases hev : submittedEvidence data with err | ⟨uri, hash⟩
  · exact .undecoded err
  exact .submitted hm hev

private theorem released_spec {name via : String} (h : viaOf name = some via) {s : Script Bool}
    (hs : s = (milestoneReleased e data via).bind fun _ => .done true) :
    Dispatched crates event e ledger data name s.writes s.outcome := by
  subst hs
  simp only [milestoneReleased, Script.bind_eq_bind]
  rcases hm : milestoneIdOf data with err | m
  · exact .undecoded err
  exact .released h hm

private theorem expired_spec :
    Dispatched crates event e ledger data "milestone_expired"
      (dispatch crates event "milestone_expired" e ledger data).writes
      (dispatch crates event "milestone_expired" e ledger data).outcome := by
  simp only [dispatch_milestone_expired, milestoneExpired, Script.bind_eq_bind]
  rcases hm : milestoneIdOf data with err | m
  · exact .undecoded err
  exact .expired hm

private theorem raised_spec :
    Dispatched crates event e ledger data "dispute_raised"
      (dispatch crates event "dispute_raised" e ledger data).writes
      (dispatch crates event "dispute_raised" e ledger data).outcome := by
  simp only [dispatch_dispute_raised, disputeRaised, Script.bind_eq_bind]
  rcases hm : milestoneIdOf data with err | m
  · exact .undecoded err
  rcases hby : mapGet data "raised_by" with err | v
  · exact .undecoded err
  rcases haddr : scValToAddress crates v with err | raisedBy
  · simpa [haddr] using Dispatched.undecoded err
  rcases hre : mapGet data "reason" with err | v'
  · simpa [haddr] using Dispatched.undecoded err
  rcases hstr : scValToString v' with err | reason
  · simpa [haddr, hstr] using Dispatched.undecoded err
  have hby' : (mapGet data "raised_by").bind (scValToAddress crates) = .ok raisedBy := by
    rw [hby]
    exact haddr
  have hre' : (mapGet data "reason").bind scValToString = .ok reason := by
    rw [hre]
    exact hstr
  have hd : Dispatched crates event e ledger data "dispute_raised" _ _ :=
    .raised hm hby' hre'
  simpa [haddr, hstr] using hd

private theorem resolved_spec :
    Dispatched crates event e ledger data "dispute_resolved"
      (dispatch crates event "dispute_resolved" e ledger data).writes
      (dispatch crates event "dispute_resolved" e ledger data).outcome := by
  simp only [dispatch_dispute_resolved, disputeResolved, Script.bind_eq_bind]
  rcases hm : milestoneIdOf data with err | m
  · exact .undecoded err
  rcases hv : mapGet data "resolution" with err | v
  · exact .undecoded err
  rcases hres : decodeResolution v with err | ⟨kind, bps⟩
  · simpa [hres] using Dispatched.undecoded err
  have hres' : (mapGet data "resolution").bind decodeResolution = .ok (kind, bps) := by
    rw [hv]
    exact hres
  have hd : Dispatched crates event e ledger data "dispute_resolved" _ _ :=
    .resolved hm hres'
  simpa [hres] using hd

variable {crates event e ledger data} in
/-- A name that is not recognized sends nothing. -/
theorem dispatch_unrecognized {name : String} (hname : name ∉ recognizedNames) :
    dispatch crates event name e ledger data = .done false := by
  unfold dispatch
  split
  all_goals first | rfl | exact absurd (by decide) hname

/-- **Inversion of the dispatch.** Whatever the name and the data, the dispatch is one of the
cases of `Dispatched`. -/
theorem dispatch_spec (name : String) :
    Dispatched crates event e ledger data name
      (dispatch crates event name e ledger data).writes
      (dispatch crates event name e ledger data).outcome := by
  by_cases hname : name ∈ recognizedNames
  · simp only [recognizedNames, List.mem_cons, List.not_mem_nil, or_false] at hname
    rcases hname with rfl | rfl | rfl | rfl | rfl | rfl | rfl | rfl | rfl | rfl | rfl
    · exact created_spec crates event e ledger data
    · exact .status rfl
    · exact submitted_spec crates event e ledger data
    · exact released_spec crates event e ledger data rfl rfl
    · exact released_spec crates event e ledger data rfl rfl
    · exact expired_spec crates event e ledger data
    · exact .status rfl
    · exact .status rfl
    · exact .status rfl
    · exact raised_spec crates event e ledger data
    · exact resolved_spec crates event e ledger data
  · rw [dispatch_unrecognized hname]
    exact .unrecognized hname

end Dispatch

/-- The statements of a dispatch are about the escrow and carry the ledger it was given. -/
theorem Dispatched.about {crates : Crates} {event : RpcEvent} {e ledger : Int64} {data : ScVal}
    {name : String} {ws : List Write} {r : Except Error Bool}
    (h : Dispatched crates event e ledger data name ws r) {w : Write} (hw : w ∈ ws) :
    w.escrowId = e ∧ ∀ l ∈ w.ledger?, l = ledger := by
  have hcreated : ∀ {a : UpsertEscrow}, createdEscrow crates event e ledger data = .ok a →
      (Write.upsertEscrow a).escrowId = e ∧
        ∀ l ∈ (Write.upsertEscrow a).ledger?, l = ledger := by
    intro a ha
    have hfrom := createdFrom_of_createdEscrow ha
    exact ⟨hfrom.id, fun l hl => (Option.some.inj hl).symm.trans hfrom.ledger⟩
  cases h with
  | unrecognized => cases hw
  | undecoded => cases hw
  | createdOnly ha =>
    obtain rfl := List.mem_singleton.mp hw
    exact hcreated ha
  | created ha _ hloop =>
    rcases List.mem_cons.mp hw with rfl | hw
    · exact hcreated ha
    · obtain ⟨m, -, hm⟩ := hloop.mem hw
      obtain ⟨deadline, -, rfl⟩ := milestoneWrite_eq hm
      exact ⟨rfl, fun l hl => by cases hl⟩
  | _ =>
    simp only [List.mem_cons, List.not_mem_nil, or_false] at hw
    rcases hw with rfl | rfl <;> simp [Write.escrowId, Write.ledger?]

/-- The statements of a dispatch are all admitted where the escrow exists, or is created by
them. -/
theorem Dispatched.ready {crates : Crates} {event : RpcEvent} {e ledger : Int64} {data : ScVal}
    {name : String} {ws : List Write} {r : Except Error Bool}
    (h : Dispatched crates event e ledger data name ws r) {v : View}
    (hv : (v.escrow e).isSome = true ∨ ∃ a, .upsertEscrow a ∈ ws) : v.Ready ws := by
  have habout := fun w hw => (h.about (w := w) hw).1
  have hcons : ∀ {a : UpsertEscrow} {ws : List Write},
      (∀ w ∈ Write.upsertEscrow a :: ws, w.escrowId = e) →
        v.Ready (.upsertEscrow a :: ws) := by
    intro a ws habout
    obtain rfl : a.id = e := habout _ List.mem_cons_self
    have hsome := (View.isSome_apply (.upsertEscrow a) v a.id).mpr (Or.inr rfl)
    exact ⟨fun hn => (by cases hn), View.ready_of_isSome hsome fun w hw =>
      habout w (List.mem_cons_of_mem _ hw)⟩
  rcases hv with hv | ⟨a, ha⟩
  · exact View.ready_of_isSome hv habout
  · cases h with
    | createdOnly => exact hcons habout
    | created => exact hcons habout
    | _ => simp at ha

/-- Only the creation of an escrow sends statements before an error of its decoding. -/
theorem Dispatched.nil_of_error {crates : Crates} {event : RpcEvent} {e ledger : Int64}
    {data : ScVal} {name : String} {ws : List Write} {r : Except Error Bool}
    (h : Dispatched crates event e ledger data name ws r) {err : Error} (hr : r = .error err)
    (hname : name ≠ "escrow_created") : ws = [] := by
  cases h with
  | undecoded => rfl
  | createdOnly => exact absurd rfl hname
  | created => exact absurd rfl hname
  | unrecognized => rfl
  | _ => cases hr

/-- Only the creation of an escrow inserts one. -/
theorem Dispatched.createdEscrow?_eq_none {crates : Crates} {event : RpcEvent}
    {e ledger : Int64} {data : ScVal} {name : String} {ws : List Write} {r : Except Error Bool}
    (h : Dispatched crates event e ledger data name ws r) (hname : name ≠ "escrow_created")
    {w : Write} (hw : w ∈ ws) : w.createdEscrow? = none := by
  cases h with
  | createdOnly => exact absurd rfl hname
  | created => exact absurd rfl hname
  | unrecognized => cases hw
  | undecoded => cases hw
  | _ =>
    simp only [List.mem_cons, List.not_mem_nil, or_false] at hw
    rcases hw with rfl | rfl <;> rfl

/-- A creation that ends without an error wrote the escrow and all its milestones. -/
theorem Dispatched.created_inv {crates : Crates} {event : RpcEvent} {e ledger : Int64}
    {data : ScVal} {name : String} {ws : List Write} {r : Except Error Bool}
    (h : Dispatched crates event e ledger data name ws r) (hname : name = "escrow_created")
    {b : Bool} (hr : r = .ok b) :
    ∃ a ms ws', createdEscrow crates event e ledger data = .ok a ∧ milestonesOf data = .ok ms ∧
      ws = .upsertEscrow a :: ws' ∧
      List.Forall₂ (fun m w => milestoneWrite e m = .ok w) ms ws' := by
  cases h with
  | created ha hms hloop =>
    rename_i r'
    rcases r' with err | u
    · cases hr
    · exact ⟨_, _, _, ha, hms, rfl, hloop.forall₂⟩
  | createdOnly => cases hr
  | undecoded => cases hr
  | unrecognized h => exact absurd (hname ▸ by decide) h
  | status h =>
    subst hname
    cases h
  | released h =>
    subst hname
    cases h
  | _ => exact absurd hname (by decide)

/-- A submission that ends without an error sends its two statements. -/
theorem Dispatched.submitted_inv {crates : Crates} {event : RpcEvent} {e ledger : Int64}
    {data : ScVal} {name : String} {ws : List Write} {r : Except Error Bool}
    (h : Dispatched crates event e ledger data name ws r) (hname : name = "milestone_submitted")
    {b : Bool} (hr : r = .ok b) :
    ∃ m uri hash, milestoneIdOf data = .ok m ∧ submittedEvidence data = .ok (uri, hash) ∧
      ws = [.setEscrowStatus e "in_progress" ledger,
        .markMilestoneSubmitted e m.toInt32 uri hash event.ledgerClosedAt] := by
  cases h with
  | submitted hm hev => exact ⟨_, _, _, hm, hev, rfl⟩
  | undecoded => cases hr
  | unrecognized h => exact absurd (hname ▸ by decide) h
  | status h =>
    subst hname
    cases h
  | released h =>
    subst hname
    cases h
  | _ => exact absurd hname (by decide)

/-- A raised dispute that ends without an error sends its two statements. -/
theorem Dispatched.raised_inv {crates : Crates} {event : RpcEvent} {e ledger : Int64}
    {data : ScVal} {name : String} {ws : List Write} {r : Except Error Bool}
    (h : Dispatched crates event e ledger data name ws r) (hname : name = "dispute_raised")
    {b : Bool} (hr : r = .ok b) :
    ∃ m raisedBy reason, milestoneIdOf data = .ok m ∧
      (mapGet data "reason").bind scValToString = .ok reason ∧
      ws = [.setMilestoneStatus e m.toInt32 "disputed",
        .insertDispute e m.toInt32 raisedBy reason] := by
  cases h with
  | raised hm _ hreason => exact ⟨_, _, _, hm, hreason, rfl⟩
  | undecoded => cases hr
  | unrecognized h => exact absurd (hname ▸ by decide) h
  | status h =>
    subst hname
    cases h
  | released h =>
    subst hname
    cases h
  | _ => exact absurd hname (by decide)

/-! ### `process_event` -/

section ProcessEvent

variable {crates : Crates} {event : RpcEvent}

/-- The ledger of an event as the columns hold it. -/
def RpcEvent.ledgerI64 (event : RpcEvent) : Int64 := event.ledger.toUInt64.toInt64

/-- An event whose topics or data do not decode sends nothing. -/
theorem processEvent_of_error {err : Error} (h : decodeHead crates event = .error err) :
    processEvent crates event = .fail err := by
  simp [processEvent, h]

/-- The statements of an event whose topics and data decode are those of the dispatch. -/
theorem processEvent_writes {head : EventHead} (h : decodeHead crates event = .ok head) :
    (processEvent crates event).writes =
      (dispatch crates event head.name head.escrowId.toInt64 event.ledgerI64 head.data).writes := by
  simp only [processEvent, h, RpcEvent.ledgerI64, Script.bind_eq_bind, Script.liftM_ok,
    Script.done_bind, Script.writes_bind]
  split <;> simp

/-- An event whose topics and data decode ends as the dispatch does. -/
theorem processEvent_outcome {head : EventHead} (h : decodeHead crates event = .ok head) :
    (processEvent crates event).outcome =
      (dispatch crates event head.name head.escrowId.toInt64 event.ledgerI64
        head.data).outcome.map fun b => if b then some (head.escrowId.toInt64, head.name) else none
      := by
  simp only [processEvent, h, RpcEvent.ledgerI64, Script.bind_eq_bind, Script.liftM_ok,
    Script.done_bind, Script.outcome_bind]
  rcases (dispatch crates event head.name head.escrowId.toInt64 event.ledger.toUInt64.toInt64
    head.data).outcome with err | b
  · rfl
  · rfl

/-- An event whose topics and data decode is dispatched on its name. -/
theorem processEvent_spec {head : EventHead} (h : decodeHead crates event = .ok head) :
    ∃ r, Dispatched crates event head.escrowId.toInt64 event.ledgerI64 head.data head.name
        (processEvent crates event).writes r ∧
      (processEvent crates event).outcome =
        r.map fun b => if b then some (head.escrowId.toInt64, head.name) else none := by
  refine ⟨_, ?_, processEvent_outcome h⟩
  rw [processEvent_writes h]
  exact dispatch_spec crates event head.escrowId.toInt64 event.ledgerI64 head.data head.name

/-- An event that sends a statement decodes, and is dispatched. -/
theorem exists_dispatched_of_mem {w : Write} (hw : w ∈ (processEvent crates event).writes) :
    ∃ head r, decodeHead crates event = .ok head ∧
      Dispatched crates event head.escrowId.toInt64 event.ledgerI64 head.data head.name
        (processEvent crates event).writes r := by
  rcases hhead : decodeHead crates event with err | head
  · rw [processEvent_of_error hhead] at hw
    cases hw
  · obtain ⟨r, hd, -⟩ := processEvent_spec hhead
    exact ⟨head, r, rfl, hd⟩

/-- An event that ends without an error decodes, and its dispatch ends without one. -/
theorem exists_dispatched_of_ok {o : Option (Int64 × String)}
    (h : (processEvent crates event).outcome = .ok o) :
    ∃ head b, decodeHead crates event = .ok head ∧
      Dispatched crates event head.escrowId.toInt64 event.ledgerI64 head.data head.name
        (processEvent crates event).writes (.ok b) ∧
      o = if b then some (head.escrowId.toInt64, head.name) else none := by
  rcases hhead : decodeHead crates event with err | head
  · rw [processEvent_of_error hhead] at h
    cases h
  obtain ⟨r, hd, hout⟩ := processEvent_spec hhead
  rw [hout] at h
  rcases r with err | b
  · cases h
  · exact ⟨head, b, rfl, hd, (Except.ok.inj h).symm⟩

/-- The statements of a recognized event are all admitted where its escrow exists, or is
created by them. -/
theorem processEvent_ready {e : Int64} {name : String}
    (h : (processEvent crates event).outcome = .ok (some (e, name))) {v : View}
    (hv : (v.escrow e).isSome = true ∨
      ∃ a, .upsertEscrow a ∈ (processEvent crates event).writes) :
    v.Ready (processEvent crates event).writes := by
  obtain ⟨head, b, -, hd, heq⟩ := exists_dispatched_of_ok h
  cases b with
  | false => cases heq
  | true =>
    obtain ⟨rfl, -⟩ := Prod.mk.inj (Option.some.inj heq)
    exact hd.ready hv

/-- Every statement of an event is about the escrow its topic names. -/
theorem processEvent_escrowId {head : EventHead} (h : decodeHead crates event = .ok head)
    {w : Write} (hw : w ∈ (processEvent crates event).writes) :
    w.escrowId = head.escrowId.toInt64 := by
  obtain ⟨r, hd, -⟩ := processEvent_spec h
  exact (hd.about hw).1

/-- A statement of an event carries no ledger but the event's. -/
theorem processEvent_ledger {w : Write} (hw : w ∈ (processEvent crates event).writes)
    {l : Int64} (hl : l ∈ w.ledger?) : l = event.ledgerI64 := by
  obtain ⟨head, r, -, hd⟩ := exists_dispatched_of_mem hw
  exact (hd.about hw).2 l hl

end ProcessEvent

end ConcordBackend
