import ConcordBackend.Indexer.EventLog
import ConcordBackend.Indexer.Process
import ConcordBackend.Library.Register

/-!
# The escrow status is a register

The two statements that write the status of an escrow guard it differently: the conflict
branch of `upsert_escrow` compares `EXCLUDED` with the row, `set_escrow_status` selects rows
by their ledger. Both offer the row, as a register of ledger and status, what they bind
(`View.register_run`), so the order in which events of different ledgers are processed does
not show in the end (`status_last_ledger_wins`).
-/

namespace ConcordBackend

/-- The register in an escrow row: the ledger of its status, and the status. -/
def EscrowRow.register (r : EscrowRow) : Int × String := (r.updatedLedger.toInt, r.status)

@[simp] theorem EscrowRow.register_unclocked (r : EscrowRow) :
    r.unclocked.register = r.register := rfl

/-- What a write offers the register of its escrow. -/
def Write.offer? : Write → Option (Int × String)
  | upsertEscrow a => some (a.ledger.toInt, a.status)
  | setEscrowStatus _ status ledger => some (ledger.toInt, status)
  | _ => none

/-- The guard of both statements is that of the register. -/
theorem EscrowRow.register_offer (status : String) (ledger : Int64) (r : EscrowRow) :
    (r.offer status ledger).register = Register.offer (ledger.toInt, status) r.register := by
  by_cases hle : r.updatedLedger ≤ ledger
  · have hle' : r.updatedLedger.toInt ≤ ledger.toInt := Int64.le_iff_toInt_le.mp hle
    simp [EscrowRow.offer, Register.offer, register, overwrite, hle, hle']
  · have hle' : ¬ r.updatedLedger.toInt ≤ ledger.toInt := fun h =>
      hle (Int64.le_iff_toInt_le.mpr h)
    simp [EscrowRow.offer, Register.offer, register, hle, hle']

/-- A write leaves an escrow row that exists in place, and its register takes what the write
offers it. -/
theorem View.register_apply (w : Write) {v : View} {e : Int64} {r : EscrowRow}
    (hr : v.escrow e = some r) : ∃ r', (v.apply w).escrow e = some r' ∧
      (w.escrowId = e → r'.register =
        Replay.run Register.offer w.offer?.toList r.register) ∧
      (w.escrowId ≠ e → r' = r) := by
  cases w with
  | upsertEscrow a =>
    by_cases ha : a.id = e
    · refine ⟨r.offer a.status a.ledger, ?_, fun _ => r.register_offer _ _, fun h => absurd ha h⟩
      simp [apply, Write.onEscrow, ha, hr]
    · exact ⟨r, by simp [apply, Write.onEscrow, ha, hr], fun h => absurd h ha, fun _ => rfl⟩
  | setEscrowStatus id status ledger =>
    by_cases hid : id = e
    · refine ⟨r.offer status ledger, ?_, fun _ => r.register_offer _ _, fun h => absurd hid h⟩
      simp [apply, Write.onEscrow, hid, hr]
    · exact ⟨r, by simp [apply, Write.onEscrow, hid, hr], fun h => absurd h hid, fun _ => rfl⟩
  | _ => exact ⟨r, hr, fun _ => rfl, fun _ => rfl⟩

/-- **The row is a register.** Writes about an escrow run its register. -/
theorem View.register_run {ws : List Write} {e : Int64} (hws : ∀ w ∈ ws, w.escrowId = e)
    {v : View} {r : EscrowRow} (hr : v.escrow e = some r) :
    ∃ r', (View.run ws v).escrow e = some r' ∧
      r'.register = Replay.run Register.offer (ws.filterMap Write.offer?) r.register := by
  induction ws generalizing v r with
  | nil => exact ⟨r, hr, rfl⟩
  | cons w ws ih =>
    obtain ⟨r₁, hr₁, hreg, -⟩ := View.register_apply w hr
    obtain ⟨r', hr', hreg'⟩ := ih (fun w' hw' => hws w' (List.mem_cons_of_mem w hw')) hr₁
    refine ⟨r', hr', hreg'.trans ?_⟩
    rw [hreg (hws w List.mem_cons_self), ← Replay.run_append]
    rcases hoff : w.offer? with _ | o
    · rw [List.filterMap_cons_none hoff]
      rfl
    · rw [List.filterMap_cons_some hoff]
      rfl

/-! ### The events that carry a status -/

/-- `event` is about escrow `e`, and processing it offers the escrow `status`. -/
inductive StatusBearing (crates : Crates) (e : UInt64) (event : RpcEvent) : String → Prop where
  /-- a creation whose escrow row decodes, whether or not the escrow is there already -/
  | created {head : EventHead} {a : UpsertEscrow} (hhead : decodeHead crates event = .ok head)
      (he : head.escrowId = e) (hname : head.name = "escrow_created")
      (ha : createdEscrow crates event e.toInt64 event.ledgerI64 head.data = .ok a) :
      StatusBearing crates e event "created"
  | submitted {head : EventHead} {m : UInt32} {evidence : Option String × Option String}
      (hhead : decodeHead crates event = .ok head) (he : head.escrowId = e)
      (hname : head.name = "milestone_submitted") (hm : milestoneIdOf head.data = .ok m)
      (hev : submittedEvidence head.data = .ok evidence) :
      StatusBearing crates e event "in_progress"
  /-- `escrow_funded`, `escrow_cancelled`, `escrow_mutually_cancelled`, `escrow_completed` -/
  | status {head : EventHead} {status : String} (hhead : decodeHead crates event = .ok head)
      (he : head.escrowId = e) (hstatus : statusOf head.name = some status) :
      StatusBearing crates e event status

section Offers

variable {crates : Crates} {e : UInt64} {event : RpcEvent} {status : String}

/-- A creation offers its escrow the status once, before its milestones. -/
private theorem offers_created {e ledger : Int64} {data : ScVal} {a : UpsertEscrow}
    (ha : createdEscrow crates event e ledger data = .ok a) :
    (dispatch crates event "escrow_created" e ledger data).writes.filterMap Write.offer? =
      [(a.ledger.toInt, a.status)] := by
  have hoffer : (Write.upsertEscrow a).offer? = some (a.ledger.toInt, a.status) := rfl
  rcases hms : milestonesOf data with err | ms
  · rw [dispatch_createdOnly ha hms]
    rfl
  obtain ⟨ws, r, hloop, hwrites, -⟩ := dispatch_created ha hms
  have hnone : ws.filterMap Write.offer? = [] := by
    refine List.filterMap_eq_nil_iff.mpr fun w hw => ?_
    obtain ⟨m, -, hm⟩ := hloop.mem hw
    obtain ⟨deadline, -, rfl⟩ := milestoneWrite_eq hm
    rfl
  rw [hwrites, List.filterMap_cons_some hoffer, hnone]

/-- **An event that carries a status offers it at its ledger**, and offers nothing else. -/
theorem StatusBearing.offers (h : StatusBearing crates e event status) :
    (processEvent crates event).writes.filterMap Write.offer? =
      [((event.ledger.toNat : Int), status)] := by
  rw [← toInt_ledgerI64]
  cases h with
  | @created head a hhead he hname ha =>
    subst he
    have hfrom := createdFrom_of_createdEscrow ha
    rw [processEvent_writes hhead, hname, offers_created ha, hfrom.ledger, hfrom.status]
  | @submitted head m evidence hhead he hname hm hev =>
    subst he
    rw [processEvent_writes hhead, hname]
    simp [dispatch_milestone_submitted, milestoneSubmitted, hm, hev, Write.offer?, Script.send]
  | @status head _ hhead he hstatus =>
    subst he
    rw [processEvent_writes hhead]
    unfold statusOf at hstatus
    split at hstatus
    on_goal 5 => cases hstatus
    all_goals
      rename_i hname
      obtain rfl := Option.some.inj hstatus
      rw [hname]
      rfl

theorem StatusBearing.escrowId (h : StatusBearing crates e event status) {w : Write}
    (hw : w ∈ (processEvent crates event).writes) : w.escrowId = e.toInt64 := by
  obtain ⟨head, hhead, rfl⟩ : ∃ head, decodeHead crates event = .ok head ∧ head.escrowId = e := by
    cases h with
    | created hhead he => exact ⟨_, hhead, he⟩
    | submitted hhead he => exact ⟨_, hhead, he⟩
    | status hhead he => exact ⟨_, hhead, he⟩
  exact processEvent_escrowId hhead hw

/-- The loop processes each of the events. -/
theorem writesOf_of_successful {crates : Crates} {events : List RpcEvent}
    (h : ∀ event ∈ events, event.inSuccessfulContractCall = true) :
    writesOf crates events = events.flatMap fun event => (processEvent crates event).writes := by
  rw [writesOf, List.filter_eq_self.mpr h]

/-- **A pass over status-bearing events runs their offers.** -/
theorem Processed.register {events : List RpcEvent} {db db' : Db}
    (h : Processed crates events db db')
    (hcall : ∀ event ∈ events, event.inSuccessfulContractCall = true)
    (hstatus : ∀ event ∈ events, ∃ status, StatusBearing crates e event status) {r : EscrowRow}
    (hr : db.getEscrow e.toInt64 = some r) :
    ∃ r', db'.getEscrow e.toInt64 = some r' ∧ r'.register =
      Replay.run Register.offer ((writesOf crates events).filterMap Write.offer?) r.register := by
  have habout : ∀ w ∈ writesOf crates events, w.escrowId = e.toInt64 := by
    rw [writesOf_of_successful hcall]
    intro w hw
    obtain ⟨event, hev, hw⟩ := List.mem_flatMap.mp hw
    obtain ⟨status, hst⟩ := hstatus event hev
    exact hst.escrowId hw
  have hrow : db.view.escrow e.toInt64 = some r.unclocked :=
    congrArg (Option.map EscrowRow.unclocked) hr
  have hready : db.view.Ready (writesOf crates events) :=
    View.ready_of_isSome (by rw [hrow]; rfl) habout
  obtain ⟨r₁, hr₁, hreg⟩ := View.register_run habout hrow
  rw [← h.view_run rfl hready] at hr₁
  obtain ⟨r', hr', rfl⟩ := Option.map_eq_some_iff.mp hr₁
  exact ⟨r', hr', hreg⟩

/-- The offers of status-bearing events, one for each. -/
theorem mem_offers_iff {events : List RpcEvent}
    (hcall : ∀ event ∈ events, event.inSuccessfulContractCall = true)
    (hstatus : ∀ event ∈ events, ∃ status, StatusBearing crates e event status)
    {o : Int × String} : o ∈ (writesOf crates events).filterMap Write.offer? ↔
      ∃ event ∈ events, ∃ status, StatusBearing crates e event status ∧
        o = ((event.ledger.toNat : Int), status) := by
  rw [writesOf_of_successful hcall, List.filterMap_flatMap, List.mem_flatMap]
  constructor
  · rintro ⟨event, hev, ho⟩
    obtain ⟨status, hst⟩ := hstatus event hev
    rw [hst.offers] at ho
    exact ⟨event, hev, status, hst, List.mem_singleton.mp ho⟩
  · rintro ⟨event, hev, status, hst, rfl⟩
    refine ⟨event, hev, ?_⟩
    rw [hst.offers]
    exact List.mem_singleton_self _

/-- The stamps of the offers are the ledgers of the events. -/
theorem offers_fst {events : List RpcEvent}
    (hcall : ∀ event ∈ events, event.inSuccessfulContractCall = true)
    (hstatus : ∀ event ∈ events, ∃ status, StatusBearing crates e event status) :
    ((writesOf crates events).filterMap Write.offer?).map Prod.fst =
      events.map fun event => (event.ledger.toNat : Int) := by
  rw [writesOf_of_successful hcall, List.filterMap_flatMap]
  induction events with
  | nil => rfl
  | cons event events ih =>
    obtain ⟨status, hst⟩ := hstatus event List.mem_cons_self
    rw [List.flatMap_cons, List.map_append, hst.offers, List.map_cons,
      ih (fun ev hev => hcall ev (List.mem_cons_of_mem _ hev)) fun ev hev =>
        hstatus ev (List.mem_cons_of_mem _ hev)]
    rfl

/-- Events with distinct ledgers make offers with distinct stamps. -/
theorem offers_nodup {events : List RpcEvent}
    (hcall : ∀ event ∈ events, event.inSuccessfulContractCall = true)
    (hstatus : ∀ event ∈ events, ∃ status, StatusBearing crates e event status)
    (hledgers : (events.map RpcEvent.ledger).Nodup) :
    (((writesOf crates events).filterMap Write.offer?).map Prod.fst).Nodup := by
  rw [offers_fst hcall hstatus]
  have hnd := hledgers.map (f := fun l : UInt32 => (l.toNat : Int)) fun l l' hl =>
    UInt32.toNat_inj.mp (Int.ofNat_inj.mp hl)
  rwa [List.map_map] at hnd

/-- The event with the greatest ledger makes the latest offer, unless the row's own is later. -/
theorem latest_of_top {events : List RpcEvent}
    (hcall : ∀ event ∈ events, event.inSuccessfulContractCall = true)
    (hstatus : ∀ event ∈ events, ∃ status, StatusBearing crates e event status)
    {top : RpcEvent} (htop : top ∈ events) (hmax : ∀ event ∈ events, event.ledger ≤ top.ledger)
    (hst : StatusBearing crates e top status) (r : EscrowRow) :
    Register.Latest ((writesOf crates events).filterMap Write.offer?) r.register
      (if r.updatedLedger ≤ top.ledgerI64 then (top.ledgerI64.toInt, status) else r.register) := by
  have hoffer : (top.ledgerI64.toInt, status) ∈
      (writesOf crates events).filterMap Write.offer? := by
    rw [toInt_ledgerI64]
    exact (mem_offers_iff hcall hstatus).mpr ⟨top, htop, status, hst, rfl⟩
  have hle : ∀ o ∈ (writesOf crates events).filterMap Write.offer?,
      o.1 ≤ top.ledgerI64.toInt := by
    intro o ho
    obtain ⟨event, hev, _, -, rfl⟩ := (mem_offers_iff hcall hstatus).mp ho
    rw [toInt_ledgerI64]
    exact Int.ofNat_le.mpr (UInt32.le_iff_toNat_le.mp (hmax event hev))
  split
  · rename_i hr
    exact .taken hoffer (Int64.le_iff_toInt_le.mp hr) hle
  · rename_i hr
    refine .kept fun o ho => (hle o ho).trans_lt (not_le.mp fun h => hr ?_)
    exact Int64.le_iff_toInt_le.mpr h

end Offers

/-- The status and the ledger a register stands for. -/
theorem EscrowRow.status_ledger_eq {r : EscrowRow} {status : String} {ledger : Int64}
    (h : r.register = (ledger.toInt, status)) :
    (r.status, r.updatedLedger) = (status, ledger) := by
  obtain ⟨hledger, hstatus⟩ := Prod.mk.inj h
  rw [hstatus, Int64.toInt_inj.mp hledger]

/-- Whatever the service does next, it does not take an escrow row back to an older ledger. -/
theorem updatedLedger_le_of_handler {E : Env} {op : ServiceOp} {w w' : World E} {reply : op.Reply}
    (h : E.handler op w reply w') {e : Int64} {r : EscrowRow} (hr : w.db.getEscrow e = some r) :
    ∃ r', w'.db.getEscrow e = some r' ∧ r.updatedLedger ≤ r'.updatedLedger := by
  have hrow : w.db.view.escrow e = some r.unclocked :=
    congrArg (Option.map EscrowRow.unclocked) hr
  suffices hview : ∃ r₁, w'.db.view.escrow e = some r₁ ∧ r.register.1 ≤ r₁.register.1 by
    obtain ⟨r₁, hr₁, hle⟩ := hview
    obtain ⟨r', hr', rfl⟩ := Option.map_eq_some_iff.mp hr₁
    exact ⟨r', hr', Int64.le_iff_toInt_le.mpr hle⟩
  rw [(handler_spec h).1]
  rcases executed? ⟨op, reply⟩ with _ | wr
  · exact ⟨r.unclocked, hrow, le_rfl⟩
  obtain ⟨r₁, hr₁, hreg, hne⟩ := View.register_apply wr hrow
  refine ⟨r₁, hr₁, ?_⟩
  by_cases he : wr.escrowId = e
  · rw [hreg he, EscrowRow.register_unclocked]
    exact Replay.run_invariant Register.offer (I := fun x => r.register.1 ≤ x.1)
      (fun o _ x hx => hx.trans (Register.le_offer o x)) le_rfl
  · rw [hne he]
    exact le_rfl

/-- **Last ledger wins.** Status-bearing events of an escrow that exists, with distinct ledgers,
leave it in one status and ledger in whatever order they are processed: those of the event with
the greatest ledger, if it is not below the row's own, and else those the row had. No step
of the service decreases the ledger of a row. -/
theorem status_last_ledger_wins (crates : Crates) (e : UInt64) {events : List RpcEvent} {db : Db}
    {r : EscrowRow} (hr : db.getEscrow e.toInt64 = some r)
    (hcall : ∀ event ∈ events, event.inSuccessfulContractCall = true)
    (hstatus : ∀ event ∈ events, ∃ status, StatusBearing crates e event status)
    (hledgers : (events.map RpcEvent.ledger).Nodup) :
    (∃ final : String × Int64,
      (∀ order, order.Perm events → ∀ db', Processed crates order db db' →
        ∃ r', db'.getEscrow e.toInt64 = some r' ∧ (r'.status, r'.updatedLedger) = final) ∧
      (events = [] → final = (r.status, r.updatedLedger)) ∧
      ∀ top ∈ events, (∀ event ∈ events, event.ledger ≤ top.ledger) →
        ∀ status, StatusBearing crates e top status →
          final = if r.updatedLedger ≤ top.ledgerI64 then (status, top.ledgerI64)
            else (r.status, r.updatedLedger)) ∧
    ∀ {E : Env} {op : ServiceOp} {w w' : World E} {reply : op.Reply},
      E.handler op w reply w' → ∀ id row, w.db.getEscrow id = some row →
        ∃ row', w'.db.getEscrow id = some row' ∧ row.updatedLedger ≤ row'.updatedLedger := by
  refine ⟨?_, fun h id row hrow => updatedLedger_le_of_handler h hrow⟩
  obtain ⟨db₀, hdb₀⟩ := Processed.exists_of crates events db
  obtain ⟨r₀, hr₀, hreg₀⟩ := hdb₀.register hcall hstatus hr
  -- whatever is latest of the offers is what the given order ends in
  have hfinal : ∀ x, Register.Latest ((writesOf crates events).filterMap Write.offer?)
      r.register x → r₀.register = x := by
    intro x hx
    rw [hreg₀]
    exact (Register.latest_run _ _).unique (offers_nodup hcall hstatus hledgers) hx
  refine ⟨(r₀.status, r₀.updatedLedger), ?_, ?_, ?_⟩
  · intro order hperm db' hdb'
    have hcall' := fun event hev => hcall event (hperm.mem_iff.mp hev)
    have hstatus' := fun event hev => hstatus event (hperm.mem_iff.mp hev)
    obtain ⟨r', hr', hreg'⟩ := hdb'.register hcall' hstatus' hr
    refine ⟨r', hr', EscrowRow.status_ledger_eq (hfinal r'.register ?_).symm⟩
    rw [hreg']
    refine (Register.latest_run _ _).congr fun o => ?_
    rw [mem_offers_iff hcall' hstatus', mem_offers_iff hcall hstatus]
    simp only [hperm.mem_iff]
  · rintro rfl
    exact EscrowRow.status_ledger_eq (hfinal r.register (.kept fun o ho => by cases ho))
  · intro top htop hmax status hst
    have hlatest := hfinal _ (latest_of_top hcall hstatus htop hmax hst r)
    split
    · rename_i hle
      rw [if_pos hle] at hlatest
      exact EscrowRow.status_ledger_eq hlatest
    · rename_i hle
      rw [if_neg hle] at hlatest
      exact EscrowRow.status_ledger_eq hlatest

theorem statusBearing_createdEvent (contractId : String) (ledger : UInt32) :
    StatusBearing sampleCrates 1 (createdEvent contractId ledger) "created" :=
  .created (decodeHead_createdEvent contractId ledger) rfl rfl
    (createdEscrow_createdEvent contractId ledger)

theorem statusBearing_fundedEvent (contractId : String) (ledger : UInt32) :
    StatusBearing sampleCrates 1 (fundedEvent contractId ledger) "funded" :=
  .status (decodeHead_fundedEvent contractId ledger) rfl rfl

/-- A funding at ledger 7 and a creation delivered again at ledger 6, processed on an escrow
written at ledger 5 with the newer event first: the escrow ends funded at ledger 7. -/
theorem status_last_ledger_wins_sample : ∃ db',
    Processed sampleCrates [fundedEvent sampleContract 7, createdEvent sampleContract 6]
      (Db.migrated.upsertEscrow 0 (sampleEscrow sampleContract 5)) db' ∧
    ∃ r', db'.getEscrow 1 = some r' ∧ (r'.status, r'.updatedLedger) = ("funded", 7) := by
  obtain ⟨db', hdb'⟩ := Processed.exists_of sampleCrates
    [fundedEvent sampleContract 7, createdEvent sampleContract 6]
    (Db.migrated.upsertEscrow 0 (sampleEscrow sampleContract 5))
  have hr : (Db.migrated.upsertEscrow 0 (sampleEscrow sampleContract 5)).getEscrow
      (1 : UInt64).toInt64 = some ((sampleEscrow sampleContract 5).row 0) := rfl
  have hcall : ∀ event ∈ [fundedEvent sampleContract 7, createdEvent sampleContract 6],
      event.inSuccessfulContractCall = true := by
    simp [fundedEvent, createdEvent, sampleEvent]
  have hstatus : ∀ event ∈ [fundedEvent sampleContract 7, createdEvent sampleContract 6],
      ∃ status, StatusBearing sampleCrates 1 event status := by
    intro event hev
    simp only [List.mem_cons, List.not_mem_nil, or_false] at hev
    rcases hev with rfl | rfl
    · exact ⟨_, statusBearing_fundedEvent ..⟩
    · exact ⟨_, statusBearing_createdEvent ..⟩
  obtain ⟨⟨final, horder, -, hmax⟩, -⟩ :=
    status_last_ledger_wins sampleCrates 1 hr hcall hstatus (by decide)
  obtain ⟨r', hr', hfinal⟩ := horder _ (.refl _) db' hdb'
  have htop := hmax (fundedEvent sampleContract 7) List.mem_cons_self (by decide) _
    (statusBearing_fundedEvent ..)
  exact ⟨db', hdb', r', hr', hfinal.trans (htop.trans (by decide))⟩

end ConcordBackend
