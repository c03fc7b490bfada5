import ConcordBackend.Indexer.Stored
import ConcordBackend.Library.Casts
import ConcordBackend.Lists

/-!
# The numbers of an event

Escrow ids and review periods are `u64` on the chain and `BIGINT` in the tables, milestone ids
and basis points are `u32` and `INTEGER`; the code takes each from one to the other by `as`.
`sentNumbers` are the numbers on the chain behind the statements of an event. The statements
hold the same numbers if and only if these all fit their columns (`storesNumbers_iff`): a
number that does not fit is not rejected, it is stored as a negative one. In tables indexed
from numbers that fit, rows are found under their ids on the chain, and listed in the order
of these (`numbered_of_indexedBy`).
-/

namespace ConcordBackend

/-- The numbers on the chain behind one statement. -/
structure Numbers where
  escrowId : UInt64
  milestoneId : Option UInt32 := none
  reviewPeriod : Option UInt64 := none
  providerBps : Option UInt32 := none
  deriving DecidableEq, Repr

/-- The integers of one statement: escrow id, milestone id, review period and basis points. -/
abbrev Columns := Int × Option Int × Option Int × Option Int

/-- The numbers as the integers they are. -/
def Numbers.exact (n : Numbers) : Columns :=
  (n.escrowId.toNat, n.milestoneId.map fun m => (m.toNat : Int),
    n.reviewPeriod.map fun p => (p.toNat : Int), n.providerBps.map fun b => (b.toNat : Int))

/-- The numbers after the casts of the code. -/
def Numbers.cast (n : Numbers) : Columns :=
  (n.escrowId.toInt64.toInt, n.milestoneId.map fun m => m.toInt32.toInt,
    n.reviewPeriod.map fun p => p.toInt64.toInt, n.providerBps.map fun b => b.toInt32.toInt)

/-- Each number fits its column. -/
structure Numbers.Fit (n : Numbers) : Prop where
  escrowId : n.escrowId.toNat < 2 ^ 63
  milestoneId : ∀ m ∈ n.milestoneId, m.toNat < 2 ^ 31
  reviewPeriod : ∀ p ∈ n.reviewPeriod, p.toNat < 2 ^ 63
  providerBps : ∀ b ∈ n.providerBps, b.toNat < 2 ^ 31

/-- The integers a write binds to its number columns. -/
def Write.columns : Write → Columns
  | upsertEscrow a => (a.id.toInt, none, some a.reviewPeriod.toInt, none)
  | setEscrowStatus e _ _ => (e.toInt, none, none, none)
  | upsertMilestone a => (a.escrowId.toInt, some a.milestoneId.toInt, none, none)
  | setMilestoneStatus e m _ => (e.toInt, some m.toInt, none, none)
  | markMilestoneSubmitted e m _ _ _ => (e.toInt, some m.toInt, none, none)
  | releaseMilestone e m _ => (e.toInt, some m.toInt, none, none)
  | insertDispute e m _ _ => (e.toInt, some m.toInt, none, none)
  | resolveDispute e m _ bps => (e.toInt, some m.toInt, none, bps.map Int32.toInt)

/-- A number that fits its column is the one the cast makes of it. -/
theorem Numbers.cast_eq_exact_iff {n : Numbers} : n.cast = n.exact ↔ n.Fit := by
  have h64 : ∀ {o : Option UInt64}, (o.map fun p => p.toInt64.toInt) =
      (o.map fun p => (p.toNat : Int)) ↔ ∀ p ∈ o, p.toNat < 2 ^ 63 := by
    rintro (_ | p)
    · simp
    · simp [UInt64.toInt_toInt64_eq_natCast]
  have h32 : ∀ {o : Option UInt32}, (o.map fun m => m.toInt32.toInt) =
      (o.map fun m => (m.toNat : Int)) ↔ ∀ m ∈ o, m.toNat < 2 ^ 31 := by
    rintro (_ | m)
    · simp
    · simp [UInt32.toInt_toInt32_eq_natCast]
  simp only [cast, exact, Prod.mk.injEq, h64, h32, UInt64.toInt_toInt64_eq_natCast, true_and]
  constructor
  · rintro ⟨he, hm, hp, hb⟩
    exact ⟨he, hm, hp, hb⟩
  · rintro ⟨he, hm, hp, hb⟩
    exact ⟨he, hm, hp, hb⟩

/-! ### The numbers of an event on the chain -/

/-- The deadline of a listed milestone converts. -/
def DecodedMilestone.converts (m : DecodedMilestone) : Bool :=
  (unixSecondsToDatetime m.deadline).toOption.isSome

/-- The basis points of a `Split`. -/
def splitBps : ScVal → Option UInt32
  | .vec (some (.symbol sym :: .u32 bps :: _)) =>
    if StringM.display sym = "Split" then some bps else none
  | _ => none

/-- The numbers of an `escrow_created`: of the escrow, and of the listed milestones up to the
first whose deadline does not convert. -/
def createdNumbers (crates : Crates) (event : RpcEvent) (head : EventHead) : List Numbers :=
  match createdEscrow crates event head.escrowId.toInt64 event.ledgerI64 head.data with
  | .error _ => []
  | .ok _ =>
    { escrowId := head.escrowId,
      reviewPeriod := ((mapGet head.data "review_period").bind scValToU64).toOption } ::
    (((milestonesOf head.data).toOption.getD []).takeWhile DecodedMilestone.converts).map
      fun m => { escrowId := head.escrowId, milestoneId := some m.id }

/-- The numbers of the statements of an event, as the event carries them. -/
def sentNumbers (crates : Crates) (event : RpcEvent) (head : EventHead) : List Numbers :=
  let escrow : Numbers := { escrowId := head.escrowId }
  let milestone (m : UInt32) : Numbers := { escrowId := head.escrowId, milestoneId := some m }
  match head.name with
  | "escrow_created" => createdNumbers crates event head
  | "milestone_submitted" =>
    match milestoneIdOf head.data, submittedEvidence head.data with
    | .ok m, .ok _ => [escrow, milestone m]
    | _, _ => []
  | "milestone_approved" => (milestoneIdOf head.data).toOption.toList.map milestone
  | "milestone_auto_released" => (milestoneIdOf head.data).toOption.toList.map milestone
  | "milestone_expired" => (milestoneIdOf head.data).toOption.toList.map milestone
  | "dispute_raised" =>
    match milestoneIdOf head.data, (mapGet head.data "raised_by").bind (scValToAddress crates),
      (mapGet head.data "reason").bind scValToString with
    | .ok m, .ok _, .ok _ => [milestone m, milestone m]
    | _, _, _ => []
  | "dispute_resolved" =>
    match milestoneIdOf head.data, mapGet head.data "resolution" with
    | .ok m, .ok resolution =>
      match decodeResolution resolution with
      | .ok _ => [milestone m, { milestone m with providerBps := splitBps resolution }]
      | .error _ => []
    | _, _ => []
  | name => if (statusOf name).isSome then [escrow] else []

/-- The basis points of a resolution that decodes are those of its `Split`. -/
theorem decodeResolution_bps {val : ScVal} {kind : String} {bps : Option Int32}
    (h : decodeResolution val = .ok (kind, bps)) : bps = (splitBps val).map UInt32.toInt32 := by
  unfold decodeResolution at h
  split at h
  · cases h
  · rename_i sym payload
    split at h
    · rename_i hsym
      obtain rfl := (Prod.mk.inj (Except.ok.inj h)).2
      rcases payload with _ | ⟨v, rest⟩
      · rfl
      · cases v <;> simp [splitBps, hsym]
    · rename_i hsym
      obtain rfl := (Prod.mk.inj (Except.ok.inj h)).2
      rcases payload with _ | ⟨v, rest⟩
      · rfl
      · cases v <;> simp [splitBps, hsym]
    · rename_i hsym
      rcases payload with _ | ⟨v, rest⟩
      · cases h
      · obtain ⟨b, hb, hval⟩ := Except.bind_eq_ok.mp h
        obtain rfl := (Prod.mk.inj (Except.ok.inj hval)).2
        cases v with
        | u32 v =>
          obtain rfl := Except.ok.inj hb
          simp [splitBps, hsym]
        | _ => cases hb
    · cases h
  · cases h
  · cases h

/-! ### The statements hold the cast numbers -/

section Dispatch

variable {crates : Crates} {event : RpcEvent} {head : EventHead}

/-- The statements of a milestone loop are those of the entries that convert, up to the first that
does not. -/
private theorem columns_of_loop {e : UInt64} {ms : List DecodedMilestone} {ws : List Write}
    {r : Except Error Unit} (h : MilestoneLoop e.toInt64 ms ws r) : ws.map Write.columns =
      ((ms.takeWhile DecodedMilestone.converts).map fun m =>
        ({ escrowId := e, milestoneId := some m.id } : Numbers)).map Numbers.cast := by
  induction h with
  | nil => rfl
  | @cons m w ms ws r hw _ ih =>
    obtain ⟨deadline, hd, rfl⟩ := milestoneWrite_eq hw
    have hconv : m.converts = true := by
      rw [DecodedMilestone.converts, hd]
      rfl
    rw [List.takeWhile_cons_of_pos hconv, List.map_cons, List.map_cons, List.map_cons, ih]
    rfl
  | @stop m ms err hw =>
    have hconv : ¬ m.converts = true := by
      rw [DecodedMilestone.converts, milestoneWrite_eq_error hw]
      exact Bool.false_ne_true
    rw [List.takeWhile_cons_of_neg hconv]
    rfl

private theorem columns_created :
    (dispatch crates event "escrow_created" head.escrowId.toInt64 event.ledgerI64
      head.data).writes.map Write.columns =
        (createdNumbers crates event head).map Numbers.cast := by
  unfold createdNumbers
  rcases ha : createdEscrow crates event head.escrowId.toInt64 event.ledgerI64 head.data with
    err | a
  · rw [dispatch_uncreated ha]
    rfl
  have hid := (createdFrom_of_createdEscrow ha).id
  obtain ⟨period, hperiod, hrow⟩ := (createdValues_of_createdEscrow ha).reviewPeriod
  have hcols : (Write.upsertEscrow a).columns = Numbers.cast
      { escrowId := head.escrowId, reviewPeriod := some period } := by
    simp [Write.columns, Numbers.cast, hid, hrow]
  rw [hperiod, List.map_cons]
  rcases hms : milestonesOf head.data with err | ms
  · rw [dispatch_createdOnly ha hms]
    exact congrArg (· :: []) hcols
  · obtain ⟨ws, r, hloop, hwrites, -⟩ := dispatch_created ha hms
    rw [hwrites, List.map_cons, hcols, columns_of_loop hloop]
    rfl

private theorem columns_released {via : String} :
    ((milestoneReleased head.escrowId.toInt64 head.data via).bind fun _ =>
      .done true).writes.map Write.columns =
        ((milestoneIdOf head.data).toOption.toList.map fun m =>
          ({ escrowId := head.escrowId, milestoneId := some m } : Numbers)).map Numbers.cast := by
  simp only [milestoneReleased, Script.bind_eq_bind]
  rcases milestoneIdOf head.data with err | m
  · rfl
  · rfl

private theorem columns_submitted (hname : head.name = "milestone_submitted") :
    (dispatch crates event "milestone_submitted" head.escrowId.toInt64 event.ledgerI64
      head.data).writes.map Write.columns =
        (sentNumbers crates event head).map Numbers.cast := by
  simp only [sentNumbers, hname, dispatch_milestone_submitted, milestoneSubmitted,
    Script.bind_eq_bind]
  rcases milestoneIdOf head.data with err | m
  · rfl
  rcases submittedEvidence head.data with err | ev
  · rfl
  · rfl

private theorem columns_expired (hname : head.name = "milestone_expired") :
    (dispatch crates event "milestone_expired" head.escrowId.toInt64 event.ledgerI64
      head.data).writes.map Write.columns =
        (sentNumbers crates event head).map Numbers.cast := by
  simp only [sentNumbers, hname, dispatch_milestone_expired, milestoneExpired,
    Script.bind_eq_bind]
  rcases milestoneIdOf head.data with err | m
  · rfl
  · rfl

private theorem columns_raised (hname : head.name = "dispute_raised") :
    (dispatch crates event "dispute_raised" head.escrowId.toInt64 event.ledgerI64
      head.data).writes.map Write.columns =
        (sentNumbers crates event head).map Numbers.cast := by
  simp only [sentNumbers, hname, dispatch_dispute_raised, disputeRaised, Script.bind_eq_bind]
  rcases milestoneIdOf head.data with err | m
  · rfl
  rcases mapGet head.data "raised_by" with err | v
  · rfl
  rcases haddr : scValToAddress crates v with err | raisedBy
  · simp [haddr, Except.bind]
  rcases mapGet head.data "reason" with err | v'
  · simp [haddr, Except.bind]
  rcases hstr : scValToString v' with err | reason
  · simp [haddr, hstr, Except.bind]
  · simp [haddr, hstr, Except.bind, Script.send, Write.columns, Numbers.cast]

private theorem columns_resolved (hname : head.name = "dispute_resolved") :
    (dispatch crates event "dispute_resolved" head.escrowId.toInt64 event.ledgerI64
      head.data).writes.map Write.columns =
        (sentNumbers crates event head).map Numbers.cast := by
  simp only [sentNumbers, hname, dispatch_dispute_resolved, disputeResolved, Script.bind_eq_bind]
  rcases milestoneIdOf head.data with err | m
  · rfl
  rcases mapGet head.data "resolution" with err | v
  · rfl
  rcases hres : decodeResolution v with err | ⟨kind, bps⟩
  · simp [hres]
  · obtain rfl := decodeResolution_bps hres
    simp only [Script.liftM_ok, Script.done_bind, hres]
    simp [Script.send, Write.columns, Numbers.cast, Function.comp_def]

/-- **The statements of an event** hold the numbers of the event after the casts, in order. -/
theorem columns_of_event (hhead : decodeHead crates event = .ok head) :
    (processEvent crates event).writes.map Write.columns =
      (sentNumbers crates event head).map Numbers.cast := by
  rw [processEvent_writes hhead]
  by_cases hname : head.name ∈ recognizedNames
  · -- the names in the order of the `match`; those of a status carry the escrow's numbers alone
    simp only [recognizedNames, List.mem_cons, List.not_mem_nil, or_false] at hname
    rcases hname with hn | hn | hn | hn | hn | hn | hn | hn | hn | hn | hn
    · rw [hn, columns_created]
      simp only [sentNumbers, hn]
    · simp only [sentNumbers, hn]
      rfl
    · rw [hn, columns_submitted hn]
    · simp only [sentNumbers, hn]
      exact columns_released
    · simp only [sentNumbers, hn]
      exact columns_released
    · rw [hn, columns_expired hn]
    · simp only [sentNumbers, hn]
      rfl
    · simp only [sentNumbers, hn]
      rfl
    · simp only [sentNumbers, hn]
      rfl
    · rw [hn, columns_raised hn]
    · rw [hn, columns_resolved hn]
  · -- a name that is not recognized sends nothing and carries no number
    have hd : dispatch crates event head.name head.escrowId.toInt64 event.ledgerI64 head.data =
        .done false := dispatch_unrecognized hname
    have hnone : sentNumbers crates event head = [] := by
      simp only [recognizedNames, List.mem_cons, List.not_mem_nil, or_false, not_or] at hname
      simp [sentNumbers, statusOf, hname]
    rw [hd, hnone]
    rfl

end Dispatch

/-- What the processing of an event should do with its numbers. -/
structure StoresNumbers (crates : Crates) (event : RpcEvent) (head : EventHead) : Prop where
  /-- nothing is written under another number: the statements sent hold the event's own, one
  after the other -/
  exact : (processEvent crates event).writes.map Write.columns <+:
    (sentNumbers crates event head).map Numbers.exact
  /-- a number that does not fit its column is rejected -/
  rejected : ∀ n ∈ sentNumbers crates event head, ¬ n.Fit →
    ∃ err, (processEvent crates event).outcome = .error err

/-- The statements of an event hold its numbers exactly where these fit. -/
theorem storesNumbers_iff {crates : Crates} {event : RpcEvent} {head : EventHead}
    (hhead : decodeHead crates event = .ok head) :
    StoresNumbers crates event head ↔ ∀ n ∈ sentNumbers crates event head, n.Fit := by
  have hcols := columns_of_event hhead
  constructor
  · intro hst n hn
    have hlen : ((processEvent crates event).writes.map Write.columns).length =
        ((sentNumbers crates event head).map Numbers.exact).length := by
      rw [hcols, List.length_map, List.length_map]
    have heq := hst.exact.eq_of_length hlen
    rw [hcols] at heq
    exact Numbers.cast_eq_exact_iff.mp (List.map_inj_left.mp heq n hn)
  · intro hfit
    have hexact := List.map_congr_left fun n hn => Numbers.cast_eq_exact_iff.mpr (hfit n hn)
    exact ⟨hcols.trans hexact ▸ List.prefix_rfl, fun n hn hnot => absurd (hfit n hn) hnot⟩

/-! ### Tables indexed from numbers that fit -/

/-- The states reached from the migrated database by processing events of `log`, in whatever order
and however often, wherever the processing of each is cut off. -/
inductive IndexedFrom (E : Env) (crates : Crates) (log : List RpcEvent) : World E → Prop where
  | start (rpc : E.Rpc) : IndexedFrom E crates log ⟨Db.migrated, rpc⟩
  | event {w w' : World E} {event : RpcEvent} {tr : Service.Trace} {q : ServiceM Unit}
      (h : IndexedFrom E crates log w) (hev : event ∈ log)
      (hrun : Runs E.handler (runEvent crates event) w tr q w') : IndexedFrom E crates log w'

/-- `n` are numbers of a statement of an event of the log. -/
def FromLog (crates : Crates) (log : List RpcEvent) (n : Numbers) : Prop :=
  ∃ event ∈ log, ∃ head, decodeHead crates event = .ok head ∧ n ∈ sentNumbers crates event head

/-- The rows of a view are keyed by numbers of the chain. -/
structure View.Numbered (crates : Crates) (log : List RpcEvent) (v : View) : Prop where
  escrow : ∀ e, (v.escrow e).isSome = true →
    ∃ n, FromLog crates log n ∧ e.toInt = n.escrowId.toNat
  milestone : ∀ k, (v.milestone k).isSome = true → ∃ n m, FromLog crates log n ∧
    n.milestoneId = some m ∧ k.1.toInt = n.escrowId.toNat ∧ k.2.toInt = m.toNat

section Numbered

variable {E : Env} {crates : Crates} {log : List RpcEvent} {w : World E}

/-- The numbers of a statement of the log. -/
private theorem exact_of_mem (hfit : ∀ n, FromLog crates log n → n.Fit) {event : RpcEvent}
    (hev : event ∈ log) {wr : Write} (hwr : wr ∈ (processEvent crates event).writes) :
    ∃ n, FromLog crates log n ∧ wr.columns = n.exact := by
  obtain ⟨head, r, hhead, -⟩ := exists_dispatched_of_mem hwr
  have hmem : wr.columns ∈ (sentNumbers crates event head).map Numbers.cast := by
    rw [← columns_of_event hhead]
    exact List.mem_map_of_mem hwr
  obtain ⟨n, hn, hcols⟩ := List.mem_map.mp hmem
  have hlog : FromLog crates log n := ⟨event, hev, head, hhead, hn⟩
  exact ⟨n, hlog, by rw [← hcols, Numbers.cast_eq_exact_iff.mpr (hfit n hlog)]⟩

theorem View.numbered_of_indexedFrom (hfit : ∀ n, FromLog crates log n → n.Fit)
    (h : IndexedFrom E crates log w) : w.db.view.Numbered crates log := by
  induction h with
  | start rpc => exact ⟨fun _ he => (by cases he), fun _ hk => (by cases hk)⟩
  | @event w w' event tr q _ hev hrun ih =>
    have hmem := (executed_of_runEvent_isPrefix hrun).subset
    rw [view_of_runs hrun]
    constructor
    · intro e he
      rcases hbefore : w.db.view.escrow e with _ | row
      · obtain ⟨row, hrow⟩ := Option.isSome_iff_exists.mp he
        obtain ⟨a, ha, rfl, -⟩ := View.escrow_of_run hbefore hrow
        obtain ⟨n, hlog, hcols⟩ := exact_of_mem hfit hev (hmem ha)
        exact ⟨n, hlog, (Prod.mk.inj hcols).1⟩
      · exact ih.escrow e (by rw [hbefore]; rfl)
    · intro k hk
      rcases hbefore : w.db.view.milestone k with _ | row
      · obtain ⟨row, hrow⟩ := Option.isSome_iff_exists.mp hk
        obtain ⟨a, ha, rfl, -⟩ := View.milestone_of_run hbefore hrow
        obtain ⟨n, hlog, hcols⟩ := exact_of_mem hfit hev (hmem ha)
        obtain ⟨he, hm⟩ := Prod.mk.inj hcols
        obtain ⟨m, hnm, hval⟩ := Option.map_eq_some_iff.mp (Prod.mk.inj hm).1.symm
        exact ⟨n, m, hlog, hnm, he, hval.symm⟩
      · exact ih.milestone k (by rw [hbefore]; rfl)

/-- An escrow indexed from numbers that fit is found under its id on the chain. -/
theorem found_of_indexedFrom (hfit : ∀ n, FromLog crates log n → n.Fit)
    (h : IndexedFrom E crates log w) {row : EscrowRow} (hrow : row ∈ w.db.escrows.rows) :
    ∃ n, FromLog crates log n ∧ row.id.toInt = n.escrowId.toNat ∧
      w.db.getEscrow row.id = some row := by
  have hfind : w.db.getEscrow row.id = some row := Table.mem_rows_iff.mp hrow
  have hview : w.db.view.escrow row.id = some row.unclocked :=
    congrArg (Option.map EscrowRow.unclocked) hfind
  obtain ⟨n, hlog, hid⟩ := (View.numbered_of_indexedFrom hfit h).escrow row.id (by rw [hview]; rfl)
  exact ⟨n, hlog, hid, hfind⟩

/-- A milestone indexed from numbers that fit has its id on the chain. -/
private theorem id_of_listed (hfit : ∀ n, FromLog crates log n → n.Fit)
    (h : IndexedFrom E crates log w) {e : Int64} {row : MilestoneRow}
    (hrow : row ∈ w.db.listMilestones e) :
    ∃ n m, FromLog crates log n ∧ n.milestoneId = some m ∧ e.toInt = n.escrowId.toNat ∧
      row.milestoneId = m.toInt32 ∧ row.milestoneId.toInt = (m.toNat : Int) := by
  obtain ⟨hmem, rfl⟩ := Db.mem_listMilestones.mp hrow
  have hview : w.db.view.milestone row.key = some row.unclocked :=
    congrArg (Option.map MilestoneRow.unclocked) (Table.mem_rows_iff.mp hmem)
  obtain ⟨n, m, hlog, hm, he, hval⟩ :=
    (View.numbered_of_indexedFrom hfit h).milestone row.key (by rw [hview]; rfl)
  have hcast := UInt32.toInt_toInt32_eq_natCast.mpr ⟨rfl, (hfit n hlog).milestoneId m hm⟩
  exact ⟨n, m, hlog, hm, he, Int32.toInt_inj.mp (hval.trans hcast.symm), hval⟩

/-- Milestones indexed from numbers that fit are listed in the order of their ids on the chain. -/
theorem listed_of_indexedFrom (hfit : ∀ n, FromLog crates log n → n.Fit)
    (h : IndexedFrom E crates log w) (e : Int64) : ∃ ids : List UInt32,
      (w.db.listMilestones e).map (fun row => row.milestoneId.toInt) =
        ids.map (fun id => (id.toNat : Int)) ∧
      ids.Pairwise (· < ·) ∧
      ∀ id ∈ ids, ∃ n, FromLog crates log n ∧ e.toInt = n.escrowId.toNat ∧
        n.milestoneId = some id := by
  have hval : ∀ row ∈ w.db.listMilestones e,
      row.milestoneId.toInt = (row.milestoneId.toUInt32.toNat : Int) := by
    intro row hrow
    obtain ⟨n, m, -, -, -, heq, hid⟩ := id_of_listed hfit h hrow
    rw [hid, heq]
    rfl
  refine ⟨(w.db.listMilestones e).map fun row => row.milestoneId.toUInt32, ?_, ?_, ?_⟩
  · rw [List.map_map]
    exact List.map_congr_left hval
  · rw [List.pairwise_map]
    refine (Db.pairwise_listMilestones w.db e).imp_of_mem fun {a b} ha hb hlt => ?_
    have hlt' : a.milestoneId.toInt < b.milestoneId.toInt := Int32.lt_iff_toInt_lt.mp hlt
    rw [hval a ha, hval b hb] at hlt'
    exact UInt32.lt_iff_toNat_lt.mpr (Int.ofNat_lt.mp hlt')
  · intro id hmem
    obtain ⟨row, hrow, rfl⟩ := List.mem_map.mp hmem
    obtain ⟨n, m, hlog, hm, he, heq, -⟩ := id_of_listed hfit h hrow
    exact ⟨n, hlog, he, by rw [hm, heq]; rfl⟩

end Numbered

/-- **Numbers of the chain.** An event is stored under its own numbers, and rejected where one of
them does not fit its column, if and only if all the numbers behind its statements fit. Where this
holds of every event of a log, each escrow indexed from it is found under its id on the chain,
and milestones are listed in increasing order of theirs. -/
theorem numbers_of_chain (crates : Crates) :
    (∀ event head, decodeHead crates event = .ok head →
      (StoresNumbers crates event head ↔ ∀ n ∈ sentNumbers crates event head, n.Fit)) ∧
    ∀ (E : Env) (log : List RpcEvent) (w : World E), (∀ n, FromLog crates log n → n.Fit) →
      IndexedFrom E crates log w →
      (∀ row ∈ w.db.escrows.rows, ∃ n, FromLog crates log n ∧
        row.id.toInt = n.escrowId.toNat ∧ w.db.getEscrow row.id = some row) ∧
      ∀ e, ∃ ids : List UInt32,
        (w.db.listMilestones e).map (fun row => row.milestoneId.toInt) =
          ids.map (fun id => (id.toNat : Int)) ∧
        ids.Pairwise (· < ·) ∧
        ∀ id ∈ ids, ∃ n, FromLog crates log n ∧ e.toInt = n.escrowId.toNat ∧
          n.milestoneId = some id := by
  refine ⟨fun event head hhead => storesNumbers_iff hhead, fun E log w hfit h => ⟨?_, ?_⟩⟩
  · exact fun row hrow => found_of_indexedFrom hfit h hrow
  · exact listed_of_indexedFrom hfit h

/-- The sample's creation, and a dispute that was resolved by a split. -/
def splitLog : List RpcEvent := [createdEvent sampleContract 1, resolvedEvent sampleContract 2]

section Sample

set_option maxRecDepth 4000

theorem sentNumbers_createdEvent (contractId : String) (ledger : UInt32) :
    sentNumbers sampleCrates (createdEvent contractId ledger)
        ⟨"escrow_created", 1, sampleCreated.2⟩ =
      [⟨1, none, some 60, none⟩, ⟨1, some 0, none, none⟩] := (rfl)

theorem decodeHead_resolvedEvent (contractId : String) (ledger : UInt32) :
    decodeHead sampleCrates (resolvedEvent contractId ledger) =
      .ok ⟨"dispute_resolved", 1, sampleResolved.2⟩ := (rfl)

theorem sentNumbers_resolvedEvent (contractId : String) (ledger : UInt32) :
    sentNumbers sampleCrates (resolvedEvent contractId ledger)
        ⟨"dispute_resolved", 1, sampleResolved.2⟩ =
      [⟨1, some 0, none, none⟩, ⟨1, some 0, none, some 4000⟩] := (rfl)

end Sample

/-- The numbers of the sample fit. -/
theorem fit_of_splitLog (n : Numbers) (h : FromLog sampleCrates splitLog n) : n.Fit := by
  obtain ⟨event, hev, head, hhead, hn⟩ := h
  simp only [splitLog, List.mem_cons, List.not_mem_nil, or_false] at hev
  rcases hev with rfl | rfl
  · obtain rfl := Except.ok.inj ((decodeHead_createdEvent ..).symm.trans hhead)
    rw [sentNumbers_createdEvent] at hn
    simp only [List.mem_cons, List.not_mem_nil, or_false] at hn
    rcases hn with rfl | rfl <;> constructor <;> simp
  · obtain rfl := Except.ok.inj ((decodeHead_resolvedEvent ..).symm.trans hhead)
    rw [sentNumbers_resolvedEvent] at hn
    simp only [List.mem_cons, List.not_mem_nil, or_false] at hn
    rcases hn with rfl | rfl <;> constructor <;> simp

/-- The sample's resolution is stored under its own numbers, and after both events the escrow is
found under its id on the chain, with its milestone listed under its own. -/
theorem numbers_of_chain_sample :
    StoresNumbers sampleCrates (resolvedEvent sampleContract 2)
      ⟨"dispute_resolved", 1, sampleResolved.2⟩ ∧
    ∃ w : World openEnv, IndexedFrom openEnv sampleCrates splitLog w ∧
      (w.db.view.escrow 1).isSome = true ∧ (w.db.view.milestone (1, 0)).isSome = true ∧
      (∀ row ∈ w.db.escrows.rows, ∃ n, FromLog sampleCrates splitLog n ∧
        row.id.toInt = n.escrowId.toNat ∧ w.db.getEscrow row.id = some row) ∧
      ∀ e, ∃ ids : List UInt32,
        (w.db.listMilestones e).map (fun row => row.milestoneId.toInt) =
          ids.map (fun id => (id.toNat : Int)) ∧
        ids.Pairwise (· < ·) ∧
        ∀ id ∈ ids, ∃ n, FromLog sampleCrates splitLog n ∧ e.toInt = n.escrowId.toNat ∧
          n.milestoneId = some id := by
  constructor
  · refine ((numbers_of_chain sampleCrates).1 _ _ (decodeHead_resolvedEvent ..)).mpr fun n hn => ?_
    exact fit_of_splitLog n ⟨_, List.mem_cons_of_mem _ List.mem_cons_self, _,
      decodeHead_resolvedEvent .., hn⟩
  · obtain ⟨r, hev, hbefore, -, hview⟩ := exists_createdRun sampleContract 1 ⟨Db.migrated, ()⟩
    obtain ⟨r', hev', hbefore', -, hview'⟩ := EventRun.exists_done (E := openEnv) (fun _ => id)
      (congrArg Script.outcome (processEvent_resolvedEvent sampleContract 2))
      (congrArg Script.writes (processEvent_resolvedEvent sampleContract 2)) (w := r.after)
      ⟨fun hn => (by cases hn), fun hn => (by cases hn), trivial⟩
    rw [hview] at hview'
    have hstart : IndexedFrom openEnv sampleCrates splitLog r.before := by
      rw [hbefore]
      exact IndexedFrom.start (E := openEnv) ()
    have hcreated : IndexedFrom openEnv sampleCrates splitLog r'.before := by
      rw [hbefore']
      exact .event hstart List.mem_cons_self (hev ▸ r.runs)
    have hindexed : IndexedFrom openEnv sampleCrates splitLog r'.after :=
      .event hcreated (List.mem_cons_of_mem _ List.mem_cons_self) (hev' ▸ r'.runs)
    obtain ⟨hescrows, hlisted⟩ :=
      (numbers_of_chain sampleCrates).2 openEnv splitLog r'.after fit_of_splitLog hindexed
    refine ⟨r'.after, hindexed, ?_, ?_, hescrows, hlisted⟩
    · rw [hview']
      rfl
    · rw [hview']
      rfl

/-- The crates on the values of the sample and on the escrow id `2 ^ 63`. -/
def largeCrates : Crates :=
  { sampleCrates with
    fromXdrBase64 := fun b64 =>
      ((("AAAABYAAAAAAAAAA", .u64 9223372036854775808) :: sampleValues).find? fun v =>
        v.1 = b64).map Prod.snd }

/-- The sample's creation for the escrow id `2 ^ 63`. -/
def largeEvent : RpcEvent :=
  { createdEvent sampleContract 1 with
    topic := ["AAAADwAAAA5lc2Nyb3dfY3JlYXRlZAAA", "AAAABYAAAAAAAAAA"] }

section Sample

set_option maxRecDepth 4000

theorem fromXdrBase64_largeCrates (b64 : String) : largeCrates.fromXdrBase64 b64 =
    ((("AAAABYAAAAAAAAAA", .u64 9223372036854775808) :: sampleValues).find? fun v =>
      v.1 = b64).map Prod.snd := (rfl)

theorem decodeHead_largeEvent : decodeHead largeCrates largeEvent =
    .ok ⟨"escrow_created", 9223372036854775808, sampleCreated.2⟩ := by
  have hdata : largeCrates.fromXdrBase64 sampleCreated.1 = some sampleCreated.2 := by
    rw [fromXdrBase64_largeCrates]
    exact @find?_value _ (_ :: sampleValues.dropLast) [] _ rfl (by decide)
  exact decodeHead_of_values rfl rfl rfl rfl hdata

theorem processEvent_largeEvent : processEvent largeCrates largeEvent =
    .write (.upsertEscrow { sampleEscrow sampleContract 1 with id := -9223372036854775808 })
      (.write (.upsertMilestone { sampleMilestone with escrowId := -9223372036854775808 })
        (.done (some (-9223372036854775808, "escrow_created")))) := by
  rw [processEvent, decodeHead_largeEvent]
  rfl

end Sample

/-- The creation of escrow `2 ^ 63` ends without an error and is stored as escrow `-2 ^ 63`. -/
theorem large_id_is_stored_negative :
    (¬ ∀ (crates : Crates) (event : RpcEvent) (head : EventHead),
      decodeHead crates event = .ok head → StoresNumbers crates event head) ∧
    ∃ r : EventRun openEnv largeCrates, r.event = largeEvent ∧ r.before = ⟨Db.migrated, ()⟩ ∧
      r.rest = .done () ∧ (r.after.db.view.escrow (-9223372036854775808)).isSome = true := by
  constructor
  · intro hstores
    have hexact := (hstores _ _ _ decodeHead_largeEvent).exact
    rw [processEvent_largeEvent] at hexact
    obtain ⟨n, -, hcols⟩ := List.mem_map.mp (hexact.subset List.mem_cons_self)
    have hneg : (n.escrowId.toNat : Int) = -9223372036854775808 := (Prod.mk.inj hcols).1
    omega
  · obtain ⟨r, hev, hbefore, hdone, hview⟩ := EventRun.exists_done (E := openEnv) (fun _ => id)
      (congrArg Script.outcome processEvent_largeEvent)
      (congrArg Script.writes processEvent_largeEvent) (w := ⟨Db.migrated, ()⟩)
      ⟨fun hn => (by cases hn), fun _ => rfl, trivial⟩
    refine ⟨r, hev, hbefore, hdone, ?_⟩
    rw [hview]
    rfl

end ConcordBackend
