import ConcordBackend.Api.Webhooks
import ConcordBackend.Indexer.Redelivery
import ConcordBackend.Indexer.Statements
import ConcordBackend.Lists

/-!
# An escrow with its milestones

`get_escrow` reads the escrow and its milestones in two statements, and the indexer writes an
event in several, all of them outside of any transaction. An answer may therefore show the
escrow and the milestones of different moments.

How different is bounded by the events. The statement of the escrow row is the only one of its
event that touches the row, so the row is always that after some whole events. No event but
the creation of the escrow touches two of its milestones, so the milestones too are those
after some whole events, unless they are read in the middle of that creation. The milestones
are read last; the row can be ahead of them by one event only, one that writes the row before
the milestones (`detail_of_serves`).
-/

namespace ConcordBackend

/-! ### The handler -/

/-- `EscrowDetail`. -/
structure EscrowDetail where
  escrow : EscrowRow
  milestones : List MilestoneRow
  deriving DecidableEq, Repr

/-- `get_escrow`. -/
def getEscrow (id : Int64) : ApiM EscrowDetail := do
  let escrow ← okOr (← query (.getEscrow id)) .notFound
  let milestones : List MilestoneRow ← query (.listMilestones id)
  return { escrow, milestones }

/-- What runs side by side: the processing of a log, and requests for escrows. -/
inductive DetailTask where
  | index
  | detail (id : Int64)

/-- How a task ends. -/
inductive DetailResult where
  | indexed (processed : Except Error Nat)
  | answered (answer : Except AppError EscrowDetail)

/-- The program of a task. -/
def DetailTask.serve (crates : Crates) (log : List RpcEvent) :
    DetailTask → Prog Service Empty DetailResult
  | .index => (runPage crates log 0).attempt.bind fun processed => .done (.indexed processed)
  | .detail id => (getEscrow id).attempt.bind fun answer => .done (.answered answer)

/-- The indexer processes events and does nothing else. -/
theorem index_only (crates : Crates) (log : List RpcEvent) :
    (DetailTask.index.serve crates log).Only Processes :=
  (runPage_only crates log 0).attempt.bind fun _ => trivial

theorem index_only_of_call {crates : Crates} {log : List RpcEvent} {op : ServiceOp}
    {k : op.Reply → Prog Service Empty DetailResult}
    (h : DetailTask.index.serve crates log = .call op k) (r : op.Reply) : (k r).Only Processes := by
  have honly := index_only crates log
  rw [h] at honly
  exact honly.2 r

/-- A request for an escrow, statement by statement. -/
theorem serve_detail (crates : Crates) (log : List RpcEvent) (id : Int64) :
    (DetailTask.detail id).serve crates log =
      .call (.sql (.getEscrow id)) fun
        | .ok (some escrow) =>
          .call (.sql (.listMilestones id)) fun
            | .ok milestones => .done (.answered (.ok ⟨escrow, milestones⟩))
            | .error e => .done (.answered (.error (.database e)))
        | .ok none => .done (.answered (.error .notFound))
        | .error e => .done (.answered (.error (.database e))) := by
  change Prog.call _ _ = Prog.call _ _
  congr 1
  funext r
  rcases r with e | _ | escrow
  · rfl
  · rfl
  · change Prog.call _ _ = Prog.call _ _
    congr 1
    funext r
    rcases r with e | milestones
    · rfl
    · rfl

/-- A request that answered with an escrow has read it, and then its milestones. -/
theorem trace_of_answered {crates : Crates} {log : List RpcEvent} {id : Int64}
    {tr : Service.Trace} {d : EscrowDetail}
    (h : Leads ((DetailTask.detail id).serve crates log) tr (.done (.answered (.ok d)))) :
    tr = [⟨.sql (.getEscrow id), .ok (some d.escrow)⟩,
      ⟨.sql (.listMilestones id), .ok d.milestones⟩] := by
  rw [serve_detail] at h
  obtain ⟨r, w₁, tr₁, -, rfl, hrest⟩ := h.call_inv_of_ne (fun h => nomatch h)
  rcases r with e | _ | escrow
  · obtain ⟨-, heq, -⟩ := hrest.done_inv
    cases heq
  · obtain ⟨-, heq, -⟩ := hrest.done_inv
    cases heq
  · obtain ⟨r, w₂, tr₂, -, rfl, hend⟩ := hrest.call_inv_of_ne (fun h => nomatch h)
    rcases r with e | milestones
    · obtain ⟨-, heq, -⟩ := hend.done_inv
      cases heq
    · obtain ⟨rfl, heq, -⟩ := hend.done_inv
      cases heq
      rfl

/-- A request for an escrow only looks. -/
theorem detail_only (crates : Crates) (log : List RpcEvent) (id : Int64) :
    ((DetailTask.detail id).serve crates log).Only Looks := by
  rw [serve_detail]
  refine ⟨.escrow id, fun r => ?_⟩
  rcases r with e | _ | escrow
  · trivial
  · trivial
  · refine ⟨.milestones id, fun r => ?_⟩
    rcases r with e | milestones
    · trivial
    · trivial

/-! ### Whole events -/

section Moments

variable (crates : Crates) (log : List RpcEvent) (n : ℕ) (id : Int64)

/-- The escrow and its milestones are those in the store after the first `n` events. -/
def DetailAfter (d : EscrowDetail) : Prop :=
  ∃ db, Processed crates (log.take n) Db.migrated db ∧ db.getEscrow id = some d.escrow ∧
    db.listMilestones id = d.milestones

/-- The escrow is that in the store after the first `n` events. -/
def EscrowAfter (escrow : EscrowRow) : Prop :=
  ∃ db, Processed crates (log.take n) Db.migrated db ∧ db.getEscrow id = some escrow

/-- The milestones are those in the store after the first `n` events. -/
def MilestonesAfter (milestones : List MilestoneRow) : Prop :=
  ∃ db, Processed crates (log.take n) Db.migrated db ∧ db.listMilestones id = milestones

/-- The event after the first `n` has an entry about the escrow. -/
def NextEntry (event : RpcEvent) (x : LogEntry) : Prop :=
  log[n]? = some event ∧ logEntry crates event = some x ∧ x.escrowId.toInt64 = id

/-- The milestones are those in the store after the first `n` events and some first statements
of the next, which creates the escrow. -/
def MilestonesWithin (milestones : List MilestoneRow) : Prop :=
  ∃ event x part db db', NextEntry crates log n id event x ∧ x.IsCreation ∧
    part <+: (processEvent crates event).writes ∧
    Processed crates (log.take n) Db.migrated db ∧ Executes part db db' ∧
    db'.listMilestones id = milestones

/-- The event after the first `n` creates the escrow or submits one of its milestones. -/
def CreatesOrSubmits : Prop :=
  ∃ event x, NextEntry crates log n id event x ∧ (x.IsCreation ∨ ∃ m, x.kind = .submitted m)

end Moments

/-! ### The rows of an event -/

section Rows

variable {crates : Crates} {event : RpcEvent} {id : Int64}

theorem Write.escrowId_row (w : Write) : w.row.escrowId = w.escrowId := by
  cases w <;> rfl

/-- An entry with several statements, one of them of the escrow row, is the creation of the
escrow or the submission of a milestone. -/
theorem LogEntry.creates_or_submits {x : LogEntry} {t : RowKey × Bool} (ht : t ∈ x.tags)
    (hrow : t.1 = .escrow id) (hlen : 1 < x.tags.length) :
    x.escrowId.toInt64 = id ∧ (x.IsCreation ∨ ∃ m, x.kind = .submitted m) := by
  obtain ⟨e, kind⟩ := x
  cases kind with
  | created ms =>
    refine ⟨?_, Or.inl ⟨ms, rfl⟩⟩
    rcases List.mem_cons.mp ht with rfl | ht
    · exact RowKey.escrow.inj hrow
    · obtain ⟨m, -, rfl⟩ := List.mem_map.mp ht
      cases hrow
  | submitted m =>
    refine ⟨?_, Or.inr ⟨m, rfl⟩⟩
    simp only [LogEntry.tags, List.mem_cons, List.not_mem_nil, or_false] at ht
    rcases ht with rfl | rfl
    · exact RowKey.escrow.inj hrow
    · cases hrow
  | status => exact absurd hlen (Nat.lt_irrefl 1)
  | milestone m => exact absurd hlen (Nat.lt_irrefl 1)
  | _ =>
    simp only [LogEntry.tags, List.mem_cons, List.not_mem_nil, or_false] at ht
    rcases ht with rfl | rfl <;> cases hrow

/-- Every event but the creation of the escrow touches at most one of its milestones. -/
theorem milestone_once {r : Option (Int64 × String)}
    (hr : (processEvent crates event).outcome = .ok r)
    (hnot : ∀ x, logEntry crates event = some x → x.IsCreation → x.escrowId.toInt64 ≠ id) :
    (processEvent crates event).writes.Pairwise fun w w' =>
      (∃ m, w.row = .milestone (id, m)) → ¬ ∃ m, w'.row = .milestone (id, m) := by
  have htags := processEvent_tags hr
  rcases hx : logEntry crates event with _ | x
  · rw [hx] at htags
    rw [List.map_eq_nil_iff.mp htags]
    exact .nil
  by_cases hc : x.IsCreation
  · -- the creation of another escrow touches none
    refine List.pairwise_of_forall_mem_list fun w hw w' _ htouch => ?_
    obtain ⟨m, hm⟩ := htouch
    have habout := escrowId_of_logEntry hx hw
    rw [← w.escrowId_row, hm] at habout
    exact absurd habout.symm (hnot x hx hc)
  · have honce : x.tags.Pairwise fun t t' =>
        (∃ m, t.1 = .milestone (id, m)) → ¬ ∃ m, t'.1 = .milestone (id, m) := by
      obtain ⟨e, kind⟩ := x
      cases kind with
      | created ms => exact absurd ⟨ms, rfl⟩ hc
      | _ => simp [LogEntry.tags]
    rw [hx, Option.map_some, Option.getD_some] at htags
    rw [← htags, List.pairwise_map] at honce
    exact honce

end Rows

/-! ### What a moment shows -/

section Seen

variable {crates : Crates} {log : List RpcEvent} {n : ℕ} {id : Int64} {done part : List Write}
  {db : Db}

/-- All events of a beginning of a well-formed log are processed. -/
theorem WellFormedLog.writesOf_take (h : WellFormedLog crates log) (n : ℕ) :
    writesOf crates (log.take n) =
      (log.take n).flatMap fun event => (processEvent crates event).writes := by
  rw [writesOf, List.filter_eq_self.mpr fun event hev => h.successful event (List.mem_of_mem_take hev)]

/-- **A moment lies between two moments at which whole events are processed**: the one before
the event the indexer is at, and the one after it. -/
theorem between_of_standing (hlog : WellFormedLog crates log)
    (h : Standing (fun event => (processEvent crates event).writes) log n done part)
    (hexec : Executes done Db.migrated db) :
    ∃ db₀, Processed crates (log.take n) Db.migrated db₀ ∧ Executes part db₀ db ∧
      (part = [] ∨ ∃ event rest db₁, log[n]? = some event ∧
        (processEvent crates event).writes = part ++ rest ∧ rest ≠ [] ∧
        Executes rest db db₁ ∧ Processed crates (log.take (n + 1)) Db.migrated db₁) := by
  have hview := hexec.view
  rw [h.done_eq] at hexec
  obtain ⟨db₀, hpast, hpart⟩ := hexec.append_inv
  have hprocessed : Processed crates (log.take n) Db.migrated db₀ := by
    refine Processed.of_executes ?_
    rw [hlog.writesOf_take]
    exact hpast
  refine ⟨db₀, hprocessed, hpart, h.part_eq.imp_right ?_⟩
  rintro ⟨event, rest, hget, hwrites, hne⟩
  have hnext : writesOf crates (log.take (n + 1)) = done ++ rest := by
    rw [hlog.writesOf_take, List.take_add_one, hget, List.flatMap_append, h.done_eq,
      List.append_assoc, ← hwrites]
    simp
  have hready := hlog.ready_take (n + 1) View.empty
  rw [hnext, View.ready_append] at hready
  have hrest : db.view.Ready rest := by
    rw [hview]
    exact hready.2
  obtain ⟨db₁, hexec₁⟩ := Executes.exists_of_ready hrest
  refine ⟨event, rest, db₁, hget, hwrites, hne, hexec₁, Processed.of_executes ?_⟩
  rw [hnext, h.done_eq]
  exact hexec.append hexec₁

/-- An event of which a statement about an escrow, but not all, has been executed creates the
escrow or submits a milestone of it. -/
theorem createsOrSubmits_of_part (hlog : WellFormedLog crates log) {event : RpcEvent}
    (hget : log[n]? = some event) {rest : List Write}
    (hwrites : (processEvent crates event).writes = part ++ rest) (hne : rest ≠ []) {wr : Write}
    (hwr : wr ∈ part) (htouch : wr.row = .escrow id) : CreatesOrSubmits crates log n id := by
  obtain ⟨r, hr⟩ := hlog.decodes event (List.mem_of_getElem? hget)
  have htags := processEvent_tags hr
  obtain ⟨x, hx⟩ : ∃ x, logEntry crates event = some x := by
    refine Option.ne_none_iff_exists'.mp fun hx => ?_
    rw [hx, hwrites] at htags
    have hnil := List.append_eq_nil_iff.mp (List.map_eq_nil_iff.mp htags)
    rw [hnil.1] at hwr
    cases hwr
  rw [hx, Option.map_some, Option.getD_some] at htags
  have htag : wr.tag ∈ x.tags := by
    rw [← htags, hwrites]
    exact List.mem_map_of_mem (List.mem_append_left _ hwr)
  -- the event has another statement than this one
  have hlen : 1 < x.tags.length := by
    have hpos := List.length_pos_of_mem hwr
    have hpos' := List.length_pos_of_ne_nil hne
    rw [← htags, List.length_map, hwrites, List.length_append]
    omega
  obtain ⟨hid, hkind⟩ := LogEntry.creates_or_submits htag htouch hlen
  exact ⟨event, x, ⟨hget, hx, hid⟩, hkind⟩

/-- The escrow row is that after some whole events. -/
theorem escrow_of_standing (hlog : WellFormedLog crates log)
    (h : Standing (fun event => (processEvent crates event).writes) log n done part)
    (hexec : Executes done Db.migrated db) {escrow : EscrowRow}
    (hrow : db.getEscrow id = some escrow) :
    EscrowAfter crates log n id escrow ∨
      EscrowAfter crates log (n + 1) id escrow ∧ CreatesOrSubmits crates log n id := by
  obtain ⟨db₀, hprocessed, hpart, rfl | ⟨event, rest, db₁, hget, hwrites, hne, hrest, hnext⟩⟩ :=
    between_of_standing hlog h hexec
  · cases hpart
    exact Or.inl ⟨db, hprocessed, hrow⟩
  have hev : event ∈ log := List.mem_of_getElem? hget
  -- the event writes the row at most once, so the row is as before the event or as after it
  have honce := hlog.rows_pairwise hev
  rw [hwrites] at honce
  rcases Steps.seen (fun wr => wr.row = .escrow id) (fun db => db.getEscrow id)
      (fun wr db db' hne ⟨now, hwr⟩ => Write.getEscrow_exec hwr hne)
      (honce.imp fun hne heq heq' => hne (heq.trans heq'.symm)) hpart hrest with
    hsame | ⟨⟨wr, hwr, htouch⟩, hsame⟩
  · exact Or.inl ⟨db₀, hprocessed, hsame.symm.trans hrow⟩
  · exact Or.inr ⟨⟨db₁, hnext, hsame.trans hrow⟩,
      createsOrSubmits_of_part hlog hget hwrites hne hwr htouch⟩

/-- The milestones are those after some whole events, or those in the middle of the creation
of the escrow. -/
theorem milestones_of_standing (hlog : WellFormedLog crates log)
    (h : Standing (fun event => (processEvent crates event).writes) log n done part)
    (hexec : Executes done Db.migrated db) (id : Int64) :
    MilestonesAfter crates log n id (db.listMilestones id) ∨
      MilestonesAfter crates log (n + 1) id (db.listMilestones id) ∨
      MilestonesWithin crates log n id (db.listMilestones id) := by
  obtain ⟨db₀, hprocessed, hpart, rfl | ⟨event, rest, db₁, hget, hwrites, -, hrest, hnext⟩⟩ :=
    between_of_standing hlog h hexec
  · cases hpart
    exact Or.inl ⟨db, hprocessed, rfl⟩
  -- only a creation has more than one statement about the milestones of an escrow
  by_cases hcreates : ∃ x, logEntry crates event = some x ∧ x.IsCreation ∧ x.escrowId.toInt64 = id
  · obtain ⟨x, hx, hc, hid⟩ := hcreates
    refine Or.inr (Or.inr ⟨event, x, part, db₀, db, ⟨hget, hx, hid⟩, hc, ?_, hprocessed, hpart,
      rfl⟩)
    rw [hwrites]
    exact List.prefix_append ..
  · obtain ⟨r, hr⟩ := hlog.decodes event (List.mem_of_getElem? hget)
    have honce := milestone_once hr fun x hx hc hid => hcreates ⟨x, hx, hc, hid⟩
    rw [hwrites] at honce
    rcases Steps.seen (fun wr => ∃ m, wr.row = .milestone (id, m)) (fun db => db.listMilestones id)
        (fun wr db db' hne ⟨now, hwr⟩ => Write.listMilestones_exec hwr fun m hm => hne ⟨m, hm⟩)
        honce hpart hrest with hsame | ⟨-, hsame⟩
    · exact Or.inl ⟨db₀, hprocessed, hsame.symm⟩
    · exact Or.inr (Or.inl ⟨db₁, hnext, hsame⟩)

end Seen

/-! ### Requests beside the indexer -/

section Server

variable {E : Env} {crates : Crates} {log : List RpcEvent} {rpc : E.Rpc} {w : World E}

/-- The indexer executes the statements of the log in order, and all of them before it ends. -/
theorem executed_of_index (hf : ∀ wr, ¬ E.faulty (.write wr)) (hlog : WellFormedLog crates log)
    {tr : Service.Trace} {q : Prog Service Empty DetailResult}
    (h : Runs E.handler (DetailTask.index.serve crates log) ⟨Db.migrated, rpc⟩ tr q w) :
    executed tr <+: writesOf crates log ∧ (q.Finished → executed tr = writesOf crates log) := by
  have hpage : ∀ {tr : Service.Trace} {p : Prog Service Empty (Except Error Nat)} {w : World E},
      Runs E.handler ((runPage crates log 0).attempt) ⟨Db.migrated, rpc⟩ tr p w →
      executed tr <+: writesOf crates log ∧ (p.Finished → executed tr = writesOf crates log) := by
    intro tr p w hrun
    obtain ⟨p', hrun', rfl⟩ := hrun.attempt_inv
    obtain ⟨hpre, hall⟩ := executed_of_page (hlog.ready _) hrun' (calm_of_runs hf hrun')
    exact ⟨hpre, fun hp => hall (Prog.finished_of_attempt hp)⟩
  rcases h.bind_inv with ⟨p, hrun, rfl, -⟩ | ⟨r, w₁, tr₁, tr₂, hrun, hend, rfl⟩
  · obtain ⟨hpre, hall⟩ := hpage hrun
    exact ⟨hpre, fun hq => hall (Prog.finished_of_bind hq)⟩
  · obtain ⟨rfl, -, -⟩ := hend.done_inv
    rw [List.append_nil]
    exact ⟨(hpage hrun).1, fun _ => (hpage hrun).2 trivial⟩

/-- Looking executes nothing. -/
theorem executed?_of_looks {x : Sigma Service.Reply} (h : Looks x.1) : executed? x = none := by
  obtain ⟨op, r⟩ := x
  cases h <;> rfl

/-- A statement that reads returns what it reads. -/
theorem reply_of_handler {qu : Query} {w' : World E} {a a' : qu.Reply}
    (h : E.handler (.sql qu) w (.ok a) w') (hq : ∀ now, qu.exec now w.db = .ok (a', w.db)) :
    a' = a := by
  obtain ⟨now, hexec⟩ := h.1.ok_inv
  rw [hq now] at hexec
  exact (Prod.mk.inj (Except.ok.inj hexec)).1

variable {hist : Service.History} {q : Prog Service Empty DetailResult}
  {requests : List (DetailTask × Prog Service Empty DetailResult)} {i : ℕ} {id : Int64}
  {d : EscrowDetail}

/-- An answer shows the escrow of one moment of the indexer's work, and the milestones of the
same or a later one. -/
theorem moments_of_serves (hf : ∀ wr, ¬ E.faulty (.write wr)) (hlog : WellFormedLog crates log)
    (h : Serves E.handler (DetailTask.serve crates log) ⟨Db.migrated, rpc⟩ hist
      ((.index, q) :: requests) w) (hrequests : ∀ t ∈ requests, t.1 ≠ .index)
    (hanswer : requests[i]? = some (.detail id, .done (.answered (.ok d)))) :
    ∃ (past between future : Service.History) (db₁ db₂ : Db),
      hist = past ++ (i + 1, ⟨.sql (.getEscrow id), .ok (some d.escrow)⟩) ::
        (between ++ (i + 1, ⟨.sql (.listMilestones id), .ok d.milestones⟩) :: future) ∧
      executed past.trace ++ executed between.trace <+: writesOf crates log ∧
      Executes (executed past.trace) Db.migrated db₁ ∧ db₁.getEscrow id = some d.escrow ∧
      Executes (executed between.trace) db₁ db₂ ∧ db₂.listMilestones id = d.milestones := by
  have hlooks : ∀ j task p, ((.index, q) :: requests)[j]? = some (task, p) → j ≠ 0 →
      (task.serve crates log).Only Looks := by
    intro j task p hj hne
    obtain ⟨j, rfl⟩ := Nat.exists_eq_succ_of_ne_zero hne
    cases task with
    | index => exact absurd rfl (hrequests _ (List.mem_of_getElem? hj))
    | detail id => exact detail_only crates log id
  -- what is executed is the indexer's, and so a beginning of the statements of the log
  have hexecuted : executed hist.trace <+: writesOf crates log := by
    have hindex := (executed_of_index hf hlog
      (h.alone (fun _ _ _ _ => eq_of_looks) rfl hlooks)).1
    rw [executed, Signature.History.filterMap_of] at hindex
    · exact hindex
    · intro e he hne
      obtain ⟨task, p, hj⟩ := h.exists_request he
      exact executed?_of_looks (h.only hj (hlooks _ _ _ hj hne) he)
  -- whatever the server answered is an operation of the indexer or a look
  have hops : ∀ x ∈ hist.trace, Processes x.1 ∨ Looks x.1 := by
    intro x hx
    obtain ⟨e, he, rfl⟩ := List.mem_map.mp hx
    obtain ⟨task, p, hj⟩ := h.exists_request he
    cases task with
    | index => exact Or.inl (h.only hj (index_only crates log) he)
    | detail id => exact Or.inr (h.only hj (detail_only crates log id) he)
  -- the two looks of the request, and what was executed before the first and between them
  obtain ⟨past, rest, rfl, hrest⟩ :=
    Signature.History.of_eq_cons (trace_of_answered (h.leads (i := i + 1) hanswer))
  obtain ⟨between, future, rfl, -⟩ := Signature.History.of_eq_cons hrest
  have hanswers := h.answers
  simp only [Signature.History.trace, List.map_append, List.map_cons] at hanswers hexecuted hops
  obtain ⟨w₁, w₁', hpast, hescrow, hanswers⟩ := hanswers.split
  obtain ⟨w₂, w₂', hbetween, hmilestones, -⟩ := hanswers.split
  obtain rfl := eq_of_looks (.escrow id) hescrow
  refine ⟨past, between, future, w₁'.db, w₂.db, rfl, ?_, ?_, reply_of_handler hescrow fun _ => rfl,
    ?_, reply_of_handler hmilestones fun _ => rfl⟩
  · have hsplit : executed (past.trace ++ ⟨.sql (.getEscrow id), .ok (some d.escrow)⟩ ::
        (between.trace ++ ⟨.sql (.listMilestones id), .ok d.milestones⟩ :: future.trace)) =
          (executed past.trace ++ executed between.trace) ++ executed future.trace := by
      rw [executed_append, executed_cons, executed_append, executed_cons, List.append_assoc]
      rfl
    exact (List.prefix_append ..).trans (hsplit ▸ hexecuted)
  · exact executes_of_answers (fun x hx => hops x (List.mem_append_left _ hx)) hpast
  · refine executes_of_answers (fun x hx => hops x ?_) hbetween
    exact List.mem_append_right _ (List.mem_cons_of_mem _ (List.mem_append_left _ hx))

/-- **What an answer shows.** Beside an indexer that works through a well-formed log, the escrow
of an answer is that after some first events, and its milestones are those after some first
events, or those in the middle of the creation of the escrow. The escrow is ahead of the
milestones by at most one event, one that creates the escrow or submits a milestone. Where the
indexer stands between two events at the first statement and executes nothing up to the second,
both are those after the same events. -/
theorem detail_of_serves (hf : ∀ wr, ¬ E.faulty (.write wr)) (hlog : WellFormedLog crates log)
    (h : Serves E.handler (DetailTask.serve crates log) ⟨Db.migrated, rpc⟩ hist
      ((.index, q) :: requests) w) (hrequests : ∀ t ∈ requests, t.1 ≠ .index)
    (hanswer : requests[i]? = some (.detail id, .done (.answered (.ok d)))) :
    ∃ past between future : Service.History,
      hist = past ++ (i + 1, ⟨.sql (.getEscrow id), .ok (some d.escrow)⟩) ::
        (between ++ (i + 1, ⟨.sql (.listMilestones id), .ok d.milestones⟩) :: future) ∧
      (∃ m n, m ≤ n + 1 ∧ (n < m → CreatesOrSubmits crates log n id) ∧
        EscrowAfter crates log m id d.escrow ∧
        (MilestonesAfter crates log n id d.milestones ∨
          MilestonesWithin crates log n id d.milestones)) ∧
      ∀ k, executed past.trace = writesOf crates (log.take k) → executed between.trace = [] →
        DetailAfter crates log k id d := by
  obtain ⟨past, between, future, db₁, db₂, rfl, hpre, hpast, hrow, hbetween, hlist⟩ :=
    moments_of_serves hf hlog h hrequests hanswer
  refine ⟨past, between, future, rfl, ?_, fun k hk hnil => ?_⟩
  · -- at each look the indexer stands in some event, at the second in no earlier one
    rw [hlog.writesOf_eq] at hpre
    obtain ⟨n₁, part₁, n₂, part₂, hle, hstand₁, hstand₂⟩ :=
      exists_standing (List.prefix_append ..) hpre
    obtain ⟨m, hm, hkind, hescrow⟩ : ∃ m, m ≤ n₁ + 1 ∧
        (n₁ < m → CreatesOrSubmits crates log n₁ id) ∧ EscrowAfter crates log m id d.escrow := by
      rcases escrow_of_standing hlog hstand₁ hpast hrow with hafter | ⟨hafter, hkind⟩
      · exact ⟨n₁, Nat.le_succ n₁, fun hlt => absurd hlt (Nat.lt_irrefl n₁), hafter⟩
      · exact ⟨n₁ + 1, Nat.le_refl _, fun _ => hkind, hafter⟩
    obtain ⟨n, hn, hmilestones⟩ : ∃ n, n₂ ≤ n ∧ (MilestonesAfter crates log n id d.milestones ∨
        MilestonesWithin crates log n id d.milestones) := by
      rw [← hlist]
      rcases milestones_of_standing hlog hstand₂ (hpast.append hbetween) id with
        hafter | hafter | hwithin
      · exact ⟨n₂, Nat.le_refl _, Or.inl hafter⟩
      · exact ⟨n₂ + 1, Nat.le_succ _, Or.inl hafter⟩
      · exact ⟨n₂, Nat.le_refl _, Or.inr hwithin⟩
    refine ⟨m, n, by omega, fun hlt => ?_, hescrow, hmilestones⟩
    obtain rfl : n = n₁ := by omega
    exact hkind hlt
  · rw [hnil] at hbetween
    cases hbetween
    rw [hk] at hpast
    exact ⟨db₁, Processed.of_executes hpast, hrow, hlist⟩

end Server

/-! ### A sample read -/

section Sample

set_option maxRecDepth 4000

/-- The tables in the middle of the creation of the sample's escrow. -/
def tornDb : Db := Db.migrated.upsertEscrow 0 (sampleEscrow sampleContract 1)

/-- The answer to a request in the middle of the creation. -/
def tornDetail : EscrowDetail := ⟨(sampleEscrow sampleContract 1).row 0, []⟩

/-- The processing of the sample log starts with the escrow of its creation. -/
theorem index_sampleLog : ∃ q, q.Only Processes ∧
    Runs openEnv.handler (DetailTask.index.serve sampleCrates sampleLog) ⟨Db.migrated, ()⟩
      [⟨.sql (.write (.upsertEscrow (sampleEscrow sampleContract 1))), .ok ()⟩] q ⟨tornDb, ()⟩ := by
  have hcall : (createdEvent sampleContract 1).inSuccessfulContractCall = true := rfl
  obtain ⟨k, hk⟩ : ∃ k, DetailTask.index.serve sampleCrates sampleLog =
      .call (.sql (.write (.upsertEscrow (sampleEscrow sampleContract 1)))) k := by
    rw [DetailTask.serve, sampleLog, runPage_cons hcall, runEvent, processEvent_createdEvent]
    exact ⟨_, rfl⟩
  have hexec : (Query.write (.upsertEscrow (sampleEscrow sampleContract 1))).exec 0 Db.migrated =
      .ok ((), tornDb) := rfl
  have hwrite : openEnv.handler (.sql (.write (.upsertEscrow (sampleEscrow sampleContract 1))))
      ⟨Db.migrated, ()⟩ (.ok ()) ⟨tornDb, ()⟩ := ⟨.ok hexec, rfl⟩
  rw [hk]
  exact ⟨k (.ok ()), index_only_of_call hk (.ok ()), .step hwrite (.refl _ _)⟩

/-- A request arrives, and the indexer executes its first statement. -/
theorem serves_begun {tr : Service.Trace} {q : Prog Service Empty DetailResult}
    {w : World openEnv} (h : Runs openEnv.handler
      (DetailTask.index.serve sampleCrates sampleLog) ⟨Db.migrated, ()⟩ tr q w) :
    Serves openEnv.handler (DetailTask.serve sampleCrates sampleLog) ⟨Db.migrated, ()⟩
      (tr.map fun x => (0, x))
      [(.index, q), (.detail 1, (DetailTask.detail 1).serve sampleCrates sampleLog)] w := by
  have hstart : Serves openEnv.handler (DetailTask.serve sampleCrates sampleLog) ⟨Db.migrated, ()⟩
      [] [] ⟨Db.migrated, ()⟩ := .start
  exact ((hstart.arrive .index).arrive (.detail 1)).goes_on rfl h

/-- The request reads the escrow. -/
theorem handler_tornDetail : openEnv.handler (.sql (.getEscrow 1)) ⟨tornDb, ()⟩
    (.ok (some tornDetail.escrow)) ⟨tornDb, ()⟩ := by
  have hrow : (Query.getEscrow 1).exec 0 tornDb = .ok (some tornDetail.escrow, tornDb) := by rfl
  exact ⟨.ok hrow, rfl⟩

/-- A request may be served between the first two statements of the indexer. -/
theorem exists_torn : ∃ hist q, Serves openEnv.handler (DetailTask.serve sampleCrates sampleLog)
    ⟨Db.migrated, ()⟩ hist [(.index, q), (.detail 1, .done (.answered (.ok tornDetail)))]
    ⟨tornDb, ()⟩ := by
  obtain ⟨q, -, hindex⟩ := index_sampleLog
  have hlist : (Query.listMilestones 1).exec 0 tornDb = .ok (tornDetail.milestones, tornDb) := rfl
  have hmilestones : openEnv.handler (.sql (.listMilestones 1)) ⟨tornDb, ()⟩
      (.ok tornDetail.milestones) ⟨tornDb, ()⟩ := ⟨.ok hlist, rfl⟩
  have hread : Runs openEnv.handler ((DetailTask.detail 1).serve sampleCrates sampleLog)
      ⟨tornDb, ()⟩ [⟨.sql (.getEscrow 1), .ok (some tornDetail.escrow)⟩,
        ⟨.sql (.listMilestones 1), .ok tornDetail.milestones⟩]
      (.done (.answered (.ok tornDetail))) ⟨tornDb, ()⟩ := by
    rw [serve_detail]
    exact .step handler_tornDetail (.step hmilestones (.refl _ _))
  exact ⟨_, q, (serves_begun hindex).goes_on (i := 1) rfl hread⟩

/-- The indexer may come to the end of the log between the two statements of a request. -/
theorem exists_stale : ∃ hist q w d, Serves openEnv.handler
    (DetailTask.serve sampleCrates sampleLog) ⟨Db.migrated, ()⟩ hist
      [(.index, q), (.detail 1, .done (.answered (.ok d)))] w ∧
    d.escrow.status = "created" ∧ ∃ r ∈ d.milestones, r.status = "released" := by
  obtain ⟨q₀, honly, hfirst⟩ := index_sampleLog
  obtain ⟨tr, q, w, hrest, hq⟩ := Runs.exists_finished exists_answer honly
    (⟨tornDb, ()⟩ : World openEnv)
  have hindex := hfirst.append hrest
  have hview := view_of_runs hindex
  rw [(executed_of_index (fun _ => id) sampleLog_wellFormed hindex).2 hq, writesOf_sampleLog]
    at hview
  have hmilestone := congrArg (fun v => v.milestone (1, 0)) hview
  obtain ⟨r, hfind, hr⟩ := Option.map_eq_some_iff.mp hmilestone
  have hkey := Table.key_of_find? hfind
  have hmem := Db.mem_listMilestones.mpr ⟨Table.mem_of_find? hfind, congrArg Prod.fst hkey⟩
  have hstatus : r.status = "released" := (congrArg MilestoneRow.status hr :)
  -- the escrow is read after the first statement, the milestones after the last one
  obtain ⟨k, hk, hescrow⟩ : ∃ k, (∀ milestones, k (.ok milestones) =
        .done (.answered (.ok ⟨tornDetail.escrow, milestones⟩))) ∧
      Runs openEnv.handler ((DetailTask.detail 1).serve sampleCrates sampleLog) ⟨tornDb, ()⟩
        [⟨.sql (.getEscrow 1), .ok (some tornDetail.escrow)⟩] (.call (.sql (.listMilestones 1)) k)
        ⟨tornDb, ()⟩ := by
    rw [serve_detail]
    exact ⟨_, fun _ => rfl, .step handler_tornDetail (.refl _ _)⟩
  have hlist : (Query.listMilestones 1).exec 0 w.db = .ok (w.db.listMilestones 1, w.db) := rfl
  have hmilestones : openEnv.handler (.sql (.listMilestones 1)) w
      (.ok (w.db.listMilestones 1)) w := ⟨.ok hlist, rfl⟩
  have hend := Runs.step (k := k) hmilestones (.refl _ w)
  rw [hk (w.db.listMilestones 1)] at hend
  have hserves := (((serves_begun hfirst).goes_on (i := 1) rfl hescrow).goes_on (i := 0) rfl
    hrest).goes_on (i := 1) rfl hend
  exact ⟨_, q, w, ⟨tornDetail.escrow, w.db.listMilestones 1⟩, hserves, rfl, r, hmem, hstatus⟩

/-- A store after whole events of the sample log that has the escrow has its milestone. -/
theorem listMilestones_ne_nil {n : ℕ} {db : Db}
    (h : Processed sampleCrates (sampleLog.take n) Db.migrated db) {escrow : EscrowRow}
    (hrow : db.getEscrow 1 = some escrow) : db.listMilestones 1 ≠ [] := by
  have hview := h.view_run rfl (sampleLog_wellFormed.ready_take n _)
  cases n with
  | zero =>
    have hnone : (db.getEscrow 1).map EscrowRow.unclocked = none :=
      congrArg (fun v => v.escrow 1) hview
    rw [hrow] at hnone
    cases hnone
  | succ n =>
    have hmem : .upsertMilestone sampleMilestone ∈ writesOf sampleCrates (sampleLog.take (n + 1)) := by
      rw [sampleLog_wellFormed.writesOf_take]
      refine List.mem_flatMap.mpr ⟨createdEvent sampleContract 1, List.mem_cons_self, ?_⟩
      rw [processEvent_createdEvent]
      exact List.mem_cons_of_mem _ List.mem_cons_self
    have hsome := View.isSome_milestone_run_of_mem hmem Db.migrated.view
    rw [← hview] at hsome
    obtain ⟨r, hr⟩ := Option.isSome_iff_exists.mp hsome
    obtain ⟨r, hfind, -⟩ := Option.map_eq_some_iff.mp hr
    have hkey : r.escrowId = 1 := congrArg Prod.fst (Table.key_of_find? hfind)
    exact List.ne_nil_of_mem (Db.mem_listMilestones.mpr ⟨Table.mem_of_find? hfind, hkey⟩)

/-- An escrow read in the middle of its creation, with the milestones read so far. -/
theorem detail_of_serves_sample : tornDetail.milestones = [] ∧ ∃ m n, m ≤ n + 1 ∧
    (n < m → CreatesOrSubmits sampleCrates sampleLog n 1) ∧
    EscrowAfter sampleCrates sampleLog m 1 tornDetail.escrow ∧
    (MilestonesAfter sampleCrates sampleLog n 1 tornDetail.milestones ∨
      MilestonesWithin sampleCrates sampleLog n 1 tornDetail.milestones) := by
  obtain ⟨hist, q, h⟩ := exists_torn
  obtain ⟨past, between, future, -, hshows, -⟩ :=
    detail_of_serves (i := 0) (fun _ => id) sampleLog_wellFormed h (by simp) rfl
  exact ⟨rfl, hshows⟩

/-- **An answer need not show whole events.** In the middle of the creation of an escrow it is
shown without its milestones, as it is after no whole events of the log; and an escrow may be
shown as it was created beside a milestone that has been released. -/
theorem detail_not_whole : (¬ ∀ (E : Env) (crates : Crates) (log : List RpcEvent) (rpc : E.Rpc)
    (hist : Service.History) (q : Prog Service Empty DetailResult)
    (requests : List (DetailTask × Prog Service Empty DetailResult)) (w : World E) (i : ℕ)
    (id : Int64) (d : EscrowDetail), (∀ wr, ¬ E.faulty (.write wr)) → WellFormedLog crates log →
      Serves E.handler (DetailTask.serve crates log) ⟨Db.migrated, rpc⟩ hist
        ((.index, q) :: requests) w →
      (∀ t ∈ requests, t.1 ≠ .index) →
      requests[i]? = some (.detail id, .done (.answered (.ok d))) →
      ∃ n, DetailAfter crates log n id d) ∧
    ∃ hist q w d, Serves openEnv.handler (DetailTask.serve sampleCrates sampleLog)
        ⟨Db.migrated, ()⟩ hist [(.index, q), (.detail 1, .done (.answered (.ok d)))] w ∧
      d.escrow.status = "created" ∧ ∃ r ∈ d.milestones, r.status = "released" := by
  refine ⟨fun hwhole => ?_, exists_stale⟩
  obtain ⟨hist, q, h⟩ := exists_torn
  obtain ⟨n, db, hdb, hrow, hlist⟩ := hwhole openEnv sampleCrates sampleLog () hist q _ _ 0 1
    tornDetail (fun _ => id) sampleLog_wellFormed h (by simp) rfl
  exact listMilestones_ne_nil hdb hrow hlist

end Sample

end ConcordBackend
