import ConcordBackend.Indexer.Runs
import ConcordBackend.Library.Traces

/-!
# What a delivery stands for

The indexer hands a delivery to a webhook for a reason: an event of a page it was served, all of
whose statements have been executed, and a lookup of the webhooks of the event's escrow, to each
of which it delivers once and in turn. `Notice` is that reason, and `pollOnce_notices` says that
no delivery of a poll is without one, however far the poll gets and whatever it is replied.
-/

namespace ConcordBackend

variable {crates : Crates} {tr : Service.Trace} {α : Type}

/-- Why a delivery is started after `past`: an event was processed, the webhooks of its escrow
were looked up, and those before this one have been delivered to. -/
structure Notice (crates : Crates) (past : Service.Trace) (d : Delivery) where
  event : RpcEvent
  escrowId : Int64
  name : String
  before : Service.Trace
  written : Service.Trace
  sent : List WebhookRow
  webhook : WebhookRow
  rest : List WebhookRow
  now : DateTime
  outcome : (processEvent crates event).outcome = .ok (some (escrowId, name))
  executed_eq : executed written = (processEvent crates event).writes
  past_eq : past = before ++ written ++
    ⟨.sql (.listWebhooksForEscrow escrowId), .ok (sent ++ webhook :: rest)⟩ ::
      ⟨.utcNow, now⟩ :: sent.map fun w =>
        ⟨.spawnDelivery (deliveryTo crates (now / 1000000000) (notificationBody escrowId name) w),
          ()⟩
  delivery_eq : d = deliveryTo crates (now / 1000000000) (notificationBody escrowId name) webhook

/-- What is done earlier does not matter to a notice. -/
def Notice.after {past : Service.Trace} {d : Delivery} (n : Notice crates past d)
    (earlier : Service.Trace) : Notice crates (earlier ++ past) d :=
  { n with
    before := earlier ++ n.before
    past_eq := (congrArg (earlier ++ ·) n.past_eq).trans (by simp only [List.append_assoc]) }

/-- A delivery has a notice of an event with the property. -/
def Noticed (crates : Crates) (A : RpcEvent → Prop) (past : Service.Trace)
    (x : Sigma Service.Reply) : Prop :=
  ∀ d, x.1 = .spawnDelivery d → ∃ n : Notice crates past d, A n.event

theorem noticed_after {A : RpcEvent → Prop} (earlier past : Service.Trace)
    (x : Sigma Service.Reply) (h : Noticed crates A past x) :
    Noticed crates A (earlier ++ past) x := by
  intro d hd
  obtain ⟨n, hn⟩ := h d hd
  exact ⟨n.after earlier, hn⟩

/-! ### The parts of a poll -/

theorem sql_only {A : ServiceOp → Prop} {q : Query} (hq : A (.sql q)) : (sql q).Only A := by
  refine ⟨hq, fun r => ?_⟩
  rcases r with e | a
  · trivial
  · trivial

theorem toProg_onlyWrites (s : Script α) :
    s.toProg.Only fun op : ServiceOp => ∃ wr, op = .sql (.write wr) := by
  induction s with
  | done a => trivial
  | fail e => trivial
  | write wr k ih =>
    refine ⟨⟨wr, rfl⟩, fun r => ?_⟩
    rcases r with e | a
    · trivial
    · exact ih

/-- A script that returns has executed its statements. -/
theorem toProg_leads {s : Script α} {a : α} (h : Leads s.toProg tr (.done a)) :
    s.outcome = .ok a ∧ executed tr = s.writes := by
  induction s generalizing tr with
  | done b =>
    obtain ⟨rfl, hdone, -⟩ := h.done_inv
    obtain rfl := Prog.done.inj hdone
    exact ⟨rfl, rfl⟩
  | fail e => cases h.fail_inv.2.1
  | write wr k ih =>
    obtain ⟨r, _, tr', -, rfl, hrun⟩ := h.call_inv_of_ne fun heq => by cases heq
    rcases r with e | _
    · cases hrun.fail_inv.2.1
    · obtain ⟨hout, hwrites⟩ := ih hrun
      exact ⟨hout, congrArg (wr :: ·) hwrites⟩

/-- Deliveries are started in the order of the rows. -/
theorem spawnDeliveries_leads {timestamp : Int} {body : String} {webhooks : List WebhookRow}
    {q : ServiceM Unit} (h : Leads (spawnDeliveries crates timestamp body webhooks) tr q) :
    ∃ sent rest, webhooks = sent ++ rest ∧
      tr = sent.map fun w => ⟨.spawnDelivery (deliveryTo crates timestamp body w), ()⟩ := by
  induction webhooks generalizing tr with
  | nil =>
    obtain ⟨rfl, -, -⟩ := h.done_inv
    exact ⟨[], [], rfl, rfl⟩
  | cons webhook webhooks ih =>
    rcases h.call_inv with ⟨rfl, -, -⟩ | ⟨r, _, tr', -, rfl, hrun⟩
    · exact ⟨[], webhook :: webhooks, rfl, rfl⟩
    · obtain ⟨sent, rest, rfl, rfl⟩ := ih hrun
      exact ⟨webhook :: sent, rest, rfl, rfl⟩

/-- The deliveries of an event have notices of it. -/
theorem runEvent_notices {A : RpcEvent → Prop} {event : RpcEvent} (hA : A event) :
    (runEvent crates event).Traces (Signature.Trace.Justified (Noticed crates A)) := by
  intro tr q h
  have hwrites : ∀ {tr : Service.Trace},
      (∀ x ∈ tr, ∃ wr, x.1 = ServiceOp.sql (.write wr)) →
        Signature.Trace.Justified (Noticed crates A) tr := by
    refine fun hall => .of_forall fun x hx past d hd => ?_
    obtain ⟨wr, heq⟩ := hall x hx
    cases heq.symm.trans hd
  rcases h.bind_inv with ⟨p, hp, -, -⟩ | ⟨o, _, tr₁, tr₂, h₁, h₂, rfl⟩
  · exact hwrites (hp.only (toProg_onlyWrites _))
  have honly := h₁.only (toProg_onlyWrites _)
  obtain ⟨hout, hexecuted⟩ := toProg_leads h₁
  rcases o with _ | ⟨e, name⟩
  · obtain ⟨rfl, -, -⟩ := h₂.done_inv
    rw [List.append_nil]
    exact hwrites honly
  refine (hwrites honly).append_right ?_
  rcases h₂.call_inv with ⟨rfl, -, -⟩ | ⟨r, _, tr', -, rfl, h₃⟩
  · exact .of_forall fun _ hx => by cases hx
  refine .cons (fun d hd => by cases hd) ?_
  rcases r with err | webhooks
  · obtain ⟨rfl, -, -⟩ := h₃.done_inv
    exact .of_forall fun _ hx => by cases hx
  rcases h₃.call_inv with ⟨rfl, -, -⟩ | ⟨now, _, tr'', -, rfl, h₄⟩
  · exact .of_forall fun _ hx => by cases hx
  refine .cons (fun d hd => by cases hd) ?_
  -- what is left are deliveries to a beginning of the rows
  obtain ⟨sent, rest, rfl, rfl⟩ := spawnDeliveries_leads h₄
  intro past x future heq
  obtain ⟨sent₁, sent₂, rfl, rfl, hnext⟩ := List.map_eq_append_iff.mp heq
  obtain ⟨webhook, sent₃, rfl, rfl, -⟩ := List.map_eq_cons_iff.mp hnext
  intro d hd
  exact ⟨{
    event, escrowId := e, name, before := [], written := tr₁, sent := sent₁, webhook
    rest := sent₃ ++ rest, now, outcome := hout, executed_eq := hexecuted
    past_eq := by simp only [List.nil_append, List.append_assoc, List.cons_append]
    delivery_eq := (ServiceOp.spawnDelivery.inj hd).symm }, hA⟩

/-- The deliveries of a pass over a page have notices of its events. -/
theorem runPage_notices {A : RpcEvent → Prop} {events : List RpcEvent} (n : Nat)
    (hA : ∀ event ∈ events, event.inSuccessfulContractCall = true → A event) :
    (runPage crates events n).Traces (Signature.Trace.Justified (Noticed crates A)) := by
  induction events generalizing n with
  | nil =>
    intro tr q h
    obtain ⟨rfl, -, -⟩ := h.done_inv
    exact .of_forall fun _ hx => by cases hx
  | cons event events ih =>
    have hrest := fun n => ih n fun event' hmem => hA event' (List.mem_cons_of_mem _ hmem)
    unfold runPage
    split
    · exact hrest n
    next hcall =>
      have hevent := hA event List.mem_cons_self (by simpa using hcall)
      exact .bind (fun _ _ => .append noticed_after) (runEvent_notices hevent).attempt
        fun _ => hrest (n + 1)

/-- A delivery has a notice of an event that succeeded, of a page that was served before. -/
def NoticedOfPage (crates : Crates) (contractId : String) (past : Service.Trace)
    (x : Sigma Service.Reply) : Prop :=
  ∀ d, x.1 = .spawnDelivery d → ∃ (n : Notice crates past d) (startLedger : Option UInt32)
    (cursor : Option String) (result : GetEventsResult),
      ⟨.getEvents (getEventsParams contractId startLedger cursor pageLimit), .ok result⟩ ∈ past ∧
        n.event ∈ result.events ∧ n.event.inSuccessfulContractCall = true

theorem noticedOfPage_after {contractId : String} (earlier past : Service.Trace)
    (x : Sigma Service.Reply) (h : NoticedOfPage crates contractId past x) :
    NoticedOfPage crates contractId (earlier ++ past) x := by
  intro d hd
  obtain ⟨n, startLedger, cursor, result, hmem, hevent⟩ := h d hd
  exact ⟨n.after earlier, startLedger, cursor, result, List.mem_append_right _ hmem, hevent⟩

/-- **No delivery without a notice.** However far a poll gets and whatever it is replied, a
delivery it has started is for an event of the page it was served: the statements of the event
have been executed, and the delivery is to a row of the lookup that followed, those before it
having been delivered to. -/
theorem pollOnce_notices (crates : Crates) (contractId : String) :
    (pollOnce crates contractId).Traces
      (Signature.Trace.Justified (NoticedOfPage crates contractId)) := by
  have happ : ∀ tr tr' : Service.Trace,
      Signature.Trace.Justified (NoticedOfPage crates contractId) tr →
        Signature.Trace.Justified (NoticedOfPage crates contractId) tr' →
          Signature.Trace.Justified (NoticedOfPage crates contractId) (tr ++ tr') :=
    fun _ _ => .append noticedOfPage_after
  have hsilent : ∀ {α : Type} (p : ServiceM α), (p.Only fun op : ServiceOp => ∀ d, op ≠ .spawnDelivery d) →
      p.Traces (Signature.Trace.Justified (NoticedOfPage crates contractId)) := by
    intro α p hp tr q h
    exact .of_forall fun x hx past d hd => absurd hd (h.only hp x hx d)
  refine .bind happ (hsilent _ (sql_only (by rintro d ⟨⟩))) ?_
  rintro ⟨lastLedger, lastCursor⟩
  have hstart : (startLedgerFor lastLedger lastCursor).Only
      fun op : ServiceOp => ∀ d, op ≠ .spawnDelivery d := by
    unfold startLedgerFor
    split
    · exact Prog.Only.bind ⟨(by rintro d ⟨⟩), Prog.ofExcept_only⟩ fun _ => trivial
    · trivial
  refine .bind happ (hsilent _ hstart) fun startLedger => ?_
  -- the page is in front of what is done with it
  intro tr q h
  rcases h.call_inv with ⟨rfl, -, -⟩ | ⟨r, _, tr', -, rfl, h₁⟩
  · exact .of_forall fun _ hx => by cases hx
  refine .cons (fun d hd => by cases hd) ?_
  rcases r with err | result
  · obtain ⟨rfl, -, -⟩ := h₁.fail_inv
    exact .of_forall fun _ hx => by cases hx
  have hstore : (storeCursor result).Only fun op : ServiceOp => ∀ d, op ≠ .spawnDelivery d := by
    unfold storeCursor
    split
    · exact sql_only (by rintro d ⟨⟩)
    · trivial
  have hpage : ((runPage crates result.events 0).bind fun processed =>
      (storeCursor result).bind fun _ => .done processed).Traces
        (Signature.Trace.Justified (Noticed crates fun event =>
          event ∈ result.events ∧ event.inSuccessfulContractCall = true)) := by
    refine .bind (fun _ _ => .append noticed_after)
      (runPage_notices 0 fun event hmem hcall => ⟨hmem, hcall⟩) fun processed => ?_
    intro tr q h
    exact .of_forall fun x hx past d hd =>
      absurd hd (h.only (hstore.bind fun _ => trivial) x hx d)
  refine (hpage tr' q h₁).mono fun past x hx d hd => ?_
  obtain ⟨n, hevent⟩ := hx d hd
  exact ⟨n.after [_], startLedger, lastCursor, result, List.mem_cons_self, hevent⟩

end ConcordBackend
