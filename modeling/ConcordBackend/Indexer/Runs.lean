import ConcordBackend.Indexer.World

/-!
# Runs of the poll loop

The inversion of runs along the code of the poll loop, from a single statement up to
`pollOnce`. A script executes a prefix of its writes (`ScriptRun`), a pass over a page is a
pass over some of its events and a part of the next (`PageRun`), and a poll either was not
served a page or worked on the one it was served (`PollRun`). Nothing is assumed of the
environment here: statements may fail and runs may stop anywhere.
-/

namespace ConcordBackend

variable {E : Env} {w w' : World E} {tr : Service.Trace} {α : Type}

/-- A run of one statement. -/
theorem sql_inv {q : Query} {p : ServiceM q.Reply} (h : Runs E.handler (sql q) w tr p w') :
    (tr = [] ∧ p = sql q ∧ w' = w) ∨
      (∃ a, tr = [⟨.sql q, .ok a⟩] ∧ p = .done a ∧
        SqlStep E.faulty q w.db (.ok a) w'.db ∧ w'.rpc = w.rpc) ∨
      ∃ e, tr = [⟨.sql q, .error e⟩] ∧ p = .fail (.database e) ∧
        SqlStep E.faulty q w.db (.error e) w'.db ∧ w'.rpc = w.rpc := by
  rcases h.call_inv with h | ⟨r, w₁, tr', hop, rfl, hrun⟩
  · exact Or.inl h
  · rcases r with e | a
    · obtain ⟨rfl, rfl, rfl⟩ := hrun.fail_inv
      exact Or.inr (Or.inr ⟨e, rfl, rfl, hop⟩)
    · obtain ⟨rfl, rfl, rfl⟩ := hrun.done_inv
      exact Or.inr (Or.inl ⟨a, rfl, rfl, hop⟩)

/-! ### Scripts -/

/-- How far a run of a script got: to its end, to a statement that failed, or to a statement
not sent yet. -/
inductive ScriptRun (s : Script α) (tr : Service.Trace) : ServiceM α → Prop where
  | returned {a : α} (hout : s.outcome = .ok a) (hw : executed tr = s.writes) :
      ScriptRun s tr (.done a)
  | raised {e : Error} (hout : s.outcome = .error e) (hw : executed tr = s.writes) :
      ScriptRun s tr (.fail e)
  | failed {wr : Write} {rest : List Write} {e : SqlError} {tr₀ : Service.Trace}
      (htr : tr = tr₀ ++ [⟨.sql (.write wr), .error e⟩])
      (hw : s.writes = executed tr ++ wr :: rest) : ScriptRun s tr (.fail (.database e))
  | running {q : ServiceM α} {wr : Write} {rest : List Write} (hq : ¬ q.Finished)
      (hw : s.writes = executed tr ++ wr :: rest) : ScriptRun s tr q

theorem toProg_inv {s : Script α} {q : ServiceM α} (h : Runs E.handler s.toProg w tr q w') :
    ScriptRun s tr q := by
  induction s generalizing w tr with
  | done a =>
    obtain ⟨rfl, rfl, rfl⟩ := h.done_inv
    exact .returned rfl rfl
  | fail e =>
    obtain ⟨rfl, rfl, rfl⟩ := h.fail_inv
    exact .raised rfl rfl
  | write wr k ih =>
    rcases h.call_inv with ⟨rfl, rfl, rfl⟩ | ⟨r, w₁, tr', hop, rfl, hrun⟩
    · exact .running id rfl
    · rcases r with e | a
      · obtain ⟨rfl, rfl, rfl⟩ := hrun.fail_inv
        exact .failed (List.nil_append _).symm rfl
      · cases ih hrun with
        | returned hout hw => exact .returned hout (congrArg (wr :: ·) hw)
        | raised hout hw => exact .raised hout (congrArg (wr :: ·) hw)
        | failed htr hw =>
          have htr' := congrArg (⟨.sql (.write wr), .ok a⟩ :: ·) htr
          exact .failed (htr'.trans (List.cons_append ..).symm) (congrArg (wr :: ·) hw)
        | running hq hw => exact .running hq (congrArg (wr :: ·) hw)

/-- A script executes its writes from the first one on. -/
theorem ScriptRun.executed_isPrefix {s : Script α} {q : ServiceM α} (h : ScriptRun s tr q) :
    executed tr <+: s.writes := by
  cases h with
  | returned _ hw => exact hw ▸ List.prefix_rfl
  | raised _ hw => exact hw ▸ List.prefix_rfl
  | failed _ hw => exact hw ▸ List.prefix_append ..
  | running _ hw => exact hw ▸ List.prefix_append ..

/-! ### What the parts of the loop issue -/

/-- The operations of `notify_webhooks`. -/
inductive Notifies : ServiceOp → Prop where
  | list (e : Int64) : Notifies (.sql (.listWebhooksForEscrow e))
  | now : Notifies .utcNow
  | spawn (d : Delivery) : Notifies (.spawnDelivery d)

/-- The operations of the processing of an event. -/
inductive Processes : ServiceOp → Prop where
  | write (wr : Write) : Processes (.sql (.write wr))
  | notify {op : ServiceOp} (h : Notifies op) : Processes op

/-- Notifying changes nothing. -/
theorem eq_of_notifies {op : ServiceOp} {r : op.Reply} (hop : Notifies op)
    (h : E.handler op w r w') : w' = w := by
  cases hop with
  | list e => exact World.eq_of (h.1.eq_of_reads fun _ => ⟨_, rfl⟩) h.2
  | now => exact h
  | spawn d => exact h

theorem toProg_only (s : Script α) : s.toProg.Only Processes := by
  induction s with
  | done a => trivial
  | fail e => trivial
  | write wr k ih =>
    refine ⟨.write wr, fun r => ?_⟩
    rcases r with e | a
    · trivial
    · exact ih

theorem spawnDeliveries_only (crates : Crates) (timestamp : Int) (body : String)
    (webhooks : List WebhookRow) :
    (spawnDeliveries crates timestamp body webhooks).Only Notifies := by
  induction webhooks with
  | nil => trivial
  | cons webhook webhooks ih => exact ⟨.spawn _, fun _ => ih⟩

theorem notifyWebhooks_only (crates : Crates) (e : Int64) (event : String) :
    (notifyWebhooks crates e event).Only Notifies := by
  refine ⟨.list e, fun r => ?_⟩
  rcases r with err | webhooks
  · trivial
  · exact ⟨.now, fun _ => spawnDeliveries_only _ _ _ _⟩

theorem runEvent_only (crates : Crates) (event : RpcEvent) :
    (runEvent crates event).Only Processes := by
  refine (toProg_only _).bind fun r => ?_
  rcases r with _ | ⟨e, name⟩
  · trivial
  · exact (notifyWebhooks_only crates e name).mono fun _ => .notify

theorem runPage_only (crates : Crates) (events : List RpcEvent) (n : Nat) :
    (runPage crates events n).Only Processes := by
  induction events generalizing n with
  | nil => trivial
  | cons event events ih =>
    unfold runPage
    split
    · exact ih n
    · exact (runEvent_only crates event).attempt.bind fun _ => ih (n + 1)

/-- Notifications write nothing. -/
theorem executed_eq_nil (h : ∀ x ∈ tr, Notifies x.1) : executed tr = [] := by
  refine List.filterMap_eq_nil_iff.mpr fun x hx => ?_
  obtain ⟨op, r⟩ := x
  cases h _ hx <;> rfl

/-- The processing of events stores no cursor and asks for no page. -/
theorem stored_eq_nil (h : ∀ x ∈ tr, Processes x.1) : stored tr = [] := by
  refine List.filterMap_eq_nil_iff.mpr fun x hx => ?_
  obtain ⟨op, r⟩ := x
  cases h _ hx with
  | write wr => rfl
  | notify h => cases h <;> rfl

@[inherit_doc stored_eq_nil]
theorem requests_eq_nil (h : ∀ x ∈ tr, Processes x.1) : requests tr = [] := by
  refine List.filterMap_eq_nil_iff.mpr fun x hx => ?_
  obtain ⟨op, r⟩ := x
  cases h _ hx with
  | write wr => rfl
  | notify h => cases h <;> rfl

/-! ### Pages -/

@[inherit_doc stored_eq_nil]
theorem pages_eq_nil (h : ∀ x ∈ tr, Processes x.1) : pages tr = [] := by
  refine List.filterMap_eq_nil_iff.mpr fun x hx => ?_
  obtain ⟨op, r⟩ := x
  cases h _ hx with
  | write wr => rfl
  | notify h => cases h <;> rfl

theorem spawnDeliveries_ne_fail {crates : Crates} {timestamp : Int} {body : String} {webhooks : List WebhookRow}
    {err : Error} (h : Runs E.handler (spawnDeliveries crates timestamp body webhooks) w tr
      (.fail err) w') : False := by
  induction webhooks generalizing w tr with
  | nil => cases h
  | cons webhook webhooks ih =>
    obtain ⟨r, w₁, tr', -, -, hrun⟩ := h.call_inv_of_ne (fun h => nomatch h)
    exact ih hrun

/-- Notifications never fail an event. -/
theorem notifyWebhooks_ne_fail {crates : Crates} {e : Int64} {name : String} {err : Error}
    (h : Runs E.handler (notifyWebhooks crates e name) w tr (.fail err) w') : False := by
  obtain ⟨r, w₁, tr', -, -, hrun⟩ := h.call_inv_of_ne (fun h => nomatch h)
  rcases r with err' | webhooks
  · cases hrun
  · obtain ⟨r, w₂, tr'', -, -, hrun⟩ := hrun.call_inv_of_ne (fun h => nomatch h)
    exact spawnDeliveries_ne_fail hrun

/-- The processing of events leaves the provider alone. -/
theorem rpc_eq_of_only {p q : ServiceM α} (hp : p.Only Processes)
    (h : Runs E.handler p w tr q w') : w'.rpc = w.rpc := by
  refine h.invariant_of_only (I := fun w' => w'.rpc = w.rpc) ?_ hp rfl
  intro op w₁ r w₂ hop hstep hw
  cases hop with
  | write wr => exact hstep.2.trans hw
  | notify hn => rw [eq_of_notifies hn hstep, hw]

/-- What the loop did with one event: a run of `runEvent` to its end. -/
structure EventRun (E : Env) (crates : Crates) where
  event : RpcEvent
  before : World E
  trace : Service.Trace
  rest : ServiceM Unit
  after : World E
  runs : Runs E.handler (runEvent crates event) before trace rest after
  finished : rest.Finished

/-- However far the processing of an event got, it executed a beginning of its statements. -/
theorem executed_of_runEvent_isPrefix {crates : Crates} {event : RpcEvent} {q : ServiceM Unit}
    (h : Runs E.handler (runEvent crates event) w tr q w') :
    executed tr <+: (processEvent crates event).writes := by
  rcases h.bind_inv with ⟨p, hp, -, -⟩ | ⟨o, w₁, tr₁, tr₂, h₁, h₂, rfl⟩
  · exact (toProg_inv hp).executed_isPrefix
  · have hnone : executed tr₂ = [] := by
      rcases o with _ | ⟨e, name⟩
      · obtain ⟨rfl, -, -⟩ := h₂.done_inv
        rfl
      · exact executed_eq_nil (h₂.only (notifyWebhooks_only crates e name))
    rw [executed_append, hnone, List.append_nil]
    exact (toProg_inv h₁).executed_isPrefix

/-- An event that decodes and all of whose statements were executed came to its notification. -/
theorem EventRun.returned {crates : Crates} (r : EventRun E crates)
    {o : Option (Int64 × String)} (hout : (processEvent crates r.event).outcome = .ok o)
    (hall : executed r.trace = (processEvent crates r.event).writes) :
    ∃ w₁ tr₁ tr₂, Runs E.handler (processEvent crates r.event).toProg r.before tr₁ (.done o) w₁ ∧
      Runs E.handler (match o with
        | some (e, name) => notifyWebhooks crates e name
        | none => .done ()) w₁ tr₂ r.rest r.after ∧
      r.trace = tr₁ ++ tr₂ := by
  rcases r.runs.bind_finished_inv r.finished with ⟨err, hp, -⟩ | ⟨o', w₁, tr₁, tr₂, h₁, h₂, htr⟩
  · cases toProg_inv hp with
    | raised herr => cases hout.symm.trans herr
    | failed _ hw =>
      have hlen := congrArg List.length (hall.trans hw)
      simp at hlen
    | running hq => exact absurd trivial hq
  · cases toProg_inv h₁ with
    | returned hout' =>
      obtain rfl := Except.ok.inj (hout.symm.trans hout')
      refine ⟨w₁, tr₁, tr₂, h₁, ?_, htr⟩
      rcases o with _ | ⟨e, name⟩ <;> exact h₂
    | running hq => exact absurd trivial hq

/-- An event processed without an error decodes, and all its statements were executed. -/
theorem EventRun.executed_of_done {crates : Crates} (r : EventRun E crates)
    (hdone : r.rest = .done ()) : ∃ o, (processEvent crates r.event).outcome = .ok o ∧
      executed r.trace = (processEvent crates r.event).writes := by
  have hrun := r.runs
  rw [hdone] at hrun
  rcases hrun.bind_finished_inv trivial with ⟨err, -, hfail⟩ | ⟨o, w₁, tr₁, tr₂, h₁, h₂, htr⟩
  · cases hfail
  · have hnone : executed tr₂ = [] := by
      rcases o with _ | ⟨e, name⟩
      · obtain ⟨rfl, -, -⟩ := h₂.done_inv
        rfl
      · exact executed_eq_nil (h₂.only (notifyWebhooks_only crates e name))
    cases toProg_inv h₁ with
    | returned hout hw =>
      exact ⟨o, hout, by rw [htr, executed_append, hnone, List.append_nil, hw]⟩
    | running hq => exact absurd trivial hq

/-- A finished pass over events: one `EventRun` for each event it does not pass over. -/
inductive PageRun (E : Env) (crates : Crates) :
    List RpcEvent → World E → List (EventRun E crates) → World E → Prop where
  | nil (w : World E) : PageRun E crates [] w [] w
  | skip {event : RpcEvent} {events : List RpcEvent} {w w' : World E}
      {rs : List (EventRun E crates)} (hskip : event.inSuccessfulContractCall = false)
      (hrest : PageRun E crates events w rs w') : PageRun E crates (event :: events) w rs w'
  | event {events : List RpcEvent} {w' : World E} {rs : List (EventRun E crates)}
      (r : EventRun E crates) (hcall : r.event.inSuccessfulContractCall = true)
      (hrest : PageRun E crates events r.after rs w') :
      PageRun E crates (r.event :: events) r.before (r :: rs) w'

/-- The trace of a pass, one event after the other. -/
def pageTrace {crates : Crates} (rs : List (EventRun E crates)) : Service.Trace :=
  rs.flatMap EventRun.trace

theorem pageTrace_cons {crates : Crates} (r : EventRun E crates) (rs : List (EventRun E crates)) :
    pageTrace (r :: rs) = r.trace ++ pageTrace rs := List.flatMap_cons

/-- A pass treats the events of successful calls, in order. -/
theorem PageRun.map_event {crates : Crates} {events : List RpcEvent}
    {rs : List (EventRun E crates)} (h : PageRun E crates events w rs w') :
    rs.map EventRun.event = events.filter RpcEvent.inSuccessfulContractCall := by
  induction h with
  | nil => rfl
  | skip hskip _ ih => rw [ih, List.filter_cons_of_neg (by simp [hskip])]
  | event r hcall _ ih => rw [List.map_cons, ih, List.filter_cons_of_pos hcall]

/-- What the processing of events preserves holds before each event of a pass. -/
theorem PageRun.before {crates : Crates} {events : List RpcEvent} {rs : List (EventRun E crates)}
    {I : World E → Prop} (hI : ∀ op w r w', Processes op → E.handler op w r w' → I w → I w')
    (h : PageRun E crates events w rs w') (hw : I w) : ∀ r ∈ rs, I r.before := by
  induction h with
  | nil => exact fun r hr => by cases hr
  | skip _ _ ih => exact ih hw
  | event r _ _ ih =>
    intro r' hr'
    rcases List.mem_cons.mp hr' with rfl | hr'
    · exact hw
    · exact ih (r.runs.invariant_of_only hI (runEvent_only crates r.event) hw) r' hr'

/-- The loop on an event of a successful call: whatever becomes of it, the next one follows. -/
theorem runPage_cons {crates : Crates} {event : RpcEvent}
    (h : event.inSuccessfulContractCall = true) (events : List RpcEvent) (n : Nat) :
    runPage crates (event :: events) n =
      (runEvent crates event).attempt.bind fun _ => runPage crates events (n + 1) := by
  rw [runPage, h]
  rfl

/-- A run of the event loop is a finished pass over some of the events, and where the loop
has not ended, a run of the next one. -/
theorem runPage_inv {crates : Crates} {events : List RpcEvent} {n : Nat} {q : ServiceM Nat}
    (h : Runs E.handler (runPage crates events n) w tr q w') :
    (∃ rs, PageRun E crates events w rs w' ∧ tr = pageTrace rs ∧ q = .done (n + rs.length)) ∨
      ∃ past event rest rs w₁ seg q₁, events = past ++ event :: rest ∧
        PageRun E crates past w rs w₁ ∧ event.inSuccessfulContractCall = true ∧
        Runs E.handler (runEvent crates event) w₁ seg q₁ w' ∧ tr = pageTrace rs ++ seg ∧
        ¬ q.Finished := by
  induction events generalizing w n tr with
  | nil =>
    obtain ⟨rfl, rfl, rfl⟩ := h.done_inv
    exact Or.inl ⟨[], .nil _, rfl, rfl⟩
  | cons event events ih =>
    unfold runPage at h
    split at h
    · rename_i hskip
      have hskip : event.inSuccessfulContractCall = false := by simpa using hskip
      rcases ih h with ⟨rs, hrun, htr, hq⟩ |
          ⟨past, event', rest, rs, w₁, seg, q₁, rfl, hrun, hcall, hlast, htr, hq⟩
      · exact Or.inl ⟨rs, .skip hskip hrun, htr, hq⟩
      · exact Or.inr ⟨event :: past, event', rest, rs, w₁, seg, q₁, rfl, .skip hskip hrun,
          hcall, hlast, htr, hq⟩
    · rename_i hcall
      have hcall : event.inSuccessfulContractCall = true := by simpa using hcall
      rcases h.bind_inv with ⟨q', hq', rfl, hne⟩ | ⟨r, w₁, tr₁, tr₂, h₁, h₂, rfl⟩
      · -- the run was cut off within the event
        obtain ⟨q₁, hq₁, rfl⟩ := hq'.attempt_inv
        exact Or.inr ⟨[], event, events, [], w, tr, q₁, rfl, .nil w, hcall, hq₁, rfl,
          fun hq => Prog.not_finished_of_attempt hne (Prog.finished_of_bind hq)⟩
      · -- the event ended, and whether it failed or not the loop goes on
        obtain ⟨q₁, hq₁, hdone⟩ := h₁.attempt_inv
        let r : EventRun E crates :=
          ⟨event, w, tr₁, q₁, w₁, hq₁, Prog.finished_of_attempt_eq_done hdone.symm⟩
        rcases ih h₂ with ⟨rs, hrun, rfl, rfl⟩ |
            ⟨past, event', rest, rs, w₂, seg, q₂, rfl, hrun, hcall', hlast, rfl, hq⟩
        · refine Or.inl ⟨r :: rs, .event r hcall hrun, rfl, ?_⟩
          rw [List.length_cons, Nat.add_assoc, Nat.add_comm 1]
        · exact Or.inr ⟨event :: past, event', rest, r :: rs, w₂, seg, q₂, rfl,
            .event r hcall hrun, hcall', hlast, (List.append_assoc ..).symm, hq⟩

/-- The statements the loop executes are its events'. -/
theorem executed_mem_of_page {crates : Crates} {events : List RpcEvent} {n : Nat}
    {q : ServiceM Nat} (h : Runs E.handler (runPage crates events n) w tr q w') {wr : Write}
    (hwr : wr ∈ executed tr) : ∃ event ∈ events, wr ∈ (processEvent crates event).writes := by
  have hpage : ∀ {events : List RpcEvent} {w w' : World E} {rs : List (EventRun E crates)},
      PageRun E crates events w rs w' → wr ∈ executed (pageTrace rs) →
      ∃ event ∈ events, wr ∈ (processEvent crates event).writes := by
    intro events w w' rs hrs hmem
    obtain ⟨x, hx, hexec⟩ := List.mem_filterMap.mp hmem
    obtain ⟨r, hr, hxr⟩ := List.mem_flatMap.mp hx
    have hev : r.event ∈ events := by
      have hmap : r.event ∈ rs.map EventRun.event := List.mem_map_of_mem hr
      rw [hrs.map_event] at hmap
      exact (List.mem_filter.mp hmap).1
    exact ⟨r.event, hev, (executed_of_runEvent_isPrefix r.runs).subset
      (List.mem_filterMap.mpr ⟨x, hxr, hexec⟩)⟩
  rcases runPage_inv h with ⟨rs, hrs, rfl, -⟩ |
      ⟨past, event, rest, rs, w₁, seg, q₁, rfl, hrs, -, hrun, rfl, -⟩
  · exact hpage hrs hwr
  · rw [executed_append] at hwr
    rcases List.mem_append.mp hwr with hwr | hwr
    · obtain ⟨event', hev, hmem⟩ := hpage hrs hwr
      exact ⟨event', List.mem_append_left _ hev, hmem⟩
    · exact ⟨event, by simp, (executed_of_runEvent_isPrefix hrun).subset hwr⟩

/-! ### Polls -/

/-- The request a poll sends, by the cursor it reads. -/
inductive RequestFrom (E : Env) (contractId : String) (w : World E) : GetEventsParams → Prop where
  | bootstrap {latest : UInt32} (hcursor : w.db.indexerCursor = (0, none))
      (hlatest : E.latest w.rpc latest) : RequestFrom E contractId w
        (getEventsParams contractId (some (bootstrapLedger latest)) none pageLimit)
  | resume {ledger : Int64} {cursor : String}
      (hcursor : w.db.indexerCursor = (ledger, some cursor)) : RequestFrom E contractId w
        (getEventsParams contractId none (some cursor) pageLimit)
  | neither {ledger : Int64} (hcursor : w.db.indexerCursor = (ledger, none))
      (hledger : ledger ≠ 0) : RequestFrom E contractId w
        (getEventsParams contractId none none pageLimit)

/-- The operations of a poll before it asks for events. -/
inductive Prepares : ServiceOp → Prop where
  | cursor : Prepares (.sql .getCursor)
  | latest : Prepares .getLatestLedger

/-- Before it asks for events, a poll does nothing a trace accounts for. -/
theorem nil_of_prepares (h : ∀ x ∈ tr, Prepares x.1) :
    executed tr = [] ∧ stored tr = [] ∧ requests tr = [] ∧ pages tr = [] := by
  refine ⟨?_, ?_, ?_, ?_⟩
  all_goals
    refine List.filterMap_eq_nil_iff.mpr fun x hx => ?_
    obtain ⟨op, r⟩ := x
    cases h _ hx <;> rfl

/-- A poll that was not served a page did nothing; one that was served a page worked on it,
and where it came to its end it sent the cursor the page leaves. -/
inductive PollRun (E : Env) (crates : Crates) (contractId : String) (w : World E) :
    Service.Trace → World E → Prop where
  | unserved {tr : Service.Trace} {w' : World E} (hw : w' = w)
      (hreq : ∀ params ∈ requests tr, RequestFrom E contractId w params)
      (hexecuted : executed tr = []) (hstored : stored tr = []) (hpages : pages tr = []) :
      PollRun E crates contractId w tr w'
  | served {params : GetEventsParams} {result : GetEventsResult} {w₁ w₂ w' : World E}
      {trHead trPage trStore : Service.Trace} {q : ServiceM Nat}
      (hhead : ∀ x ∈ trHead, Prepares x.1) (hreq : RequestFrom E contractId w params)
      (hserves : E.serves w.rpc params result w₁.rpc) (hdb : w₁.db = w.db)
      (hpage : Runs E.handler (runPage crates result.events 0) w₁ trPage q w₂)
      (hrpc : w'.rpc = w₁.rpc)
      (hstore : trStore = [] ∨ ∃ n cursor r, q = .done n ∧ nextCursor result = some cursor ∧
        trStore = [⟨.sql (.setCursor result.latestLedger.toUInt64.toInt64 cursor), r⟩]) :
      PollRun E crates contractId w
        (trHead ++ ⟨.getEvents params, .ok result⟩ :: (trPage ++ trStore)) w'

/-- What a poll does once it knows its request. -/
def fetchPage (crates : Crates) (contractId : String) (startLedger : Option UInt32)
    (cursor : Option String) : ServiceM Nat := do
  let result ← getEvents contractId startLedger cursor pageLimit
  let processed ← runPage crates result.events 0
  storeCursor result
  return processed

theorem storeCursor_inv {result : GetEventsResult} {n : Nat} {q : ServiceM Nat}
    (h : Runs E.handler ((storeCursor result).bind fun _ => .done n) w tr q w') :
    w'.rpc = w.rpc ∧ (tr = [] ∨ ∃ cursor r, nextCursor result = some cursor ∧
      tr = [⟨.sql (.setCursor result.latestLedger.toUInt64.toInt64 cursor), r⟩]) := by
  unfold storeCursor at h
  split at h
  · rename_i cursor hcursor
    rcases h.bind_inv with ⟨p', hp', -, -⟩ | ⟨a, w₁, tr₁, tr₂, h₁, h₂, rfl⟩
    · rcases sql_inv hp' with ⟨rfl, -, rfl⟩ | ⟨a, rfl, -, -, hrpc⟩ | ⟨e, rfl, -, -, hrpc⟩
      · exact ⟨rfl, Or.inl rfl⟩
      · exact ⟨hrpc, Or.inr ⟨cursor, _, hcursor, rfl⟩⟩
      · exact ⟨hrpc, Or.inr ⟨cursor, _, hcursor, rfl⟩⟩
    · obtain ⟨rfl, -, rfl⟩ := h₂.done_inv
      rcases sql_inv h₁ with ⟨-, hp, -⟩ | ⟨a, rfl, -, -, hrpc⟩ | ⟨e, -, hp, -⟩
      · cases hp
      · exact ⟨hrpc, Or.inr ⟨cursor, _, hcursor, rfl⟩⟩
      · cases hp
  · obtain ⟨rfl, -, rfl⟩ := h.done_inv
    exact ⟨rfl, Or.inl rfl⟩

/-- A poll that knows its request. -/
private theorem fetchPage_inv {crates : Crates} {contractId : String}
    {startLedger : Option UInt32} {cursor : Option String} {q : ServiceM Nat}
    {trHead : Service.Trace} (hhead : ∀ x ∈ trHead, Prepares x.1)
    (hreq : RequestFrom E contractId w
      (getEventsParams contractId startLedger cursor pageLimit))
    (h : Runs E.handler (fetchPage crates contractId startLedger cursor) w tr q w') :
    PollRun E crates contractId w (trHead ++ tr) w' := by
  obtain ⟨hex, hst, hrq, hpg⟩ := nil_of_prepares hhead
  rcases h.call_inv with ⟨rfl, -, rfl⟩ | ⟨r, w₁, tr', hop, rfl, hrun⟩
  · rw [List.append_nil]
    exact .unserved rfl (by simp [hrq]) hex hst hpg
  · rcases r with e | result
    · obtain ⟨rfl, -, rfl⟩ := hrun.fail_inv
      refine .unserved ?_ ?_ ?_ ?_ ?_
      · exact World.eq_of hop.1 hop.2
      · rw [requests_append, hrq, List.nil_append]
        intro params hparams
        obtain rfl := List.mem_singleton.mp hparams
        exact hreq
      · rw [executed_append, hex]
        rfl
      · rw [stored_append, hst]
        rfl
      · rw [pages_append, hpg]
        rfl
    · obtain ⟨hdb, hserves⟩ := hop
      have hrun' : Runs E.handler ((runPage crates result.events 0).bind fun n =>
          (storeCursor result).bind fun _ => .done n) w₁ tr' q w' := hrun
      have honly := runPage_only crates result.events 0
      rcases hrun'.bind_inv with ⟨p', hp', -, -⟩ | ⟨n, w₂, tr₁, tr₂, h₁, h₂, rfl⟩
      · -- within the page no cursor is stored
        have hserved := PollRun.served hhead hreq hserves hdb hp' (rpc_eq_of_only honly hp')
          (Or.inl rfl)
        rwa [List.append_nil] at hserved
      · obtain ⟨hrpc, hstore⟩ := storeCursor_inv h₂
        refine .served hhead hreq hserves hdb h₁ (hrpc.trans (rpc_eq_of_only honly h₁)) ?_
        rcases hstore with rfl | ⟨cursor, r, hc, rfl⟩
        · exact Or.inl rfl
        · exact Or.inr ⟨n, cursor, r, rfl, hc, rfl⟩
/-- **Inversion of a poll.** However far it got and whatever failed on the way, a poll is one
of the cases of `PollRun`. -/
theorem pollOnce_inv {crates : Crates} {contractId : String} {q : ServiceM Nat}
    (h : Runs E.handler (pollOnce crates contractId) w tr q w') :
    PollRun E crates contractId w tr w' := by
  rcases h.call_inv with ⟨rfl, -, rfl⟩ | ⟨r, w₁, tr', hop, rfl, hrun⟩
  · exact .unserved rfl (fun _ h => by cases h) rfl rfl rfl
  · rcases r with e | ⟨ledger, cursor⟩
    · obtain ⟨rfl, -, rfl⟩ := hrun.fail_inv
      exact .unserved (World.eq_of hop.1.error_inv.1 hop.2) (fun _ h => by cases h) rfl rfl rfl
    · obtain ⟨now, hexec⟩ := hop.1.ok_inv
      obtain ⟨hcursor, hdb⟩ := Prod.mk.inj (Except.ok.inj hexec)
      obtain rfl := World.eq_of hdb.symm hop.2
      have hcursor' : w₁.db.indexerCursor = (ledger, cursor) := hcursor
      have hhead : ∀ x ∈ ([⟨.sql .getCursor, .ok (ledger, cursor)⟩] : Service.Trace),
          Prepares x.1 := by
        intro x hx
        obtain rfl := List.mem_singleton.mp hx
        exact .cursor
      have hrun' : Runs E.handler ((startLedgerFor ledger cursor).bind fun startLedger =>
          fetchPage crates contractId startLedger cursor) w₁ tr' q w' := hrun
      by_cases hboot : (cursor.isNone && ledger = 0) = true
      · -- a cursor row that was never set: the start ledger is asked for
        rw [startLedgerFor, if_pos hboot] at hrun'
        obtain ⟨rfl, rfl⟩ : cursor = none ∧ ledger = 0 := by simpa using hboot
        rcases hrun'.call_inv with ⟨rfl, -, rfl⟩ | ⟨r, w₂, tr'', hop', rfl, hrun''⟩
        · exact .unserved rfl (fun _ h => by cases h) rfl rfl rfl
        · obtain ⟨rfl, hlatest⟩ := hop'
          rcases r with e | latest
          · obtain ⟨rfl, -, rfl⟩ := hrun''.fail_inv
            exact .unserved rfl (fun _ h => by cases h) rfl rfl rfl
          · have hhead' : ∀ x ∈ ([⟨.sql .getCursor, .ok (0, none)⟩,
                ⟨.getLatestLedger, .ok latest⟩] : Service.Trace), Prepares x.1 := by
              intro x hx
              rcases List.mem_cons.mp hx with rfl | hx
              · exact .cursor
              · obtain rfl := List.mem_singleton.mp hx
                exact .latest
            exact fetchPage_inv hhead' (.bootstrap hcursor' (hlatest latest rfl)) hrun''
      · -- the request has the stored cursor, if there is one
        rw [startLedgerFor, if_neg hboot] at hrun'
        refine fetchPage_inv hhead ?_ hrun'
        rcases cursor with _ | cursor
        · exact .neither hcursor' (by simpa using hboot)
        · exact .resume hcursor'

/-- What the trace of a poll that was served a page accounts for: the writes of the event
loop, the page and its request, and the cursor where it was stored. -/
private theorem trace_of_served {params : GetEventsParams} {result : GetEventsResult}
    {trHead trPage trStore : Service.Trace} (hhead : ∀ x ∈ trHead, Prepares x.1)
    (hpage : ∀ x ∈ trPage, Processes x.1)
    (hstore : trStore = [] ∨
      ∃ ledger cursor r, trStore = [⟨.sql (.setCursor ledger cursor), r⟩])
    (htr : tr = trHead ++ ⟨.getEvents params, .ok result⟩ :: (trPage ++ trStore)) :
    executed tr = executed trPage ∧ stored tr = stored trStore ∧ requests tr = [params] ∧
      pages tr = [(params, result)] := by
  obtain ⟨hex, hst, hrq, hpg⟩ := nil_of_prepares hhead
  have hwrites : executed trStore = [] := by
    rcases hstore with rfl | ⟨_, _, _ | _, rfl⟩ <;> rfl
  have hrequests : requests trStore = [] := by
    rcases hstore with rfl | ⟨_, _, _ | _, rfl⟩ <;> rfl
  have hpages : pages trStore = [] := by
    rcases hstore with rfl | ⟨_, _, _ | _, rfl⟩ <;> rfl
  subst htr
  refine ⟨?_, ?_, ?_, ?_⟩
  · rw [executed_append, executed_cons, executed_append, hex, hwrites, List.append_nil]
    rfl
  · rw [stored_append, stored_cons, stored_append, hst, stored_eq_nil hpage]
    rfl
  · rw [requests_append, requests_cons, requests_append, hrq, requests_eq_nil hpage, hrequests]
    rfl
  · rw [pages_append, pages_cons, pages_append, hpg, pages_eq_nil hpage, hpages]
    rfl

/-- The requests of a poll are those of the cursor it reads. -/
theorem PollRun.requests {crates : Crates} {contractId : String}
    (h : PollRun E crates contractId w tr w') :
    ∀ params ∈ requests tr, RequestFrom E contractId w params := by
  cases h with
  | unserved _ hreq => exact hreq
  | served hhead hreq _ _ hpage _ hstore =>
    obtain ⟨-, -, hrq, -⟩ := trace_of_served hhead (hpage.only (runPage_only ..))
      (hstore.imp_right fun ⟨_, cursor, r, _, _, h⟩ => ⟨_, cursor, r, h⟩) rfl
    rw [hrq]
    intro params' hmem
    obtain rfl := List.mem_singleton.mp hmem
    exact hreq

/-- The pages of a poll are those it was served for what it asked. -/
theorem PollRun.pages_served {crates : Crates} {contractId : String}
    (h : PollRun E crates contractId w tr w') :
    ∀ page ∈ pages tr, RequestFrom E contractId w page.1 ∧
      ∃ rpc, E.serves w.rpc page.1 page.2 rpc := by
  cases h with
  | unserved _ _ _ _ hpages =>
    rw [hpages]
    exact fun page hpage => by cases hpage
  | served hhead hreq hserves _ hpage _ hstore =>
    obtain ⟨-, -, -, hpg⟩ := trace_of_served hhead (hpage.only (runPage_only ..))
      (hstore.imp_right fun ⟨_, cursor, r, _, _, h⟩ => ⟨_, cursor, r, h⟩) rfl
    rw [hpg]
    intro page hmem
    obtain rfl := List.mem_singleton.mp hmem
    exact ⟨hreq, _, hserves⟩

/-- **What a poll does.** Either it executes nothing and stores nothing, or it was served a
page, executed statements of the event loop on it, and stores the cursor the page leaves only
after the loop has ended. -/
theorem PollRun.spec {crates : Crates} {contractId : String}
    (h : PollRun E crates contractId w tr w') :
    (w' = w ∧ executed tr = [] ∧ stored tr = [] ∧ committed? tr = none) ∨
      ∃ params result w₁ trPage q w₂, RequestFrom E contractId w params ∧
        E.serves w.rpc params result w₁.rpc ∧ w₁.db = w.db ∧
        Runs E.handler (runPage crates result.events 0) w₁ trPage q w₂ ∧ w'.rpc = w₁.rpc ∧
        executed tr = executed trPage ∧
        ((stored tr = [] ∧ committed? tr = none) ∨
          ∃ cursor, q.Finished ∧ nextCursor result = some cursor ∧
            stored tr = [(result.latestLedger.toUInt64.toInt64, some cursor)] ∧
            committed? tr = some (params, result)) := by
  cases h with
  | unserved hw _ hexecuted hstored => exact Or.inl ⟨hw, hexecuted, hstored, if_pos hstored⟩
  | served hhead hreq hserves hdb hpage hrpc hstore =>
    obtain ⟨hex, hst, -, hpg⟩ := trace_of_served hhead (hpage.only (runPage_only ..))
      (hstore.imp_right fun ⟨_, cursor, r, _, _, h⟩ => ⟨_, cursor, r, h⟩) rfl
    refine Or.inr ⟨_, _, _, _, _, _, hreq, hserves, hdb, hpage, hrpc, hex, ?_⟩
    unfold committed?
    rw [hst, hpg]
    rcases hstore with rfl | ⟨n, cursor, r, rfl, hcursor, rfl⟩
    · exact Or.inl ⟨rfl, rfl⟩
    · rcases r with e | u
      · exact Or.inl ⟨rfl, rfl⟩
      · exact Or.inr ⟨cursor, trivial, hcursor, rfl, rfl⟩

/-- The statements a poll executes are those of the events it was served. -/
theorem PollRun.executed_mem {crates : Crates} {contractId : String}
    (h : PollRun E crates contractId w tr w') {wr : Write} (hwr : wr ∈ executed tr) :
    ∃ page ∈ pages tr, ∃ event ∈ page.2.events, wr ∈ (processEvent crates event).writes := by
  cases h with
  | unserved _ _ hexecuted =>
    rw [hexecuted] at hwr
    cases hwr
  | served hhead _ _ _ hpage _ hstore =>
    obtain ⟨hex, -, -, hpg⟩ := trace_of_served hhead (hpage.only (runPage_only ..))
      (hstore.imp_right fun ⟨_, cursor, r, _, _, h⟩ => ⟨_, cursor, r, h⟩) rfl
    rw [hex] at hwr
    rw [hpg]
    exact ⟨_, List.mem_singleton_self _, executed_mem_of_page hpage hwr⟩

/-- A poll that committed a page was served no other, and stored one cursor. -/
theorem PollRun.once {crates : Crates} {contractId : String}
    (h : PollRun E crates contractId w tr w') {page : GetEventsParams × GetEventsResult}
    (hc : committed? tr = some page) : pages tr = [page] ∧ (stored tr).length = 1 := by
  cases h with
  | unserved _ _ _ hstored =>
    rw [committed?, if_pos hstored] at hc
    cases hc
  | served hhead _ _ _ hpage _ hstore =>
    obtain ⟨-, hst, -, hpg⟩ := trace_of_served hhead (hpage.only (runPage_only ..))
      (hstore.imp_right fun ⟨_, cursor, r, _, _, h⟩ => ⟨_, cursor, r, h⟩) rfl
    rw [committed?, hst, hpg] at hc
    rw [hst, hpg]
    split at hc
    next => cases hc
    next hne =>
      obtain rfl := Option.some.inj hc
      rcases hstore with rfl | ⟨n, cursor, e | u, -, -, rfl⟩
      · exact absurd rfl hne
      · exact absurd rfl hne
      · exact ⟨rfl, rfl⟩

/-- A poll that committed a page ran the event loop on it to its end. -/
theorem PollRun.committed {crates : Crates} {contractId : String}
    (h : PollRun E crates contractId w tr w') {params : GetEventsParams}
    {result : GetEventsResult} (hc : committed? tr = some (params, result)) :
    ∃ w₁ trPage n w₂, w₁.db = w.db ∧ trPage <:+: tr ∧
      Runs E.handler (runPage crates result.events 0) w₁ trPage (.done n) w₂ := by
  cases h with
  | unserved _ _ _ hstored =>
    rw [committed?, if_pos hstored] at hc
    cases hc
  | @served params' result' w₁ w₂ _ trHead trPage trStore q hhead _ _ hdb hpage _ hstore =>
    obtain ⟨-, hst, -, hpg⟩ := trace_of_served hhead (hpage.only (runPage_only ..))
      (hstore.imp_right fun ⟨_, cursor, r, _, _, h⟩ => ⟨_, cursor, r, h⟩) rfl
    rw [committed?, hst, hpg] at hc
    rcases hstore with rfl | ⟨n, cursor, r, rfl, -, -⟩
    · cases hc
    · split at hc
      · cases hc
      · cases hc
        exact ⟨w₁, trPage, n, w₂, hdb,
          ⟨trHead ++ [⟨.getEvents params, .ok result⟩], trStore, by simp⟩, hpage⟩

/-! ### Polls can be completed -/

/-- Every statement is answered. -/
private theorem exists_sqlStep (faulty : Query → Prop) (q : Query) (db : Db) :
    ∃ r db', SqlStep faulty q db r db' := by
  rcases h : q.exec 0 db with e | ⟨a, db'⟩
  · exact ⟨_, _, .rejected h⟩
  · exact ⟨_, _, .ok h⟩

/-- The operations of the processing of events are answered. -/
theorem exists_answer (op : ServiceOp) (w : World E) (hop : Processes op) :
    ∃ r w', E.handler op w r w' := by
  cases hop with
  | write wr =>
    obtain ⟨r, db', h⟩ := exists_sqlStep E.faulty (.write wr) w.db
    exact ⟨r, ⟨db', w.rpc⟩, h, rfl⟩
  | notify hn =>
    cases hn with
    | list e =>
      obtain ⟨r, db', h⟩ := exists_sqlStep E.faulty (.listWebhooksForEscrow e) w.db
      exact ⟨r, ⟨db', w.rpc⟩, h, rfl⟩
    | now => exact ⟨(0 : DateTime), w, rfl⟩
    | spawn d => exact ⟨(), w, rfl⟩

/-- Every event can be processed to its end, in every world. -/
theorem EventRun.exists_of (crates : Crates) (event : RpcEvent) (w : World E) :
    ∃ r : EventRun E crates, r.event = event ∧ r.before = w := by
  obtain ⟨tr, q, w', hrun, hq⟩ :=
    Runs.exists_finished exists_answer (runEvent_only crates event) w
  exact ⟨⟨event, w, tr, q, w', hrun, hq⟩, rfl, rfl⟩

/-- The event loop always comes to its end. -/
theorem exists_page (crates : Crates) (events : List RpcEvent) (w : World E) :
    ∃ tr n w', Runs E.handler (runPage crates events 0) w tr (.done n) w' := by
  obtain ⟨tr, q, w', hrun, hq⟩ :=
    Runs.exists_finished exists_answer (runPage_only crates events 0) w
  rcases runPage_inv hrun with ⟨rs, -, -, rfl⟩ |
      ⟨past, event, rest, rs, w₁, seg, q₁, -, -, -, -, -, hnot⟩
  · exact ⟨tr, _, w', hrun⟩
  · exact absurd hq hnot

/-- A poll gets from the stored cursor to its request. -/
private theorem exists_request (crates : Crates) {contractId : String}
    {params : GetEventsParams} (hreq : RequestFrom E contractId w params) :
    ∃ trHead startLedger cursor, (∀ x ∈ trHead, Prepares x.1) ∧
      params = getEventsParams contractId startLedger cursor pageLimit ∧
      Runs E.handler (pollOnce crates contractId) w trHead
        (fetchPage crates contractId startLedger cursor) w := by
  have hread : ∀ {ledger : Int64} {cursor : Option String},
      w.db.indexerCursor = (ledger, cursor) →
      Runs E.handler (pollOnce crates contractId) w [⟨.sql .getCursor, .ok (ledger, cursor)⟩]
        ((startLedgerFor ledger cursor).bind fun startLedger =>
          fetchPage crates contractId startLedger cursor) w := by
    intro ledger cursor hc
    have hexec : Query.exec 0 w.db .getCursor = .ok ((ledger, cursor), w.db) :=
      congrArg (fun c => Except.ok (c, w.db)) hc
    exact .step ⟨.ok hexec, rfl⟩ (.refl _ _)
  have hprep : ∀ c : Int64 × Option String,
      ∀ x ∈ ([⟨.sql .getCursor, .ok c⟩] : Service.Trace), Prepares x.1 := by
    intro c x hx
    obtain rfl := List.mem_singleton.mp hx
    exact .cursor
  cases hreq with
  | @bootstrap latest hcursor hlatest =>
    have hlate : Runs E.handler ((startLedgerFor 0 none).bind fun startLedger =>
        fetchPage crates contractId startLedger none) w [⟨.getLatestLedger, .ok latest⟩]
        (fetchPage crates contractId (some (bootstrapLedger latest)) none) w :=
      .step ⟨rfl, fun l hl => Except.ok.inj hl ▸ hlatest⟩ (.refl _ _)
    refine ⟨_, _, _, ?_, rfl, (hread hcursor).append hlate⟩
    intro x hx
    rcases List.mem_append.mp hx with hx | hx
    · exact hprep _ x hx
    · obtain rfl := List.mem_singleton.mp hx
      exact .latest
  | resume hcursor => exact ⟨_, none, _, hprep _, rfl, hread hcursor⟩
  | neither hcursor hledger =>
    have hrun := hread hcursor
    rw [startLedgerFor, if_neg (by simpa using hledger)] at hrun
    exact ⟨_, none, none, hprep _, rfl, hrun⟩

/-- A poll that is served a page can be killed anywhere in the event loop. -/
theorem exists_killed (crates : Crates) {contractId : String} {params : GetEventsParams}
    {result : GetEventsResult} {rpc : E.Rpc} (hreq : RequestFrom E contractId w params)
    (hserves : E.serves w.rpc params result rpc) {trPage : Service.Trace} {q : ServiceM Nat}
    {w₁ : World E}
    (hpage : Runs E.handler (runPage crates result.events 0) ⟨w.db, rpc⟩ trPage q w₁) :
    ∃ tr q', Runs E.handler (pollOnce crates contractId) w tr q' w₁ ∧
      executed tr = executed trPage ∧ pages tr = [(params, result)] := by
  obtain ⟨trHead, startLedger, cursor, hhead, rfl, hrun⟩ := exists_request crates hreq
  have hserve : E.handler (.getEvents (getEventsParams contractId startLedger cursor pageLimit))
      w (.ok result) ⟨w.db, rpc⟩ := ⟨rfl, hserves⟩
  have hfetch : Runs E.handler (fetchPage crates contractId startLedger cursor) w
      (⟨.getEvents _, .ok result⟩ :: (trPage ++ [])) _ w₁ :=
    .step hserve (hpage.bind.append (.refl _ _))
  obtain ⟨hex, -, -, hpg⟩ := trace_of_served hhead (hpage.only (runPage_only ..)) (Or.inl rfl) rfl
  exact ⟨_, _, hrun.append hfetch, hex, hpg⟩

/-- **A poll that is served a page can commit it**, whatever became of the page's events. -/
theorem exists_commit (crates : Crates) {contractId : String} {params : GetEventsParams}
    {result : GetEventsResult} {rpc : E.Rpc} {cursor : String}
    (hreq : RequestFrom E contractId w params) (hserves : E.serves w.rpc params result rpc)
    (hcursor : nextCursor result = some cursor) {trPage : Service.Trace} {n : Nat}
    {w₁ : World E}
    (hpage : Runs E.handler (runPage crates result.events 0) ⟨w.db, rpc⟩ trPage (.done n) w₁) :
    ∃ tr w', Runs E.handler (pollOnce crates contractId) w tr (.done n) w' ∧
      executed tr = executed trPage ∧ committed? tr = some (params, result) ∧ w'.rpc = rpc ∧
      w'.db = w₁.db.setCursor result.latestLedger.toUInt64.toInt64 cursor := by
  obtain ⟨trHead, startLedger, cursor', hhead, rfl, hrun⟩ := exists_request crates hreq
  have hserve : E.handler (.getEvents (getEventsParams contractId startLedger cursor' pageLimit))
      w (.ok result) ⟨w.db, rpc⟩ := ⟨rfl, hserves⟩
  have hstore : Runs E.handler ((storeCursor result).bind fun _ => .done n) w₁
      [⟨.sql (.setCursor result.latestLedger.toUInt64.toInt64 cursor), .ok ()⟩] (.done n)
      ⟨w₁.db.setCursor result.latestLedger.toUInt64.toInt64 cursor, rpc⟩ := by
    have hexec : Query.exec 0 w₁.db
        (.setCursor result.latestLedger.toUInt64.toInt64 cursor) = .ok ((), _) := rfl
    have hrpc : rpc = w₁.rpc := (rpc_eq_of_only (runPage_only ..) hpage).symm
    rw [storeCursor, hcursor]
    exact .step ⟨.ok hexec, hrpc⟩ (.refl _ _)
  have hfetch : Runs E.handler (fetchPage crates contractId startLedger cursor') w
      (⟨.getEvents _, .ok result⟩ :: (trPage ++ [⟨.sql (.setCursor _ cursor), .ok ()⟩]))
      (.done n) ⟨w₁.db.setCursor _ cursor, rpc⟩ := .step hserve (hpage.bind.append hstore)
  obtain ⟨hex, hst, -, hpg⟩ := trace_of_served hhead (hpage.only (runPage_only ..))
    (Or.inr ⟨_, cursor, _, rfl⟩) rfl
  refine ⟨_, _, hrun.append hfetch, hex, ?_, rfl, rfl⟩
  unfold committed?
  rw [hst, hpg]
  rfl

end ConcordBackend
