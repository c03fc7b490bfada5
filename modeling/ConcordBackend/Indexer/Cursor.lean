import ConcordBackend.Indexer.EventLog
import ConcordBackend.Indexer.Runs

/-!
# The cursor and the contract's log

`Feed` is the event log of a contract as the RPC provider numbers it: a cursor stands after a
number of events, and the id of an event is the cursor that stands right after it. A page
(`Feed.Page`) holds events of the log in order, from the place the request names on, and its
cursor, where it has one, stands after them.

The polls commit the log piece by piece: each page is requested from where the last committed
one ended (`Feed.Committed`), so the committed pages together are the log from the first start
ledger on, without gaps and repeats.
-/

namespace ConcordBackend

/-- The event log of a contract, with the place every cursor stands at: the number of events
at or before it. -/
structure Feed where
  contractId : String
  log : List RpcEvent
  position : String → ℕ
  ledgers : log.Pairwise fun a b => a.ledger ≤ b.ledger
  position_id : ∀ (i : ℕ) (h : i < log.length), position log[i].id = i + 1

namespace Feed

/-- The number of events before the first one at a ledger. -/
def firstAt (feed : Feed) (ledger : UInt32) : ℕ :=
  feed.log.countP fun event => event.ledger < ledger

/-- The place a request asks from: its cursor's, or the first event at its start ledger. A
request needs exactly one of the two. -/
def start? (feed : Feed) (params : GetEventsParams) : Option ℕ :=
  match params.startLedger, params.cursor with
  | some ledger, none => some (feed.firstAt ledger)
  | none, some cursor => some (feed.position cursor)
  | _, _ => none

/-- A page the provider may serve for a request that asks from `start`. -/
structure Page (feed : Feed) (params : GetEventsParams) (start : ℕ)
    (result : GetEventsResult) : Prop where
  contractId : params.contractId = feed.contractId
  requested : feed.start? params = some start
  limit : result.events.length ≤ params.limit.toNat
  events : result.events = (feed.log.drop start).take result.events.length
  cursor : ∀ cursor ∈ result.cursor, feed.position cursor = start + result.events.length

/-- The provider of a feed, in a world where every call and every statement may fail. -/
def env (feed : Feed) : Env where
  Rpc := Unit
  faulty := fun _ => True
  latest := fun _ _ => True
  serves := fun _ params result _ => ∃ start, feed.Page params start result

variable {feed : Feed}

/-- The cursor a page leaves stands after its events. -/
theorem Page.position_nextCursor {params : GetEventsParams} {start : ℕ}
    {result : GetEventsResult} (h : feed.Page params start result) {cursor : String}
    (hc : nextCursor result = some cursor) :
    feed.position cursor = start + result.events.length := by
  unfold nextCursor at hc
  rcases hcur : result.cursor with _ | c
  · rw [hcur] at hc
    obtain ⟨event, hlast, rfl⟩ := Option.map_eq_some_iff.mp hc
    rw [List.getLast?_eq_getElem?] at hlast
    obtain ⟨hi, -⟩ := List.getElem?_eq_some_iff.mp hlast
    have hget := congrArg (·[result.events.length - 1]?) h.events
    simp only [List.getElem?_take, List.getElem?_drop, hi, if_true] at hget
    obtain ⟨hlog, hid⟩ := List.getElem?_eq_some_iff.mp (hget.symm.trans hlast)
    rw [← hid, feed.position_id]
    omega
  · rw [hcur] at hc
    obtain rfl := Option.some.inj hc
    exact h.cursor c hcur

/-- From the first event at a ledger on, a log holds the events at that ledger or later. -/
theorem drop_countP_ledger {log : List RpcEvent}
    (h : log.Pairwise fun a b => a.ledger ≤ b.ledger) (ledger : UInt32) :
    log.drop (log.countP fun event => event.ledger < ledger) =
      log.filter fun event => ledger ≤ event.ledger := by
  induction log with
  | nil => rfl
  | cons event log ih =>
    obtain ⟨hle, hlog⟩ := List.pairwise_cons.mp h
    by_cases hlt : event.ledger < ledger
    · have hnle : ¬ ledger ≤ event.ledger := fun hge =>
        absurd (UInt32.lt_of_le_of_lt hge hlt) (UInt32.lt_irrefl _)
      simp [hlt, hnle, ih hlog]
    · have hge : ∀ event' ∈ event :: log, ledger ≤ event'.ledger := by
        intro event' hev
        rcases List.mem_cons.mp hev with rfl | hev
        · exact UInt32.not_lt.mp hlt
        · exact UInt32.le_trans (UInt32.not_lt.mp hlt) (hle event' hev)
      have hcount : (event :: log).countP (fun event => event.ledger < ledger) = 0 :=
        List.countP_eq_zero.mpr fun event' hev => by simpa using hge event' hev
      rw [hcount, List.drop_zero]
      exact (List.filter_eq_self.mpr fun event' hev => by simpa using hge event' hev).symm

/-- The log from the first event at a ledger on. -/
theorem drop_firstAt (feed : Feed) (ledger : UInt32) :
    feed.log.drop (feed.firstAt ledger) =
      feed.log.filter fun event => ledger ≤ event.ledger :=
  drop_countP_ledger feed.ledgers ledger

/-- The committed pages cover the log from the start ledger of the first one up to where the
stored cursor stands. -/
inductive Covered (feed : Feed) :
    List (GetEventsParams × GetEventsResult) → Int64 × Option String → Prop where
  | nothing : Covered feed [] (0, none)
  | upTo {first : GetEventsParams × GetEventsResult}
      {rest : List (GetEventsParams × GetEventsResult)} {startLedger : UInt32} {n : ℕ}
      {ledger : Int64} {cursor : String} (hfirst : first.1.startLedger = some startLedger)
      (hposition : feed.position cursor = feed.firstAt startLedger + n)
      (hevents : ((first :: rest).flatMap fun page => page.2.events) =
        (feed.log.drop (feed.firstAt startLedger)).take n) :
      Covered feed (first :: rest) (ledger, some cursor)

/-- The start ledger of a bootstrap is positive. -/
theorem one_le_bootstrapLedger (latest : UInt32) : 1 ≤ bootstrapLedger latest := by
  unfold bootstrapLedger
  generalize (if latest ≤ bootstrapLookbackLedgers then 0
    else latest - bootstrapLookbackLedgers) = ledger
  change 1 ≤ if ledger ≤ 1 then 1 else ledger
  split
  · exact UInt32.le_refl 1
  · rename_i h
    exact UInt32.le_of_lt (UInt32.not_le.mp h)

/-- A page requested from the stored cursor continues the log where the committed pages end. -/
theorem Covered.commit {E : Env} {w : World E} {contractId : String}
    {committed : List (GetEventsParams × GetEventsResult)} {params : GetEventsParams}
    {result : GetEventsResult} {start : ℕ} {cursor : String}
    (h : feed.Covered committed w.db.indexerCursor) (hreq : RequestFrom E contractId w params)
    (hpage : feed.Page params start result) (hcursor : nextCursor result = some cursor)
    (ledger : Int64) :
    feed.Covered (committed ++ [(params, result)]) (ledger, some cursor) := by
  have hnext := hpage.position_nextCursor hcursor
  have hstart := hpage.requested
  cases hreq with
  | bootstrap hstored =>
    rw [hstored] at h
    cases h with
    | nothing =>
      -- the first page: it starts where its own start ledger begins
      obtain rfl := Option.some.inj hstart
      refine .upTo rfl hnext ?_
      rw [List.flatMap_singleton]
      exact hpage.events
  | resume hstored =>
    rw [hstored] at h
    cases h with
    | @upTo first rest startLedger n _ token hfirst hposition hevents =>
      -- a later page: it starts at the position of the stored cursor
      obtain rfl := Option.some.inj hstart
      rw [hposition] at hnext
      refine .upTo hfirst (hnext.trans (Nat.add_assoc ..)) ?_
      have hpage' := hpage.events
      rw [hposition, ← List.drop_drop] at hpage'
      change ((first :: rest) ++ [(_, result)]).flatMap
        (fun page : GetEventsParams × GetEventsResult => page.2.events) = _
      rw [List.flatMap_append, hevents, List.flatMap_singleton, List.take_add, ← hpage']
  | neither hstored hledger =>
    rw [hstored] at h
    cases h with
    | nothing => exact absurd rfl hledger

/-- **The polls cover the log.** -/
theorem covered_of_restarts {crates : Crates} {w w' : World feed.env}
    {trs : List Service.Trace} (hw : w.db.indexerCursor = (0, none))
    (h : Restarts feed.env.handler (pollOnce crates feed.contractId) w trs w') :
    feed.Covered (trs.filterMap committed?) w'.db.indexerCursor := by
  induction h with
  | nil => exact hw ▸ .nothing
  | snoc _ hrun ih =>
    have hcursor := cursor_of_runs hrun
    rw [List.filterMap_append]
    rcases (pollOnce_inv hrun).spec with ⟨rfl, -, -, hnone⟩ |
        ⟨params, result, w₁, trPage, q, w₂, hreq, ⟨start, hpage⟩, -, -, -, -, hstore⟩
    · rw [List.filterMap_cons_none hnone, List.filterMap_nil, List.append_nil]
      exact ih
    · rcases hstore with ⟨hst, hnone⟩ | ⟨cursor, -, hnext, hst, hsome⟩
      · rw [hst] at hcursor
        rw [List.filterMap_cons_none hnone, List.filterMap_nil, List.append_nil, hcursor]
        exact ih
      · rw [hst] at hcursor
        rw [List.filterMap_cons_some hsome, List.filterMap_nil, hcursor]
        exact ih.commit hreq hpage hnext _

/-- No event of a log comes twice. -/
theorem nodup_log (feed : Feed) : feed.log.Nodup := by
  refine List.pairwise_iff_getElem.mpr fun i j hi hj hij heq => ?_
  have hpos := congrArg (fun event => feed.position event.id) heq
  simp only [feed.position_id] at hpos
  omega

end Feed

/-! ### Where the cursor stands -/

/-- The provider of an environment serves pages of the feed, whatever else it does. -/
def Feed.Provides (feed : Feed) (E : Env) : Prop :=
  ∀ s params result s', E.serves s params result s' → ∃ start, feed.Page params start result

/-- The stored cursor stands at or after the end of the first `n` events of the log. -/
def Feed.Past (feed : Feed) (n : ℕ) (db : Db) : Prop :=
  ∃ ledger cursor, db.indexerCursor = (ledger, some cursor) ∧ n ≤ feed.position cursor

section Past

variable {feed : Feed} {E : Env} {crates : Crates} {contractId : String} {w w' : World E} {n : ℕ}

/-- A page that is asked for from the stored cursor starts where the cursor stands. -/
theorem Feed.Past.start_le {params : GetEventsParams} {result : GetEventsResult} {start : ℕ}
    (hw : feed.Past n w.db) (hreq : RequestFrom E contractId w params)
    (hpage : feed.Page params start result) : n ≤ start := by
  obtain ⟨ledger, cursor, hstored, hn⟩ := hw
  have hstart := hpage.requested
  cases hreq with
  | bootstrap hc => cases hstored.symm.trans hc
  | resume hc =>
    obtain rfl := Option.some.inj (Prod.mk.inj (hstored.symm.trans hc)).2
    obtain rfl := Option.some.inj hstart
    exact hn
  | neither hc => cases hstored.symm.trans hc

/-- A poll neither moves the cursor back nor is served events from before it. -/
theorem Feed.Past.poll {tr : Service.Trace} {q : ServiceM Nat} (hE : feed.Provides E)
    (hw : feed.Past n w.db) (h : Runs E.handler (pollOnce crates contractId) w tr q w') :
    feed.Past n w'.db ∧
      ∀ page ∈ pages tr, ∃ start, n ≤ start ∧ page.2.events <+: feed.log.drop start := by
  have hrun := pollOnce_inv h
  constructor
  · have hcursor := cursor_of_runs h
    rcases hrun.spec with ⟨rfl, -, -, -⟩ |
        ⟨params, result, _, _, _, _, hreq, hserves, -, -, -, -, hstore⟩
    · exact hw
    obtain ⟨start, hpage⟩ := hE _ _ _ _ hserves
    rcases hstore with ⟨hst, -⟩ | ⟨cursor, -, hnext, hst, -⟩
    · rw [hst] at hcursor
      obtain ⟨ledger, cursor, hstored, hn⟩ := hw
      exact ⟨ledger, cursor, hcursor.trans hstored, hn⟩
    · -- the cursor that is stored stands after the events of the page
      rw [hst] at hcursor
      refine ⟨_, cursor, hcursor, ?_⟩
      rw [hpage.position_nextCursor hnext]
      exact (hw.start_le hreq hpage).trans (Nat.le_add_right ..)
  · intro page hmem
    obtain ⟨hreq, rpc, hserves⟩ := hrun.pages_served page hmem
    obtain ⟨start, hpage⟩ := hE _ _ _ _ hserves
    refine ⟨start, hw.start_le hreq hpage, ?_⟩
    rw [hpage.events]
    exact List.take_prefix ..

end Past

/-- Where the polls start from the migrated cursor, a request has either a start ledger or a
cursor. -/
theorem Feed.request_of_covered {feed : Feed} {E : Env} {w : World E} {contractId : String}
    {committed : List (GetEventsParams × GetEventsResult)}
    (h : feed.Covered committed w.db.indexerCursor) {params : GetEventsParams}
    (hreq : RequestFrom E contractId w params) :
    (∃ ledger, params.startLedger = some ledger ∧ 1 ≤ ledger ∧ params.cursor = none) ∨
      (params.startLedger = none ∧ ∃ cursor, params.cursor = some cursor) := by
  cases hreq with
  | bootstrap => exact Or.inl ⟨_, rfl, one_le_bootstrapLedger _, rfl⟩
  | resume => exact Or.inr ⟨rfl, _, rfl⟩
  | neither hstored hledger =>
    rw [hstored] at h
    cases h with
    | nothing => exact absurd rfl hledger

/-- **The cursor covers the log without gaps or repeats.** Whatever calls and statements fail
and wherever polls are cut off, every request has exactly one of a start ledger, at least 1,
and a cursor, and the pages whose cursor was stored are in order the events of the log from
the start ledger of the first of them on, up to where the cursor stands. -/
theorem cursor_covers_log (crates : Crates) {feed : Feed} {w w' : World feed.env}
    {trs : List Service.Trace} (hw : w.db.indexerCursor = (0, none))
    (h : Restarts feed.env.handler (pollOnce crates feed.contractId) w trs w') :
    (∀ tr ∈ trs, ∀ params ∈ requests tr,
      (∃ ledger, params.startLedger = some ledger ∧ 1 ≤ ledger ∧ params.cursor = none) ∨
        (params.startLedger = none ∧ ∃ cursor, params.cursor = some cursor)) ∧
    (∀ first rest, trs.filterMap committed? = first :: rest →
      ∃ ledger, first.1.startLedger = some ledger ∧
        ((trs.filterMap committed?).flatMap fun page => page.2.events) <+:
          feed.log.filter fun event => ledger ≤ event.ledger) ∧
    ((trs.filterMap committed?).flatMap fun page => page.2.events).Nodup := by
  refine ⟨?_, fun first rest heq => ?_, ?_⟩
  · induction h with
    | nil => exact fun tr htr => by cases htr
    | snoc h hrun ih =>
      intro tr htr params hparams
      rcases List.mem_append.mp htr with htr | htr
      · exact ih tr htr params hparams
      · obtain rfl := List.mem_singleton.mp htr
        exact Feed.request_of_covered (Feed.covered_of_restarts hw h)
          ((pollOnce_inv hrun).requests params hparams)
  · have hcov := Feed.covered_of_restarts hw h
    rw [heq] at hcov ⊢
    generalize w'.db.indexerCursor = c at hcov
    cases hcov with
    | upTo hfirst _ hevents =>
      refine ⟨_, hfirst, ?_⟩
      rw [hevents, feed.drop_firstAt]
      exact List.take_prefix ..
  · have hcov := Feed.covered_of_restarts hw h
    generalize trs.filterMap committed? = pages, w'.db.indexerCursor = c at hcov
    cases hcov with
    | nothing => exact .nil
    | upTo _ _ hevents =>
      rw [hevents]
      exact feed.nodup_log.sublist ((List.take_sublist ..).trans (List.drop_sublist ..))

/-! ### The sample log as a feed -/

/-- The sample log, each event's id its place. -/
def sampleFeed : Feed where
  contractId := sampleContract
  log := sampleLog
  position := fun cursor =>
    if cursor = "1" then 1 else if cursor = "2" then 2 else if cursor = "3" then 3 else 0
  ledgers := sampleLog_wellFormed.ledgers
  position_id := by
    intro i h
    rcases i with _ | _ | _ | i
    · rfl
    · rfl
    · rfl
    · have hlen : sampleLog.length = 3 := rfl
      omega

/-- The request of the first poll, at the latest ledger 17281. -/
def sampleParams : GetEventsParams :=
  getEventsParams sampleContract (some (bootstrapLedger 17281)) none pageLimit

/-- The whole sample log as one page, without a cursor of its own. -/
def samplePage : GetEventsResult := ⟨sampleLog, 17281, none⟩

theorem page_samplePage : sampleFeed.Page sampleParams 0 samplePage where
  contractId := rfl
  requested := by decide
  limit := by decide
  events := rfl
  cursor := fun _ h => by cases h

/-- The first poll of the sample can commit the whole log, whatever became of its events. -/
theorem exists_samplePoll : ∃ (tr : Service.Trace) (n : Nat) (w' : World sampleFeed.env),
    Runs sampleFeed.env.handler (pollOnce sampleCrates sampleContract) ⟨Db.migrated, ()⟩ tr
        (.done n) w' ∧
      committed? tr = some (sampleParams, samplePage) := by
  obtain ⟨trPage, n, w₁, hpage⟩ := exists_page sampleCrates sampleLog
    (⟨Db.migrated, ()⟩ : World sampleFeed.env)
  have hcursor : nextCursor samplePage = some "3" := rfl
  have hreq : RequestFrom sampleFeed.env sampleContract ⟨Db.migrated, ()⟩ sampleParams :=
    .bootstrap rfl trivial
  have hserves : sampleFeed.env.serves () sampleParams samplePage () := ⟨0, page_samplePage⟩
  obtain ⟨tr, w', hrun, -, hcommitted, -⟩ :=
    exists_commit sampleCrates hreq hserves hcursor hpage
  exact ⟨tr, n, w', hrun, hcommitted⟩

/-- The pages the sample commits are its log. -/
theorem cursor_covers_log_sample : ∃ trs : List Service.Trace,
    trs.filterMap committed? = [(sampleParams, samplePage)] ∧
      (∀ tr ∈ trs, ∀ params ∈ requests tr,
        (∃ ledger, params.startLedger = some ledger ∧ 1 ≤ ledger ∧ params.cursor = none) ∨
          (params.startLedger = none ∧ ∃ cursor, params.cursor = some cursor)) ∧
      (∀ first rest, trs.filterMap committed? = first :: rest →
        ∃ ledger, first.1.startLedger = some ledger ∧
          ((trs.filterMap committed?).flatMap fun page => page.2.events) <+:
            sampleLog.filter fun event => ledger ≤ event.ledger) ∧
      ((trs.filterMap committed?).flatMap fun page => page.2.events).Nodup := by
  obtain ⟨tr, n, w', hrun, hcommitted⟩ := exists_samplePoll
  exact ⟨[] ++ [tr], by simp [hcommitted],
    cursor_covers_log sampleCrates rfl (.snoc (.nil _) hrun)⟩

end ConcordBackend
