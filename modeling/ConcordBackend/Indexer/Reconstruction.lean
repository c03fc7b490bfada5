import ConcordBackend.Indexer.Cursor
import ConcordBackend.Indexer.Process

/-!
# Crash-and-replay correctness of the reconstruction

An indexer that is killed, or whose `get_events` or `set_cursor` fails, starts over from the
stored cursor and processes the same events again, on tables that already hold some of their
writes. `Feed.replayEnv` is the world of such an indexer: everything but the statements of
`process_event` may fail, and the provider serves a page again with at least the events it
served before.

The invariant (`Feed.Replaying`) is that the tables are those of one pass over the committed
part of the log, with some statements of the page at the cursor run on top, in whatever order
and however often. A pass over the page that comes to its end overwrites these
(`View.run_replay`), so a cursor is only ever stored over tables that one pass over the
committed events would have left (`reconstruction`).
-/

namespace ConcordBackend

variable {crates : Crates} {feed : Feed}

/-- The provider of a feed that remembers, for every place of the log, the page it last served
from there, and serves it again as the beginning of the next. The statements of
`process_event` do not fail. A bootstrap does not start after the first event. -/
def Feed.replayEnv (feed : Feed) : Env where
  Rpc := ℕ → List RpcEvent
  faulty := fun q => ∀ wr, q ≠ .write wr
  latest := fun _ latest => ∀ first ∈ feed.log.head?, bootstrapLedger latest ≤ first.ledger
  serves := fun seen params result seen' => ∃ start, feed.Page params start result ∧
    seen start <+: result.events ∧ seen' = Function.update seen start result.events

/-- The number of events the stored cursor has moved past. -/
def Feed.committed (feed : Feed) (db : Db) : ℕ :=
  match db.indexerCursor with
  | (_, some cursor) => feed.position cursor
  | (_, none) => 0

/-- The tables are those of one pass over the committed events, with statements of the page
last served at the cursor run on top. -/
structure Feed.Replaying (feed : Feed) (crates : Crates) (w : World feed.replayEnv)
    (early : List Write) : Prop where
  cursor : ∀ ledger, w.db.indexerCursor = (ledger, none) → ledger = 0
  served : ∀ wr ∈ early, wr ∈ writesOf crates (w.rpc (feed.committed w.db))
  view : w.db.view = View.run early
    (View.run (writesOf crates (feed.log.take (feed.committed w.db))) View.empty)

/-- All calls of a well-formed log are processed. -/
theorem WellFormedLog.writesOf_eq {log : List RpcEvent} (h : WellFormedLog crates log) :
    writesOf crates log = log.flatMap fun event => (processEvent crates event).writes := by
  rw [writesOf, List.filter_eq_self.mpr h.successful]

theorem WellFormedLog.ready {log : List RpcEvent} (h : WellFormedLog crates log) (v : View) :
    v.Ready (writesOf crates log) := by
  rw [h.writesOf_eq]
  exact h.protocol.toCreatedFirst.ready h.decodes v

/-- The statements of a beginning of the log. -/
theorem WellFormedLog.ready_take {log : List RpcEvent} (h : WellFormedLog crates log) (n : ℕ)
    (v : View) : v.Ready (writesOf crates (log.take n)) := by
  have hready := h.ready v
  rw [← List.take_append_drop n log, writesOf_append, View.ready_append] at hready
  exact hready.1

/-- The log from a page on. -/
theorem Feed.Page.drop_log {params : GetEventsParams} {start : ℕ} {result : GetEventsResult}
    (h : feed.Page params start result) : feed.log.drop start =
      result.events ++ feed.log.drop (start + result.events.length) := by
  have htake := (List.take_append_drop result.events.length (feed.log.drop start)).symm
  rwa [← h.events, List.drop_drop] at htake

/-- The log up to the end of a page. -/
theorem Feed.Page.take_log {params : GetEventsParams} {start : ℕ} {result : GetEventsResult}
    (h : feed.Page params start result) :
    feed.log.take (start + result.events.length) = feed.log.take start ++ result.events := by
  rw [List.take_add, ← h.events]

/-- The statements of the log before, in and after a page. -/
theorem Feed.Page.writesOf_log {params : GetEventsParams} {start : ℕ}
    {result : GetEventsResult} (h : feed.Page params start result) :
    writesOf crates feed.log = writesOf crates (feed.log.take start) ++
      (writesOf crates result.events ++
        writesOf crates (feed.log.drop (start + result.events.length))) := by
  rw [← writesOf_append, ← h.drop_log, ← writesOf_append, List.take_append_drop]

/-- The page of a poll starts where the stored cursor stands. -/
theorem Feed.Replaying.start_eq {w : World feed.replayEnv} {early : List Write}
    (h : feed.Replaying crates w early) {params : GetEventsParams} {start : ℕ}
    {result : GetEventsResult} (hreq : RequestFrom feed.replayEnv feed.contractId w params)
    (hpage : feed.Page params start result) : start = feed.committed w.db := by
  have hstart := hpage.requested
  cases hreq with
  | @bootstrap latest hcursor hlatest =>
    obtain rfl := Option.some.inj hstart
    rw [committed, hcursor]
    -- the page starts at the first event of the log, which no event is before
    refine List.countP_eq_zero.mpr fun event hev => ?_
    have hle : bootstrapLedger latest ≤ event.ledger := by
      obtain ⟨first, rest, hlog⟩ := List.exists_cons_of_ne_nil (List.ne_nil_of_mem hev)
      have hfirst : bootstrapLedger latest ≤ first.ledger := hlatest first (by rw [hlog]; rfl)
      have hsorted := feed.ledgers
      rw [hlog] at hsorted hev
      rcases List.mem_cons.mp hev with rfl | hev
      · exact hfirst
      · exact UInt32.le_trans hfirst ((List.pairwise_cons.mp hsorted).1 event hev)
    simpa using hle
  | resume hcursor =>
    rw [committed, hcursor]
    exact (Option.some.inj hstart).symm
  | neither hcursor hledger => exact absurd (h.cursor _ hcursor) hledger

/-- A poll that leaves the cursor where it stands adds what it executed to the early
statements. -/
theorem Feed.Replaying.kept {w w' : World feed.replayEnv} {early done : List Write}
    (h : feed.Replaying crates w early) (hcursor : w'.db.indexerCursor = w.db.indexerCursor)
    (hserved : ∀ wr ∈ early ++ done, wr ∈ writesOf crates (w'.rpc (feed.committed w.db)))
    (hview : w'.db.view = View.run done w.db.view) : feed.Replaying crates w' (early ++ done) := by
  have hcommitted : feed.committed w'.db = feed.committed w.db := by
    rw [committed, hcursor, ← committed]
  refine ⟨?_, ?_, ?_⟩
  · rw [hcursor]
    exact h.cursor
  · rw [hcommitted]
    exact hserved
  · rw [hcommitted, hview, h.view, View.run_append]

/-- A poll that executes its page to the end and stores the cursor behind it leaves no early
statement. -/
theorem Feed.Replaying.commit {w w' : World feed.replayEnv} {early : List Write}
    (h : feed.Replaying crates w early) {params : GetEventsParams} {result : GetEventsResult}
    (hpage : feed.Page params (feed.committed w.db) result)
    (hordered : (writesOf crates result.events).Pairwise Write.Precedes)
    (hearly : ∀ wr ∈ early, wr ∈ writesOf crates result.events) {cursor : String}
    (hnext : nextCursor result = some cursor) {ledger : Int64}
    (hcursor : w'.db.indexerCursor = (ledger, some cursor))
    (hview : w'.db.view = View.run (writesOf crates result.events) w.db.view) :
    feed.Replaying crates w' [] := by
  have hcommitted : feed.committed w'.db = feed.committed w.db + result.events.length := by
    rw [committed, hcursor]
    exact hpage.position_nextCursor hnext
  refine ⟨?_, ?_, ?_⟩
  · rw [hcursor]
    intro _ heq
    cases heq
  · intro wr hwr
    cases hwr
  · -- the page overwrites whatever its own statements left before
    rw [hcommitted, hpage.take_log, writesOf_append, View.run_append, View.run_nil, hview,
      h.view, View.run_replay hordered hearly]

/-- **One poll.** A poll only ever adds early statements of the page at the cursor, and where
it stores the cursor it leaves none. -/
theorem Feed.Replaying.poll (hlog : WellFormedLog crates feed.log)
    {w w' : World feed.replayEnv} {early : List Write} (h : feed.Replaying crates w early)
    {tr : Service.Trace} {q : ServiceM Nat}
    (hrun : Runs feed.replayEnv.handler (pollOnce crates feed.contractId) w tr q w') :
    ∃ early', feed.Replaying crates w' early' ∧ (stored tr ≠ [] → early' = []) := by
  have hview := view_of_runs hrun
  have hcursor := cursor_of_runs hrun
  rcases (pollOnce_inv hrun).spec with ⟨rfl, -, hst, -⟩ |
      ⟨params, result, w₁, trPage, q, w₂, hreq, ⟨start, hpage, hseen, hrpc₁⟩, hdb, hloop, hrpc,
        hex, hstore⟩
  · exact ⟨early, h, fun hne => absurd hst hne⟩
  obtain rfl := h.start_eq hreq hpage
  have hprecedes := hlog.precedes
  have hready := hlog.ready View.empty
  rw [← hlog.writesOf_eq, hpage.writesOf_log] at hprecedes
  rw [hpage.writesOf_log, View.ready_append, View.ready_append] at hready
  have hordered := (List.pairwise_append.mp (List.pairwise_append.mp hprecedes).2.1).1
  -- the provider serves the page of the early statements again, if with more events
  have hearly : ∀ wr ∈ early, wr ∈ writesOf crates result.events := by
    intro wr hwr
    obtain ⟨rest, hrest⟩ := hseen
    rw [← hrest, writesOf_append]
    exact List.mem_append_left _ (h.served wr hwr)
  have hready₁ : w₁.db.view.Ready (writesOf crates result.events) := by
    rw [hdb, h.view]
    exact hready.2.1.mono (View.escrowsIn_run early _)
  have hfaultless : ∀ wr, ¬ feed.replayEnv.faulty (.write wr) := fun wr hf => hf wr rfl
  obtain ⟨hpre, hall⟩ := executed_of_page hready₁ hloop (calm_of_runs hfaultless hloop)
  rw [hex] at hview
  have hseen' : w'.rpc (feed.committed w.db) = result.events :=
    (congrFun (hrpc.trans hrpc₁) _).trans (Function.update_self ..)
  rcases hstore with ⟨hst, -⟩ | ⟨cursor, hq, hnext, hst, -⟩
  · have hsame : w'.db.indexerCursor = w.db.indexerCursor := by rw [hcursor, hst]; rfl
    refine ⟨early ++ executed trPage, h.kept hsame (fun wr hwr => ?_) hview,
      fun hne => absurd hst hne⟩
    rw [hseen']
    rcases List.mem_append.mp hwr with hwr | hwr
    · exact hearly wr hwr
    · exact hpre.subset hwr
  · rw [hst] at hcursor
    rw [hall hq] at hview
    exact ⟨[], h.commit hpage hordered hearly hnext hcursor hview, fun _ => rfl⟩

/-- In every reachable state the tables are those of one pass over the committed events, with
statements of the page at the cursor run on top; none, once the cursor was stored. -/
theorem Feed.replaying_of_restarts (hlog : WellFormedLog crates feed.log)
    {w w' : World feed.replayEnv} {trs : List Service.Trace} (hw : w = ⟨Db.migrated, fun _ => []⟩)
    (h : Restarts feed.replayEnv.handler (pollOnce crates feed.contractId) w trs w') :
    ∃ early, feed.Replaying crates w' early ∧
      ∀ tr, trs.getLast? = some tr → stored tr ≠ [] → early = [] := by
  induction h with
  | nil =>
    subst hw
    refine ⟨[], ⟨fun ledger heq => ?_, fun _ hwr => (by cases hwr), rfl⟩, fun _ _ _ => rfl⟩
    exact (Prod.mk.inj heq).1.symm
  | snoc _ hrun ih =>
    obtain ⟨early, hearly, -⟩ := ih
    obtain ⟨early', hearly', hnil⟩ := hearly.poll hlog hrun
    refine ⟨early', hearly', fun tr hlast hne => hnil ?_⟩
    rw [List.getLast?_concat] at hlast
    obtain rfl := Option.some.inj hlast
    exact hne

/-- **Crash-and-replay correctness.** However often an indexer is killed, and whatever calls of
`get_events` and `set_cursor` fail: whenever a poll has stored its cursor, the tables are those
of one in-order pass over the events the cursor has moved past. -/
theorem reconstruction (hlog : WellFormedLog crates feed.log) {w' : World feed.replayEnv}
    {trs : List Service.Trace} {tr : Service.Trace}
    (h : Restarts feed.replayEnv.handler (pollOnce crates feed.contractId)
      ⟨Db.migrated, fun _ => []⟩ (trs ++ [tr]) w')
    (hstored : stored tr ≠ []) :
    ∃ db, Processed crates (feed.log.take (feed.committed w'.db)) Db.migrated db ∧
      w'.db.view = db.view := by
  obtain ⟨early, hearly, hnil⟩ := Feed.replaying_of_restarts hlog rfl h
  obtain rfl := hnil tr List.getLast?_concat hstored
  obtain ⟨db, hdb⟩ :=
    Processed.exists_of crates (feed.log.take (feed.committed w'.db)) Db.migrated
  refine ⟨db, hdb, ?_⟩
  have hempty : Db.migrated.view = View.empty := rfl
  rw [hdb.view, hempty, View.process_eq_run (hlog.ready_take _ _), hearly.view, View.run_nil]

/-! ### A sample run -/

/-- What the provider of the sample remembers once it has served the log. -/
def sampleSeen : ℕ → List RpcEvent := Function.update (fun _ => []) 0 sampleLog

theorem bootstrap_sampleLog : ∀ first ∈ sampleLog.head?, bootstrapLedger 17281 ≤ first.ledger := by
  decide

/-- The first poll of the sample, killed right after its first statement: the escrow is there,
its milestone is not. -/
theorem exists_killedPoll : ∃ (tr : Service.Trace) (q : ServiceM Nat),
    Runs sampleFeed.replayEnv.handler (pollOnce sampleCrates sampleContract)
        ⟨Db.migrated, fun _ => []⟩ tr q
        ⟨Db.migrated.upsertEscrow 0 (sampleEscrow sampleContract 1), sampleSeen⟩ ∧
      executed tr = [.upsertEscrow (sampleEscrow sampleContract 1)] ∧
      pages tr = [(sampleParams, samplePage)] := by
  have hwrite : sampleFeed.replayEnv.handler
      (.sql (.write (.upsertEscrow (sampleEscrow sampleContract 1)))) ⟨Db.migrated, sampleSeen⟩
      (.ok ()) ⟨Db.migrated.upsertEscrow 0 (sampleEscrow sampleContract 1), sampleSeen⟩ := by
    have hexec : Query.exec 0 Db.migrated (.write (.upsertEscrow (sampleEscrow sampleContract 1))) =
        .ok ((), Db.migrated.upsertEscrow 0 (sampleEscrow sampleContract 1)) := rfl
    exact ⟨.ok hexec, rfl⟩
  have hevent : ∃ q, Runs sampleFeed.replayEnv.handler
      (runEvent sampleCrates (createdEvent sampleContract 1)) ⟨Db.migrated, sampleSeen⟩
      [⟨.sql (.write (.upsertEscrow (sampleEscrow sampleContract 1))), .ok ()⟩] q
      ⟨Db.migrated.upsertEscrow 0 (sampleEscrow sampleContract 1), sampleSeen⟩ := by
    rw [runEvent, processEvent_createdEvent]
    exact ⟨_, .step hwrite (.refl _ _)⟩
  have hpage : ∃ q, Runs sampleFeed.replayEnv.handler (runPage sampleCrates sampleLog 0)
      ⟨Db.migrated, sampleSeen⟩
      [⟨.sql (.write (.upsertEscrow (sampleEscrow sampleContract 1))), .ok ()⟩] q
      ⟨Db.migrated.upsertEscrow 0 (sampleEscrow sampleContract 1), sampleSeen⟩ := by
    have hcall : (createdEvent sampleContract 1).inSuccessfulContractCall = true := rfl
    obtain ⟨q, hevent⟩ := hevent
    rw [sampleLog, runPage_cons hcall]
    exact ⟨_, hevent.attempt.bind⟩
  have hreq : RequestFrom sampleFeed.replayEnv sampleContract ⟨Db.migrated, fun _ => []⟩
      sampleParams := .bootstrap rfl bootstrap_sampleLog
  have hserves : sampleFeed.replayEnv.serves (fun _ => []) sampleParams samplePage sampleSeen :=
    ⟨0, page_samplePage, List.nil_prefix, rfl⟩
  obtain ⟨q, hpage⟩ := hpage
  exact exists_killed sampleCrates hreq hserves hpage

/-- The first poll of the sample is killed in the middle of the creation. The second is served
the same page and leaves the tables of one pass over the whole sample log. -/
theorem reconstruction_sample : ∃ (w w' : World sampleFeed.replayEnv) (killed tr : Service.Trace),
    Restarts sampleFeed.replayEnv.handler (pollOnce sampleCrates sampleContract)
        ⟨Db.migrated, fun _ => []⟩ [killed] w ∧
      Restarts sampleFeed.replayEnv.handler (pollOnce sampleCrates sampleContract)
        ⟨Db.migrated, fun _ => []⟩ ([killed] ++ [tr]) w' ∧
      executed killed = [.upsertEscrow (sampleEscrow sampleContract 1)] ∧
      pages killed = [(sampleParams, samplePage)] ∧
      committed? tr = some (sampleParams, samplePage) ∧ sampleFeed.committed w'.db = 3 ∧
      ∃ db, Processed sampleCrates (sampleLog.take (sampleFeed.committed w'.db)) Db.migrated db ∧
        w'.db.view = db.view := by
  obtain ⟨killed, q, hkilled, hexecuted, hpages⟩ := exists_killedPoll
  obtain ⟨trPage, n, w₁, hpage⟩ := exists_page sampleCrates sampleLog
    (⟨Db.migrated.upsertEscrow 0 (sampleEscrow sampleContract 1), sampleSeen⟩ :
      World sampleFeed.replayEnv)
  have hreq : RequestFrom sampleFeed.replayEnv sampleContract
      ⟨Db.migrated.upsertEscrow 0 (sampleEscrow sampleContract 1), sampleSeen⟩ sampleParams :=
    .bootstrap rfl bootstrap_sampleLog
  have hserves : sampleFeed.replayEnv.serves sampleSeen sampleParams samplePage sampleSeen :=
    ⟨0, page_samplePage, List.prefix_rfl, (Function.update_eq_self ..).symm⟩
  have hcursor : nextCursor samplePage = some "3" := rfl
  obtain ⟨tr, w', hrun, -, hcommitted, -, hdb⟩ :=
    exists_commit sampleCrates hreq hserves hcursor hpage
  have hstored : stored tr ≠ [] := by
    intro hnil
    rw [committed?, if_pos hnil] at hcommitted
    cases hcommitted
  have hthree : sampleFeed.committed w'.db = 3 := by
    rw [hdb]
    rfl
  have hfirst := Restarts.snoc (.nil _) hkilled
  have hruns := hfirst.snoc hrun
  exact ⟨_, w', killed, tr, hfirst, hruns, hexecuted, hpages, hcommitted, hthree,
    reconstruction sampleLog_wellFormed hruns hstored⟩

end ConcordBackend
