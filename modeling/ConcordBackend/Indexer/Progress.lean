import ConcordBackend.Indexer.Reconstruction
import ConcordBackend.Library.Loop

/-!
# Catching up with the log

`run` polls for ever: a poll that fails is logged, and the next one starts from the stored
cursor. This is in the world of `Feed.replayEnv`: the process may be killed anywhere, calls of
the provider and reads and writes of the cursor may fail, but the statements of `process_event`
do not; a bootstrap does not start after the first event; and what was served from a place is
served again from there, if with more events behind it. Each cursor that is stored there takes
the indexer at least as many events on as the page of the poll holds, so against a provider that
fills its pages it has moved past `stride * k` more events once it has stored `k` cursors. And
wherever the cursor stands at the end of the log, the tables are those of one pass over all of
it, also in the middle of a poll (`indexer_catches_up`).
-/

namespace ConcordBackend

/-- `run`, its first `rounds` rounds: the sleep between two polls does nothing to the world. -/
def indexerRun (crates : Crates) (escrowContractId : String) (rounds : ℕ) : ServiceM Unit :=
  (pollOnce crates escrowContractId).loop rounds

/-- A page holds at least `stride` events, or reaches to the first `n` events of the log. -/
def Feed.Fills (feed : Feed) (n stride : ℕ) (page : GetEventsParams × GetEventsResult) : Prop :=
  ∀ start, feed.Page page.1 start page.2 → min n (start + stride) ≤ start + page.2.events.length

/-- What an indexer and its provider keep: the tables are those of one pass over the committed
events with early statements on top, and the provider has served events of the log. -/
structure Feed.Following (feed : Feed) (crates : Crates) (w : World feed.replayEnv) : Prop where
  replaying : ∃ early, feed.Replaying crates w early
  seen : ∀ start, w.rpc start <+: feed.log.drop start

variable {crates : Crates} {feed : Feed}

/-- The provider has served events of the log, whatever page it serves next. -/
theorem Feed.seen_of_serves {seen seen' : ℕ → List RpcEvent} {params : GetEventsParams}
    {result : GetEventsResult} (h : feed.replayEnv.serves seen params result seen')
    (hseen : ∀ start, seen start <+: feed.log.drop start) (start : ℕ) :
    seen' start <+: feed.log.drop start := by
  obtain ⟨at', hpage, -, rfl⟩ := h
  by_cases hstart : start = at'
  · subst hstart
    rw [Function.update_self, hpage.events]
    exact List.take_prefix ..
  · rw [Function.update_of_ne hstart]
    exact hseen start

/-- An indexer starts out with nothing. -/
theorem Feed.Following.start (feed : Feed) (crates : Crates) :
    feed.Following crates ⟨Db.migrated, fun _ => []⟩ where
  replaying := ⟨[], fun _ heq => (Prod.mk.inj heq).1.symm, fun _ hwr => (by cases hwr), rfl⟩
  seen _ := List.nil_prefix

/-- Storing a cursor takes an indexer past the events of its page. -/
theorem Feed.Following.poll (hlog : WellFormedLog crates feed.log) {n stride : ℕ}
    {w w' : World feed.replayEnv} {tr : Service.Trace} {q : ServiceM Nat}
    (h : feed.Following crates w) (hfills : ∀ page ∈ pages tr, feed.Fills n stride page)
    (hrun : Runs feed.replayEnv.handler (pollOnce crates feed.contractId) w tr q w') :
    feed.Following crates w' ∧
      min n (feed.committed w.db + stride * (stored tr).length) ≤ feed.committed w'.db := by
  obtain ⟨early, hearly⟩ := h.replaying
  obtain ⟨early', hearly', -⟩ := hearly.poll hlog hrun
  have hcursor := cursor_of_runs hrun
  rcases (pollOnce_inv hrun).spec with ⟨rfl, -, hst, -⟩ |
      ⟨params, result, w₁, trPage, q, w₂, hreq, hserves, -, -, hrpc, -, hstore⟩
  · refine ⟨h, ?_⟩
    rw [hst]
    exact Nat.min_le_right ..
  have hseen : ∀ start, w'.rpc start <+: feed.log.drop start := by
    rw [hrpc]
    exact Feed.seen_of_serves hserves h.seen
  refine ⟨⟨⟨early', hearly'⟩, hseen⟩, ?_⟩
  rcases hstore with ⟨hst, -⟩ | ⟨cursor, -, hnext, hst, hcommitted⟩
  · rw [hst] at hcursor ⊢
    have hsame : feed.committed w'.db = feed.committed w.db := by
      rw [Feed.committed, hcursor]
      rfl
    rw [hsame]
    exact Nat.min_le_right ..
  · -- the page starts at the stored cursor, and the new one stands after its events
    obtain ⟨start, hpage, -⟩ := hserves
    obtain rfl := hearly.start_eq hreq hpage
    have hmem : (params, result) ∈ pages tr := by
      unfold committed? at hcommitted
      split at hcommitted
      next => cases hcommitted
      next => exact List.mem_of_mem_head? hcommitted
    rw [hst] at hcursor ⊢
    have hnew : feed.committed w'.db = feed.committed w.db + result.events.length := by
      rw [Feed.committed, hcursor]
      exact hpage.position_nextCursor hnext
    rw [hnew, List.length_singleton, Nat.mul_one]
    exact hfills _ hmem _ hpage

/-- Where the cursor stands at the end of the log, no statement is early. -/
theorem Feed.Following.view_of_end (hlog : WellFormedLog crates feed.log)
    {w : World feed.replayEnv} (h : feed.Following crates w)
    (hend : feed.log.length ≤ feed.committed w.db) :
    ∃ db, Processed crates feed.log Db.migrated db ∧ w.db.view = db.view := by
  obtain ⟨early, hearly⟩ := h.replaying
  have hnone : w.rpc (feed.committed w.db) = [] := by
    have hseen := h.seen (feed.committed w.db)
    rw [List.drop_eq_nil_of_le hend] at hseen
    exact List.prefix_nil.mp hseen
  have hearly_nil : early = [] := by
    refine List.eq_nil_iff_forall_not_mem.mpr fun wr hwr => ?_
    have hserved := hearly.served wr hwr
    rw [hnone] at hserved
    cases hserved
  subst hearly_nil
  obtain ⟨db, hdb⟩ := Processed.exists_of crates feed.log Db.migrated
  refine ⟨db, hdb, ?_⟩
  have hempty : Db.migrated.view = View.empty := rfl
  rw [hdb.view, hempty, View.process_eq_run (hlog.ready _), hearly.view, View.run_nil,
    List.take_of_length_le hend]

/-- The polls of a process, however often it was killed. -/
theorem Feed.Following.run (hlog : WellFormedLog crates feed.log) {n stride rounds : ℕ}
    {w w' : World feed.replayEnv} {lives : List Service.Trace} (hw : feed.Following crates w)
    (hpages : ∀ page ∈ pages lives.flatten, feed.Fills n stride page)
    (h : Restarts feed.replayEnv.handler (indexerRun crates feed.contractId rounds) w lives w') :
    feed.Following crates w' ∧
      min n (feed.committed w.db + stride * (stored lives.flatten).length) ≤
        feed.committed w'.db := by
  obtain ⟨trs, htrs, heq⟩ := h.of_loop
  rw [← heq]
  refine htrs.progress (A := fun tr => ∀ page ∈ pages tr, feed.Fills n stride page)
    (fun w tr q w' hw hfills hrun => hw.poll hlog hfills hrun) hw fun tr htr page hpage => ?_
  refine hpages page ?_
  rw [← heq, pages, List.filterMap_flatten]
  exact List.mem_flatten.mpr ⟨pages tr, List.mem_map_of_mem htr, hpage⟩

/-- **The indexer catches up.** Take an indexer that has run for any time in the world of
`Feed.replayEnv`, killed however often, and let it go on the same way. If the pages it is served
from now on hold at least `stride` events each, or all that there are among the first `n`, then
with every cursor it stores it moves past another `stride` events until it has moved past these;
and where it has moved past the whole log, the tables are those of one pass over it. -/
theorem indexer_catches_up (hlog : WellFormedLog crates feed.log) {n stride rounds : ℕ}
    {w w' : World feed.replayEnv} {before lives : List Service.Trace}
    (hbefore : Restarts feed.replayEnv.handler (indexerRun crates feed.contractId rounds)
      ⟨Db.migrated, fun _ => []⟩ before w)
    (h : Restarts feed.replayEnv.handler (indexerRun crates feed.contractId rounds) w lives w')
    (hpages : ∀ page ∈ pages lives.flatten, feed.Fills n stride page) :
    min n (feed.committed w.db + stride * (stored lives.flatten).length) ≤
        feed.committed w'.db ∧
      (feed.log.length ≤ feed.committed w'.db →
        ∃ db, Processed crates feed.log Db.migrated db ∧ w'.db.view = db.view) := by
  -- a page of any length fills a stride of zero
  have hzero : ∀ page ∈ pages before.flatten, feed.Fills n 0 page :=
    fun page _ start _ => (Nat.min_le_right n start).trans (Nat.le_add_right ..)
  have hw := ((Feed.Following.start feed crates).run hlog hzero hbefore).1
  obtain ⟨hw', hle⟩ := hw.run hlog hpages h
  exact ⟨hle, hw'.view_of_end hlog⟩

/-- The sample's process has caught up with its log after one poll. -/
theorem indexer_catches_up_sample :
    ∃ (w' : World sampleFeed.replayEnv) (lives : List Service.Trace),
      Restarts sampleFeed.replayEnv.handler (indexerRun sampleCrates sampleContract 1)
          ⟨Db.migrated, fun _ => []⟩ lives w' ∧
        (stored lives.flatten).length = 1 ∧
        (min 3 (0 + 100 * (stored lives.flatten).length) ≤ sampleFeed.committed w'.db ∧
          (sampleFeed.log.length ≤ sampleFeed.committed w'.db →
            ∃ db, Processed sampleCrates sampleFeed.log Db.migrated db ∧ w'.db.view = db.view)) := by
  obtain ⟨trPage, n, w₁, hpage⟩ := exists_page sampleCrates sampleLog
    (⟨Db.migrated, sampleSeen⟩ : World sampleFeed.replayEnv)
  have hreq : RequestFrom sampleFeed.replayEnv sampleContract ⟨Db.migrated, fun _ => []⟩
      sampleParams := .bootstrap rfl bootstrap_sampleLog
  have hserves : sampleFeed.replayEnv.serves (fun _ => []) sampleParams samplePage sampleSeen :=
    ⟨0, page_samplePage, List.nil_prefix, rfl⟩
  obtain ⟨tr, w', hrun, -, hcommitted, -⟩ := exists_commit sampleCrates hreq hserves rfl hpage
  obtain ⟨hpages, hstored⟩ := (pollOnce_inv hrun).once hcommitted
  obtain ⟨q, hloop⟩ := hrun.loop_one
  have hlives := Restarts.single hloop
  have hfills : ∀ page ∈ pages [tr].flatten, sampleFeed.Fills 3 100 page := by
    intro page hmem start _
    rw [List.flatten_singleton, hpages] at hmem
    obtain rfl := List.mem_singleton.mp hmem
    exact (Nat.min_le_left ..).trans (Nat.le_add_left ..)
  refine ⟨w', [tr], hlives, ?_, indexer_catches_up sampleLog_wellFormed (.nil _) hlives hfills⟩
  rw [List.flatten_singleton]
  exact hstored

end ConcordBackend
