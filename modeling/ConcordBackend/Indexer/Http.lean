import ConcordBackend.Indexer.JsonRpc
import ConcordBackend.Indexer.Progress
import ConcordBackend.Library.Translation

/-!
# The indexer over HTTP

The provider is only reached through HTTP: the two calls of `SorobanRpcClient` post a JSON
request and read what comes back. `sorobanRpcClient` carries the operations of the service out
in this way, and `Honest` says of a provider behind HTTP that what its responses show, for what
its requests ask, is what a provider may serve. Over such a provider the indexer does what it
does over the provider itself (`indexer_over_http`). What may fail, and what the provider may
serve, is again what `Feed.replayEnv` says: any HTTP exchange may fail, but no statement of
`process_event`.
-/

namespace ConcordBackend

/-- The operations of the service, with the provider behind HTTP. -/
inductive HttpOp where
  | sql (q : Query)
  | post (request : Json)
  | spawnDelivery (d : Delivery)
  | utcNow

/-- The replies to these operations. -/
def HttpOp.Reply : HttpOp → Type
  | .sql q => Except SqlError q.Reply
  | .post _ => HttpReply
  | .spawnDelivery _ => Unit
  | .utcNow => DateTime

/-- The signature of the service over HTTP. -/
abbrev Http : Signature := ⟨HttpOp, HttpOp.Reply⟩

/-- `SorobanRpcClient`: a call posts its request and reads what comes back. -/
def sorobanRpcClient (json : JsonCrates) : Service.Hom Http where
  op
    | .sql q => .sql q
    | .getLatestLedger => .post getLatestLedgerRequest
    | .getEvents params => .post (getEventsRequest params)
    | .spawnDelivery d => .spawnDelivery d
    | .utcNow => .utcNow
  reply
    | .sql _, r => r
    | .getLatestLedger, r => (readLatestLedger json r).mapError fun _ => .rpc "getLatestLedger"
    | .getEvents _, r => (readEvents json r).mapError fun _ => .rpc "getEvents"
    | .spawnDelivery _, r => r
    | .utcNow, r => r

/-- What a provider behind HTTP may reply to a request, and what it remembers of it. -/
abbrev Provider (σ : Type) := σ → Json → HttpReply → σ → Prop

/-- What the world answers the service over HTTP. -/
def Env.overHttp (E : Env) (provider : Provider E.Rpc) : Handler Http (World E)
  | .sql q, w, r, w' => SqlStep E.faulty q w.db r w'.db ∧ w'.rpc = w.rpc
  | .post request, w, r, w' => w'.db = w.db ∧ provider w.rpc request r w'.rpc
  | .spawnDelivery _, w, _, w' => w' = w
  | .utcNow, w, _, w' => w' = w

/-- A provider behind HTTP is honest: what its responses show is what a provider may serve for
what the requests ask, and it remembers nothing else. -/
structure Honest (json : JsonCrates) (E : Env) (provider : Provider E.Rpc) : Prop where
  page : ∀ {s s' : E.Rpc} {request : Json} {reply : HttpReply} {params : GetEventsParams}
    {page : GetEventsResult}, provider s request reply s' → AsksFor request params →
    Responds json (GetEventsResult.Shows json) reply ⟨some page, none⟩ → E.serves s params page s'
  noPage : ∀ {s s' : E.Rpc} {request : Json} {reply : HttpReply} {params : GetEventsParams},
    provider s request reply s' → AsksFor request params →
    (∀ page, ¬ Responds json (GetEventsResult.Shows json) reply ⟨some page, none⟩) → s' = s
  unchanged : ∀ {s s' : E.Rpc} {request : Json} {reply : HttpReply},
    provider s request reply s' → Calls "getLatestLedger" request → s' = s
  latest : ∀ {s s' : E.Rpc} {request : Json} {reply : HttpReply} {result : GetLatestLedgerResult},
    provider s request reply s' → Calls "getLatestLedger" request →
    Responds json GetLatestLedgerResult.Shows reply ⟨some result, none⟩ →
    E.latest s result.sequence

variable {crates : Crates} {json : JsonCrates} {E : Env} {provider : Provider E.Rpc}

theorem Except.ok_of_mapError {ε ε' α : Type} {f : ε → ε'} {x : Except ε α} {a : α}
    (h : x.mapError f = .ok a) : x = .ok a := by
  cases x with
  | error e => cases h
  | ok b => exact congrArg Except.ok (Except.ok.inj h)

/-- What the client makes of an honest provider, the provider itself may have answered. -/
theorem Honest.handler (h : Honest json E provider) {op : ServiceOp} {w w' : World E}
    {r : op.Reply} (hop : (sorobanRpcClient json).pull (E.overHttp provider) op w r w') :
    E.handler op w r w' := by
  obtain ⟨reply, hreply, rfl⟩ := hop
  cases op with
  | sql q => exact hreply
  | getLatestLedger =>
    obtain ⟨hdb, hprovider⟩ := hreply
    refine ⟨World.eq_of hdb (h.unchanged hprovider rfl), fun latest hok => ?_⟩
    have hread := Except.ok_of_mapError hok
    exact h.latest hprovider rfl (readLatestLedger_eq_ok_iff.mp hread)
  | getEvents params =>
    obtain ⟨hdb, hprovider⟩ := hreply
    refine ⟨hdb, ?_⟩
    have hasks := asksFor_getEventsRequest params
    rcases hread : readEvents json reply with e | page
    · have hnone := h.noPage hprovider hasks fun page hpage => by
        rw [readEvents_eq_ok_iff.mpr hpage] at hread
        cases hread
      simpa [sorobanRpcClient, hread, Except.mapError] using hnone
    · have hserves := h.page hprovider hasks (readEvents_eq_ok_iff.mp hread)
      simpa [sorobanRpcClient, hread, Except.mapError] using hserves
  | spawnDelivery d => exact hreply
  | utcNow => exact hreply

theorem pull_getEvents {w w' : World E} {params : GetEventsParams} {reply : HttpReply}
    {page : GetEventsResult}
    (hread : readEvents json reply = .ok page) (hdb : w'.db = w.db)
    (h : provider w.rpc (getEventsRequest params) reply w'.rpc) :
    (sorobanRpcClient json).pull (E.overHttp provider) (.getEvents params) w (.ok page) w' :=
  ⟨reply, ⟨hdb, h⟩, congrArg (Except.mapError _) hread⟩

theorem pull_getLatestLedger {w : World E} {reply : HttpReply} {latest : UInt32}
    (hread : readLatestLedger json reply = .ok latest)
    (h : provider w.rpc getLatestLedgerRequest reply w.rpc) :
    (sorobanRpcClient json).pull (E.overHttp provider) .getLatestLedger w (.ok latest) w :=
  ⟨reply, ⟨rfl, h⟩, congrArg (Except.mapError _) hread⟩

/-- Processing a page does not involve the provider. -/
theorem runs_runPage_overHttp {w w' : World E} {events : List RpcEvent} {n : Nat}
    {tr : Service.Trace} {q : ServiceM Nat} (h : Runs E.handler (runPage crates events n) w tr q w') :
    Runs ((sorobanRpcClient json).pull (E.overHttp provider)) (runPage crates events n) w tr q
      w' := by
  refine h.mono_of_only (fun op w r w' hop h => ?_) (runPage_only crates events n)
  cases hop with
  | write wr => exact ⟨r, h, rfl⟩
  | notify hop =>
    cases hop with
    | _ => exact ⟨r, h, rfl⟩

/-- A first poll that goes well. -/
theorem runs_firstPoll {W : Type} {H : Handler Service W} {crates : Crates} {contractId : String}
    {latest : UInt32} {result : GetEventsResult} {cursor : String} {w w₁ w₂ w₃ : W}
    {trPage : Service.Trace} {n : Nat} (hcursor : H (.sql .getCursor) w (.ok (0, none)) w)
    (hlatest : H .getLatestLedger w (.ok latest) w)
    (hevents : H (.getEvents (getEventsParams contractId (some (bootstrapLedger latest)) none
      pageLimit)) w (.ok result) w₁)
    (hpage : Runs H (runPage crates result.events 0) w₁ trPage (.done n) w₂)
    (hnext : nextCursor result = some cursor)
    (hstore : H (.sql (.setCursor result.latestLedger.toUInt64.toInt64 cursor)) w₂ (.ok ()) w₃) :
    ∃ tr, Runs H (pollOnce crates contractId) w tr (.done n) w₃ := by
  have hlast : Runs H ((storeCursor result).bind fun _ => .done n) w₂
      [⟨.sql (.setCursor result.latestLedger.toUInt64.toInt64 cursor), .ok ()⟩] (.done n) w₃ := by
    rw [storeCursor, hnext]
    exact .step hstore (.refl _ _)
  exact ⟨_, .step hcursor (.step hlatest (.step hevents (hpage.bind.append hlast)))⟩

/-! ### A provider of the sample log -/

/-- The text of a sample event, as the provider writes it. -/
def sampleEventText (ledger name value : String) : String :=
  "\x7b\"type\":\"contract\",\"ledger\":" ++ ledger ++
    ",\"ledgerClosedAt\":\"1970-01-01T00:16:40Z\",\"contractId\":\"" ++ sampleContract ++
    "\",\"id\":\"" ++ ledger ++ "\",\"inSuccessfulContractCall\":true,\"topic\":[\"" ++ name ++
    "\",\"AAAABQAAAAAAAAAB\"],\"value\":\"" ++ value ++ "\"\x7d"

/-- The value of that text. -/
def sampleEventJson (ledger : UInt32) (name value : String) : Json :=
  .obj [("type", .str "contract"), ("ledger", .num ledger.toNat),
    ("ledgerClosedAt", .str "1970-01-01T00:16:40Z"), ("contractId", .str sampleContract),
    ("id", .str (toString ledger.toNat)), ("inSuccessfulContractCall", .bool true),
    ("topic", .arr [.str name, .str "AAAABQAAAAAAAAAB"]), ("value", .str value)]

/-- The text of a response with a result. -/
def sampleResponseText (result : String) : String :=
  "\x7b\"jsonrpc\":\"2.0\",\"id\":1,\"result\":" ++ result ++ "\x7d"

/-- The value of that text. -/
def sampleResponseJson (result : Json) : Json :=
  .obj [("jsonrpc", .str "2.0"), ("id", .num 1), ("result", result)]

/-- The response to the first request for a ledger. -/
def sampleLedgerText : String := sampleResponseText "\x7b\"sequence\":17281\x7d"

/-- The response to the first request for events. -/
def samplePageText : String := sampleResponseText
  ("\x7b\"events\":[" ++
    sampleEventText "1" "AAAADwAAAA5lc2Nyb3dfY3JlYXRlZAAA" sampleCreated.1 ++ "," ++
    sampleEventText "2" "AAAADwAAAA1lc2Nyb3dfZnVuZGVkAAAA" "AAAAAQ==" ++ "," ++
    sampleEventText "3" "AAAADwAAABJtaWxlc3RvbmVfYXBwcm92ZWQAAA=="
      "AAAAEQAAAAEAAAABAAAADwAAAAxtaWxlc3RvbmVfaWQAAAADAAAAAA==" ++
    "],\"latestLedger\":17281\x7d")

/-- The value of `samplePageText`. -/
def samplePageJson : Json := sampleResponseJson (.obj [
  ("events", .arr [
    sampleEventJson 1 "AAAADwAAAA5lc2Nyb3dfY3JlYXRlZAAA" sampleCreated.1,
    sampleEventJson 2 "AAAADwAAAA1lc2Nyb3dfZnVuZGVkAAAA" "AAAAAQ==",
    sampleEventJson 3 "AAAADwAAABJtaWxlc3RvbmVfYXBwcm92ZWQAAA=="
      "AAAAEQAAAAEAAAABAAAADwAAAAxtaWxlc3RvbmVfaWQAAAADAAAAAA=="]),
  ("latestLedger", .num 17281)])

/-- The value of `sampleLedgerText`. -/
def sampleLedgerJson : Json := sampleResponseJson (.obj [("sequence", .num 17281)])

theorem sampleLedgerText_ne : sampleLedgerText ≠ samplePageText := by decide

/-- The values of the two texts. -/
def sampleParse (body : List UInt8) : Option Json :=
  if body = utf8 sampleLedgerText then some sampleLedgerJson
  else if body = utf8 samplePageText then some samplePageJson
  else none

/-- The crates on the texts of the sample. -/
def sampleJson : JsonCrates where
  parse := sampleParse
  dateTime s := if s = "1970-01-01T00:16:40Z" then some (.ofSeconds 1000) else none

theorem responds_ledger : Responds sampleJson GetLatestLedgerResult.Shows
    (.ok (utf8 sampleLedgerText)) ⟨some ⟨17281⟩, none⟩ := by
  have hparse : sampleParse (utf8 sampleLedgerText) = some sampleLedgerJson := if_pos rfl
  refine ⟨_, sampleLedgerJson, rfl, hparse, ?_⟩
  exact (JsonRpcResponse.read_eq_some (fun _ _ => GetLatestLedgerResult.read_eq_some) rfl).mp rfl

theorem responds_page : Responds sampleJson (GetEventsResult.Shows sampleJson)
    (.ok (utf8 samplePageText)) ⟨some samplePage, none⟩ := by
  have hne : ¬ utf8 samplePageText = utf8 sampleLedgerText :=
    fun h => sampleLedgerText_ne (utf8_inj.mp h).symm
  have hparse : sampleJson.parse (utf8 samplePageText) = some samplePageJson := by
    have heq : sampleJson.parse = sampleParse := rfl
    rw [heq, sampleParse, if_neg hne, if_pos rfl]
  refine ⟨_, samplePageJson, rfl, hparse, ?_⟩
  exact (JsonRpcResponse.read_eq_some (fun _ _ => GetEventsResult.read_eq_some) rfl).mp rfl

/-- A provider of the sample log that serves it as one page. -/
inductive SampleProvider : Provider sampleFeed.replayEnv.Rpc where
  | latest {seen : ℕ → List RpcEvent} {request : Json} (h : Calls "getLatestLedger" request) :
      SampleProvider seen request (.ok (utf8 sampleLedgerText)) seen
  | page {seen : ℕ → List RpcEvent} {request : Json} (h : AsksFor request sampleParams)
      (hseen : seen 0 <+: sampleLog) :
      SampleProvider seen request (.ok (utf8 samplePageText)) (Function.update seen 0 sampleLog)

theorem honest_sampleProvider : Honest sampleJson sampleFeed.replayEnv SampleProvider where
  page h hasks hshown := by
    cases h with
    | latest hcalls => exact absurd hcalls hasks.not_calls
    | page hrequest hseen =>
      obtain rfl := hasks.unique hrequest
      have heq := hshown.unique (fun _ _ => GetEventsResult.read_eq_some) rfl responds_page
      obtain rfl := Option.some.inj (congrArg JsonRpcResponse.result heq)
      exact ⟨0, page_samplePage, hseen, rfl⟩
  noPage h hasks hnone := by
    cases h with
    | latest hcalls => rfl
    | page => exact absurd responds_page (hnone samplePage)
  unchanged h hcalls := by
    cases h with
    | latest => rfl
    | page hrequest => exact absurd hcalls hrequest.not_calls
  latest h hcalls hshown := by
    cases h with
    | page hrequest => exact absurd hcalls hrequest.not_calls
    | latest =>
      have heq := hshown.unique (fun _ _ => GetLatestLedgerResult.read_eq_some) rfl responds_ledger
      obtain rfl := Option.some.inj (congrArg JsonRpcResponse.result heq)
      exact bootstrap_sampleLog

/-! ### The indexer -/

/-- **The indexer over HTTP.** Over an honest provider of a log, in the world of `Feed.replayEnv`,
an indexer that only speaks JSON over HTTP, killed however often, has done what an indexer does
over the provider itself: it gets on by the pages it was shown, and where it has moved past the
whole log, the tables are those of one pass over it. -/
theorem indexer_over_http {feed : Feed} (hlog : WellFormedLog crates feed.log)
    {provider : Provider feed.replayEnv.Rpc} (hhonest : Honest json feed.replayEnv provider)
    {rounds : ℕ} {w' : World feed.replayEnv} {lives : List Http.Trace}
    (h : Restarts (feed.replayEnv.overHttp provider)
      ((indexerRun crates feed.contractId rounds).via (sorobanRpcClient json))
      ⟨Db.migrated, fun _ => []⟩ lives w') :
    ∃ lives' : List Service.Trace,
      List.Forall₂ (List.Forall₂ (sorobanRpcClient json).Carries) lives lives' ∧
        Restarts feed.replayEnv.handler (indexerRun crates feed.contractId rounds)
          ⟨Db.migrated, fun _ => []⟩ lives' w' ∧
        (∀ n stride, (∀ page ∈ pages lives'.flatten, feed.Fills n stride page) →
          min n (stride * (stored lives'.flatten).length) ≤ feed.committed w'.db) ∧
        (feed.log.length ≤ feed.committed w'.db →
          ∃ db, Processed crates feed.log Db.migrated db ∧ w'.db.view = db.view) := by
  obtain ⟨lives', hlives, hruns⟩ := Restarts.of_via (fun _ _ _ _ => hhonest.handler) h
  have hstart := Feed.Following.start feed crates
  refine ⟨lives', hlives, hruns, fun n stride hfills => ?_, ?_⟩
  · have hle := (hstart.run hlog hfills hruns).2
    have hzero : feed.committed Db.migrated = 0 := rfl
    rwa [hzero, Nat.zero_add] at hle
  · -- a page of any length fills a stride of zero
    have hzero : ∀ page ∈ pages lives'.flatten, feed.Fills 0 0 page :=
      fun page _ start _ => (Nat.min_le_right 0 start).trans (Nat.le_add_right ..)
    exact (hstart.run hlog hzero hruns).1.view_of_end hlog

/-- The indexer of the sample has caught up with its log after one poll over HTTP. -/
theorem indexer_over_http_sample :
    ∃ (w' : World sampleFeed.replayEnv) (lives : List Http.Trace),
      Restarts (sampleFeed.replayEnv.overHttp SampleProvider)
          ((indexerRun sampleCrates sampleContract 1).via (sorobanRpcClient sampleJson))
          ⟨Db.migrated, fun _ => []⟩ lives w' ∧
        sampleFeed.committed w'.db = 3 ∧
        ∃ lives' : List Service.Trace,
          List.Forall₂ (List.Forall₂ (sorobanRpcClient sampleJson).Carries) lives lives' ∧
            Restarts sampleFeed.replayEnv.handler (indexerRun sampleCrates sampleContract 1)
              ⟨Db.migrated, fun _ => []⟩ lives' w' ∧
            ∃ db, Processed sampleCrates sampleFeed.log Db.migrated db ∧ w'.db.view = db.view := by
  let H := (sorobanRpcClient sampleJson).pull (sampleFeed.replayEnv.overHttp SampleProvider)
  obtain ⟨trPage, n, w₁, hpage⟩ := exists_page sampleCrates samplePage.events
    (⟨Db.migrated, sampleSeen⟩ : World sampleFeed.replayEnv)
  have hrpc : sampleSeen = w₁.rpc := (rpc_eq_of_only (runPage_only ..) hpage).symm
  have hcursor : H (.sql .getCursor) ⟨Db.migrated, fun _ => []⟩ (.ok (0, none))
      ⟨Db.migrated, fun _ => []⟩ := by
    have hexec : Query.exec 0 Db.migrated .getCursor = .ok ((0, none), Db.migrated) := rfl
    exact ⟨_, ⟨.ok hexec, rfl⟩, rfl⟩
  have hlatest : H .getLatestLedger ⟨Db.migrated, fun _ => []⟩ (.ok 17281)
      ⟨Db.migrated, fun _ => []⟩ :=
    pull_getLatestLedger (readLatestLedger_eq_ok_iff.mpr responds_ledger) (.latest rfl)
  have hevents : H (.getEvents sampleParams) ⟨Db.migrated, fun _ => []⟩ (.ok samplePage)
      ⟨Db.migrated, sampleSeen⟩ :=
    pull_getEvents (readEvents_eq_ok_iff.mpr responds_page) rfl
      (.page (asksFor_getEventsRequest sampleParams) List.nil_prefix)
  have hstore : H (.sql (.setCursor samplePage.latestLedger.toUInt64.toInt64 "3")) w₁ (.ok ())
      ⟨w₁.db.setCursor samplePage.latestLedger.toUInt64.toInt64 "3", sampleSeen⟩ := by
    have hexec : Query.exec 0 w₁.db
        (.setCursor samplePage.latestLedger.toUInt64.toInt64 "3") = .ok ((), _) := rfl
    exact ⟨_, ⟨.ok hexec, hrpc⟩, rfl⟩
  obtain ⟨trPoll, hpoll⟩ :=
    runs_firstPoll hcursor hlatest hevents (runs_runPage_overHttp hpage) rfl hstore
  obtain ⟨q, hloop⟩ := hpoll.loop_one
  obtain ⟨tr, -, hrun⟩ := hloop.via
  obtain ⟨lives', hlives, hruns, -, hend⟩ :=
    indexer_over_http sampleLog_wellFormed honest_sampleProvider (.single hrun)
  exact ⟨_, [tr], .single hrun, rfl, lives', hlives, hruns, hend (Nat.le_refl 3)⟩

end ConcordBackend
