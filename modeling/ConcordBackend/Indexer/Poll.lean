import ConcordBackend.Indexer.ProcessEvent
import ConcordBackend.Library.Utf8

/-!
# The poll loop

`pollOnce` is one iteration of the indexer: read the cursor, ask the RPC for the next page,
process its events one by one, store the page's cursor. It is a `Prog` over the operations
the process performs on the outside world, so that a run of it can stop anywhere (the process
is killed), any reply can be an error, and the trace of a run records every statement sent.

An event whose processing errs is logged and skipped, a failed webhook lookup is logged and
dropped, and a failed `set_cursor` ends the poll with its error.
-/

namespace ConcordBackend

/-- One webhook `POST` handed to `tokio::spawn`, with what identifies it to its receiver. -/
structure Delivery where
  url : String
  timestamp : Int
  signature : String
  body : String
  deriving DecidableEq, Repr

/-- The operations of the service on the world around it. -/
inductive ServiceOp where
  | sql (q : Query)
  | getLatestLedger
  | getEvents (params : GetEventsParams)
  | spawnDelivery (d : Delivery)
  | utcNow

/-- The replies to the operations of the service. -/
def ServiceOp.Reply : ServiceOp → Type
  | .sql q => Except SqlError q.Reply
  | .getLatestLedger => Except Error UInt32
  | .getEvents _ => Except Error GetEventsResult
  | .spawnDelivery _ => Unit
  | .utcNow => DateTime

/-- The signature of the service. -/
abbrev Service : Signature := ⟨ServiceOp, ServiceOp.Reply⟩

/-- Code of the service. -/
abbrev ServiceM := Prog Service Error

/-- Send a statement; its failure is the caller's. -/
def sql (q : Query) : ServiceM q.Reply :=
  .call (.sql q) fun
    | .ok a => .done a
    | .error e => .fail (.database e)

/-- `rpc.get_latest_ledger`. -/
def getLatestLedger : ServiceM UInt32 := .call .getLatestLedger Prog.ofExcept

/-- `rpc.get_events`. -/
def getEvents (contractId : String) (startLedger : Option UInt32) (cursor : Option String)
    (limit : UInt32) : ServiceM GetEventsResult :=
  .call (.getEvents (getEventsParams contractId startLedger cursor limit)) Prog.ofExcept

/-! ### Webhook notifications -/

/-- The JSON body of a notification. -/
def notificationBody (escrowId : Int64) (event : String) : String :=
  "\x7b\"escrow_id\":" ++ toString escrowId.toInt ++ ",\"event\":\"" ++ event ++ "\"\x7d"

/-- What `sign_webhook_payload` feeds to the MAC: `"{timestamp}.{body}"`. -/
def signedContent (timestamp : Int) (body : List UInt8) : List UInt8 :=
  utf8 (toString timestamp) ++ utf8 "." ++ body

/-- `sign_webhook_payload`. -/
def signWebhookPayload (crates : Crates) (secret : String) (timestamp : Int)
    (body : List UInt8) : String :=
  hexEncode (crates.hmacSha256 (utf8 secret) (signedContent timestamp body))

/-- The delivery of a notification to a webhook. -/
def deliveryTo (crates : Crates) (timestamp : Int) (body : String) (webhook : WebhookRow) :
    Delivery where
  url := webhook.url
  timestamp := timestamp
  signature := "sha256=" ++ signWebhookPayload crates webhook.secret timestamp (utf8 body)
  body := body

/-- The loop of `notify_webhooks`: one delivery for each webhook. -/
def spawnDeliveries (crates : Crates) (timestamp : Int) (body : String) :
    List WebhookRow → ServiceM Unit
  | [] => .done ()
  | webhook :: webhooks =>
    .call (.spawnDelivery (deliveryTo crates timestamp body webhook)) fun _ =>
      spawnDeliveries crates timestamp body webhooks

/-- `notify_webhooks`: a failed lookup is dropped. -/
def notifyWebhooks (crates : Crates) (escrowId : Int64) (event : String) : ServiceM Unit :=
  .call (.sql (.listWebhooksForEscrow escrowId)) fun
    | .error _ => .done ()
    | .ok webhooks =>
      .call .utcNow fun (now : DateTime) =>
        spawnDeliveries crates (now / 1000000000) (notificationBody escrowId event) webhooks

/-! ### One poll -/

/-- Run a script: its statements in order, up to the first that fails. -/
def Script.toProg {α : Type} : Script α → ServiceM α
  | .done a => .done a
  | .fail e => .fail e
  | .write w k => (sql (.write w)).bind fun _ => k.toProg

/-- `process_event` with its notification. -/
def runEvent (crates : Crates) (event : RpcEvent) : ServiceM Unit := do
  match ← (processEvent crates event).toProg with
  | some (escrowId, name) => notifyWebhooks crates escrowId name
  | none => return ()

/-- The event loop of `poll_once`: how many events it did not pass over. -/
def runPage (crates : Crates) : List RpcEvent → Nat → ServiceM Nat
  | [], processed => return processed
  | event :: events, processed => do
    if !event.inSuccessfulContractCall then
      runPage crates events processed
    else
      let _ ← (runEvent crates event).attempt
      runPage crates events (processed + 1)

/-- `PAGE_LIMIT`. -/
def pageLimit : UInt32 := 100

/-- `BOOTSTRAP_LOOKBACK_LEDGERS`. -/
def bootstrapLookbackLedgers : UInt32 := 17280

/-- The start ledger of the very first poll: `latest.saturating_sub(…).max(1)`. -/
def bootstrapLedger (latest : UInt32) : UInt32 :=
  max (if latest ≤ bootstrapLookbackLedgers then 0 else latest - bootstrapLookbackLedgers) 1

/-- The start ledger of a poll, asked for only before the first stored cursor. -/
def startLedgerFor (lastLedger : Int64) (lastCursor : Option String) :
    ServiceM (Option UInt32) := do
  if lastCursor.isNone && lastLedger = 0 then
    return some (bootstrapLedger (← getLatestLedger))
  else
    return none

/-- The cursor a page leaves: the response's own, else the id of its last event. -/
def nextCursor (result : GetEventsResult) : Option String :=
  result.cursor <|> result.events.getLast?.map RpcEvent.id

/-- Store a page's cursor, if it leaves one. -/
def storeCursor (result : GetEventsResult) : ServiceM Unit :=
  match nextCursor result with
  | some cursor => sql (.setCursor result.latestLedger.toUInt64.toInt64 cursor)
  | none => return ()

/-- `poll_once`, for the contract of the configuration. -/
def pollOnce (crates : Crates) (escrowContractId : String) : ServiceM Nat := do
  let (lastLedger, lastCursor) ← sql .getCursor
  let startLedger ← startLedgerFor lastLedger lastCursor
  let result ← getEvents escrowContractId startLedger lastCursor pageLimit
  let processed ← runPage crates result.events 0
  storeCursor result
  return processed

end ConcordBackend
