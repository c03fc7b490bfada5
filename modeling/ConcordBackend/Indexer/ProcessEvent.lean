import ConcordBackend.Indexer.Decode
import ConcordBackend.Indexer.Rpc
import ConcordBackend.Indexer.Script

/-!
# `process_event`

One event is decoded and written by `processEvent`, arm by arm as in `indexer/mod.rs`. The
arm of `escrow_created` interleaves decoding with writing: the escrow row is written before
the milestone list is decoded, and each deadline is converted just before its milestone is
written. Every other arm decodes first and writes afterwards.

`processEvent` returns the escrow and the event name to notify webhooks about, or `none` for
an event it does not recognize; the notification itself is `notifyWebhooks` of the poll loop.
-/

namespace ConcordBackend

/-- The hash that goes with a uri: read from the data only where the uri is set. -/
def hashFor (uri : Option String) (data : ScVal) (field : String) :
    Except Error (Option String) :=
  match uri with
  | some _ => do
    let hash ← scValToBytesHex (← mapGet data field)
    return some hash
  | none => return none

/-- The arm of `escrow_created` up to its first statement: the values of the escrow row. -/
def createdEscrow (crates : Crates) (event : RpcEvent) (escrowId ledger : Int64)
    (data : ScVal) : Except Error UpsertEscrow := do
  let client ← scValToAddress crates (← mapGet data "client")
  let provider ← scValToAddress crates (← mapGet data "provider")
  let arbitrator ← scValToAddress crates (← mapGet data "arbitrator")
  let token ← scValToAddress crates (← mapGet data "token")
  let reviewPeriod ← scValToU64 (← mapGet data "review_period")
  let chainCreatedAt ← unixSecondsToDatetime (← scValToU64 (← mapGet data "created_at"))
  let title ← scValToString (← mapGet data "title")
  let metadataUri ← scValToString (← mapGet data "metadata_uri")
  let metadataUri := emptyAsNone metadataUri
  let metadataHash ← hashFor metadataUri data "metadata_hash"
  return {
    id := escrowId, contractId := event.contractId, client, provider, arbitrator, token,
    status := "created", ledger, reviewPeriod := reviewPeriod.toInt64, chainCreatedAt,
    title := emptyAsNone title, metadataUri, metadataHash }

/-- The body of the milestone loop of `escrow_created`. -/
def createMilestone (escrowId : Int64) (milestone : DecodedMilestone) : Script Unit := do
  let deadline ← unixSecondsToDatetime milestone.deadline
  Script.send (.upsertMilestone {
    escrowId, milestoneId := milestone.id.toInt32, description := milestone.description,
    amount := milestone.amount, status := "pending", deadline })

/-- The milestone list of the data of an `escrow_created`. -/
def milestonesOf (data : ScVal) : Except Error (List DecodedMilestone) := do
  decodeMilestones (← mapGet data "milestones")

/-- The arm of `escrow_created`. -/
def escrowCreated (crates : Crates) (event : RpcEvent) (escrowId ledger : Int64)
    (data : ScVal) : Script Unit := do
  let escrow ← createdEscrow crates event escrowId ledger data
  Script.send (.upsertEscrow escrow)
  let milestones ← milestonesOf data
  milestones.forM (createMilestone escrowId)

/-- The milestone id the data of an event names. -/
def milestoneIdOf (data : ScVal) : Except Error UInt32 := do
  scValToU32 (← mapGet data "milestone_id")

/-- The evidence of a submission: its uri, and its hash where the uri is not empty. -/
def submittedEvidence (data : ScVal) : Except Error (Option String × Option String) := do
  let evidenceUri ← scValToString (← mapGet data "evidence_uri")
  let evidenceUri := emptyAsNone evidenceUri
  let evidenceHash ← hashFor evidenceUri data "evidence_hash"
  return (evidenceUri, evidenceHash)

/-- The arm of `milestone_submitted`. -/
def milestoneSubmitted (event : RpcEvent) (escrowId ledger : Int64) (data : ScVal) :
    Script Unit := do
  let milestoneId ← milestoneIdOf data
  let (evidenceUri, evidenceHash) ← submittedEvidence data
  Script.send (.setEscrowStatus escrowId "in_progress" ledger)
  Script.send (.markMilestoneSubmitted escrowId milestoneId.toInt32 evidenceUri evidenceHash
    event.ledgerClosedAt)

/-- The arms of `milestone_approved` and `milestone_auto_released`, for their `via`. -/
def milestoneReleased (escrowId : Int64) (data : ScVal) (via : String) : Script Unit := do
  let milestoneId ← milestoneIdOf data
  Script.send (.releaseMilestone escrowId milestoneId.toInt32 via)

/-- The arm of `milestone_expired`. -/
def milestoneExpired (escrowId : Int64) (data : ScVal) : Script Unit := do
  let milestoneId ← milestoneIdOf data
  Script.send (.setMilestoneStatus escrowId milestoneId.toInt32 "expired")

/-- The arm of `dispute_raised`. -/
def disputeRaised (crates : Crates) (escrowId : Int64) (data : ScVal) : Script Unit := do
  let milestoneId ← milestoneIdOf data
  let raisedBy ← scValToAddress crates (← mapGet data "raised_by")
  let reason ← scValToString (← mapGet data "reason")
  Script.send (.setMilestoneStatus escrowId milestoneId.toInt32 "disputed")
  Script.send (.insertDispute escrowId milestoneId.toInt32 raisedBy reason)

/-- The arm of `dispute_resolved`. -/
def disputeResolved (escrowId : Int64) (data : ScVal) : Script Unit := do
  let milestoneId ← milestoneIdOf data
  let (kind, bps) ← decodeResolution (← mapGet data "resolution")
  Script.send (.setMilestoneStatus escrowId milestoneId.toInt32 "resolved")
  Script.send (.resolveDispute escrowId milestoneId.toInt32 kind bps)

/-- The `match` on the event name; `false` for a name it does not recognize. -/
def dispatch (crates : Crates) (event : RpcEvent) (name : String) (escrowId ledger : Int64)
    (data : ScVal) : Script Bool := do
  match name with
  | "escrow_created" => escrowCreated crates event escrowId ledger data
  | "escrow_funded" => Script.send (.setEscrowStatus escrowId "funded" ledger)
  | "milestone_submitted" => milestoneSubmitted event escrowId ledger data
  | "milestone_approved" => milestoneReleased escrowId data "approved"
  | "milestone_auto_released" => milestoneReleased escrowId data "auto_release"
  | "milestone_expired" => milestoneExpired escrowId data
  | "escrow_cancelled" => Script.send (.setEscrowStatus escrowId "cancelled" ledger)
  | "escrow_mutually_cancelled" => Script.send (.setEscrowStatus escrowId "cancelled" ledger)
  | "escrow_completed" => Script.send (.setEscrowStatus escrowId "completed" ledger)
  | "dispute_raised" => disputeRaised crates escrowId data
  | "dispute_resolved" => disputeResolved escrowId data
  | _ => return false
  return true

/-- What the topics and the data of an event decode to, before the dispatch on its name. -/
structure EventHead where
  name : String
  escrowId : UInt64
  data : ScVal

/-- The decoding `process_event` does for every event, whatever its name. -/
def decodeHead (crates : Crates) (event : RpcEvent) : Except Error EventHead := do
  let topics ← event.topic.mapM (decodeScvalBase64 crates)
  let data ← decodeScvalBase64 crates event.value
  let name ← match topics[0]? with
    | some topic => scValToString topic
    | none => throw .noTopics
  let escrowId ← match topics[1]? with
    | some topic => scValToU64 topic
    | none => throw .missingEscrowId
  return { name, escrowId, data }

/-- `process_event` up to `notify_webhooks`: the escrow and name to notify about. -/
def processEvent (crates : Crates) (event : RpcEvent) : Script (Option (Int64 × String)) := do
  let head ← decodeHead crates event
  let escrowId := head.escrowId.toInt64
  let recognized ← dispatch crates event head.name escrowId event.ledger.toUInt64.toInt64
    head.data
  return if recognized then some (escrowId, head.name) else none

end ConcordBackend
