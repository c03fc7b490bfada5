import ConcordBackend.Api.Server
import ConcordBackend.Library.Json

/-!
# Responses

What a client receives: the JSON that `serde` derives for the rows and messages, and the status
and body of the errors. `WebhookRow` leaves its secret out, `WebhookCreated` does not; an error
of the database or of the server itself is logged, and the client is told nothing of it.
-/

namespace ConcordBackend

/-- The body of a response. -/
inductive Body where
  | empty
  | json (value : Json)
  | text (content : String)

/-- A response. -/
structure Response where
  status : ℕ
  body : Body

/-- The status and the message of `into_response`. -/
def AppError.statusAndMessage : AppError → ℕ × String
  | .notFound => (404, "not found")
  | .badRequest message => (400, "bad request: " ++ message)
  | .unauthorized message => (401, "unauthorized: " ++ message)
  | .forbidden message => (403, "forbidden: " ++ message)
  | .database _ => (500, "internal server error")
  | .internal => (500, "internal server error")

/-- `into_response`. -/
def AppError.intoResponse (e : AppError) : Response where
  status := e.statusAndMessage.1
  body := .json (.obj [("error", .str e.statusAndMessage.2)])

/-- How the values of other crates are printed in JSON. -/
structure TextCrates where
  /-- `impl Serialize for DateTime<Utc>` -/
  dateTime : DateTime → String
  /-- `impl Serialize for BigDecimal` -/
  bigDecimal : Int → String
  /-- `impl Serialize for Uuid` -/
  uuid : Uuid → String

/-- The texts of the sample: its webhook has the id 0 and was registered at the epoch. -/
def sampleTexts : TextCrates :=
  ⟨fun _ => "1970-01-01T00:00:00Z", fun n => toString n,
    fun _ => "00000000-0000-0000-0000-000000000000"⟩

section Rows

variable (texts : TextCrates)

/-- The members of an `EscrowRow`. -/
def EscrowRow.members (r : EscrowRow) : List (String × Json) :=
  [("id", .num r.id.toInt), ("contract_id", .str r.contractId), ("client", .str r.client),
    ("provider", .str r.provider), ("arbitrator", .str r.arbitrator), ("token", .str r.token),
    ("status", .str r.status), ("created_at", .str (texts.dateTime r.createdAt)),
    ("updated_at", .str (texts.dateTime r.updatedAt)),
    ("updated_ledger", .num r.updatedLedger.toInt), ("review_period", .num r.reviewPeriod.toInt),
    ("chain_created_at", .ofOption (fun t => .str (texts.dateTime t)) r.chainCreatedAt),
    ("title", .ofOption .str r.title), ("metadata_uri", .ofOption .str r.metadataUri),
    ("metadata_hash", .ofOption .str r.metadataHash)]

/-- A `MilestoneRow`. -/
def MilestoneRow.toJson (r : MilestoneRow) : Json :=
  .obj [("escrow_id", .num r.escrowId.toInt), ("milestone_id", .num r.milestoneId.toInt),
    ("description", .str r.description), ("amount", .str (texts.bigDecimal r.amount)),
    ("status", .str r.status), ("updated_at", .str (texts.dateTime r.updatedAt)),
    ("deadline", .ofOption (fun t => .str (texts.dateTime t)) r.deadline),
    ("submitted_at", .ofOption (fun t => .str (texts.dateTime t)) r.submittedAt),
    ("evidence_uri", .ofOption .str r.evidenceUri),
    ("evidence_hash", .ofOption .str r.evidenceHash),
    ("released_via", .ofOption .str r.releasedVia)]

/-- A `DisputeRow`. -/
def DisputeRow.toJson (r : DisputeRow) : Json :=
  .obj [("escrow_id", .num r.escrowId.toInt), ("milestone_id", .num r.milestoneId.toInt),
    ("raised_by", .str r.raisedBy), ("reason", .str r.reason), ("status", .str r.status),
    ("resolution_kind", .ofOption .str r.resolutionKind),
    ("resolution_provider_bps", .ofOption (fun n : Int32 => .num n.toInt) r.resolutionProviderBps),
    ("created_at", .str (texts.dateTime r.createdAt)),
    ("resolved_at", .ofOption (fun t => .str (texts.dateTime t)) r.resolvedAt)]

/-- An `EscrowDetail`: the members of the escrow are those of the detail itself. -/
def EscrowDetail.toJson (d : EscrowDetail) : Json :=
  .obj (d.escrow.members texts ++ [("milestones", .arr (d.milestones.map (·.toJson texts)))])

/-- A `WebhookRow`, without its secret. -/
def WebhookRow.toJson (r : WebhookRow) : Json :=
  .obj [("id", .str (texts.uuid r.id)), ("escrow_id", .num r.escrowId.toInt),
    ("owner_address", .str r.ownerAddress), ("url", .str r.url),
    ("created_at", .str (texts.dateTime r.createdAt))]

/-- A `WebhookCreated`, the one time the secret is shown. -/
def WebhookCreated.toJson (r : WebhookCreated) : Json :=
  .obj [("id", .str (texts.uuid r.id)), ("escrow_id", .num r.escrowId.toInt),
    ("owner_address", .str r.ownerAddress), ("url", .str r.url),
    ("created_at", .str (texts.dateTime r.createdAt)), ("secret", .str r.secret)]

/-- What a job that has returned is answered; a poll answers nobody. -/
def JobResult.respond : JobResult → Option Response
  | .auth (.challenge resp) => some ⟨200, .json (.obj [("nonce", .str resp.nonce),
      ("message", .str resp.message)])⟩
  | .auth (.token resp) => some ⟨200, .json (.obj [("token", .str resp.token)])⟩
  | .escrows rows => some ⟨200, .json (.arr (rows.map fun r => .obj (r.members texts)))⟩
  | .escrow detail => some ⟨200, .json (detail.toJson texts)⟩
  | .disputes rows => some ⟨200, .json (.arr (rows.map (·.toJson texts)))⟩
  | .webhook (.created row) => some ⟨200, .json (row.toJson texts)⟩
  | .webhook (.listed rows) => some ⟨200, .json (.arr (rows.map (·.toJson texts)))⟩
  | .webhook .deleted => some ⟨200, .empty⟩
  | .rejected r => some ⟨r.status, .text r.body⟩
  | .polled _ => none

/-- The response to a job, once there is one. -/
def respond : BackendM JobResult → Option Response
  | .done result => result.respond texts
  | .fail e => some e.intoResponse
  | .call _ _ => none

end Rows

end ConcordBackend
