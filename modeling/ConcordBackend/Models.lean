import ConcordBackend.Xdr

/-!
# Rows and statuses

The row types of the five tables with their columns, and the two status enumerations the
list endpoints filter by. `amount` is the integer behind the `NUMERIC(39, 0)` column.
-/

namespace ConcordBackend

/-- `EscrowStatus`. -/
inductive EscrowStatus where
  | created
  | funded
  | inProgress
  | completed
  | cancelled
  deriving DecidableEq, Repr

/-- `EscrowStatus::as_str`. -/
def EscrowStatus.asStr : EscrowStatus → String
  | .created => "created"
  | .funded => "funded"
  | .inProgress => "in_progress"
  | .completed => "completed"
  | .cancelled => "cancelled"

/-- `EscrowStatus::from_str`. -/
def EscrowStatus.fromStr : String → Option EscrowStatus
  | "created" => some .created
  | "funded" => some .funded
  | "in_progress" => some .inProgress
  | "completed" => some .completed
  | "cancelled" => some .cancelled
  | _ => none

/-- `DisputeStatus`. -/
inductive DisputeStatus where
  | opened
  | resolved
  deriving DecidableEq, Repr

/-- `DisputeStatus::as_str`. -/
def DisputeStatus.asStr : DisputeStatus → String
  | .opened => "open"
  | .resolved => "resolved"

/-- `DisputeStatus::from_str`. -/
def DisputeStatus.fromStr : String → Option DisputeStatus
  | "open" => some .opened
  | "resolved" => some .resolved
  | _ => none

/-- A printed status parses back to itself. -/
theorem EscrowStatus.fromStr_asStr (s : EscrowStatus) : fromStr s.asStr = some s := by
  cases s <;> rfl

@[inherit_doc EscrowStatus.fromStr_asStr]
theorem DisputeStatus.fromStr_asStr (s : DisputeStatus) : fromStr s.asStr = some s := by
  cases s <;> rfl

/-- A row of `escrows`. -/
structure EscrowRow where
  id : Int64
  contractId : String
  client : String
  provider : String
  arbitrator : String
  token : String
  status : String
  createdAt : DateTime
  updatedAt : DateTime
  updatedLedger : Int64
  reviewPeriod : Int64
  chainCreatedAt : Option DateTime
  title : Option String
  metadataUri : Option String
  metadataHash : Option String
  deriving DecidableEq, Repr

/-- A row of `milestones`. -/
structure MilestoneRow where
  escrowId : Int64
  milestoneId : Int32
  description : String
  amount : Int
  status : String
  updatedAt : DateTime
  deadline : Option DateTime
  submittedAt : Option DateTime
  evidenceUri : Option String
  evidenceHash : Option String
  releasedVia : Option String
  deriving DecidableEq, Repr

/-- A row of `disputes`. -/
structure DisputeRow where
  escrowId : Int64
  milestoneId : Int32
  raisedBy : String
  reason : String
  status : String
  resolutionKind : Option String
  resolutionProviderBps : Option Int32
  createdAt : DateTime
  resolvedAt : Option DateTime
  deriving DecidableEq, Repr

/-- The identifiers `uuid::Uuid::new_v4` draws. -/
abbrev Uuid := BitVec 128

/-- A row of `webhooks`. -/
structure WebhookRow where
  id : Uuid
  escrowId : Int64
  ownerAddress : String
  url : String
  createdAt : DateTime
  secret : String
  deriving DecidableEq, Repr

/-- The primary key of `milestones` and of `disputes`. -/
abbrev MilestoneKey := Int64 × Int32

/-- The primary key of a milestone row. -/
def MilestoneRow.key (r : MilestoneRow) : MilestoneKey := (r.escrowId, r.milestoneId)

/-- The primary key of a dispute row. -/
def DisputeRow.key (r : DisputeRow) : MilestoneKey := (r.escrowId, r.milestoneId)

end ConcordBackend
