import ConcordBackend.Error
import ConcordBackend.Library.Table
import ConcordBackend.Models
import Mathlib.Data.List.Sort

/-!
# The database

`Db` is the schema of `migrations/`: five tables, with primary keys by construction of
`Table` and the foreign keys into `escrows` as fields. The functions of `db.rs` are the
statements they send, as functions on `Db` under the source's names; `now` is what `now()`
returns inside the statement.

`Write` collects the statements the indexer sends while it processes an event, `Query` all
statements, and `Query.exec` is the meaning of one statement: a reply and a new database, or
the constraint it violates.

PostgreSQL refuses to be bound a text with U+0000 in it. Such a text gets as far as a statement
only from a request, as the url of a webhook or in a filter of `list_escrows`. The other texts
hold none: what the indexer writes are addresses in base 32, digests in hexadecimal, texts whose
control characters were escaped when they were decoded (`storable_of_processEvent`), and cursors
and contract ids of the provider; and the owner of a webhook is the address of a wallet.
-/

namespace ConcordBackend

/-- The tables, with the foreign keys of `milestones`, `disputes` and `webhooks`. -/
structure Db where
  escrows : Table EscrowRow.id
  milestones : Table MilestoneRow.key
  disputes : Table DisputeRow.key
  webhooks : Table WebhookRow.id
  indexerCursor : Int64 × Option String
  milestones_fk : ∀ r ∈ milestones.rows, (escrows.find? r.escrowId).isSome
  disputes_fk : ∀ r ∈ disputes.rows, (escrows.find? r.escrowId).isSome
  webhooks_fk : ∀ r ∈ webhooks.rows, (escrows.find? r.escrowId).isSome

/-- The database after the migrations. -/
def Db.migrated : Db where
  escrows := .empty
  milestones := .empty
  disputes := .empty
  webhooks := .empty
  indexerCursor := (0, none)
  milestones_fk := fun _ h => by cases h
  disputes_fk := fun _ h => by cases h
  webhooks_fk := fun _ h => by cases h

/-! ### Foreign keys under row updates -/

section ForeignKeys

variable {ρ κ : Type} [DecidableEq κ] {key : ρ → κ} {fk : ρ → Int64} {esc : Table EscrowRow.id}

omit [DecidableEq κ] in
/-- An update that leaves the referencing column alone keeps the foreign key. -/
private theorem fk_update {t : Table key} (h : ∀ r ∈ t.rows, (esc.find? (fk r)).isSome)
    (p : ρ → Bool) (f : ρ → ρ) (hf : Table.KeepsKey key f) (hfk : ∀ r, fk (f r) = fk r) :
    ∀ r ∈ (t.update p f hf).rows, (esc.find? (fk r)).isSome := by
  intro r hr
  obtain ⟨r', hr', rfl⟩ := List.mem_map.mp hr
  split
  · rw [hfk]
    exact h r' hr'
  · exact h r' hr'

/-- An upsert of a row whose referenced escrow exists keeps the foreign key. -/
private theorem fk_upsert {t : Table key} (h : ∀ r ∈ t.rows, (esc.find? (fk r)).isSome)
    (r : ρ) (hr : (esc.find? (fk r)).isSome) (p : ρ → Bool) (f : ρ → ρ)
    (hf : Table.KeepsKey key f) (hfk : ∀ r, fk (f r) = fk r) :
    ∀ r' ∈ (t.upsert r p f hf).rows, (esc.find? (fk r')).isSome := by
  unfold Table.upsert
  split
  · intro r' hr'
    rcases List.mem_append.mp hr' with hmem | hmem
    · exact h r' hmem
    · rwa [List.mem_singleton.mp hmem]
  · exact fk_update h _ f hf hfk

/-- Escrow rows are never lost to an update. -/
private theorem isSome_update {t : Table EscrowRow.id} {e : Int64} (h : (t.find? e).isSome)
    (p : EscrowRow → Bool) (f : EscrowRow → EscrowRow) (hf : Table.KeepsKey EscrowRow.id f) :
    ((t.update p f hf).find? e).isSome := by
  simpa using h

/-- Escrow rows are never lost to an upsert. -/
private theorem isSome_upsert {t : Table EscrowRow.id} {e : Int64} (h : (t.find? e).isSome)
    (r : EscrowRow) (p : EscrowRow → Bool) (f : EscrowRow → EscrowRow)
    (hf : Table.KeepsKey EscrowRow.id f) : ((t.upsert r p f hf).find? e).isSome := by
  rw [Table.find?_upsert]
  split
  · rfl
  · exact h

end ForeignKeys

/-! ### The statements of the indexer -/

/-- The values bound by `upsert_escrow`. -/
structure UpsertEscrow where
  id : Int64
  contractId : String
  client : String
  provider : String
  arbitrator : String
  token : String
  status : String
  ledger : Int64
  reviewPeriod : Int64
  chainCreatedAt : DateTime
  title : Option String
  metadataUri : Option String
  metadataHash : Option String
  deriving DecidableEq, Repr

/-- The row `upsert_escrow` inserts where the id is new. -/
def UpsertEscrow.row (a : UpsertEscrow) (now : DateTime) : EscrowRow where
  id := a.id
  contractId := a.contractId
  client := a.client
  provider := a.provider
  arbitrator := a.arbitrator
  token := a.token
  status := a.status
  createdAt := now
  updatedAt := now
  updatedLedger := a.ledger
  reviewPeriod := a.reviewPeriod
  chainCreatedAt := some a.chainCreatedAt
  title := a.title
  metadataUri := a.metadataUri
  metadataHash := a.metadataHash

/-- The columns a newer escrow write overwrites. -/
def EscrowRow.overwrite (status : String) (ledger : Int64) (now : DateTime) (r : EscrowRow) :
    EscrowRow :=
  { r with status, updatedAt := now, updatedLedger := ledger }

theorem EscrowRow.keepsKey_overwrite (status : String) (ledger : Int64) (now : DateTime) :
    Table.KeepsKey EscrowRow.id (EscrowRow.overwrite status ledger now) := fun _ => rfl

/-- The values bound by `upsert_milestone`. -/
structure UpsertMilestone where
  escrowId : Int64
  milestoneId : Int32
  description : String
  amount : Int
  status : String
  deadline : DateTime
  deriving DecidableEq, Repr

/-- The row `upsert_milestone` inserts where the key is new. -/
def UpsertMilestone.row (a : UpsertMilestone) (now : DateTime) : MilestoneRow where
  escrowId := a.escrowId
  milestoneId := a.milestoneId
  description := a.description
  amount := a.amount
  status := a.status
  updatedAt := now
  deadline := some a.deadline
  submittedAt := none
  evidenceUri := none
  evidenceHash := none
  releasedVia := none

/-- The columns `set_milestone_status` and the conflict branch of `upsert_milestone` set. -/
def MilestoneRow.setStatus (status : String) (now : DateTime) (r : MilestoneRow) :
    MilestoneRow :=
  { r with status, updatedAt := now }

/-- The columns `mark_milestone_submitted` sets. -/
def MilestoneRow.markSubmitted (evidenceUri evidenceHash : Option String)
    (submittedAt now : DateTime) (r : MilestoneRow) : MilestoneRow :=
  { r with
    status := "submitted", evidenceUri, evidenceHash, submittedAt := some submittedAt,
    updatedAt := now }

/-- The columns `release_milestone` sets. -/
def MilestoneRow.release (via : String) (now : DateTime) (r : MilestoneRow) : MilestoneRow :=
  { r with status := "released", releasedVia := some via, updatedAt := now }

/-- A change of a milestone row that leaves the columns of its key alone. -/
structure MilestoneRow.Keeps (f : MilestoneRow → MilestoneRow) : Prop where
  escrowId : ∀ r, (f r).escrowId = r.escrowId
  milestoneId : ∀ r, (f r).milestoneId = r.milestoneId

theorem MilestoneRow.Keeps.keepsKey {f : MilestoneRow → MilestoneRow} (h : Keeps f) :
    Table.KeepsKey MilestoneRow.key f := fun r => Prod.ext (h.escrowId r) (h.milestoneId r)

theorem MilestoneRow.keeps_setStatus (status : String) (now : DateTime) :
    Keeps (MilestoneRow.setStatus status now) := ⟨fun _ => rfl, fun _ => rfl⟩

theorem MilestoneRow.keeps_markSubmitted (evidenceUri evidenceHash : Option String)
    (submittedAt now : DateTime) :
    Keeps (MilestoneRow.markSubmitted evidenceUri evidenceHash submittedAt now) :=
  ⟨fun _ => rfl, fun _ => rfl⟩

theorem MilestoneRow.keeps_release (via : String) (now : DateTime) :
    Keeps (MilestoneRow.release via now) := ⟨fun _ => rfl, fun _ => rfl⟩

/-- The row `insert_dispute` inserts where the key is new. -/
def DisputeRow.raised (escrowId : Int64) (milestoneId : Int32) (raisedBy reason : String)
    (now : DateTime) : DisputeRow where
  escrowId := escrowId
  milestoneId := milestoneId
  raisedBy := raisedBy
  reason := reason
  status := "open"
  resolutionKind := none
  resolutionProviderBps := none
  createdAt := now
  resolvedAt := none

/-- The columns `resolve_dispute` sets. -/
def DisputeRow.resolve (kind : String) (bps : Option Int32) (now : DateTime)
    (r : DisputeRow) : DisputeRow :=
  { r with
    status := "resolved", resolutionKind := some kind, resolutionProviderBps := bps,
    resolvedAt := some now }

theorem DisputeRow.keepsKey_resolve (kind : String) (bps : Option Int32) (now : DateTime) :
    Table.KeepsKey DisputeRow.key (DisputeRow.resolve kind bps now) := fun _ => rfl

namespace Db

/-- `upsert_escrow`: the conflict branch overwrites the status only where the ledger is not
older than the row's. -/
def upsertEscrow (db : Db) (now : DateTime) (a : UpsertEscrow) : Db :=
  { db with
    escrows := db.escrows.upsert (a.row now) (fun r => r.updatedLedger ≤ a.ledger)
      (EscrowRow.overwrite a.status a.ledger now) (EscrowRow.keepsKey_overwrite _ _ _)
    milestones_fk := fun r hr => isSome_upsert (db.milestones_fk r hr) _ _ _ _
    disputes_fk := fun r hr => isSome_upsert (db.disputes_fk r hr) _ _ _ _
    webhooks_fk := fun r hr => isSome_upsert (db.webhooks_fk r hr) _ _ _ _ }

/-- `set_escrow_status`. -/
def setEscrowStatus (db : Db) (now : DateTime) (id : Int64) (status : String)
    (ledger : Int64) : Db :=
  { db with
    escrows := db.escrows.update (fun r => r.id = id && r.updatedLedger ≤ ledger)
      (EscrowRow.overwrite status ledger now) (EscrowRow.keepsKey_overwrite _ _ _)
    milestones_fk := fun r hr => isSome_update (db.milestones_fk r hr) _ _ _
    disputes_fk := fun r hr => isSome_update (db.disputes_fk r hr) _ _ _
    webhooks_fk := fun r hr => isSome_update (db.webhooks_fk r hr) _ _ _ }

/-- `upsert_milestone`. -/
def upsertMilestone (db : Db) (now : DateTime) (a : UpsertMilestone) : Except SqlError Db :=
  if h : (db.escrows.find? a.escrowId).isSome then
    .ok { db with
      milestones := db.milestones.upsert (a.row now) (fun _ => true)
        (MilestoneRow.setStatus a.status now) (MilestoneRow.keeps_setStatus _ _).keepsKey
      milestones_fk := fk_upsert db.milestones_fk _ h _ _ _
        (MilestoneRow.keeps_setStatus _ _).escrowId }
  else .error .foreignKey

/-- An `UPDATE milestones SET f WHERE escrow_id = … AND milestone_id = …`. -/
def updateMilestone (db : Db) (escrowId : Int64) (milestoneId : Int32)
    (f : MilestoneRow → MilestoneRow) (hf : MilestoneRow.Keeps f) : Db :=
  { db with
    milestones := db.milestones.update
      (fun r => r.escrowId = escrowId && r.milestoneId = milestoneId) f hf.keepsKey
    milestones_fk := fk_update db.milestones_fk _ _ _ hf.escrowId }

/-- `set_milestone_status`. -/
def setMilestoneStatus (db : Db) (now : DateTime) (escrowId : Int64) (milestoneId : Int32)
    (status : String) : Db :=
  db.updateMilestone escrowId milestoneId (MilestoneRow.setStatus status now)
    (MilestoneRow.keeps_setStatus _ _)

/-- `mark_milestone_submitted`. -/
def markMilestoneSubmitted (db : Db) (now : DateTime) (escrowId : Int64) (milestoneId : Int32)
    (evidenceUri evidenceHash : Option String) (submittedAt : DateTime) : Db :=
  db.updateMilestone escrowId milestoneId
    (MilestoneRow.markSubmitted evidenceUri evidenceHash submittedAt now)
    (MilestoneRow.keeps_markSubmitted _ _ _ _)

/-- `release_milestone`. -/
def releaseMilestone (db : Db) (now : DateTime) (escrowId : Int64) (milestoneId : Int32)
    (via : String) : Db :=
  db.updateMilestone escrowId milestoneId (MilestoneRow.release via now)
    (MilestoneRow.keeps_release _ _)

/-- `insert_dispute`: `ON CONFLICT DO NOTHING`. -/
def insertDispute (db : Db) (now : DateTime) (escrowId : Int64) (milestoneId : Int32)
    (raisedBy reason : String) : Except SqlError Db :=
  if h : (db.escrows.find? escrowId).isSome then
    .ok { db with
      disputes := db.disputes.upsert (.raised escrowId milestoneId raisedBy reason now)
        (fun _ => false) id fun _ => rfl
      disputes_fk := fk_upsert db.disputes_fk _ h _ _ _ fun _ => rfl }
  else .error .foreignKey

/-- `resolve_dispute`. -/
def resolveDispute (db : Db) (now : DateTime) (escrowId : Int64) (milestoneId : Int32)
    (kind : String) (bps : Option Int32) : Db :=
  { db with
    disputes := db.disputes.update
      (fun r => r.escrowId = escrowId && r.milestoneId = milestoneId)
      (DisputeRow.resolve kind bps now) (DisputeRow.keepsKey_resolve _ _ _)
    disputes_fk := fk_update db.disputes_fk _ _ _ fun _ => rfl }

end Db

/-- The statements the indexer sends to write what an event says. -/
inductive Write where
  | upsertEscrow (a : UpsertEscrow)
  | setEscrowStatus (id : Int64) (status : String) (ledger : Int64)
  | upsertMilestone (a : UpsertMilestone)
  | setMilestoneStatus (escrowId : Int64) (milestoneId : Int32) (status : String)
  | markMilestoneSubmitted (escrowId : Int64) (milestoneId : Int32)
      (evidenceUri evidenceHash : Option String) (submittedAt : DateTime)
  | releaseMilestone (escrowId : Int64) (milestoneId : Int32) (via : String)
  | insertDispute (escrowId : Int64) (milestoneId : Int32) (raisedBy reason : String)
  | resolveDispute (escrowId : Int64) (milestoneId : Int32) (kind : String)
      (bps : Option Int32)
  deriving DecidableEq, Repr

/-- The effect of a write, or the constraint it violates. -/
def Write.exec (now : DateTime) (db : Db) : Write → Except SqlError Db
  | .upsertEscrow a => .ok (db.upsertEscrow now a)
  | .setEscrowStatus id status ledger => .ok (db.setEscrowStatus now id status ledger)
  | .upsertMilestone a => db.upsertMilestone now a
  | .setMilestoneStatus e m status => .ok (db.setMilestoneStatus now e m status)
  | .markMilestoneSubmitted e m uri hash submittedAt =>
    .ok (db.markMilestoneSubmitted now e m uri hash submittedAt)
  | .releaseMilestone e m via => .ok (db.releaseMilestone now e m via)
  | .insertDispute e m raisedBy reason => db.insertDispute now e m raisedBy reason
  | .resolveDispute e m kind bps => .ok (db.resolveDispute now e m kind bps)

/-! ### The other statements -/

/-- A text the server can be bound: PostgreSQL knows none with U+0000 in it. -/
def storable (text : String) : Bool := text.toList.all fun c => c.toNat ≠ 0

namespace Db

/-- `get_escrow`. -/
def getEscrow (db : Db) (id : Int64) : Option EscrowRow := db.escrows.find? id

/-- `list_milestones`: `ORDER BY milestone_id`. -/
def listMilestones (db : Db) (escrowId : Int64) : List MilestoneRow :=
  (db.milestones.rows.filter fun r => r.escrowId = escrowId).insertionSort
    fun r r' => r.milestoneId ≤ r'.milestoneId

/-- `list_webhooks_for_escrow`. -/
def listWebhooksForEscrow (db : Db) (escrowId : Int64) : List WebhookRow :=
  db.webhooks.rows.filter fun w => w.escrowId = escrowId

/-- `insert_webhook`, for the id, secret and time drawn for it. -/
def insertWebhook (db : Db) (w : WebhookRow) : Except SqlError Db :=
  if !storable w.url then .error .characterNotInRepertoire
  else if (db.webhooks.find? w.id).isSome then .error .uniqueViolation
  else if h : (db.escrows.find? w.escrowId).isSome then
    .ok { db with
      webhooks := db.webhooks.upsert w (fun _ => false) id fun _ => rfl
      webhooks_fk := fk_upsert db.webhooks_fk _ h _ _ _ fun _ => rfl }
  else .error .foreignKey

/-- `delete_webhook`: whether a row was deleted, and the database without it. -/
def deleteWebhook (db : Db) (id : Uuid) (ownerAddress : String) : Bool × Db :=
  (db.webhooks.rows.any fun w => w.id = id && w.ownerAddress = ownerAddress,
    { db with
      webhooks := db.webhooks.delete fun w => w.id = id && w.ownerAddress = ownerAddress
      webhooks_fk := fun r hr => db.webhooks_fk r (List.mem_of_mem_filter hr) })

/-- `set_cursor`. -/
def setCursor (db : Db) (lastLedger : Int64) (pagingToken : String) : Db :=
  { db with indexerCursor := (lastLedger, some pagingToken) }

end Db

/-- The statements of `db.rs` that one call sends. -/
inductive Query where
  | write (w : Write)
  | getEscrow (id : Int64)
  | listMilestones (escrowId : Int64)
  | listWebhooksForEscrow (escrowId : Int64)
  | insertWebhook (w : WebhookRow)
  | deleteWebhook (id : Uuid) (ownerAddress : String)
  | getCursor
  | setCursor (lastLedger : Int64) (pagingToken : String)

/-- What a statement returns. -/
def Query.Reply : Query → Type
  | .write _ => Unit
  | .getEscrow _ => Option EscrowRow
  | .listMilestones _ => List MilestoneRow
  | .listWebhooksForEscrow _ => List WebhookRow
  | .insertWebhook _ => WebhookRow
  | .deleteWebhook _ _ => Bool
  | .getCursor => Int64 × Option String
  | .setCursor _ _ => Unit

/-- The meaning of a statement: what it returns and the database it leaves, or the
constraint it violates. -/
def Query.exec (now : DateTime) (db : Db) : (q : Query) → Except SqlError (q.Reply × Db)
  | .write w => (w.exec now db).map fun db' => ((), db')
  | .getEscrow id => .ok (db.getEscrow id, db)
  | .listMilestones e => .ok (db.listMilestones e, db)
  | .listWebhooksForEscrow e => .ok (db.listWebhooksForEscrow e, db)
  | .insertWebhook w => (db.insertWebhook w).map fun db' => (w, db')
  | .deleteWebhook id owner => .ok (db.deleteWebhook id owner)
  | .getCursor => .ok (db.indexerCursor, db)
  | .setCursor ledger token => .ok ((), db.setCursor ledger token)

/-- A write sent as a statement has the write's own effect. -/
theorem Query.exec_write {now : DateTime} {wr : Write} {db db' : Db} {a : Unit}
    (h : (Query.write wr).exec now db = .ok (a, db')) : wr.exec now db = .ok db' := by
  rw [Query.exec] at h
  rcases hw : wr.exec now db with e | db''
  · rw [hw] at h
    cases h
  · rw [hw] at h
    exact congrArg Except.ok (Prod.mk.inj (Except.ok.inj h)).2

end ConcordBackend
