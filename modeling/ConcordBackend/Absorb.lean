import ConcordBackend.View

/-!
# Ordered writes absorb their earlier runs

The writes of a log mix three disciplines: the escrow row compares ledgers before it lets its
status be overwritten, a milestone row is overwritten blindly, and the creation columns of
all three tables are kept from the first insert on. What makes a log of such writes
replayable is an order on the writes of each row (`Write.Precedes`): the write that creates
the row comes first, and escrow ledgers do not decrease. Then every write is idempotent and
absorbs its predecessors on the view, so `Replay.run_replay` applies (`View.run_replay`).
-/

namespace ConcordBackend

/-- The row a write acts on. -/
inductive RowKey where
  | escrow (e : Int64)
  | milestone (k : MilestoneKey)
  | dispute (k : MilestoneKey)
  deriving DecidableEq, Repr

/-- The escrow a row belongs to. -/
def RowKey.escrowId : RowKey → Int64
  | escrow e => e
  | milestone k => k.1
  | dispute k => k.1

namespace Write

/-- The row a write acts on. -/
def row : Write → RowKey
  | upsertEscrow a => .escrow a.id
  | setEscrowStatus e _ _ => .escrow e
  | upsertMilestone a => .milestone (a.escrowId, a.milestoneId)
  | setMilestoneStatus e m _ => .milestone (e, m)
  | markMilestoneSubmitted e m _ _ _ => .milestone (e, m)
  | releaseMilestone e m _ => .milestone (e, m)
  | insertDispute e m _ _ => .dispute (e, m)
  | resolveDispute e m _ _ => .dispute (e, m)

/-- Whether a write inserts its row where it is missing. -/
def creates : Write → Bool
  | upsertEscrow _ => true
  | upsertMilestone _ => true
  | insertDispute _ _ _ _ => true
  | _ => false

/-- The ledger a write of an escrow row carries; the other writes carry none. -/
def ledger? : Write → Option Int64
  | upsertEscrow a => some a.ledger
  | setEscrowStatus _ _ ledger => some ledger
  | _ => none

/-- `b` may come before `o` in a replayable log: if they write the same row, then `o` does not
create it and does not carry an older ledger. -/
def Precedes (b o : Write) : Prop :=
  b.row = o.row → o.creates = false ∧ ∀ l ∈ b.ledger?, ∀ l' ∈ o.ledger?, l ≤ l'

/-! ### A write of another row changes nothing -/

theorem onEscrow_of_row_ne {w : Write} {e : Int64} (h : w.row ≠ .escrow e)
    (o : Option EscrowRow) : w.onEscrow e o = o := by
  cases w <;> simp_all [row, onEscrow]

theorem onMilestone_of_row_ne {w : Write} {k : MilestoneKey} (h : w.row ≠ .milestone k)
    (o : Option MilestoneRow) : w.onMilestone k o = o := by
  cases w <;> simp_all [row, onMilestone]

theorem onDispute_of_row_ne {w : Write} {k : MilestoneKey} (h : w.row ≠ .dispute k)
    (o : Option DisputeRow) : w.onDispute k o = o := by
  cases w <;> simp_all [row, onDispute]

end Write

/-! ### Each write is idempotent and absorbs what may precede it -/

/-- An offer at a later ledger takes the place of an earlier one. -/
theorem EscrowRow.offer_offer {l l' : Int64} (h : l ≤ l') (status status' : String)
    (r : EscrowRow) : (r.offer status l).offer status' l' = r.offer status' l' := by
  unfold offer
  by_cases hl : r.updatedLedger ≤ l
  · have hl' : r.updatedLedger ≤ l' := Int64.le_trans hl h
    simp [hl, hl', h, overwrite]
  · simp [hl]

namespace Write

variable {b o : Write}

theorem onEscrow_idem (w : Write) (e : Int64) (x : Option EscrowRow) :
    w.onEscrow e (w.onEscrow e x) = w.onEscrow e x := by
  cases w with
  | upsertEscrow a =>
    by_cases he : a.id = e
    · rcases x with _ | r
      · simp [onEscrow, he, UpsertEscrow.row, EscrowRow.offer, EscrowRow.overwrite]
      · simp [onEscrow, he, EscrowRow.offer_offer (Int64.le_refl a.ledger)]
    · simp [onEscrow, he]
  | setEscrowStatus id status ledger =>
    by_cases he : id = e
    · rcases x with _ | r
      · simp [onEscrow, he]
      · simp [onEscrow, he, EscrowRow.offer_offer (Int64.le_refl ledger)]
    · simp [onEscrow, he]
  | _ => rfl

theorem onMilestone_idem (w : Write) (k : MilestoneKey) (x : Option MilestoneRow) :
    w.onMilestone k (w.onMilestone k x) = w.onMilestone k x := by
  cases w <;> rcases x with _ | r <;> simp only [onMilestone] <;> split <;> rfl

theorem onDispute_idem (w : Write) (k : MilestoneKey) (x : Option DisputeRow) :
    w.onDispute k (w.onDispute k x) = w.onDispute k x := by
  cases w <;> rcases x with _ | r <;> simp only [onDispute] <;> split <;> rfl

/-- A status write of an escrow row absorbs the writes of the row at earlier ledgers. -/
theorem onEscrow_absorbs (h : b.Precedes o) (e : Int64) (x : Option EscrowRow) :
    o.onEscrow e (b.onEscrow e (o.onEscrow e x)) = o.onEscrow e (b.onEscrow e x) := by
  by_cases ho : o.row = .escrow e
  · by_cases hb : b.row = .escrow e
    · obtain ⟨hcre, hled⟩ := h (hb.trans ho.symm)
      cases o with
      | setEscrowStatus id status ledger =>
        obtain rfl : id = e := RowKey.escrow.inj ho
        cases b with
        | upsertEscrow a =>
          have hle : a.ledger ≤ ledger := hled _ rfl _ rfl
          obtain rfl : a.id = id := RowKey.escrow.inj hb
          rcases x with _ | r
          · simp [onEscrow]
          · simp [onEscrow, EscrowRow.offer_offer hle,
              EscrowRow.offer_offer (Int64.le_refl ledger)]
        | setEscrowStatus id' status' ledger' =>
          have hle : ledger' ≤ ledger := hled _ rfl _ rfl
          obtain rfl : id' = id := RowKey.escrow.inj hb
          rcases x with _ | r
          · simp [onEscrow]
          · simp [onEscrow, EscrowRow.offer_offer hle,
              EscrowRow.offer_offer (Int64.le_refl ledger)]
        | _ => cases hb
      | upsertEscrow a => cases hcre
      | _ => cases ho
    · rw [onEscrow_of_row_ne hb, onEscrow_of_row_ne hb, onEscrow_idem]
  · rw [onEscrow_of_row_ne ho, onEscrow_of_row_ne ho, onEscrow_of_row_ne ho]

/-- An update of a milestone row absorbs every other write of the row. -/
theorem onMilestone_absorbs (h : b.Precedes o) (k : MilestoneKey) (x : Option MilestoneRow) :
    o.onMilestone k (b.onMilestone k (o.onMilestone k x)) =
      o.onMilestone k (b.onMilestone k x) := by
  by_cases ho : o.row = .milestone k
  · by_cases hb : b.row = .milestone k
    · obtain ⟨hcre, -⟩ := h (hb.trans ho.symm)
      -- the updates write fixed values, whatever the row holds
      rcases x with _ | r <;> cases o <;> cases b <;>
        simp_all [row, creates, onMilestone, MilestoneRow.setStatus,
          MilestoneRow.markSubmitted, MilestoneRow.release]
    · rw [onMilestone_of_row_ne hb, onMilestone_of_row_ne hb, onMilestone_idem]
  · rw [onMilestone_of_row_ne ho, onMilestone_of_row_ne ho, onMilestone_of_row_ne ho]

/-- A resolution absorbs every other write of the dispute row. -/
theorem onDispute_absorbs (h : b.Precedes o) (k : MilestoneKey) (x : Option DisputeRow) :
    o.onDispute k (b.onDispute k (o.onDispute k x)) = o.onDispute k (b.onDispute k x) := by
  by_cases ho : o.row = .dispute k
  · by_cases hb : b.row = .dispute k
    · obtain ⟨hcre, -⟩ := h (hb.trans ho.symm)
      rcases x with _ | r <;> cases o <;> cases b <;>
        simp_all [row, creates, onDispute, DisputeRow.resolve]
    · rw [onDispute_of_row_ne hb, onDispute_of_row_ne hb, onDispute_idem]
  · rw [onDispute_of_row_ne ho, onDispute_of_row_ne ho, onDispute_of_row_ne ho]

end Write

namespace View

theorem apply_idempotent (w : Write) : Replay.Idempotent View.apply w := fun _ =>
  View.ext (funext fun e => w.onEscrow_idem e _) (funext fun k => w.onMilestone_idem k _)
    (funext fun k => w.onDispute_idem k _)

theorem apply_absorbs {b o : Write} (h : b.Precedes o) : Replay.Absorbs View.apply b o :=
  fun _ => View.ext (funext fun e => Write.onEscrow_absorbs h e _)
    (funext fun k => Write.onMilestone_absorbs h k _)
    (funext fun k => Write.onDispute_absorbs h k _)

/-- **Replaying a log of ordered writes.** Whatever writes of the log ran before it, a full
pass over it leaves what a pass over the log alone leaves. -/
theorem run_replay {log : List Write} (hlog : log.Pairwise Write.Precedes)
    {early : List Write} (hearly : ∀ w ∈ early, w ∈ log) (v : View) :
    run log (run early v) = run log v :=
  Replay.run_replay (fun w _ => apply_idempotent w) (hlog.imp apply_absorbs) hearly v

end View

end ConcordBackend
