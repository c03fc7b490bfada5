import ConcordBackend.Db
import ConcordBackend.Library.Replay

/-!
# What the tables say

`View` is the abstract store of the reconstruction: for each primary key of `escrows`,
`milestones` and `disputes` the row it holds, with the wall-clock columns blanked. The writes
act on it row by row (`Write.onEscrow`, `Write.onMilestone`, `Write.onDispute`), whatever the
clock says, and `Write.exec_spec` is the refinement: a statement is rejected exactly where it
names an escrow that does not exist, and otherwise does to the view what `View.apply` says.
-/

namespace ConcordBackend

/-! ### Rows without the clock -/

/-- An escrow row with its wall-clock columns blanked. -/
def EscrowRow.unclocked (r : EscrowRow) : EscrowRow := { r with createdAt := 0, updatedAt := 0 }

/-- A milestone row with its wall-clock column blanked. -/
def MilestoneRow.unclocked (r : MilestoneRow) : MilestoneRow := { r with updatedAt := 0 }

/-- A dispute row with its wall-clock columns blanked; whether it has been resolved stays. -/
def DisputeRow.unclocked (r : DisputeRow) : DisputeRow :=
  { r with createdAt := 0, resolvedAt := r.resolvedAt.map fun _ => 0 }

/-- The rows of the three tables by primary key, without the wall-clock columns. -/
@[ext] structure View where
  escrow : Int64 → Option EscrowRow
  milestone : MilestoneKey → Option MilestoneRow
  dispute : MilestoneKey → Option DisputeRow

/-- What the tables of a database say. -/
def Db.view (db : Db) : View where
  escrow := fun e => (db.escrows.find? e).map EscrowRow.unclocked
  milestone := fun k => (db.milestones.find? k).map MilestoneRow.unclocked
  dispute := fun k => (db.disputes.find? k).map DisputeRow.unclocked

/-- The view of tables without rows. -/
def View.empty : View := ⟨fun _ => none, fun _ => none, fun _ => none⟩

/-! ### The writes, row by row -/

/-- The guarded overwrite of an escrow row: a ledger older than the row's does not get
through. -/
def EscrowRow.offer (status : String) (ledger : Int64) (r : EscrowRow) : EscrowRow :=
  if r.updatedLedger ≤ ledger then r.overwrite status ledger 0 else r

namespace Write

/-- The escrow a write is about. -/
def escrowId : Write → Int64
  | upsertEscrow a => a.id
  | setEscrowStatus e _ _ => e
  | upsertMilestone a => a.escrowId
  | setMilestoneStatus e _ _ => e
  | markMilestoneSubmitted e _ _ _ _ => e
  | releaseMilestone e _ _ => e
  | insertDispute e _ _ _ => e
  | resolveDispute e _ _ _ => e

/-- What a write does to the row of `escrows` under `e`. -/
def onEscrow (e : Int64) (o : Option EscrowRow) : Write → Option EscrowRow
  | upsertEscrow a =>
    if a.id = e then some (o.elim (a.row 0) (EscrowRow.offer a.status a.ledger)) else o
  | setEscrowStatus id status ledger =>
    if id = e then o.map (EscrowRow.offer status ledger) else o
  | _ => o

/-- What a write does to the row of `milestones` under `k`. -/
def onMilestone (k : MilestoneKey) (o : Option MilestoneRow) : Write → Option MilestoneRow
  | upsertMilestone a =>
    if (a.escrowId, a.milestoneId) = k then
      some (o.elim (a.row 0) (MilestoneRow.setStatus a.status 0))
    else o
  | setMilestoneStatus e m status =>
    if (e, m) = k then o.map (MilestoneRow.setStatus status 0) else o
  | markMilestoneSubmitted e m uri hash submittedAt =>
    if (e, m) = k then o.map (MilestoneRow.markSubmitted uri hash submittedAt 0) else o
  | releaseMilestone e m via =>
    if (e, m) = k then o.map (MilestoneRow.release via 0) else o
  | _ => o

/-- What a write does to the row of `disputes` under `k`. -/
def onDispute (k : MilestoneKey) (o : Option DisputeRow) : Write → Option DisputeRow
  | insertDispute e m raisedBy reason =>
    if (e, m) = k then some (o.getD (.raised e m raisedBy reason 0)) else o
  | resolveDispute e m kind bps =>
    if (e, m) = k then o.map (DisputeRow.resolve kind bps 0) else o
  | _ => o

/-- The escrow a write inserts where it is missing. -/
def createdEscrow? : Write → Option Int64
  | upsertEscrow a => some a.id
  | _ => none

/-- Whether a write inserts a row that references its escrow. -/
def needsEscrow : Write → Bool
  | upsertMilestone _ => true
  | insertDispute _ _ _ _ => true
  | _ => false

end Write

/-- The effect of a write on what the tables say. -/
def View.apply (w : Write) (v : View) : View where
  escrow := fun e => w.onEscrow e (v.escrow e)
  milestone := fun k => w.onMilestone k (v.milestone k)
  dispute := fun k => w.onDispute k (v.dispute k)

/-- The foreign key of a write holds. -/
def View.Admits (v : View) (w : Write) : Prop :=
  w.needsEscrow = true → (v.escrow w.escrowId).isSome = true

instance (v : View) (w : Write) : Decidable (v.Admits w) :=
  inferInstanceAs (Decidable (_ → _))

/-! ### Refinement -/

private theorem view_upsertEscrow (db : Db) (now : DateTime) (a : UpsertEscrow) :
    (db.upsertEscrow now a).view = db.view.apply (.upsertEscrow a) := by
  refine View.ext (funext fun e => ?_) rfl rfl
  simp only [Db.view, Db.upsertEscrow, View.apply, Write.onEscrow, Table.find?_upsert]
  by_cases he : a.id = e
  · have hkey : (a.row now).id = e := he
    rw [if_pos hkey, if_pos he]
    rcases db.escrows.find? e with _ | r
    · rfl
    · by_cases hl : r.updatedLedger ≤ a.ledger <;>
        simp [hl, EscrowRow.unclocked, EscrowRow.overwrite, EscrowRow.offer]
  · have hkey : ¬ (a.row now).id = e := he
    rw [if_neg hkey, if_neg he]

private theorem view_setEscrowStatus (db : Db) (now : DateTime) (id : Int64) (status : String)
    (ledger : Int64) : (db.setEscrowStatus now id status ledger).view =
      db.view.apply (.setEscrowStatus id status ledger) := by
  refine View.ext (funext fun e => ?_) rfl rfl
  simp only [Db.view, Db.setEscrowStatus, View.apply, Write.onEscrow, Table.find?_update]
  rcases hr : db.escrows.find? e with _ | r
  · simp
  · obtain rfl := Table.key_of_find? hr
    by_cases hid : id = r.id
    · subst hid
      by_cases hl : r.updatedLedger ≤ ledger <;>
        simp [hl, EscrowRow.unclocked, EscrowRow.overwrite, EscrowRow.offer]
    · simp [hid, Ne.symm hid]

private theorem view_upsertMilestone {db db' : Db} {now : DateTime} {a : UpsertMilestone}
    (h : db.upsertMilestone now a = .ok db') :
    db'.view = db.view.apply (.upsertMilestone a) := by
  unfold Db.upsertMilestone at h
  split at h
  on_goal 2 => cases h
  obtain rfl := Except.ok.inj h
  refine View.ext rfl (funext fun k => ?_) rfl
  simp only [Db.view, View.apply, Write.onMilestone, Table.find?_upsert]
  by_cases hk : (a.escrowId, a.milestoneId) = k
  · have hkey : (a.row now).key = k := hk
    rw [if_pos hkey, if_pos hk]
    rcases db.milestones.find? k with _ | r <;> rfl
  · have hkey : ¬ (a.row now).key = k := hk
    rw [if_neg hkey, if_neg hk]

/-- An update of one milestone row, seen through the view. -/
private theorem view_updateMilestone (db : Db) (e : Int64) (m : Int32)
    {f f₀ : MilestoneRow → MilestoneRow} (hf : MilestoneRow.Keeps f)
    (hclock : ∀ r, (f r).unclocked = f₀ r.unclocked) :
    (db.updateMilestone e m f hf).view =
      { db.view with milestone := fun k =>
          if (e, m) = k then (db.view.milestone k).map f₀ else db.view.milestone k } := by
  refine View.ext rfl (funext fun k => ?_) rfl
  simp only [Db.view, Db.updateMilestone, Table.find?_update]
  rcases hr : db.milestones.find? k with _ | r
  · simp
  · obtain rfl := Table.key_of_find? hr
    by_cases hk : (e, m) = r.key
    · obtain ⟨rfl, rfl⟩ := Prod.mk.injEq .. ▸ hk
      simp [MilestoneRow.key, hclock]
    · have hne : ¬ (r.escrowId = e ∧ r.milestoneId = m) := fun h => hk (by
        rw [MilestoneRow.key, h.1, h.2])
      simp [hk, hne]

private theorem view_insertDispute {db db' : Db} {now : DateTime} {e : Int64} {m : Int32}
    {raisedBy reason : String} (h : db.insertDispute now e m raisedBy reason = .ok db') :
    db'.view = db.view.apply (.insertDispute e m raisedBy reason) := by
  unfold Db.insertDispute at h
  split at h
  on_goal 2 => cases h
  obtain rfl := Except.ok.inj h
  refine View.ext rfl rfl (funext fun k => ?_)
  simp only [Db.view, View.apply, Write.onDispute, Table.find?_upsert]
  by_cases hk : (e, m) = k
  · have hkey : (DisputeRow.raised e m raisedBy reason now).key = k := hk
    rw [if_pos hkey, if_pos hk]
    rcases db.disputes.find? k with _ | r <;> rfl
  · have hkey : ¬ (DisputeRow.raised e m raisedBy reason now).key = k := hk
    rw [if_neg hkey, if_neg hk]

private theorem view_resolveDispute (db : Db) (now : DateTime) (e : Int64) (m : Int32)
    (kind : String) (bps : Option Int32) :
    (db.resolveDispute now e m kind bps).view =
      db.view.apply (.resolveDispute e m kind bps) := by
  refine View.ext rfl rfl (funext fun k => ?_)
  simp only [Db.view, Db.resolveDispute, View.apply, Write.onDispute, Table.find?_update]
  rcases hr : db.disputes.find? k with _ | r
  · simp
  · obtain rfl := Table.key_of_find? hr
    by_cases hk : (e, m) = r.key
    · obtain ⟨rfl, rfl⟩ := Prod.mk.injEq .. ▸ hk
      simp [DisputeRow.key, DisputeRow.unclocked, DisputeRow.resolve]
    · have hne : ¬ (r.escrowId = e ∧ r.milestoneId = m) := fun h => hk (by
        rw [DisputeRow.key, h.1, h.2])
      simp [hk, hne]

/-- A write that succeeds does to the view what `View.apply` says. -/
theorem Write.view_exec {w : Write} {now : DateTime} {db db' : Db} (h : w.exec now db = .ok db') :
    db'.view = db.view.apply w := by
  cases w with
  | upsertEscrow a => exact Except.ok.inj h ▸ view_upsertEscrow db now a
  | setEscrowStatus id status ledger =>
    exact Except.ok.inj h ▸ view_setEscrowStatus db now id status ledger
  | upsertMilestone a => exact view_upsertMilestone h
  | setMilestoneStatus e m status =>
    exact Except.ok.inj h ▸ view_updateMilestone db e m _ fun _ => rfl
  | markMilestoneSubmitted e m uri hash at_ =>
    exact Except.ok.inj h ▸ view_updateMilestone db e m _ fun _ => rfl
  | releaseMilestone e m via =>
    exact Except.ok.inj h ▸ view_updateMilestone db e m _ fun _ => rfl
  | insertDispute e m raisedBy reason => exact view_insertDispute h
  | resolveDispute e m kind bps =>
    exact Except.ok.inj h ▸ view_resolveDispute db now e m kind bps

/-- **Refinement of the writes.** A statement the view admits succeeds and does to the view
what `View.apply` says; one it does not admit is rejected by the foreign key. -/
theorem Write.exec_spec (w : Write) (now : DateTime) (db : Db) :
    (db.view.Admits w ∧ ∃ db', w.exec now db = .ok db' ∧ db'.view = db.view.apply w) ∨
      (¬ db.view.Admits w ∧ w.exec now db = .error .foreignKey) := by
  by_cases hadm : db.view.Admits w
  · suffices hok : ∃ db', w.exec now db = .ok db' by
      obtain ⟨db', h⟩ := hok
      exact Or.inl ⟨hadm, db', h, view_exec h⟩
    cases w with
    | upsertMilestone a =>
      have h : (db.escrows.find? a.escrowId).isSome := by
        simpa [Db.view, escrowId] using hadm rfl
      exact ⟨_, dif_pos h⟩
    | insertDispute e m raisedBy reason =>
      have h : (db.escrows.find? e).isSome := by
        simpa [Db.view, escrowId] using hadm rfl
      exact ⟨_, dif_pos h⟩
    | _ => exact ⟨_, rfl⟩
  · refine Or.inr ⟨hadm, ?_⟩
    cases w with
    | upsertMilestone a =>
      refine dif_neg fun h => hadm fun _ => ?_
      simpa [Db.view, escrowId] using h
    | insertDispute e m raisedBy reason =>
      refine dif_neg fun h => hadm fun _ => ?_
      simpa [Db.view, escrowId] using h
    | _ => exact absurd (fun h => by cases h) hadm

/-- The writes of the indexer leave the webhooks and the cursor alone. -/
theorem Write.exec_frame {w : Write} {now : DateTime} {db db' : Db}
    (h : w.exec now db = .ok db') :
    db'.webhooks = db.webhooks ∧ db'.indexerCursor = db.indexerCursor := by
  cases w with
  | upsertMilestone a =>
    simp only [Write.exec, Db.upsertMilestone] at h
    split at h
    · exact Except.ok.inj h ▸ ⟨rfl, rfl⟩
    · cases h
  | insertDispute e m raisedBy reason =>
    simp only [Write.exec, Db.insertDispute] at h
    split at h
    · exact Except.ok.inj h ▸ ⟨rfl, rfl⟩
    · cases h
  | _ => exact Except.ok.inj h ▸ ⟨rfl, rfl⟩

/-! ### Lists of writes -/

namespace View

/-- Apply a log of writes to the view, in order. -/
abbrev run (ws : List Write) (v : View) : View := Replay.run View.apply ws v

@[simp] theorem run_nil (v : View) : run [] v = v := rfl

@[simp] theorem run_cons (w : Write) (ws : List Write) (v : View) :
    run (w :: ws) v = run ws (v.apply w) := rfl

@[simp] theorem run_append (ws ws' : List Write) (v : View) :
    run (ws ++ ws') v = run ws' (run ws v) := Replay.run_append ..

/-- Apply the writes up to the first one that is not admitted: what a list of statements does
of which the first rejected one ends the list. -/
def perform : List Write → View → View
  | [], v => v
  | w :: ws, v => if v.Admits w then perform ws (v.apply w) else v

/-- Every write of the list is admitted when its turn comes. -/
def Ready (v : View) : List Write → Prop
  | [] => True
  | w :: ws => v.Admits w ∧ (v.apply w).Ready ws

/-- Every escrow of `v` is one of `v'`. -/
def EscrowsIn (v v' : View) : Prop :=
  ∀ e, (v.escrow e).isSome = true → (v'.escrow e).isSome = true

/-- The escrows after a write: those before it and the one it creates. -/
theorem isSome_apply (w : Write) (v : View) (e : Int64) :
    ((v.apply w).escrow e).isSome = true ↔
      (v.escrow e).isSome = true ∨ w.createdEscrow? = some e := by
  cases w with
  | upsertEscrow a =>
    by_cases ha : a.id = e <;> simp [apply, Write.onEscrow, Write.createdEscrow?, ha]
  | setEscrowStatus id status ledger =>
    by_cases hid : id = e <;> simp [apply, Write.onEscrow, Write.createdEscrow?, hid]
  | _ => simp [apply, Write.onEscrow, Write.createdEscrow?]

theorem escrowsIn_apply (w : Write) (v : View) : v.EscrowsIn (v.apply w) := fun e he =>
  (isSome_apply w v e).mpr (Or.inl he)

/-- No write removes an escrow. -/
theorem escrowsIn_run (ws : List Write) (v : View) : v.EscrowsIn (run ws v) :=
  fun _ he => Replay.run_invariant View.apply (fun w _ s hs => escrowsIn_apply w s _ hs) he

/-- An escrow written by an `upsert_escrow` exists afterwards. -/
theorem isSome_run_of_mem {ws : List Write} {a : UpsertEscrow} (h : .upsertEscrow a ∈ ws)
    (v : View) : ((run ws v).escrow a.id).isSome = true := by
  obtain ⟨before, after, rfl⟩ := List.append_of_mem h
  rw [run_append, run_cons]
  exact escrowsIn_run after _ _ ((isSome_apply _ _ _).mpr (Or.inr rfl))

/-- A view admits what a view with fewer escrows admits. -/
theorem EscrowsIn.admits {v v' : View} (h : v.EscrowsIn v') {w : Write} (hw : v.Admits w) :
    v'.Admits w := fun hn => h _ (hw hn)

theorem EscrowsIn.apply {v v' : View} (h : v.EscrowsIn v') (w : Write) :
    (v.apply w).EscrowsIn (v'.apply w) := fun e he =>
  (isSome_apply w v' e).mpr (((isSome_apply w v e).mp he).imp_left (h e))

theorem Ready.mono {ws : List Write} {v v' : View} (hv : v.EscrowsIn v') (h : v.Ready ws) :
    v'.Ready ws := by
  induction ws generalizing v v' with
  | nil => trivial
  | cons w ws ih => exact ⟨hv.admits h.1, ih (hv.apply w) h.2⟩

theorem ready_append {ws ws' : List Write} {v : View} :
    v.Ready (ws ++ ws') ↔ v.Ready ws ∧ (run ws v).Ready ws' := by
  induction ws generalizing v with
  | nil => simp [Ready]
  | cons w ws ih =>
    rw [List.cons_append, run_cons]
    exact (and_congr_right fun _ => ih).trans and_assoc.symm

/-- Writes about an escrow that exists are all admitted. -/
theorem ready_of_isSome {ws : List Write} {e : Int64} {v : View}
    (he : (v.escrow e).isSome = true) (h : ∀ w ∈ ws, w.escrowId = e) : v.Ready ws := by
  induction ws generalizing v with
  | nil => trivial
  | cons w ws ih =>
    obtain rfl := h w List.mem_cons_self
    exact ⟨fun _ => he, ih (escrowsIn_apply w v _ he) fun w' hw' =>
      h w' (List.mem_cons_of_mem w hw')⟩

/-- Writes that are all admitted are all performed. -/
theorem perform_eq_run {ws : List Write} {v : View} (h : v.Ready ws) :
    perform ws v = run ws v := by
  induction ws generalizing v with
  | nil => rfl
  | cons w ws ih =>
    rw [perform, if_pos h.1]
    exact ih h.2

/-- What is performed is a beginning of the list. -/
theorem perform_eq_run_prefix (ws : List Write) (v : View) :
    ∃ done, done <+: ws ∧ perform ws v = run done v := by
  induction ws generalizing v with
  | nil => exact ⟨[], List.prefix_rfl, rfl⟩
  | cons w ws ih =>
    unfold perform
    split
    · obtain ⟨done, hpre, hrun⟩ := ih (v.apply w)
      exact ⟨w :: done, List.cons_prefix_cons.mpr ⟨rfl, hpre⟩, hrun⟩
    · exact ⟨[], List.nil_prefix, rfl⟩

end View

end ConcordBackend
