import ConcordBackend.Lists

/-!
# `GET /disputes`

The list of disputes is ordered by the time its rows were inserted, which several rows may
share. A client that reads it page by page receives every dispute exactly once, whatever
order the database puts such rows in, exactly where no page ends between two of them
(`list_disputes_complete_iff`).
-/

namespace ConcordBackend

/-- `ListDisputesQuery`. -/
structure ListDisputesQuery where
  status : Option String
  limit : Option Int
  offset : Option Int

/-- The status a request filters by: "open" by default, none for "all". -/
def disputeStatus (query : ListDisputesQuery) : Except AppError (Option String) :=
  match query.status with
  | none => .ok (some DisputeStatus.opened.asStr)
  | some "all" => .ok none
  | some other =>
    match DisputeStatus.fromStr other with
    | some status => .ok (some status.asStr)
    | none => .error (.badRequest ("invalid status: " ++ other))

/-- `list_disputes`: what a request may be answered. -/
inductive ListDisputes (db : Db) (query : ListDisputesQuery) :
    Except AppError (List DisputeRow) → Prop where
  | invalid {e : AppError} (h : disputeStatus query = .error e) : ListDisputes db query (.error e)
  | failed (e : SqlError) : ListDisputes db query (.error (.database e))
  | page {status : Option String} {page : List DisputeRow} (h : disputeStatus query = .ok status)
      (hpage : db.ListDisputes status (limitOf query.limit) (offsetOf query.offset) page) :
      ListDisputes db query (.ok page)

/-- The disputes a status filter selects. -/
def Db.disputesBy (db : Db) (status : Option String) : List DisputeRow :=
  db.disputes.rows.filter fun r => nullOr status r.status

theorem Db.nodup_disputesBy (db : Db) (status : Option String) : (db.disputesBy status).Nodup :=
  (List.Nodup.of_map _ db.disputes.nodup).filter _

/-- A client reads the disputes of a table that does not change: it asks for the next page at
the offset of what it has received, until a page is empty. -/
def ReadsDisputes (db : Db) (query : ListDisputesQuery) (pages : ℕ → List DisputeRow) : Prop :=
  ∀ k, (∀ i < k, pages i ≠ []) →
    ListDisputes db { query with offset := some (received pages k).length } (.ok (pages k))

theorem readsDisputes_iff {db : Db} {query : ListDisputesQuery} {status : Option String}
    (hstatus : disputeStatus query = .ok status) {pages : ℕ → List DisputeRow} :
    ReadsDisputes db query pages ↔ Reading (fun r : DisputeRow => (r.createdAt : Int))
      (limitOf query.limit).toNat (fun _ => db.disputesBy status) pages := by
  refine forall₂_congr fun k hk => ?_
  have hoff : (offsetOf (some ((received pages k).length : Int))).toNat =
      (received pages k).length := offsetOf_some _
  constructor
  · rintro (_ | _ | ⟨h, hpage⟩)
    obtain rfl := Except.ok.inj (h.symm.trans hstatus)
    rw [Db.ListDisputes, hoff] at hpage
    exact hpage
  · intro hpage
    refine .page hstatus ?_
    rw [Db.ListDisputes, hoff]
    exact hpage

/-- **Paging through disputes.** Every reading receives every matching dispute exactly once if
and only if no page ends between two disputes inserted at the same time. -/
theorem list_disputes_complete_iff (db : Db) (query : ListDisputesQuery)
    {status : Option String} (hstatus : disputeStatus query = .ok status) :
    (∀ pages, ReadsDisputes db query pages →
      ∃ k, Ends pages k ∧ (received pages k).Perm (db.disputesBy status)) ↔
    ∀ k, ¬ SplitAt (fun r : DisputeRow => (r.createdAt : Int)) (db.disputesBy status)
      (k * (limitOf query.limit).toNat) := by
  constructor
  · intro hall k hsplit
    obtain ⟨pages, hread, htwice⟩ := exists_reading_of_splitAt (limitOf_pos query.limit) hsplit
    obtain ⟨n, hn, hperm⟩ := hall pages ((readsDisputes_iff hstatus).mpr hread)
    exact htwice n hn (hperm.nodup_iff.mpr (db.nodup_disputesBy status))
  · intro hsplit pages hread
    exact ((readsDisputes_iff hstatus).mp hread).received_perm (limitOf_pos query.limit) hsplit

/-- Two open disputes inserted at the same time. -/
def tiedDisputes : Db :=
  { Db.migrated.upsertEscrow 0 (listedEscrow 1) with
    disputes := ⟨[.raised 1 0 (listedEscrow 1).client "late" 0,
      .raised 1 1 (listedEscrow 1).client "incomplete" 0], by decide⟩
    disputes_fk := by
      intro r hr
      rcases List.mem_cons.mp hr with rfl | hr
      · rfl
      · rw [List.mem_singleton.mp hr]
        rfl }

theorem list_disputes_complete_iff_sample :
    disputeStatus ⟨none, some 2, none⟩ = .ok (some "open") ∧
      ∀ pages, ReadsDisputes tiedDisputes ⟨none, some 2, none⟩ pages →
        ∃ k, Ends pages k ∧ (received pages k).Perm (tiedDisputes.disputesBy (some "open")) := by
  have hstatus : disputeStatus ⟨none, some 2, none⟩ = .ok (some "open") := rfl
  refine ⟨hstatus, (list_disputes_complete_iff tiedDisputes _ hstatus).mpr ?_⟩
  rintro k ⟨c, hlow, hhigh⟩
  have hlen := List.countP_le_length (p := fun r : DisputeRow => decide (c ≤ (r.createdAt : Int)))
    (l := tiedDisputes.disputesBy (some "open"))
  have htwo : (tiedDisputes.disputesBy (some "open")).length = 2 := by decide
  have hlimit : (limitOf (some 2)).toNat = 2 := rfl
  simp only [hlimit] at hlow hhigh
  omega

/-- Two disputes inserted at the same time and read one by one: one of them may come twice, and
the other never. -/
theorem disputes_paging_repeats : ¬ ∀ (db : Db) (query : ListDisputesQuery)
    (status : Option String), disputeStatus query = .ok status →
      ∀ pages, ReadsDisputes db query pages →
        ∃ k, Ends pages k ∧ (received pages k).Perm (db.disputesBy status) := by
  intro hall
  have hstatus : disputeStatus ⟨none, some 1, none⟩ = .ok (some "open") := rfl
  have hsplit : SplitAt (fun r : DisputeRow => (r.createdAt : Int))
      (tiedDisputes.disputesBy (some "open")) (1 * (limitOf (some 1)).toNat) :=
    ⟨0, by decide, by decide⟩
  obtain ⟨pages, hread, htwice⟩ := exists_reading_of_splitAt (limitOf_pos (some 1)) hsplit
  obtain ⟨n, hn, hperm⟩ := hall tiedDisputes ⟨none, some 1, none⟩ (some "open") hstatus pages
    ((readsDisputes_iff hstatus).mpr hread)
  exact htwice n hn (hperm.nodup_iff.mpr (tiedDisputes.nodup_disputesBy _))

end ConcordBackend
