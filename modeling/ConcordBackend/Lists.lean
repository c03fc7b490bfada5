import ConcordBackend.Db
import ConcordBackend.Library.Paging

/-!
# The list queries

`list_escrows` and `list_disputes` of `db.rs`, and the two lines their handlers share. A list
query may return any page that its `ORDER BY` allows, so both are relations between a
database and a page. Limits and offsets are `i64` in the source; they are only compared.
-/

namespace ConcordBackend

/-- `Ord::clamp`. -/
def clamp (x low high : Int) : Int := if x < low then low else if x > high then high else x

/-- The limit of a list request: `limit.unwrap_or(50).clamp(1, 200)`. -/
def limitOf (limit : Option Int) : Int := clamp (limit.getD 50) 1 200

/-- The offset of a list request: `offset.unwrap_or(0).max(0)`. -/
def offsetOf (offset : Option Int) : Int := max (offset.getD 0) 0

theorem limitOf_pos (limit : Option Int) : 0 < (limitOf limit).toNat := by
  unfold limitOf clamp
  split
  · decide
  · split
    · decide
    · omega

@[simp] theorem offsetOf_some (n : ℕ) : (offsetOf (some n)).toNat = n := by
  simp [offsetOf]

/-- `$1::text IS NULL OR column = $1`. -/
def nullOr (filter : Option String) (column : String) : Bool :=
  match filter with
  | none => true
  | some value => column = value

theorem nullOr_eq_true {filter : Option String} {column : String} :
    nullOr filter column = true ↔ ∀ value ∈ filter, column = value := by
  cases filter <;> simp [nullOr]

/-! ### Milestones of an escrow -/

section Milestones

variable {db : Db} {e : Int64} {r : MilestoneRow}

theorem Db.mem_listMilestones :
    r ∈ db.listMilestones e ↔ r ∈ db.milestones.rows ∧ r.escrowId = e := by
  rw [listMilestones, (List.perm_insertionSort ..).mem_iff, List.mem_filter, decide_eq_true_eq]

/-- `list_milestones` lists the milestones of an escrow in increasing order of their ids. -/
theorem Db.pairwise_listMilestones (db : Db) (e : Int64) :
    (db.listMilestones e).Pairwise fun r r' => r.milestoneId < r'.milestoneId := by
  let le : MilestoneRow → MilestoneRow → Prop := fun r r' => r.milestoneId ≤ r'.milestoneId
  have htotal : Std.Total le := ⟨fun r r' => Int32.le_total r.milestoneId r'.milestoneId⟩
  have htrans : IsTrans MilestoneRow le := ⟨fun _ _ _ => Int32.le_trans⟩
  have hsorted : (db.listMilestones e).Pairwise le := List.pairwise_insertionSort le _
  -- two rows of the escrow with one id would have one key
  have hnodup : (db.listMilestones e).Pairwise fun r r' => r.key ≠ r'.key := by
    refine ((List.perm_insertionSort le _).pairwise_iff fun h => Ne.symm h).mpr ?_
    exact (List.pairwise_map.mp db.milestones.nodup).filter _
  refine (hsorted.and hnodup).imp_of_mem fun {r r'} hr hr' h => ?_
  obtain ⟨-, rfl⟩ := mem_listMilestones.mp hr
  obtain ⟨-, he⟩ := mem_listMilestones.mp hr'
  refine Int32.lt_of_le_of_ne h.1 fun heq => h.2 ?_
  rw [MilestoneRow.key, MilestoneRow.key, he, heq]

end Milestones

/-- `EscrowFilter`. -/
structure EscrowFilter where
  client : Option String
  provider : Option String
  status : Option String
  limit : Int
  offset : Int

/-- The `WHERE` clause of `list_escrows`. -/
def EscrowFilter.selects (filter : EscrowFilter) (r : EscrowRow) : Bool :=
  nullOr filter.client r.client && nullOr filter.provider r.provider &&
    nullOr filter.status r.status

/-- `list_escrows`: `ORDER BY id DESC LIMIT … OFFSET …`. -/
def Db.ListEscrows (db : Db) (filter : EscrowFilter) (page : List EscrowRow) : Prop :=
  Page (fun r : EscrowRow => r.id.toInt) (db.escrows.rows.filter filter.selects)
    filter.limit.toNat filter.offset.toNat page

/-- `list_disputes`: `ORDER BY created_at DESC LIMIT … OFFSET …`. -/
def Db.ListDisputes (db : Db) (status : Option String) (limit offset : Int)
    (page : List DisputeRow) : Prop :=
  Page (fun r : DisputeRow => (r.createdAt : Int))
    (db.disputes.rows.filter fun r => nullOr status r.status) limit.toNat offset.toNat page

/-- The escrow rows of the samples. -/
def listedEscrow (id : Int64) : UpsertEscrow where
  id := id
  contractId := "CAAQEAYEAUDAOCAJBIFQYDIOB4IBCEQTCQKRMFYYDENBWHA5DYPSABOV"
  client := "GDVEU3DD4KOFECV66VIHWEZOYX4ZKR3WV27L464SIIPOU2IUI3JCZA57"
  provider := "GDVEU3DD4KOFECV66VIHWEZOYX4ZKR3WV27L464SIIPOU2IUI3JCZA57"
  arbitrator := "GDVEU3DD4KOFECV66VIHWEZOYX4ZKR3WV27L464SIIPOU2IUI3JCZA57"
  token := "CAAQEAYEAUDAOCAJBIFQYDIOB4IBCEQTCQKRMFYYDENBWHA5DYPSABOV"
  status := "created"
  ledger := 1
  reviewPeriod := 0
  chainCreatedAt := 0
  title := none
  metadataUri := none
  metadataHash := none

end ConcordBackend
