import ConcordBackend.Lists

/-!
# `GET /escrows`

The list of escrows is ordered by their ids, which are distinct, so a client that reads it
page by page receives every matching escrow of a table that does not change, in the one
order of the ids. Escrows the indexer creates meanwhile with greater ids come before the
client's offset: it may see rows again, and misses none (`list_escrows_complete`).
-/

namespace ConcordBackend

/-- `ListEscrowsQuery`. -/
structure ListEscrowsQuery where
  client : Option String
  provider : Option String
  status : Option String
  limit : Option Int
  offset : Option Int

/-- The status a request filters by. -/
def escrowStatus (query : ListEscrowsQuery) : Except AppError (Option String) :=
  match query.status with
  | none => .ok none
  | some s =>
    match EscrowStatus.fromStr s with
    | some status => .ok (some status.asStr)
    | none => .error (.badRequest ("invalid status: " ++ s))

/-- The filter of a request. -/
def escrowFilter (query : ListEscrowsQuery) : Except AppError EscrowFilter := do
  let status ← escrowStatus query
  return {
    client := query.client, provider := query.provider, status
    limit := limitOf query.limit, offset := offsetOf query.offset }

/-- `list_escrows`: what a request may be answered. -/
inductive ListEscrows (db : Db) (query : ListEscrowsQuery) :
    Except AppError (List EscrowRow) → Prop where
  | invalid {e : AppError} (h : escrowFilter query = .error e) : ListEscrows db query (.error e)
  | failed (e : SqlError) : ListEscrows db query (.error (.database e))
  | page {filter : EscrowFilter} {page : List EscrowRow} (h : escrowFilter query = .ok filter)
      (hpage : db.ListEscrows filter page) : ListEscrows db query (.ok page)

/-- The rows a request asks for. -/
structure ListEscrowsQuery.Matches (query : ListEscrowsQuery) (r : EscrowRow) : Prop where
  client : ∀ client ∈ query.client, r.client = client
  provider : ∀ provider ∈ query.provider, r.provider = provider
  status : ∀ status ∈ query.status, r.status = status

/-- A status that parses is printed back. -/
theorem EscrowStatus.asStr_of_fromStr {s : String} {status : EscrowStatus}
    (h : fromStr s = some status) : status.asStr = s := by
  unfold fromStr at h
  split at h
  all_goals first | cases h; rfl | cases h

theorem escrowStatus_eq_ok {query : ListEscrowsQuery} {status : Option String}
    (h : escrowStatus query = .ok status) : status = query.status := by
  unfold escrowStatus at h
  split at h
  next hnone => rw [← Except.ok.inj h, hnone]
  next s hsome =>
    split at h
    next status hparse =>
      rw [← Except.ok.inj h, hsome, EscrowStatus.asStr_of_fromStr hparse]
    next => cases h

/-- The filter of a request selects the rows it asks for. -/
theorem selects_iff {query : ListEscrowsQuery} {filter : EscrowFilter}
    (h : escrowFilter query = .ok filter) (r : EscrowRow) :
    filter.selects r = true ↔ query.Matches r := by
  obtain ⟨status, hstatus, h⟩ := Except.bind_eq_ok.mp h
  obtain rfl := Except.ok.inj h
  obtain rfl := escrowStatus_eq_ok hstatus
  simp only [EscrowFilter.selects, Bool.and_eq_true, nullOr_eq_true]
  constructor
  · rintro ⟨⟨hclient, hprovider⟩, hstatus⟩
    exact ⟨hclient, hprovider, hstatus⟩
  · intro hmatch
    exact ⟨⟨hmatch.client, hmatch.provider⟩, hmatch.status⟩

/-- Between the two tables escrows were inserted, all with ids larger than those before. -/
def Db.InsertsAbove (db db' : Db) : Prop :=
  ∃ new, db'.escrows.rows.Perm (new ++ db.escrows.rows) ∧
    ∀ r' ∈ new, ∀ r ∈ db.escrows.rows, r.id < r'.id

/-- The indexer inserts a row so where the id of the escrow is larger than all others. -/
theorem Db.insertsAbove_upsertEscrow (db : Db) (now : DateTime) (a : UpsertEscrow)
    (h : ∀ r ∈ db.escrows.rows, r.id < a.id) : db.InsertsAbove (db.upsertEscrow now a) := by
  have hnone : db.escrows.find? (a.row now).id = none := by
    refine Table.find?_eq_none.mpr fun hmem => ?_
    obtain ⟨r, hr, hid⟩ := List.mem_map.mp hmem
    exact Int64.lt_irrefl (hid ▸ h r hr)
  refine ⟨[a.row now], ?_, ?_⟩
  · have hrows : (db.upsertEscrow now a).escrows.rows = db.escrows.rows ++ [a.row now] := by
      simp only [Db.upsertEscrow, Table.upsert, hnone]
      rfl
    rw [hrows]
    exact List.perm_append_comm
  · intro r' hr' r hr
    rw [List.mem_singleton.mp hr']
    exact h r hr

/-- A client reads the escrows: it asks for the next page at the offset of what it has
received, until a page is empty; `dbs k` is the database when it asks for page `k`. -/
def ReadsEscrows (dbs : ℕ → Db) (query : ListEscrowsQuery) (pages : ℕ → List EscrowRow) : Prop :=
  ∀ k, (∀ i < k, pages i ≠ []) →
    ListEscrows (dbs k) { query with offset := some (received pages k).length } (.ok (pages k))

/-- The rows of a table that a filter selects have distinct ids. -/
private theorem eq_of_id {db : Db} {p : EscrowRow → Bool} :
    ∀ r ∈ db.escrows.rows.filter p, ∀ r' ∈ db.escrows.rows.filter p,
      r.id.toInt = r'.id.toInt → r = r' := by
  intro r hr r' hr' hid
  have hid : r.id = r'.id := Int64.toInt_inj.mp hid
  have hfind := Table.mem_rows_iff.mp (List.mem_of_mem_filter hr)
  have hfind' := Table.mem_rows_iff.mp (List.mem_of_mem_filter hr')
  rw [hid] at hfind
  exact Option.some.inj (hfind.symm.trans hfind')

/-- A reading goes by one filter, whatever the offsets. -/
private theorem ReadsEscrows.reading {dbs : ℕ → Db} {query : ListEscrowsQuery}
    {pages : ℕ → List EscrowRow} (h : ReadsEscrows dbs query pages) :
    ∃ filter, (∀ r, EscrowFilter.selects filter r = true ↔ query.Matches r) ∧
      Reading (fun r : EscrowRow => r.id.toInt) (limitOf query.limit).toNat
        (fun k => (dbs k).escrows.rows.filter filter.selects) pages := by
  have hstatus : ∃ status, escrowStatus query = .ok status := by
    cases h 0 fun i hi => absurd hi (Nat.not_lt_zero i) with
    | page hfilter _ =>
      obtain ⟨status, hstatus, -⟩ := Except.bind_eq_ok.mp hfilter
      exact ⟨status, hstatus⟩
  obtain ⟨status, hstatus⟩ := hstatus
  have hfilter : ∀ offset, escrowFilter { query with offset } = .ok {
      client := query.client, provider := query.provider, status
      limit := limitOf query.limit, offset := offsetOf offset } := fun offset =>
    Except.bind_eq_ok.mpr ⟨status, hstatus, rfl⟩
  refine ⟨_, fun r => selects_iff (hfilter query.offset) r, fun k hk => ?_⟩
  cases h k hk with
  | page hpage hrows =>
    obtain rfl := Except.ok.inj (hpage.symm.trans (hfilter _))
    rw [Db.ListEscrows, offsetOf_some] at hrows
    exact hrows

/-- **Paging through escrows.** A reading of a table that does not change ends, and it has
received every matching escrow in decreasing order of the ids. If escrows with larger ids are
inserted between the pages, a reading that ends has received every escrow that matched when
it began. -/
theorem list_escrows_complete (dbs : ℕ → Db) (query : ListEscrowsQuery)
    (pages : ℕ → List EscrowRow) (h : ReadsEscrows dbs query pages) :
    ((∀ k, (dbs k).escrows = (dbs 0).escrows) → ∃ k, Ends pages k ∧
      (∀ r, r ∈ received pages k ↔ r ∈ (dbs 0).escrows.rows ∧ query.Matches r) ∧
        (received pages k).Pairwise fun r r' => r'.id < r.id) ∧
    ((∀ k, (dbs k).InsertsAbove (dbs (k + 1))) → ∀ k, Ends pages k →
      ∀ r ∈ (dbs 0).escrows.rows, query.Matches r → r ∈ received pages k) := by
  obtain ⟨filter, hselects, hread⟩ := h.reading
  constructor
  · -- ids are unique, so the table has one ordering and all pages are cut from it
    intro hsame
    obtain ⟨l, hl⟩ := OrderedBy.exists_of (fun r : EscrowRow => r.id.toInt)
      ((dbs 0).escrows.rows.filter filter.selects)
    obtain ⟨k, hk, hrec⟩ := hread.received_eq (limitOf_pos query.limit)
      (fun k => by rw [hsame k]) eq_of_id hl
    refine ⟨k, hk, fun r => ?_, ?_⟩
    · rw [hrec, hl.perm.mem_iff, List.mem_filter, hselects]
    · have hnodup : l.Nodup := hl.perm.nodup_iff.mpr
        ((List.Nodup.of_map _ (dbs 0).escrows.nodup).filter _)
      rw [hrec]
      refine (hl.desc.and hnodup).imp_of_mem fun {r r'} hr hr' hle => ?_
      refine Int64.lt_iff_toInt_lt.mpr (lt_of_le_of_ne hle.1 fun hid => hle.2 ?_)
      exact eq_of_id r (hl.perm.mem_iff.mp hr) r' (hl.perm.mem_iff.mp hr') hid.symm
  · -- a row that is inserted comes first in the ordering, and moves the others back
    intro hgrow k hk r hr hmatch
    refine hread.covers (limitOf_pos query.limit) (fun k => eq_of_id) (fun n => ?_) hk r
      (List.mem_filter.mpr ⟨hr, (hselects r).mpr hmatch⟩)
    obtain ⟨new, hperm, hlt⟩ := hgrow n
    refine ⟨new.filter filter.selects, ?_, fun r' hr' r hr => ?_⟩
    · rw [← List.filter_append]
      exact hperm.filter _
    · exact Int64.lt_iff_toInt_lt.mp
        (hlt r' (List.mem_of_mem_filter hr') r (List.mem_of_mem_filter hr))

/-- A database that gets a second escrow after the first page. -/
def growingDb : ℕ → Db
  | 0 => Db.migrated.upsertEscrow 0 (listedEscrow 1)
  | _ + 1 => (Db.migrated.upsertEscrow 0 (listedEscrow 1)).upsertEscrow 0 (listedEscrow 2)

/-- The pages of one row a client gets meanwhile: the first escrow twice. -/
def growingPages (k : ℕ) : List EscrowRow := if k < 2 then [(listedEscrow 1).row 0] else []

theorem readsEscrows_growing : ReadsEscrows growingDb ⟨none, none, none, some 1, none⟩ growingPages := by
  have htwo : OrderedBy (fun r : EscrowRow => r.id.toInt) (growingDb 1).escrows.rows
      [(listedEscrow 2).row 0, (listedEscrow 1).row 0] :=
    ⟨List.Perm.swap _ _ _, by decide⟩
  rintro (_ | _ | _ | k) hk
  · exact .page rfl ⟨[(listedEscrow 1).row 0], ⟨List.Perm.refl _, by decide⟩, rfl⟩
  · exact .page rfl ⟨_, htwo, rfl⟩
  · exact .page rfl ⟨_, htwo, rfl⟩
  · exact absurd rfl (hk 2 (by omega))

theorem list_escrows_complete_sample :
    growingPages 2 = [] ∧ (listedEscrow 1).row 0 ∈ received growingPages 2 := by
  have hgrow : ∀ k, (growingDb k).InsertsAbove (growingDb (k + 1)) := by
    rintro (_ | k)
    · exact Db.insertsAbove_upsertEscrow _ 0 (listedEscrow 2) (by decide)
    · exact ⟨[], List.Perm.refl _, fun _ h => (by cases h)⟩
  have hends : Ends growingPages 2 := by
    refine ⟨?_, rfl⟩
    rintro (_ | _ | i) hi
    · exact List.cons_ne_nil _ _
    · exact List.cons_ne_nil _ _
    · omega
  refine ⟨rfl, (list_escrows_complete growingDb _ growingPages readsEscrows_growing).2 hgrow 2
    hends _ List.mem_cons_self ?_⟩
  exact ⟨fun _ h => (by cases h), fun _ h => (by cases h), fun _ h => (by cases h)⟩

end ConcordBackend
