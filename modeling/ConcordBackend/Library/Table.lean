import Mathlib.Data.List.Nodup
import Mathlib.Data.List.Perm.Basic

/-!
# Tables with a primary key

`Table key` is a finite list of rows no two of which agree on `key`: the primary key
constraint is a field, so a table that violates it cannot be built. The operations are the
row-level statements of SQL on such a table: `find?` (`SELECT … WHERE` the key), `update`
(`UPDATE … SET … WHERE`), `upsert` (`INSERT … ON CONFLICT (key) DO UPDATE SET … WHERE`) and
`delete`. Row updates carry the proof that they leave the key columns alone.

Each operation is characterized by what `find?` returns after it, for every key at once.
-/

/-- Rows of `ρ` with pairwise distinct primary keys. The order of the rows is the order of
insertion and carries no meaning of its own. -/
structure Table {ρ κ : Type} (key : ρ → κ) where
  rows : List ρ
  nodup : (rows.map key).Nodup

namespace Table

variable {ρ κ : Type} {key : ρ → κ}

/-- The table without rows. -/
def empty : Table key := ⟨[], List.nodup_nil⟩

/-- Row updates that leave the key columns alone. -/
abbrev KeepsKey (key : ρ → κ) (f : ρ → ρ) : Prop := ∀ r, key (f r) = key r

/-- Replacing rows by rows of the same key keeps the list of keys. -/
private theorem map_key_map_ite (rows : List ρ) (p : ρ → Bool) {f : ρ → ρ}
    (hf : KeepsKey key f) :
    ((rows.map fun r => if p r then f r else r).map key) = rows.map key := by
  rw [List.map_map]
  refine List.map_congr_left fun r _ => ?_
  simp only [Function.comp_apply]
  split
  · exact hf r
  · rfl

/-- `UPDATE … SET f WHERE p`. -/
def update (t : Table key) (p : ρ → Bool) (f : ρ → ρ) (hf : KeepsKey key f) : Table key :=
  ⟨t.rows.map fun r => if p r then f r else r, by rw [map_key_map_ite _ _ hf]; exact t.nodup⟩

/-- `DELETE … WHERE p`. -/
def delete (t : Table key) (p : ρ → Bool) : Table key :=
  ⟨t.rows.filter fun r => !p r, t.nodup.sublist (List.filter_sublist.map key)⟩

variable [DecidableEq κ]

/-- `SELECT * … WHERE key = k`: at most one row, as the keys are distinct. -/
def find? (t : Table key) (k : κ) : Option ρ := t.rows.find? fun r => key r = k

/-- The row found under a key has that key. -/
theorem key_of_find? {t : Table key} {k : κ} {r : ρ} (h : t.find? k = some r) : key r = k := by
  simpa using List.find?_some h

/-- A row found is a row of the table. -/
theorem mem_of_find? {t : Table key} {k : κ} {r : ρ} (h : t.find? k = some r) : r ∈ t.rows :=
  List.mem_of_find?_eq_some h

private theorem find?_eq_some_of_mem {rows : List ρ} (hnd : (rows.map key).Nodup) {r : ρ}
    (hr : r ∈ rows) : (rows.find? fun r' => key r' = key r) = some r := by
  induction rows with
  | nil => cases hr
  | cons a rows ih =>
    obtain ⟨ha, hnd⟩ := List.nodup_cons.mp hnd
    rcases List.mem_cons.mp hr with rfl | hr
    · simp
    · have hne : key a ≠ key r := fun h => ha (h ▸ List.mem_map_of_mem hr)
      simpa [List.find?_cons, hne] using ih hnd hr

/-- A key finds exactly the row that holds it. -/
theorem find?_eq_some_iff {t : Table key} {k : κ} {r : ρ} :
    t.find? k = some r ↔ r ∈ t.rows ∧ key r = k := by
  refine ⟨fun h => ⟨mem_of_find? h, key_of_find? h⟩, ?_⟩
  rintro ⟨hr, rfl⟩
  exact find?_eq_some_of_mem t.nodup hr

/-- A row of the table is the one found under its key. -/
theorem mem_rows_iff {t : Table key} {r : ρ} : r ∈ t.rows ↔ t.find? (key r) = some r := by
  simp [find?_eq_some_iff]

/-- A key that finds nothing is no row's key. -/
theorem find?_eq_none {t : Table key} {k : κ} : t.find? k = none ↔ k ∉ t.rows.map key := by
  simp [find?]

/-- `INSERT … VALUES r ON CONFLICT (key) DO UPDATE SET f WHERE p`: append `r` where its key is
new, otherwise update the row that holds the key, if `p` admits it. -/
def upsert (t : Table key) (r : ρ) (p : ρ → Bool) (f : ρ → ρ) (hf : KeepsKey key f) :
    Table key :=
  if h : t.find? (key r) = none then
    ⟨t.rows ++ [r], by
      rw [List.map_append, List.nodup_append]
      refine ⟨t.nodup, by simp, fun a ha b hb => ?_⟩
      obtain rfl : b = key r := by simpa using hb
      exact fun hab => find?_eq_none.mp h (hab ▸ ha)⟩
  else t.update (fun r' => key r' = key r && p r') f hf

/-! ### What each statement makes `find?` return -/

private theorem find?_map_ite (rows : List ρ) (p : ρ → Bool) {f : ρ → ρ} (hf : KeepsKey key f)
    (k : κ) : ((rows.map fun r => if p r then f r else r).find? fun r => key r = k) =
      (rows.find? fun r => key r = k).map fun r => if p r then f r else r := by
  rw [List.find?_map]
  congr 2
  funext r
  simp only [Function.comp_apply]
  split
  · rw [hf r]
  · rfl

/-- An update changes the rows it names, each under its own key. -/
@[simp] theorem find?_update (t : Table key) (p : ρ → Bool) (f : ρ → ρ) (hf : KeepsKey key f)
    (k : κ) : (t.update p f hf).find? k = (t.find? k).map fun r => if p r then f r else r :=
  find?_map_ite t.rows p hf k

/-- An upsert writes the row of its own key and no other. -/
@[simp] theorem find?_upsert (t : Table key) (r : ρ) (p : ρ → Bool) (f : ρ → ρ)
    (hf : KeepsKey key f) (k : κ) :
    (t.upsert r p f hf).find? k =
      if key r = k then some ((t.find? k).elim r fun r' => if p r' then f r' else r')
      else t.find? k := by
  unfold upsert
  split_ifs with hnone hk hk
  · subst hk
    have hrows : t.rows.find? (fun r' => key r' = key r) = none := hnone
    simp [find?, List.find?_append, hrows]
  · simp [find?, List.find?_append, hk]
  · subst hk
    obtain ⟨r', hr'⟩ := Option.ne_none_iff_exists'.mp hnone
    simp [hr', key_of_find? hr']
  · rw [find?_update]
    cases hr' : t.find? k with
    | none => rfl
    | some r' => simp [key_of_find? hr', Ne.symm hk]

/-- An upsert under a new key appends its row. -/
theorem rows_upsert_of_none {t : Table key} {r : ρ} (h : t.find? (key r) = none) (p : ρ → Bool)
    (f : ρ → ρ) (hf : KeepsKey key f) : (t.upsert r p f hf).rows = t.rows ++ [r] := by
  rw [upsert, dif_pos h]

omit [DecidableEq κ] in
/-- An update leaves alone what its rows are not part of. -/
theorem filter_update (t : Table key) {p q : ρ → Bool} {f : ρ → ρ} (hf : KeepsKey key f)
    (h : ∀ r, p r = true → q r = false ∧ q (f r) = false) :
    (t.update p f hf).rows.filter q = t.rows.filter q := by
  have hrow : (q ∘ fun r => if p r then f r else r) = q := by
    funext r
    rw [Function.comp_apply]
    split
    · rename_i hp
      rw [(h r hp).1, (h r hp).2]
    · rfl
  rw [update, List.filter_map, hrow]
  refine (List.map_congr_left fun r hr => ?_).trans (List.map_id _)
  have hq := (List.mem_filter.mp hr).2
  refine if_neg fun hp => ?_
  rw [(h r hp).1] at hq
  cases hq

/-- An upsert leaves alone what no row under its key is part of. -/
theorem filter_upsert (t : Table key) {r : ρ} {p q : ρ → Bool} {f : ρ → ρ} (hf : KeepsKey key f)
    (h : ∀ r', key r' = key r → q r' = false) :
    (t.upsert r p f hf).rows.filter q = t.rows.filter q := by
  unfold upsert
  split
  · rw [List.filter_append, List.filter_cons_of_neg (by simp [h r rfl]), List.filter_nil,
      List.append_nil]
  · refine t.filter_update hf fun r' hr' => ?_
    have hkey : key r' = key r := of_decide_eq_true (Bool.and_eq_true_iff.mp hr').1
    exact ⟨h r' hkey, h (f r') ((hf r').trans hkey)⟩

omit [DecidableEq κ] in
/-- A delete that names no row changes nothing. -/
theorem delete_eq_self {t : Table key} {p : ρ → Bool} (h : ∀ r ∈ t.rows, p r = false) :
    t.delete p = t := by
  obtain ⟨rows, hrows⟩ := t
  have hfilter : rows.filter (fun r => !p r) = rows :=
    List.filter_eq_self.mpr fun r hr => by rw [h r hr]; rfl
  simp only [delete, hfilter]

end Table
