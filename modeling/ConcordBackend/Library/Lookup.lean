import Mathlib.Data.List.Nodup
import Mathlib.Data.List.Perm.Basic

/-!
# First-match lookup in a list of entries

Where a key occurs once, looking up its first entry does not depend on the order of the
entries, and entries under other keys can be added without being seen.
-/

namespace Lookup

variable {κ ν : Type} {k : κ} {p : κ × ν → Bool} {l l' extra : List (κ × ν)}

/-- All entries of `l` under `k` are one entry. -/
def OnceIn (k : κ) (l : List (κ × ν)) : Prop := ∀ x ∈ l, ∀ y ∈ l, x.1 = k → y.1 = k → x = y

/-- Where keys are distinct, each occurs once. -/
theorem onceIn_of_nodup (h : (l.map Prod.fst).Nodup) (k : κ) : OnceIn k l :=
  fun _ hx _ hy hxk hyk => List.inj_on_of_nodup_map h hx hy (hxk.trans hyk.symm)

/-- The entry found for a key that occurs once is the entry under it. -/
theorem find?_eq_some_iff (hp : ∀ x, p x = true ↔ x.1 = k) (h : OnceIn k l) {x : κ × ν} :
    l.find? p = some x ↔ x ∈ l ∧ x.1 = k := by
  constructor
  · intro hx
    exact ⟨List.mem_of_find?_eq_some hx, (hp x).mp (List.find?_some hx)⟩
  · rintro ⟨hmem, hk⟩
    rcases hy : l.find? p with _ | y
    · exact absurd ((hp x).mpr hk) (List.find?_eq_none.mp hy x hmem)
    · have hyk := (hp y).mp (List.find?_some hy)
      rw [h y (List.mem_of_find?_eq_some hy) x hmem hyk hk]

/-- **Lookup sees neither order nor other keys.** -/
theorem find?_eq_of_perm (hp : ∀ x, p x = true ↔ x.1 = k) (h : OnceIn k l)
    (hperm : l'.Perm (l ++ extra)) (hextra : ∀ x ∈ extra, x.1 ≠ k) : l'.find? p = l.find? p := by
  have hmem : ∀ x, x.1 = k → (x ∈ l' ↔ x ∈ l) := by
    intro x hk
    rw [hperm.mem_iff, List.mem_append]
    exact or_iff_left fun hx => hextra x hx hk
  have h' : OnceIn k l' := fun x hx y hy hxk hyk =>
    h x ((hmem x hxk).mp hx) y ((hmem y hyk).mp hy) hxk hyk
  refine Option.ext fun x => ?_
  rw [find?_eq_some_iff hp h', find?_eq_some_iff hp h]
  exact and_congr_left (hmem x)

/-- The value of the first entry under a key. -/
def First (k : κ) (l : List (κ × ν)) (v : ν) : Prop :=
  ∃ before after, l = before ++ (k, v) :: after ∧ k ∉ before.map Prod.fst

theorem First.mem {v : ν} (h : First k l v) : (k, v) ∈ l := by
  obtain ⟨before, after, rfl, -⟩ := h
  exact List.mem_append_right _ List.mem_cons_self

/-- What a lookup finds is the first entry under the key. -/
theorem find?_eq_some_iff_first (hp : ∀ x, p x = true ↔ x.1 = k) {v : ν} :
    l.find? p = some (k, v) ↔ First k l v := by
  have hnone : ∀ before : List (κ × ν),
      (∀ x ∈ before, (!p x) = true) ↔ k ∉ before.map Prod.fst := by
    intro before
    simp only [Bool.not_eq_true', List.mem_map, not_exists, not_and]
    refine forall₂_congr fun x _ => ?_
    rw [← hp x, Bool.not_eq_true]
  rw [List.find?_eq_some_iff_append]
  constructor
  · rintro ⟨-, before, after, hl, hbefore⟩
    exact ⟨before, after, hl, (hnone before).mp hbefore⟩
  · rintro ⟨before, after, hl, hbefore⟩
    exact ⟨(hp _).mpr rfl, before, after, hl, (hnone before).mpr hbefore⟩

/-- A lookup finds nothing where no entry is under the key. -/
theorem find?_eq_none_iff (hp : ∀ x, p x = true ↔ x.1 = k) :
    l.find? p = none ↔ k ∉ l.map Prod.fst := by
  simp only [List.find?_eq_none, List.mem_map, not_exists, not_and]
  exact forall₂_congr fun x _ => not_congr (hp x)

/-- Where keys are distinct, every entry is the first under its key. -/
theorem first_of_mem (h : (l.map Prod.fst).Nodup) {v : ν} (hmem : (k, v) ∈ l) : First k l v := by
  obtain ⟨before, after, rfl⟩ := List.append_of_mem hmem
  refine ⟨before, after, rfl, ?_⟩
  rw [List.map_append, List.map_cons] at h
  exact fun hk => (List.disjoint_of_nodup_append h) hk List.mem_cons_self

end Lookup
