import ConcordBackend.Library.Replay
import Mathlib.Data.List.Induction
import Mathlib.Data.List.Nodup
import Mathlib.Order.Lattice

/-!
# Registers that keep the latest offer

A register holds a stamp and a value, and takes every offer whose stamp is not older than the
one it holds. `Latest os r x` says what it should hold after the offers `os` on a register
that held `r`, without reference to any order of the offers: `x` is an offer with the latest
stamp if that is not older than the stamp of `r`, and `r` otherwise. A run of offers ends in
such an `x` (`latest_run`), and where the stamps of the offers are distinct there is only one
(`Latest.unique`), so the order of the offers does not matter.
-/

namespace Register

variable {τ α : Type} [LinearOrder τ] {o r x y : τ × α} {os os' : List (τ × α)}

/-- A register takes an offer unless its own stamp is later. -/
def offer (o r : τ × α) : τ × α := if r.1 ≤ o.1 then o else r

/-- A register only moves on. -/
theorem le_offer (o r : τ × α) : r.1 ≤ (offer o r).1 := by
  unfold offer
  split
  · assumption
  · exact le_rfl

/-- What a register that held `r` holds after the offers `os`, in whatever order they came. -/
inductive Latest (os : List (τ × α)) (r : τ × α) : τ × α → Prop where
  /-- every offer is older than the register -/
  | kept (h : ∀ o ∈ os, o.1 < r.1) : Latest os r r
  /-- no offer is later than `x`, and `x` is not older than the register -/
  | taken {x : τ × α} (hx : x ∈ os) (hr : r.1 ≤ x.1) (h : ∀ o ∈ os, o.1 ≤ x.1) : Latest os r x

/-- The order of the offers does not matter to what is latest. -/
theorem Latest.congr (h : Latest os r x) (hos : ∀ o, o ∈ os ↔ o ∈ os') : Latest os' r x := by
  cases h with
  | kept h => exact .kept fun o ho => h o ((hos o).mpr ho)
  | taken hx hr h => exact .taken ((hos _).mp hx) hr fun o ho => h o ((hos o).mpr ho)

/-- One more offer. -/
theorem Latest.snoc (h : Latest os r x) (o : τ × α) : Latest (os ++ [o]) r (offer o x) := by
  have hmem : ∀ o' ∈ os ++ [o], o' ∈ os ∨ o' = o := by simp
  have hle : r.1 ≤ x.1 := by
    cases h with
    | kept => exact le_rfl
    | taken _ hr _ => exact hr
  unfold offer
  split
  · rename_i hxo
    refine .taken (by simp) (hle.trans hxo) fun o' ho' => ?_
    rcases hmem o' ho' with ho' | rfl
    · -- an offer before is at most as late as what the register held, or older than `r`
      cases h with
      | kept h => exact (h o' ho').le.trans hxo
      | taken _ _ h => exact (h o' ho').trans hxo
    · exact le_rfl
  · rename_i hxo
    have hlt : o.1 < x.1 := not_le.mp hxo
    cases h with
    | kept h =>
      refine .kept fun o' ho' => ?_
      rcases hmem o' ho' with ho' | rfl
      · exact h o' ho'
      · exact hlt
    | taken hx hr h =>
      refine .taken (List.mem_append_left _ hx) hr fun o' ho' => ?_
      rcases hmem o' ho' with ho' | rfl
      · exact h o' ho'
      · exact hlt.le

/-- **A run of offers ends in the latest.** -/
theorem latest_run (os : List (τ × α)) (r : τ × α) : Latest os r (Replay.run offer os r) := by
  induction os using List.reverseRecOn with
  | nil => exact .kept fun _ h => by cases h
  | append_singleton os o ih =>
    rw [Replay.run_append]
    exact ih.snoc o

/-- **Distinct stamps have one latest.** -/
theorem Latest.unique (hdist : (os.map Prod.fst).Nodup) (hx : Latest os r x)
    (hy : Latest os r y) : x = y := by
  cases hx with
  | kept hx =>
    cases hy with
    | kept => rfl
    | taken hy hr _ => exact absurd (hx _ hy) (not_lt.mpr hr)
  | taken hx hr hmax =>
    cases hy with
    | kept hy => exact absurd (hy _ hx) (not_lt.mpr hr)
    | taken hy _ hmax' =>
      exact List.inj_on_of_nodup_map hdist hx hy (le_antisymm (hmax' _ hx) (hmax _ hy))

end Register
