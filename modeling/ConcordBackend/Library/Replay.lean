import Mathlib.Data.List.Basic

/-!
# Replaying logs of writes

A log of writes is applied from left to right by `run`. A process that crashes while it works
through a log starts over from the beginning of the log, on a store its earlier attempts have
already written. `run_replay` says when that is harmless: if every write is idempotent and
every later write `o` of the log absorbs the earlier ones, in the sense that a first `o`
before an earlier write is not seen any more once `o` runs again (`Absorbs`), then whatever
writes of the log were run before, in whatever order and however often, a full pass over the
log ends in the same state as if they had not.
-/

namespace Replay

variable {ι σ : Type} (step : ι → σ → σ)

/-- Apply a log of writes from left to right. -/
def run (log : List ι) (s : σ) : σ := log.foldl (fun s i => step i s) s

@[simp] theorem run_nil (s : σ) : run step [] s = s := rfl

@[simp] theorem run_cons (i : ι) (log : List ι) (s : σ) :
    run step (i :: log) s = run step log (step i s) := rfl

@[simp] theorem run_append (log log' : List ι) (s : σ) :
    run step (log ++ log') s = run step log' (run step log s) :=
  List.foldl_append

/-- What each write preserves, a log of writes preserves. -/
theorem run_invariant {I : σ → Prop} {log : List ι} (h : ∀ i ∈ log, ∀ s, I s → I (step i s))
    {s : σ} (hs : I s) : I (run step log s) := by
  induction log generalizing s with
  | nil => exact hs
  | cons i log ih =>
    exact ih (fun j hj => h j (List.mem_cons_of_mem i hj)) (h i List.mem_cons_self s hs)

/-- **Frame.** If the writes outside `p` cannot be seen through `R`, and the writes of `p` cannot
tell states apart that look the same through it, then only the writes of `p` matter to what is
seen of a log. -/
theorem run_filter {R : σ → σ → Prop} {p : ι → Bool}
    (hp : ∀ i, p i = true → ∀ s s', R s s' → R (step i s) (step i s'))
    (hq : ∀ i, p i = false → ∀ s s', R s s' → R (step i s) s') (log : List ι) {s s' : σ}
    (h : R s s') : R (run step log s) (run step (log.filter p) s') := by
  induction log generalizing s s' with
  | nil => exact h
  | cons i log ih =>
    rcases hi : p i with _ | _
    · rw [List.filter_cons_of_neg (by simp [hi])]
      exact ih (hq i hi s s' h)
    · rw [List.filter_cons_of_pos hi]
      exact ih (hp i hi s s' h)

/-- `o` absorbs `b`: a run of `o` before `b` makes no difference once `o` runs after it. -/
def Absorbs (b o : ι) : Prop := ∀ s, step o (step b (step o s)) = step o (step b s)

/-- A write run twice is a write run once. -/
def Idempotent (o : ι) : Prop := ∀ s, step o (step o s) = step o s

variable {step}

/-- An idempotent write that absorbs each write of a log absorbs the log. -/
theorem run_absorb {o : ι} (ho : Idempotent step o) {log : List ι}
    (h : ∀ b ∈ log, Absorbs step b o) (s : σ) :
    step o (run step log (step o s)) = step o (run step log s) := by
  -- states that `o` cannot tell apart stay so under the writes it absorbs
  have key : ∀ (log : List ι), (∀ b ∈ log, Absorbs step b o) → ∀ s s' : σ,
      step o s = step o s' → step o (run step log s) = step o (run step log s') := by
    intro log
    induction log with
    | nil => exact fun _ _ _ hs => hs
    | cons b log ih =>
      intro h s s' hs
      have hb := h b List.mem_cons_self
      refine ih (fun b' hb' => h b' (List.mem_cons_of_mem b hb')) _ _ ?_
      rw [← hb s, hs, hb s']
  exact key log h _ _ (ho s)

/-- **Replay.** Writes of a log that ran before a full pass over it leave no trace. -/
theorem run_replay {log : List ι} (hidem : ∀ o ∈ log, Idempotent step o)
    (habs : log.Pairwise (Absorbs step)) {early : List ι} (hearly : ∀ o ∈ early, o ∈ log)
    (s : σ) : run step log (run step early s) = run step log s := by
  induction early generalizing s with
  | nil => rfl
  | cons o early ih =>
    have ho := hearly o List.mem_cons_self
    rw [run_cons, ih fun o' ho' => hearly o' (List.mem_cons_of_mem o ho')]
    obtain ⟨before, after, rfl⟩ := List.append_of_mem ho
    have hb : ∀ b ∈ before, Absorbs step b o := fun b hb =>
      (List.pairwise_append.mp habs).2.2 b hb o List.mem_cons_self
    simp only [run_append, run_cons]
    rw [run_absorb (hidem o ho) hb]

end Replay
