import ConcordBackend.Library.Program
import Mathlib.Data.List.Flatten

/-!
# Loops that do not end

`Prog.loop p n` is the first `n` rounds of a loop whose rounds may fail without ending it. A
process that runs the loop, is killed anywhere and started again has run `p` over and over
(`Restarts.of_loop`), so what holds of all `Restarts` of the body holds of the process.

`Restarts.progress` is the rule for how far such a process gets: where every run of the body
advances a counter by its stride for each progress it reports, until a goal is reached, so do
all the runs together.
-/

variable {S : Signature} {ε ε' α W : Type} {H : Handler S W}

/-- The first rounds of `loop { p }`. -/
def Prog.loop (p : Prog S ε α) : ℕ → Prog S ε' Unit
  | 0 => .done ()
  | n + 1 => (p.attempt : Prog S ε' (Except ε α)).bind fun _ => p.loop n

/-- Restarts go on where others ended. -/
theorem Restarts.append {p : Prog S ε α} {w w₁ w₂ : W} {trs trs' : List S.Trace}
    (h : Restarts H p w trs w₁) (h' : Restarts H p w₁ trs' w₂) :
    Restarts H p w (trs ++ trs') w₂ := by
  induction h' with
  | nil =>
    rw [List.append_nil]
    exact h
  | snoc _ hrun ih =>
    rw [← List.append_assoc]
    exact .snoc ih hrun

/-- One run is a restart. -/
theorem Restarts.single {p q : Prog S ε α} {w w' : W} {tr : S.Trace} (h : Runs H p w tr q w') :
    Restarts H p w [tr] w' := .snoc (.nil w) h

/-- The rounds of a run of a loop. -/
theorem Runs.loop_inv {p : Prog S ε α} {n : ℕ} {w w' : W} {tr : S.Trace} {q : Prog S ε' Unit}
    (h : Runs H (p.loop n) w tr q w') : ∃ trs, Restarts H p w trs w' ∧ trs.flatten = tr := by
  induction n generalizing w tr with
  | zero =>
    obtain ⟨rfl, -, rfl⟩ := h.done_inv
    exact ⟨[], .nil w', rfl⟩
  | succ n ih =>
    rcases h.bind_inv with ⟨q', hrun, -, -⟩ | ⟨r, w₁, tr₁, tr₂, hrun, hrest, rfl⟩
    · obtain ⟨p', hp, -⟩ := hrun.attempt_inv
      exact ⟨[tr], .single hp, List.flatten_singleton⟩
    · obtain ⟨p', hp, -⟩ := hrun.attempt_inv
      obtain ⟨trs, htrs, rfl⟩ := ih hrest
      exact ⟨tr₁ :: trs, (Restarts.single hp).append htrs, rfl⟩

/-- A round that has ended is a run of the loop. -/
theorem Runs.loop_one {p q : Prog S ε α} {w w' : W} {tr : S.Trace} (h : Runs H p w tr q w') :
    ∃ q', Runs H (p.loop 1 : Prog S ε' Unit) w tr q' w' := ⟨_, h.attempt.bind⟩

/-- **A process that runs a loop has run its body over and over.** -/
theorem Restarts.of_loop {p : Prog S ε α} {n : ℕ} {w w' : W} {lives : List S.Trace}
    (h : Restarts H (p.loop n : Prog S ε' Unit) w lives w') :
    ∃ trs, Restarts H p w trs w' ∧ trs.flatten = lives.flatten := by
  induction h with
  | nil => exact ⟨[], .nil w, rfl⟩
  | @snoc w₁ w₂ lives tr q _ hrun ih =>
    obtain ⟨trs, htrs, heq⟩ := ih
    obtain ⟨trs', htrs', rfl⟩ := hrun.loop_inv
    refine ⟨trs ++ trs', htrs.append htrs', ?_⟩
    rw [List.flatten_append, heq, List.flatten_append, List.flatten_singleton]

/-- **The progress rule.** -/
theorem Restarts.progress {X : Type} {p : Prog S ε α} {I : W → Prop} {A : S.Trace → Prop}
    {reached : W → ℕ} {step? : Sigma S.Reply → Option X} {goal stride : ℕ}
    (hstep : ∀ w tr q w', I w → A tr → Runs H p w tr q w' →
      I w' ∧ min goal (reached w + stride * (tr.filterMap step?).length) ≤ reached w')
    {w w' : W} {trs : List S.Trace} (h : Restarts H p w trs w') (hw : I w)
    (hA : ∀ tr ∈ trs, A tr) :
    I w' ∧ min goal (reached w + stride * (trs.flatten.filterMap step?).length) ≤ reached w' := by
  induction h with
  | nil => exact ⟨hw, Nat.min_le_right ..⟩
  | @snoc w₁ w₂ trs tr q _ hrun ih =>
    obtain ⟨hw₁, hle⟩ := ih fun tr' htr' => hA tr' (List.mem_append_left _ htr')
    obtain ⟨hw₂, hle'⟩ :=
      hstep w₁ tr q w₂ hw₁ (hA tr (List.mem_append_right _ (List.mem_singleton_self _))) hrun
    refine ⟨hw₂, ?_⟩
    rw [List.flatten_append, List.filterMap_append, List.length_append, List.flatten_singleton,
      Nat.mul_add]
    omega
