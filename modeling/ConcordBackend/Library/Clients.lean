import ConcordBackend.Library.Server

/-!
# Clients that send what they know

A server that hands out secrets is meant for clients that cannot guess them. `Converses` are
the runs of a server in which a request only arrives if its clients may know it, given the
requests so far and their answers. Each request of such a run splits it in two
(`Converses.arrival`): what was answered before it arrived, which is all it can rest on, and
the rest.
-/

section Clients

variable {S : Signature} {ε α X W : Type} {H : Handler S W} {serve : X → Prog S ε α}
  {knows : List (X × Prog S ε α) → X → Prop}

/-- Partial runs of a server whose clients send what they know. -/
inductive Converses (H : Handler S W) (serve : X → Prog S ε α)
    (knows : List (X × Prog S ε α) → X → Prop) (w : W) :
    S.History → List (X × Prog S ε α) → W → Prop where
  | start : Converses H serve knows w [] [] w
  | arrive {hist : S.History} {ts : List (X × Prog S ε α)} {w' : W}
      (h : Converses H serve knows w hist ts w') (x : X) (hx : knows ts x) :
      Converses H serve knows w hist (ts ++ [(x, serve x)]) w'
  | answer {hist : S.History} {ts : List (X × Prog S ε α)} {w' w'' : W} {i : ℕ} {x : X}
      {op : S.Op} {k : S.Reply op → Prog S ε α} {r : S.Reply op}
      (h : Converses H serve knows w hist ts w') (hi : ts[i]? = some (x, .call op k))
      (hop : H op w' r w'') :
      Converses H serve knows w (hist ++ [(i, ⟨op, r⟩)]) (ts.set i (x, k r)) w''

namespace Converses

variable {w w' w'' : W} {hist : S.History} {ts : List (X × Prog S ε α)} {i : ℕ}

/-- What happens with such clients may happen with any. -/
theorem serves (h : Converses H serve knows w hist ts w') : Serves H serve w hist ts w' := by
  induction h with
  | start => exact .start
  | arrive _ x _ ih => exact ih.arrive x
  | answer _ hi hop ih => exact ih.answer hi hop

/-- The requests keep their places and stay what they are, and an answer stays. -/
structure Grows (ts ts' : List (X × Prog S ε α)) : Prop where
  length : ts.length ≤ ts'.length
  answered : ∀ (j : ℕ) (t : X × Prog S ε α), ts[j]? = some t → t.2.Finished → ts'[j]? = some t

theorem Grows.refl (ts : List (X × Prog S ε α)) : Grows ts ts :=
  ⟨Nat.le_refl _, fun _ _ h _ => h⟩

theorem Grows.arrive {ts ts' : List (X × Prog S ε α)} (h : Grows ts ts') (t : X × Prog S ε α) :
    Grows ts (ts' ++ [t]) where
  length := Nat.le_trans h.length (by simp)
  answered j t' hj hfin := by
    have hold := h.answered j t' hj hfin
    rw [List.getElem?_append_left (List.getElem?_eq_some_iff.mp hold).1]
    exact hold

theorem Grows.answer {ts ts' : List (X × Prog S ε α)} (h : Grows ts ts') {x : X} {op : S.Op}
    {k : S.Reply op → Prog S ε α} (hi : ts'[i]? = some (x, .call op k)) (t : X × Prog S ε α) :
    Grows ts (ts'.set i t) where
  length := Nat.le_trans h.length (by simp)
  answered j t' hj hfin := by
    have hold := h.answered j t' hj hfin
    have hne : i ≠ j := by
      rintro rfl
      -- what still waits for an answer has not ended
      obtain rfl := Option.some.inj (hi.symm.trans hold)
      exact hfin
    rw [List.getElem?_set_ne hne]
    exact hold

/-- **A request rests on what was answered before it arrived.** -/
theorem arrival (h : Converses H serve knows w hist ts w') {x : X} {q : Prog S ε α}
    (hi : ts[i]? = some (x, q)) : ∃ hist₁ ts₁ w₁ hist₂,
      Converses H serve knows w hist₁ ts₁ w₁ ∧ knows ts₁ x ∧ hist = hist₁ ++ hist₂ ∧
        ts₁.length = i ∧ Grows ts₁ ts := by
  induction h generalizing q with
  | start => cases hi
  | @arrive hist ts w' h y hy ih =>
    rcases Nat.lt_or_ge i ts.length with hlt | hge
    · rw [List.getElem?_append_left hlt] at hi
      obtain ⟨hist₁, ts₁, w₁, hist₂, h₁, hx, heq, hlen, hgrow⟩ := ih hi
      exact ⟨hist₁, ts₁, w₁, hist₂, h₁, hx, heq, hlen, hgrow.arrive _⟩
    · rw [List.getElem?_append_right hge] at hi
      obtain ⟨rfl, rfl⟩ := Prod.mk.inj (List.mem_singleton.mp (List.mem_of_getElem? hi))
      have hlen : i - ts.length = 0 := by
        have hlt := (List.getElem?_eq_some_iff.mp hi).1
        simpa using hlt
      exact ⟨hist, ts, w', [], h, hy, (List.append_nil _).symm, by omega, (Grows.refl ts).arrive _⟩
  | @answer hist ts w' w'' j y op k r h hj hop ih =>
    have hmem : ∃ p, ts[i]? = some (x, p) := by
      rcases eq_or_ne j i with rfl | hne
      · rw [List.getElem?_set_self (List.getElem?_eq_some_iff.mp hj).1] at hi
        obtain ⟨rfl, -⟩ := Prod.mk.inj (Option.some.inj hi)
        exact ⟨_, hj⟩
      · rw [List.getElem?_set_ne hne] at hi
        exact ⟨q, hi⟩
    obtain ⟨p, hp⟩ := hmem
    obtain ⟨hist₁, ts₁, w₁, hist₂, h₁, hx, rfl, hlen, hgrow⟩ := ih hp
    exact ⟨hist₁, ts₁, w₁, hist₂ ++ [(j, ⟨op, r⟩)], h₁, hx, List.append_assoc _ _ _, hlen,
      hgrow.answer hj _⟩

/-- A request that has arrived has sent nothing before. -/
theorem of_eq_nil (h : Converses H serve knows w hist ts w') (hi : ts.length ≤ i) :
    hist.of i = [] := by
  refine List.eq_nil_iff_forall_not_mem.mpr fun x hx => ?_
  exact absurd (h.serves.lt_length (Signature.History.mem_of.mp hx)) (Nat.not_lt.mpr hi)

/-- A request can go on by itself. -/
theorem goes_on {x : X} {p q : Prog S ε α} {tr : S.Trace}
    (h : Converses H serve knows w hist ts w') (hi : ts[i]? = some (x, p))
    (hrun : Runs H p w' tr q w'') :
    Converses H serve knows w (hist ++ tr.map fun y => (i, y)) (ts.set i (x, q)) w'' := by
  induction hrun generalizing hist ts with
  | refl =>
    obtain ⟨hlt, hget⟩ := List.getElem?_eq_some_iff.mp hi
    rw [List.map_nil, List.append_nil, ← hget, List.set_getElem_self]
    exact h
  | step hop _ ih =>
    have hlt := (List.getElem?_eq_some_iff.mp hi).1
    rw [List.map_cons, List.append_cons, ← List.set_set]
    exact ih (h.answer hi hop) (List.getElem?_set_self hlt)

/-- A request that may be known can be served in one go. -/
theorem run {x : X} {tr : S.Trace} {q : Prog S ε α}
    (h : Converses H serve knows w hist ts w') (hx : knows ts x)
    (hrun : Runs H (serve x) w' tr q w'') :
    Converses H serve knows w (hist ++ tr.map fun y => (ts.length, y)) (ts ++ [(x, q)]) w'' :=
  Serves.set_length_concat ts _ _ ▸ (h.arrive x hx).goes_on List.getElem?_concat_length hrun

end Converses

end Clients
