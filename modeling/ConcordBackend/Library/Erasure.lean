import ConcordBackend.Library.Server

/-!
# Requests that might not have been

A request that has only looked at the world has left nothing in it. `Serves.erase` takes such
requests out of a run: they have arrived, and nothing has been answered to them, while all
other requests are answered as before. The world may differ in what the other requests do not
depend on, so the two worlds are compared by a relation that they keep and the erased answers
do not break.
-/

section Erasure

variable {S : Signature} {ε α X W : Type} {H : Handler S W} {serve : X → Prog S ε α}
  {w w' v : W} {hist : S.History} {ts : List (X × Prog S ε α)}

/-- The requests of a run, the erased ones as they arrived. -/
def unserved (serve : X → Prog S ε α) (erased : ℕ → Bool) (ts : List (X × Prog S ε α)) :
    List (X × Prog S ε α) :=
  ts.mapIdx fun i t => if erased i then (t.1, serve t.1) else t

/-- The history of the other requests. -/
def Signature.History.without (hist : S.History) (erased : ℕ → Bool) : S.History :=
  hist.filter fun x => !erased x.1

theorem getElem?_unserved (serve : X → Prog S ε α) (erased : ℕ → Bool)
    (ts : List (X × Prog S ε α)) (i : ℕ) : (unserved serve erased ts)[i]? =
      ts[i]?.map fun t => if erased i then (t.1, serve t.1) else t := List.getElem?_mapIdx

theorem unserved_set (serve : X → Prog S ε α) (erased : ℕ → Bool) (ts : List (X × Prog S ε α))
    (i : ℕ) (t : X × Prog S ε α) : unserved serve erased (ts.set i t) =
      (unserved serve erased ts).set i (if erased i then (t.1, serve t.1) else t) :=
  List.mapIdx_set

/-- **Requests that only looked can be erased.** -/
theorem Serves.erase {erased : ℕ → Bool} {R : W → W → Prop} {Frame : Sigma S.Reply → Prop}
    (hkept : ∀ op w r w' v, H op w r w' → R w v → ∃ v', H op v r v' ∧ R w' v')
    (hframe : ∀ op w r w' v, Frame ⟨op, r⟩ → H op w r w' → R w v → R w' v)
    (h : Serves H serve w hist ts w') (herased : ∀ x ∈ hist, erased x.1 = true → Frame x.2)
    (hv : R w v) :
    ∃ v', Serves H serve v (hist.without erased) (unserved serve erased ts) v' ∧ R w' v' := by
  induction h with
  | start => exact ⟨v, .start, hv⟩
  | @arrive hist ts w' h x ih =>
    obtain ⟨v', hrun, hv'⟩ := ih herased
    refine ⟨v', ?_, hv'⟩
    have harrive := hrun.arrive x
    rwa [unserved, List.mapIdx_concat, ite_self]
  | @answer hist ts w' w'' i x op k r h hi hop ih =>
    obtain ⟨v', hrun, hv'⟩ := ih fun y hy => herased y (List.mem_append_left _ hy)
    have hwithout : Signature.History.without (hist ++ [(i, ⟨op, r⟩)]) erased =
        hist.without erased ++ if erased i then [] else [(i, ⟨op, r⟩)] := by
      rw [Signature.History.without, List.filter_append, ← Signature.History.without]
      rcases her : erased i with _ | _
      · simp [her]
      · simp [her]
    have hi' := getElem?_unserved serve erased ts i
    rw [hi, Option.map_some] at hi'
    rw [hwithout, unserved_set]
    rcases her : erased i with _ | _
    · -- the request goes on from where it was
      rw [her] at hi'
      obtain ⟨v'', hop', hv''⟩ := hkept op w' r w'' v' hop hv'
      exact ⟨v'', hrun.answer hi' hop', hv''⟩
    · -- an erased request stays as it arrived
      rw [her] at hi'
      obtain ⟨hlt, hget⟩ := List.getElem?_eq_some_iff.mp hi'
      have hfresh := herased _ (List.mem_append_right _ (List.mem_singleton_self _)) her
      refine ⟨v', ?_, hframe op w' r w'' v' hfresh hop hv'⟩
      have hsame : (unserved serve erased ts).set i (x, serve x) = unserved serve erased ts :=
        (congrArg ((unserved serve erased ts).set i) hget.symm).trans (List.set_getElem_self hlt)
      rw [if_pos rfl, if_pos rfl, List.append_nil, hsame]
      exact hrun

end Erasure
