import ConcordBackend.Library.Server

/-!
# Reading beside a writer

A writer works through a log whose entries are blocks of steps, one step after the other, and
nothing holds a block together: a reader may look between any two steps. `Standing` says where
the writer then stands, through the first blocks of the log and some steps into the next.

What the reader sees depends on what it looks at. Where a block has at most one step that
touches it, the reader cannot tell a part of the block from either none or all of it
(`Steps.seen`); where a block has several, it may see the part.

In a server with one writer among readers, the writer runs as if it were alone
(`Serves.alone`).
-/

/-! ### Steps -/

/-- Steps taken one after the other. -/
inductive Steps {ι σ : Type} (step : ι → σ → σ → Prop) : List ι → σ → σ → Prop where
  | nil (s : σ) : Steps step [] s s
  | cons {i : ι} {l : List ι} {s s₁ s' : σ} (h : step i s s₁) (hrest : Steps step l s₁ s') :
      Steps step (i :: l) s s'

namespace Steps

variable {ι σ τ : Type} {step : ι → σ → σ → Prop} {l l' : List ι} {s s' s'' : σ}

theorem append (h : Steps step l s s') (h' : Steps step l' s' s'') :
    Steps step (l ++ l') s s'' := by
  induction h with
  | nil => exact h'
  | cons hi _ ih => exact .cons hi (ih h')

theorem append_inv (h : Steps step (l ++ l') s s'') :
    ∃ s', Steps step l s s' ∧ Steps step l' s' s'' := by
  induction l generalizing s with
  | nil => exact ⟨s, .nil s, h⟩
  | cons i l ih =>
    cases h with
    | cons hi hrest =>
      obtain ⟨s', hl, hl'⟩ := ih hrest
      exact ⟨s', .cons hi hl, hl'⟩

/-- What no step touches stays as it is. -/
theorem frame {π : σ → τ} (hπ : ∀ i ∈ l, ∀ s s', step i s s' → π s' = π s)
    (h : Steps step l s s') : π s' = π s := by
  induction h with
  | nil => rfl
  | cons hi _ ih =>
    rw [ih fun j hj => hπ j (List.mem_cons_of_mem _ hj), hπ _ List.mem_cons_self _ _ hi]

/-- **What a part of a block shows.** Where no two steps of a block touch what is seen, a part
of the block shows what was there before, or what will be there after. -/
theorem seen (touches : ι → Prop) (π : σ → τ)
    (hπ : ∀ i s s', ¬ touches i → step i s s' → π s' = π s)
    (honce : (l ++ l').Pairwise fun i j => touches i → ¬ touches j)
    (h : Steps step l s s') (h' : Steps step l' s' s'') :
    π s' = π s ∨ (∃ i ∈ l, touches i) ∧ π s'' = π s' := by
  by_cases htouch : ∃ i ∈ l, touches i
  · obtain ⟨i, hi, hti⟩ := htouch
    have hrest := (List.pairwise_append.mp honce).2.2
    exact Or.inr ⟨⟨i, hi, hti⟩, h'.frame fun j hj s s' => hπ j s s' (hrest i hi j hj hti)⟩
  · exact Or.inl (h.frame fun i hi s s' => hπ i s s' fun hti => htouch ⟨i, hi, hti⟩)

end Steps

/-! ### Where a writer stands -/

section Standing

variable {α ι : Type} {block : α → List ι} {log : List α} {done done' : List ι}

/-- After the steps `done` the writer is through the first `n` blocks of the log and has taken
the steps `part` of the next, but not all of them. -/
structure Standing (block : α → List ι) (log : List α) (n : ℕ) (done part : List ι) : Prop where
  done_eq : done = (log.take n).flatMap block ++ part
  part_eq : part = [] ∨ ∃ a rest, log[n]? = some a ∧ block a = part ++ rest ∧ rest ≠ []

/-- In the first block, before its end. -/
theorem Standing.zero {a : α} (h : done <+: block a) (hne : done ≠ block a) :
    Standing block (a :: log) 0 done done where
  done_eq := rfl
  part_eq := by
    obtain ⟨rest, hrest⟩ := h
    refine Or.inr ⟨a, rest, rfl, hrest.symm, fun hnil => hne ?_⟩
    rw [← hrest, hnil, List.append_nil]

/-- Past the first block. -/
theorem Standing.cons {n : ℕ} {part : List ι} (h : Standing block log n done part) (a : α) :
    Standing block (a :: log) (n + 1) (block a ++ done) part where
  done_eq := by rw [h.done_eq, List.take_succ_cons, List.flatMap_cons, List.append_assoc]
  part_eq := h.part_eq

/-- Some first steps of a log end before the end of its first block, or go past it. -/
private theorem prefix_cons_cases {a : α} (h : done <+: (a :: log).flatMap block) :
    (done <+: block a ∧ done ≠ block a) ∨
      ∃ past, done = block a ++ past ∧ past <+: log.flatMap block := by
  rw [List.flatMap_cons] at h
  rcases List.prefix_or_prefix_of_prefix h (List.prefix_append ..) with hin | ⟨past, rfl⟩
  · by_cases heq : done = block a
    · exact Or.inr ⟨[], by rw [heq, List.append_nil], List.nil_prefix⟩
    · exact Or.inl ⟨hin, heq⟩
  · exact Or.inr ⟨past, rfl, (List.prefix_append_right_inj _).mp h⟩

/-- **The writer only moves forward.** Of two moments of its work, the later one stands no
earlier in the log. -/
theorem exists_standing (h : done <+: done') (h' : done' <+: log.flatMap block) :
    ∃ n part n' part', n ≤ n' ∧ Standing block log n done part ∧
      Standing block log n' done' part' := by
  induction log generalizing done done' with
  | nil =>
    obtain rfl := List.prefix_nil.mp h'
    obtain rfl := List.prefix_nil.mp h
    exact ⟨0, [], 0, [], Nat.le_refl 0, ⟨rfl, Or.inl rfl⟩, ⟨rfl, Or.inl rfl⟩⟩
  | cons a log ih =>
    rcases prefix_cons_cases (h.trans h') with ⟨hin, hne⟩ | ⟨past, rfl, hpast⟩
    · rcases prefix_cons_cases h' with ⟨hin', hne'⟩ | ⟨past', rfl, hpast'⟩
      · exact ⟨0, done, 0, done', Nat.le_refl 0, .zero hin hne, .zero hin' hne'⟩
      · obtain ⟨-, -, n', part', -, -, hstand⟩ := ih List.prefix_rfl hpast'
        exact ⟨0, done, n' + 1, part', Nat.zero_le _, .zero hin hne, hstand.cons a⟩
    · rcases prefix_cons_cases h' with ⟨hin', hne'⟩ | ⟨past', rfl, hpast'⟩
      · -- the later moment cannot be before the end of a block the earlier one is past
        have hall := (List.prefix_append ..).trans h
        exact absurd (hin'.eq_of_length_le hall.length_le) hne'
      · obtain ⟨n, part, n', part', hle, hstand, hstand'⟩ :=
          ih ((List.prefix_append_right_inj _).mp h) hpast'
        exact ⟨n + 1, part, n' + 1, part', Nat.succ_le_succ hle, hstand.cons a, hstand'.cons a⟩

end Standing

/-! ### A writer among readers -/

section Server

variable {S : Signature} {ε α β X W : Type} {H : Handler S W} {serve : X → Prog S ε α}

/-- The first operation a request has sent, in the history. -/
theorem Signature.History.of_eq_cons {hist : S.History} {i : ℕ} {x : Sigma S.Reply} {tr : S.Trace}
    (h : hist.of i = x :: tr) :
    ∃ past future : S.History, hist = past ++ (i, x) :: future ∧ future.of i = tr := by
  obtain ⟨past, ⟨j, y⟩, future, rfl, -, hy, hfuture⟩ := List.filterMap_eq_cons_iff.mp h
  obtain ⟨rfl, hx⟩ := Option.ite_none_right_eq_some.mp hy
  obtain rfl := Option.some.inj hx
  exact ⟨past, future, rfl, hfuture⟩

/-- What only one request has done is in its part of the history. -/
theorem Signature.History.filterMap_of {f : Sigma S.Reply → Option β} {hist : S.History} {i : ℕ}
    (h : ∀ e ∈ hist, e.1 ≠ i → f e.2 = none) :
    (hist.of i).filterMap f = hist.trace.filterMap f := by
  rw [Signature.History.of, Signature.History.trace, List.filterMap_filterMap, List.filterMap_map]
  refine List.filterMap_congr fun e he => ?_
  by_cases hi : e.1 = i
  · rw [if_pos hi]
    rfl
  · rw [if_neg hi]
    exact (h e he hi).symm

namespace Serves

variable {w w' : W} {hist : S.History} {ts : List (X × Prog S ε α)}

/-- What a request has sent is one of the operations of its program. -/
theorem only {A : S.Op → Prop} (h : Serves H serve w hist ts w') {i : ℕ} {x : X}
    {q : Prog S ε α} (hi : ts[i]? = some (x, q)) (hx : (serve x).Only A) {y : Sigma S.Reply}
    (hy : (i, y) ∈ hist) : A y.1 :=
  (h.leads hi).only hx y (Signature.History.mem_of.mpr hy)

/-- The requests that have sent something are there. -/
theorem exists_request (h : Serves H serve w hist ts w') {e : ℕ × Sigma S.Reply} (he : e ∈ hist) :
    ∃ x q, ts[e.1]? = some (x, q) :=
  ⟨_, _, List.getElem?_eq_getElem (h.lt_length he)⟩

/-- Before the first request arrives, nothing happens. -/
private theorem eq_of_nil (h : Serves H serve w hist ts w') (hts : ts = []) :
    hist = [] ∧ w' = w := by
  cases h with
  | start => exact ⟨rfl, rfl⟩
  | arrive h x => exact absurd hts (List.append_ne_nil_of_right_ne_nil _ (List.cons_ne_nil _ _))
  | answer h hi hop =>
    have hlength := congrArg List.length hts
    rw [List.length_set] at hlength
    rw [List.eq_nil_of_length_eq_zero hlength] at hi
    cases hi

/-- **A writer among readers** runs as if it were alone: where the operations of all other
requests leave the world as it is, its own run starts where the server's does, and ends there. -/
theorem alone {A : S.Op → Prop} (hA : ∀ op w r w', A op → H op w r w' → w' = w)
    (h : Serves H serve w hist ts w') {x : X} {q : Prog S ε α} (hi : ts[0]? = some (x, q))
    (hothers : ∀ i y p, ts[i]? = some (y, p) → i ≠ 0 → (serve y).Only A) :
    Runs H (serve x) w (hist.of 0) q w' := by
  induction h generalizing q with
  | start => cases hi
  | @arrive hist ts w' h y ih =>
    rcases ts with _ | ⟨t, ts⟩
    · obtain ⟨rfl, rfl⟩ := h.eq_of_nil rfl
      obtain ⟨rfl, rfl⟩ := Prod.mk.inj (Option.some.inj hi)
      exact .refl _ _
    · refine ih hi fun i z p hz => hothers i z p ?_
      rw [List.getElem?_append_left (List.getElem?_eq_some_iff.mp hz).1]
      exact hz
  | @answer hist ts w' w'' j y op k r h hj hop ih =>
    have hkeys : ∀ i z p, ts[i]? = some (z, p) → i ≠ 0 → (serve z).Only A := by
      intro i z p hz
      rcases eq_or_ne j i with rfl | hne
      · obtain ⟨rfl, -⟩ := Prod.mk.inj (Option.some.inj (hz.symm.trans hj))
        exact hothers j z (k r) (List.getElem?_set_self (List.getElem?_eq_some_iff.mp hj).1)
      · refine hothers i z p ?_
        rw [List.getElem?_set_ne hne]
        exact hz
    rw [Signature.History.of_append]
    rcases eq_or_ne j 0 with rfl | hne
    · -- the writer's own operation is the next of its run
      rw [List.getElem?_set_self (List.getElem?_eq_some_iff.mp hj).1] at hi
      obtain ⟨rfl, rfl⟩ := Prod.mk.inj (Option.some.inj hi)
      exact (ih hj hkeys).append (.step hop (.refl _ _))
    · -- a reader's leaves the world, and so the writer's run, as it is
      rw [List.getElem?_set_ne hne] at hi
      have hlast : Signature.History.of [(j, (⟨op, r⟩ : Sigma S.Reply))] 0 = [] := by
        simp [Signature.History.of, hne]
      have hA' : A op := by
        have hsent := (h.answer hj hop).leads
          (List.getElem?_set_self (List.getElem?_eq_some_iff.mp hj).1)
        refine hsent.only (hkeys j y _ hj hne) ⟨op, r⟩ (Signature.History.mem_of.mpr ?_)
        exact List.mem_append_right _ (List.mem_singleton.mpr rfl)
      rw [hlast, List.append_nil, hA _ _ _ _ hA' hop]
      exact ih hi hkeys

end Serves

end Server
