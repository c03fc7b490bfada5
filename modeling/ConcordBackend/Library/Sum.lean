import ConcordBackend.Library.Server

/-!
# Two signatures side by side

A program may reach for two services that have nothing to do with each other. `Signature.sum`
has the operations of both, `Prog.inl` and `Prog.inr` take a program of either into it, and
`Handler.sum` answers each operation by the handler of its own service.

A run of such a program is seen from each side through the operations of that side alone
(`Signature.Trace.left`, `Signature.Trace.right`): what is proved of sequences of answers of
one service holds of that part of a run (`Answers.left`, `Answers.right`).
-/

/-- The operations of two signatures. -/
abbrev Signature.sum (S T : Signature) : Signature := ⟨S.Op ⊕ T.Op, Sum.elim S.Reply T.Reply⟩

section Sum

variable {S T : Signature} {ε α β V W X : Type}

/-- A program of the first signature. -/
def Prog.inl : Prog S ε α → Prog (S.sum T) ε α
  | .done a => .done a
  | .fail e => .fail e
  | .call op k => .call (.inl op) fun r => (k r).inl

/-- A program of the second signature. -/
def Prog.inr : Prog T ε α → Prog (S.sum T) ε α
  | .done a => .done a
  | .fail e => .fail e
  | .call op k => .call (.inr op) fun r => (k r).inr

/-- Both services answer over one world. -/
def Handler.sum (H : Handler S W) (K : Handler T W) : Handler (S.sum T) W
  | .inl op, w, r, w' => H op w r w'
  | .inr op, w, r, w' => K op w r w'

/-- A service of the first of two worlds. -/
def Handler.first (H : Handler S V) : Handler S (V × W) :=
  fun op w r w' => H op w.1 r w'.1 ∧ w'.2 = w.2

/-- A service of the second of two worlds. -/
def Handler.second (K : Handler T W) : Handler T (V × W) :=
  fun op w r w' => K op w.2 r w'.2 ∧ w'.1 = w.1

/-! ### The two sides of a run -/

/-- An answered operation of the first service. -/
def Signature.left? : Sigma (S.sum T).Reply → Option (Sigma S.Reply)
  | ⟨.inl op, r⟩ => some ⟨op, r⟩
  | ⟨.inr _, _⟩ => none

/-- An answered operation of the second service. -/
def Signature.right? : Sigma (S.sum T).Reply → Option (Sigma T.Reply)
  | ⟨.inl _, _⟩ => none
  | ⟨.inr op, r⟩ => some ⟨op, r⟩

/-- What the first service answered. -/
def Signature.Trace.left (tr : (S.sum T).Trace) : S.Trace := tr.filterMap Signature.left?

/-- What the second service answered. -/
def Signature.Trace.right (tr : (S.sum T).Trace) : T.Trace := tr.filterMap Signature.right?

/-- Answers of the first service among those of both. -/
def Signature.Trace.inl (tr : S.Trace) : (S.sum T).Trace := tr.map fun x => ⟨.inl x.1, x.2⟩

/-- Answers of the second service among those of both. -/
def Signature.Trace.inr (tr : T.Trace) : (S.sum T).Trace := tr.map fun x => ⟨.inr x.1, x.2⟩

/-- What the first service answered, and to whom. -/
def Signature.History.left (hist : (S.sum T).History) : S.History :=
  hist.filterMap fun x => (Signature.left? x.2).map fun y => (x.1, y)

/-- What the second service answered, and to whom. -/
def Signature.History.right (hist : (S.sum T).History) : T.History :=
  hist.filterMap fun x => (Signature.right? x.2).map fun y => (x.1, y)

@[simp] theorem Signature.Trace.left_append (tr tr' : (S.sum T).Trace) :
    Signature.Trace.left (tr ++ tr') = tr.left ++ tr'.left := List.filterMap_append

@[simp] theorem Signature.Trace.right_append (tr tr' : (S.sum T).Trace) :
    Signature.Trace.right (tr ++ tr') = tr.right ++ tr'.right := List.filterMap_append

@[simp] theorem Signature.Trace.left_inl (tr : S.Trace) :
    Signature.Trace.left (tr.inl : (S.sum T).Trace) = tr := by
  rw [Signature.Trace.left, Signature.Trace.inl, List.filterMap_map]
  exact List.filterMap_some

@[simp] theorem Signature.Trace.right_inl (tr : S.Trace) :
    Signature.Trace.right (tr.inl : (S.sum T).Trace) = [] := by
  rw [Signature.Trace.right, Signature.Trace.inl, List.filterMap_map]
  exact List.filterMap_eq_nil_iff.mpr fun _ _ => rfl

@[simp] theorem Signature.Trace.left_inr (tr : T.Trace) :
    Signature.Trace.left (tr.inr : (S.sum T).Trace) = [] := by
  rw [Signature.Trace.left, Signature.Trace.inr, List.filterMap_map]
  exact List.filterMap_eq_nil_iff.mpr fun _ _ => rfl

@[simp] theorem Signature.Trace.right_inr (tr : T.Trace) :
    Signature.Trace.right (tr.inr : (S.sum T).Trace) = tr := by
  rw [Signature.Trace.right, Signature.Trace.inr, List.filterMap_map]
  exact List.filterMap_some

@[simp] theorem Signature.History.left_append (hist hist' : (S.sum T).History) :
    Signature.History.left (hist ++ hist') = hist.left ++ hist'.left := List.filterMap_append

@[simp] theorem Signature.History.right_append (hist hist' : (S.sum T).History) :
    Signature.History.right (hist ++ hist') = hist.right ++ hist'.right := List.filterMap_append

theorem Signature.History.mem_left {hist : (S.sum T).History} {i : ℕ} {op : S.Op} {r : S.Reply op} :
    (i, ⟨op, r⟩) ∈ hist.left ↔ (i, (⟨.inl op, r⟩ : Sigma (S.sum T).Reply)) ∈ hist := by
  simp only [Signature.History.left, List.mem_filterMap]
  constructor
  · rintro ⟨⟨j, ⟨op' | op', r'⟩⟩, hmem, heq⟩
    · cases heq
      exact hmem
    · cases heq
  · intro hmem
    exact ⟨_, hmem, rfl⟩

theorem Signature.History.mem_right {hist : (S.sum T).History} {i : ℕ} {op : T.Op} {r : T.Reply op} :
    (i, ⟨op, r⟩) ∈ hist.right ↔ (i, (⟨.inr op, r⟩ : Sigma (S.sum T).Reply)) ∈ hist := by
  simp only [Signature.History.right, List.mem_filterMap]
  constructor
  · rintro ⟨⟨j, ⟨op' | op', r'⟩⟩, hmem, heq⟩
    · cases heq
    · cases heq
      exact hmem
  · intro hmem
    exact ⟨_, hmem, rfl⟩

/-- The first side of a history is that of its trace. -/
theorem Signature.History.trace_left (hist : (S.sum T).History) : hist.left.trace = hist.trace.left := by
  induction hist with
  | nil => rfl
  | cons x hist ih =>
    obtain ⟨i, ⟨op | op, r⟩⟩ := x
    · exact congrArg (_ :: ·) ih
    · exact ih

/-- The second side of a history is that of its trace. -/
theorem Signature.History.trace_right (hist : (S.sum T).History) :
    hist.right.trace = hist.trace.right := by
  induction hist with
  | nil => rfl
  | cons x hist ih =>
    obtain ⟨i, ⟨op | op, r⟩⟩ := x
    · exact ih
    · exact congrArg (_ :: ·) ih

/-- A request has seen of the first service what the service answered it. -/
theorem Signature.History.of_left (hist : (S.sum T).History) (i : ℕ) :
    Signature.History.of hist.left i = Signature.Trace.left (hist.of i) := by
  rw [Signature.History.of, Signature.History.left, Signature.Trace.left, Signature.History.of,
    List.filterMap_filterMap, List.filterMap_filterMap]
  congr 1
  funext x
  obtain ⟨j, ⟨op | op, r⟩⟩ := x
  · by_cases hj : j = i
    · simp [hj, Signature.left?]
    · simp [hj, Signature.left?]
  · by_cases hj : j = i
    · simp [hj, Signature.left?]
    · simp [hj, Signature.left?]

/-- A request has seen of the second service what the service answered it. -/
theorem Signature.History.of_right (hist : (S.sum T).History) (i : ℕ) :
    Signature.History.of hist.right i = Signature.Trace.right (hist.of i) := by
  rw [Signature.History.of, Signature.History.right, Signature.Trace.right, Signature.History.of,
    List.filterMap_filterMap, List.filterMap_filterMap]
  congr 1
  funext x
  obtain ⟨j, ⟨op | op, r⟩⟩ := x
  · by_cases hj : j = i
    · simp [hj, Signature.right?]
    · simp [hj, Signature.right?]
  · by_cases hj : j = i
    · simp [hj, Signature.right?]
    · simp [hj, Signature.right?]

variable {H : Handler S V} {K : Handler T W} {w w' : V × W} {tr : (S.sum T).Trace}

/-- **The first service of a run.** -/
theorem Answers.left (h : Answers (Handler.sum H.first K.second) w tr w') :
    Answers H w.1 tr.left w'.1 := by
  induction h with
  | nil => exact .nil
  | @snoc tr w₁ w₂ op r h hop ih =>
    rw [Signature.Trace.left_append]
    rcases op with op | op
    · exact ih.snoc hop.1
    · obtain ⟨-, heq⟩ := hop
      rw [heq]
      exact (List.append_nil tr.left).symm ▸ ih

/-- **The second service of a run.** -/
theorem Answers.right (h : Answers (Handler.sum H.first K.second) w tr w') :
    Answers K w.2 tr.right w'.2 := by
  induction h with
  | nil => exact .nil
  | @snoc tr w₁ w₂ op r h hop ih =>
    rw [Signature.Trace.right_append]
    rcases op with op | op
    · obtain ⟨-, heq⟩ := hop
      rw [heq]
      exact (List.append_nil tr.right).symm ▸ ih
    · exact ih.snoc hop.1

/-- The first of two services over one world, where the second only looks. -/
theorem Answers.left_of_frame {H : Handler S W} {K : Handler T W} {w w' : W}
    (hframe : ∀ op w r w', K op w r w' → w' = w) (h : Answers (Handler.sum H K) w tr w') :
    Answers H w tr.left w' := by
  induction h with
  | nil => exact .nil
  | @snoc tr w₁ w₂ op r h hop ih =>
    rw [Signature.Trace.left_append]
    rcases op with op | op
    · exact ih.snoc hop
    · rw [hframe op w₁ r w₂ hop]
      exact (List.append_nil tr.left).symm ▸ ih

/-! ### Programs of one side -/

section Runs

variable {H : Handler (S.sum T) W} {w w' : W} {tr : (S.sum T).Trace}

/-- A run of a program of the first signature. -/
theorem Runs.inl_inv {p : Prog S ε α} {q : Prog (S.sum T) ε α} (h : Runs H p.inl w tr q w') :
    ∃ (q' : Prog S ε α) (tr' : S.Trace), q = q'.inl ∧ tr = tr'.inl ∧
      Runs (fun op => H (.inl op)) p w tr' q' w' := by
  induction p generalizing w tr with
  | done a =>
    obtain ⟨rfl, rfl, rfl⟩ := h.done_inv
    exact ⟨.done a, [], rfl, rfl, .refl _ _⟩
  | fail e =>
    obtain ⟨rfl, rfl, rfl⟩ := h.fail_inv
    exact ⟨.fail e, [], rfl, rfl, .refl _ _⟩
  | call op k ih =>
    rcases Runs.call_inv h with ⟨rfl, rfl, rfl⟩ | ⟨r, w₁, tr₁, hop, rfl, hrun⟩
    · exact ⟨.call op k, [], rfl, rfl, .refl _ _⟩
    · obtain ⟨q', tr', rfl, rfl, hq⟩ := ih r hrun
      exact ⟨q', ⟨op, r⟩ :: tr', rfl, rfl, .step hop hq⟩

/-- A run of a program of the second signature. -/
theorem Runs.inr_inv {p : Prog T ε α} {q : Prog (S.sum T) ε α} (h : Runs H p.inr w tr q w') :
    ∃ (q' : Prog T ε α) (tr' : T.Trace), q = q'.inr ∧ tr = tr'.inr ∧
      Runs (fun op => H (.inr op)) p w tr' q' w' := by
  induction p generalizing w tr with
  | done a =>
    obtain ⟨rfl, rfl, rfl⟩ := h.done_inv
    exact ⟨.done a, [], rfl, rfl, .refl _ _⟩
  | fail e =>
    obtain ⟨rfl, rfl, rfl⟩ := h.fail_inv
    exact ⟨.fail e, [], rfl, rfl, .refl _ _⟩
  | call op k ih =>
    rcases Runs.call_inv h with ⟨rfl, rfl, rfl⟩ | ⟨r, w₁, tr₁, hop, rfl, hrun⟩
    · exact ⟨.call op k, [], rfl, rfl, .refl _ _⟩
    · obtain ⟨q', tr', rfl, rfl, hq⟩ := ih r hrun
      exact ⟨q', ⟨op, r⟩ :: tr', rfl, rfl, .step hop hq⟩

/-- What a program of the first signature does, it does in the sum. -/
theorem Runs.inl {p q : Prog S ε α} {tr : S.Trace}
    (h : Runs (fun op => H (.inl op)) p w tr q w') :
    Runs H p.inl w tr.inl q.inl w' := by
  induction h with
  | refl => exact .refl _ _
  | step hop _ ih => exact .step hop ih

/-- What a program of the second signature does, it does in the sum. -/
theorem Runs.inr {p q : Prog T ε α} {tr : T.Trace}
    (h : Runs (fun op => H (.inr op)) p w tr q w') :
    Runs H p.inr w tr.inr q.inr w' := by
  induction h with
  | refl => exact .refl _ _
  | step hop _ ih => exact .step hop ih

end Runs

/-- A service of the first world runs on both. -/
theorem Runs.first {H : Handler S V} {p q : Prog S ε α} {v v' : V} {tr : S.Trace}
    (h : Runs H p v tr q v') (w : W) : Runs (Handler.first H) p (v, w) tr q (v', w) := by
  induction h with
  | refl => exact .refl _ _
  | @step op k v v₁ v' r tr q hop _ ih =>
    have hboth : Handler.first H op (v, w) r (v₁, w) := ⟨hop, rfl⟩
    exact .step hboth ih

/-- A service of the second world runs on both. -/
theorem Runs.second {K : Handler T W} {p q : Prog T ε α} {w w' : W} {tr : T.Trace}
    (h : Runs K p w tr q w') (v : V) : Runs (Handler.second K) p (v, w) tr q (v, w') := by
  induction h with
  | refl => exact .refl _ _
  | @step op k w w₁ w' r tr q hop _ ih =>
    have hboth : Handler.second K op (v, w) r (v, w₁) := ⟨hop, rfl⟩
    exact .step hboth ih

end Sum
