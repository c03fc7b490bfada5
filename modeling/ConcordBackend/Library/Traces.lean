import ConcordBackend.Library.Sum

/-!
# What the traces of a program have in common

`Prog.Traces P p` says that every trace of the program has the property `P`, whatever it is
replied. For a property that two traces in a row have where each has it, the rule for
sequencing is the expected one (`Prog.Traces.bind`), so a program is looked at part by part.

Read the other way round, a property of every answer in a sequence may be used to show what
the sequence preserves (`Answers.invariant_of_mem`).
-/

section Traces

variable {S T : Signature} {ε ε' α β W X : Type}

/-- Every trace of the program has the property. -/
def Prog.Traces (P : S.Trace → Prop) (p : Prog S ε α) : Prop := ∀ tr q, Leads p tr q → P tr

namespace Prog.Traces

variable {P : S.Trace → Prop} {p : Prog S ε α}

/-- One part after the other. -/
theorem bind (happ : ∀ tr tr', P tr → P tr' → P (tr ++ tr')) {f : α → Prog S ε β}
    (hp : p.Traces P) (hf : ∀ a, (f a).Traces P) : (p.bind f).Traces P := by
  intro tr q h
  rcases Runs.bind_inv h with ⟨p', hrun, -, -⟩ | ⟨a, w, tr₁, tr₂, hrun, hrest, rfl⟩
  · exact hp _ _ hrun
  · exact happ _ _ (hp _ _ hrun) (hf a _ _ hrest)

theorem attempt (hp : p.Traces P) : (p.attempt : Prog S ε' (Except ε α)).Traces P := by
  intro tr q h
  obtain ⟨p', hrun, -⟩ := Runs.attempt_inv h
  exact hp _ _ hrun

end Prog.Traces

/-! ### What came before -/

/-- Every answer of the trace is justified by those before it. -/
def Signature.Trace.Justified (J : S.Trace → Sigma S.Reply → Prop) (tr : S.Trace) : Prop :=
  ∀ past x future, tr = past ++ x :: future → J past x

namespace Signature.Trace.Justified

variable {J K : S.Trace → Sigma S.Reply → Prop} {tr tr' : S.Trace} {x : Sigma S.Reply}

/-- Answers that need no justification. -/
theorem of_forall (h : ∀ x ∈ tr, ∀ past, J past x) : Justified J tr := by
  rintro past x future rfl
  exact h x (List.mem_append_right _ List.mem_cons_self) past

theorem mono (hJK : ∀ past x, J past x → K past x) (h : Justified J tr) : Justified K tr :=
  fun past x future heq => hJK past x (h past x future heq)

/-- The answers of the second part come after those of the first. -/
theorem append_right (h : Justified J tr) (h' : Justified (fun past => J (tr ++ past)) tr') :
    Justified J (tr ++ tr') := by
  intro past x future heq
  rcases List.append_eq_append_iff.mp heq with ⟨past', rfl, htr'⟩ | ⟨rest, rfl, hrest⟩
  · exact h' past' x future htr'
  · rcases rest with _ | ⟨y, rest⟩
    · have hnil := h' [] x future hrest.symm
      rwa [List.append_nil, List.append_nil] at hnil
    · obtain ⟨rfl, -⟩ := List.cons.inj hrest
      exact h past x rest rfl

/-- What justifies an answer does so wherever it comes before it. -/
theorem append (hJ : ∀ earlier past x, J past x → J (earlier ++ past) x) (h : Justified J tr)
    (h' : Justified J tr') : Justified J (tr ++ tr') :=
  h.append_right (h'.mono (hJ tr))

/-- One more answer in front of a trace. -/
theorem cons (hx : J [] x) (h : Justified (fun past => J (x :: past)) tr) :
    Justified J (x :: tr) := by
  change Justified J ([x] ++ tr)
  refine append_right ?_ h
  intro past y future heq
  rcases past with _ | ⟨z, past⟩
  · obtain ⟨rfl, -⟩ := List.cons.inj heq
    exact hx
  · exact absurd (List.cons.inj heq).2.symm (List.append_ne_nil_of_right_ne_nil _ (by simp))

end Signature.Trace.Justified

/-! ### Operations of the sum -/

/-- What a program may issue, it may issue in the sum. -/
theorem Prog.Only.inl {A : S.Op → Prop} {B : (S.sum T).Op → Prop} (hAB : ∀ op, A op → B (.inl op))
    {p : Prog S ε α} (hp : p.Only A) : (p.inl : Prog (S.sum T) ε α).Only B := by
  induction p with
  | done a => trivial
  | fail e => trivial
  | call op k ih => exact ⟨hAB op hp.1, fun r => ih r (hp.2 r)⟩

@[inherit_doc Prog.Only.inl]
theorem Prog.Only.inr {A : T.Op → Prop} {B : (S.sum T).Op → Prop} (hAB : ∀ op, A op → B (.inr op))
    {p : Prog T ε α} (hp : p.Only A) : (p.inr : Prog (S.sum T) ε α).Only B := by
  induction p with
  | done a => trivial
  | fail e => trivial
  | call op k ih => exact ⟨hAB op hp.1, fun r => ih r (hp.2 r)⟩

/-- Every program issues what there is to issue. -/
theorem Prog.only_of_forall {A : S.Op → Prop} (hA : ∀ op, A op) (p : Prog S ε α) : p.Only A := by
  induction p with
  | done a => trivial
  | fail e => trivial
  | call op k ih => exact ⟨hA op, ih⟩

theorem Prog.ofExcept_only {A : S.Op → Prop} (r : Except ε α) :
    (Prog.ofExcept r : Prog S ε α).Only A := by
  rcases r with e | a
  · trivial
  · trivial

/-! ### Histories -/

variable {H : Handler S W} {w w' : W}

/-- The invariant rule for answers of which something is known. -/
theorem Answers.invariant_of_mem {P : Sigma S.Reply → Prop} {I : W → Prop} {tr : S.Trace}
    (hI : ∀ op w r w', P ⟨op, r⟩ → H op w r w' → I w → I w') (h : Answers H w tr w')
    (hP : ∀ x ∈ tr, P x) (hw : I w) : I w' := by
  induction h with
  | nil => exact hw
  | snoc _ hop ih =>
    refine hI _ _ _ _ (hP _ ?_) hop (ih fun x hx => hP x ?_)
    · exact List.mem_append_right _ (List.mem_singleton.mpr rfl)
    · exact List.mem_append_left _ hx

/-- Every answer of a sequence was given at some time. -/
theorem Answers.exists_step {tr : S.Trace} (h : Answers H w tr w') {x : Sigma S.Reply}
    (hx : x ∈ tr) : ∃ w₁ w₂, H x.1 w₁ x.2 w₂ := by
  obtain ⟨past, future, rfl⟩ := List.append_of_mem hx
  obtain ⟨w₁, w₂, -, hop, -⟩ := h.split
  exact ⟨w₁, w₂, hop⟩

/-- What a request has seen is split where the history is split at one of its operations. -/
theorem Signature.History.of_split (past future : S.History) (i : ℕ) (x : Sigma S.Reply) :
    Signature.History.of (past ++ (i, x) :: future) i = past.of i ++ x :: future.of i := by
  rw [Signature.History.of_append]
  congr 1
  simp [Signature.History.of]

/-- A history splits where what a request has seen of it splits. -/
theorem Signature.History.exists_split {hist : S.History} {i : ℕ} {past future : S.Trace}
    {x : Sigma S.Reply} (h : hist.of i = past ++ x :: future) :
    ∃ before after, hist = before ++ (i, x) :: after ∧ Signature.History.of before i = past ∧
      Signature.History.of after i = future := by
  induction hist generalizing past with
  | nil => simp at h
  | cons y hist ih =>
    obtain ⟨j, y⟩ := y
    by_cases hj : j = i
    · subst hj
      have hcons : ∀ l : S.History, Signature.History.of ((j, y) :: l) j =
          y :: Signature.History.of l j := by
        intro l
        simp [Signature.History.of]
      rw [hcons] at h
      rcases past with _ | ⟨z, past⟩
      · obtain ⟨rfl, hfuture⟩ := List.cons.inj h
        exact ⟨[], hist, rfl, rfl, hfuture⟩
      · obtain ⟨rfl, hrest⟩ := List.cons.inj h
        obtain ⟨before, after, rfl, rfl, rfl⟩ := ih hrest
        exact ⟨(j, y) :: before, after, rfl, hcons before, rfl⟩
    · have hskip : ∀ l : S.History,
          Signature.History.of ((j, y) :: l) i = Signature.History.of l i := by
        intro l
        simp [Signature.History.of, hj]
      rw [hskip] at h
      obtain ⟨before, after, rfl, rfl, rfl⟩ := ih h
      exact ⟨(j, y) :: before, after, rfl, hskip before, rfl⟩

end Traces
