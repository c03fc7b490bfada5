import ConcordBackend.Library.Sum

/-!
# What a request ends with

Handlers look things up, and end where something goes wrong or once they have done the one
thing they are for. `Prog.Closes` says so of a program, given which answers are faults and
which are effects: it ends right after either, after a fault with an error that stands for
faults and after an effect with a value that stands for effects, and it raises errors that
stand for faults nowhere else. What such a program ends with therefore tells what it was
answered (`Prog.Closes.fault_iff`, `Prog.Closes.effect`).
-/

section Outcomes

variable {S T : Signature} {ε α β W : Type}

/-- What a program makes of one answer: `p` is what is left of it. -/
inductive Prog.Closing (Fault Effect : Sigma S.Reply → Prop) (Broken : ε → Prop)
    (Accepted : α → Prop) (rest : Prop) (x : Sigma S.Reply) (p : Prog S ε α) : Prop where
  | fault (hx : Fault x) (hquiet : ¬ Effect x) {e : ε} (hp : p = .fail e) (he : Broken e)
  | effect (hx : Effect x) (hsound : ¬ Fault x) {a : α} (hp : p = .done a) (ha : Accepted a)
  | rest (hsound : ¬ Fault x) (hquiet : ¬ Effect x) (hrest : rest)

/-- The program ends with its faults and its effects. -/
def Prog.Closes (Fault Effect : Sigma S.Reply → Prop) (Broken : ε → Prop) (Accepted : α → Prop) :
    Prog S ε α → Prop
  | .done _ => True
  | .fail e => ¬ Broken e
  | .call op k => ∀ r, Prog.Closing Fault Effect Broken Accepted
    ((k r).Closes Fault Effect Broken Accepted) ⟨op, r⟩ (k r)

namespace Prog.Closes

variable {Fault Effect : Sigma S.Reply → Prop} {Broken : ε → Prop} {Accepted : α → Prop}
  {p q : Prog S ε α} {tr : S.Trace} {H : Handler S W} {w w' : W}

/-- A computed result. -/
theorem ofExcept {r : Except ε α} (h : ∀ e, r = .error e → ¬ Broken e) :
    (Prog.ofExcept r : Prog S ε α).Closes Fault Effect Broken Accepted := by
  rcases r with e | a
  · exact h e rfl
  · trivial

/-- Where the effects of the first part are passed on, the whole ends as its parts do. -/
theorem bind {Accepted' : β → Prop} {f : α → Prog S ε β}
    (hp : p.Closes Fault Effect Broken Accepted)
    (hf : ∀ a, (f a).Closes Fault Effect Broken Accepted')
    (haccepted : ∀ a, Accepted a → ∃ b, f a = .done b ∧ Accepted' b) :
    (p.bind f).Closes Fault Effect Broken Accepted' := by
  induction p with
  | done a => exact hf a
  | fail e => exact hp
  | call op k ih =>
    intro r
    change Prog.Closing _ _ _ _ _ _ ((k r).bind f)
    cases hp r with
    | fault hx hquiet hr he =>
      rw [hr]
      exact .fault hx hquiet rfl he
    | effect hx hsound hr ha =>
      obtain ⟨b, hb, hb'⟩ := haccepted _ ha
      rw [hr]
      exact .effect hx hsound hb hb'
    | rest hsound hquiet hrest => exact .rest hsound hquiet (ih r hrest)

/-- Where the first part has no effects. -/
theorem bind_quiet {Accepted' : β → Prop} {f : α → Prog S ε β}
    (hp : p.Closes Fault Effect Broken fun _ => False)
    (hf : ∀ a, (f a).Closes Fault Effect Broken Accepted') :
    (p.bind f).Closes Fault Effect Broken Accepted' := hp.bind hf fun _ h => h.elim

/-- The first of two signatures. -/
theorem inl {Fault' Effect' : Sigma (S.sum T).Reply → Prop}
    (hfault : ∀ op r, Fault' ⟨.inl op, r⟩ ↔ Fault ⟨op, r⟩)
    (heffect : ∀ op r, Effect' ⟨.inl op, r⟩ ↔ Effect ⟨op, r⟩)
    (hp : p.Closes Fault Effect Broken Accepted) :
    (p.inl : Prog (S.sum T) ε α).Closes Fault' Effect' Broken Accepted := by
  induction p with
  | done a => trivial
  | fail e => exact hp
  | call op k ih =>
    intro r
    change Prog.Closing _ _ _ _ _ _ ((k r).inl)
    cases hp r with
    | fault hx hquiet hr he =>
      rw [hr]
      exact .fault ((hfault op r).mpr hx) (mt (heffect op r).mp hquiet) rfl he
    | effect hx hsound hr ha =>
      rw [hr]
      exact .effect ((heffect op r).mpr hx) (mt (hfault op r).mp hsound) rfl ha
    | rest hsound hquiet hrest =>
      exact .rest (mt (hfault op r).mp hsound) (mt (heffect op r).mp hquiet) (ih r hrest)

/-- The second of two signatures. -/
theorem inr {Fault' Effect' : Sigma (T.sum S).Reply → Prop}
    (hfault : ∀ op r, Fault' ⟨.inr op, r⟩ ↔ Fault ⟨op, r⟩)
    (heffect : ∀ op r, Effect' ⟨.inr op, r⟩ ↔ Effect ⟨op, r⟩)
    (hp : p.Closes Fault Effect Broken Accepted) :
    (p.inr : Prog (T.sum S) ε α).Closes Fault' Effect' Broken Accepted := by
  induction p with
  | done a => trivial
  | fail e => exact hp
  | call op k ih =>
    intro r
    change Prog.Closing _ _ _ _ _ _ ((k r).inr)
    cases hp r with
    | fault hx hquiet hr he =>
      rw [hr]
      exact .fault ((hfault op r).mpr hx) (mt (heffect op r).mp hquiet) rfl he
    | effect hx hsound hr ha =>
      rw [hr]
      exact .effect ((heffect op r).mpr hx) (mt (hfault op r).mp hsound) rfl ha
    | rest hsound hquiet hrest =>
      exact .rest (mt (hfault op r).mp hsound) (mt (heffect op r).mp hquiet) (ih r hrest)

/-- **An effect is what the program returns.** -/
theorem effect (hp : p.Closes Fault Effect Broken Accepted) (h : Runs H p w tr q w')
    {x : Sigma S.Reply} (hx : x ∈ tr) (heffect : Effect x) : ∃ a, q = .done a ∧ Accepted a := by
  induction h with
  | refl => cases hx
  | @step op k w w₁ w' r tr q _ hrun ih =>
    cases hp r with
    | fault _ hquiet hr =>
      rw [hr] at hrun
      obtain ⟨rfl, -, -⟩ := hrun.fail_inv
      obtain rfl := List.mem_singleton.mp hx
      exact absurd heffect hquiet
    | effect _ _ hr ha =>
      rw [hr] at hrun
      exact ⟨_, hrun.done_inv.2.1, ha⟩
    | rest _ hquiet hrest =>
      rcases List.mem_cons.mp hx with rfl | hx
      · exact absurd heffect hquiet
      · exact ih hrest hx

/-- **A program fails with an error for faults exactly where it was answered one.** -/
theorem fault_iff (hp : p.Closes Fault Effect Broken Accepted) (h : Runs H p w tr q w')
    (hq : q.Finished) : (∃ e, q = .fail e ∧ Broken e) ↔ ∃ x ∈ tr, Fault x := by
  induction h with
  | refl p =>
    refine iff_of_false ?_ fun ⟨_, hx, _⟩ => by cases hx
    rintro ⟨e, rfl, he⟩
    exact hp he
  | @step op k w w₁ w' r tr q _ hrun ih =>
    cases hp r with
    | fault hx _ hr he =>
      rw [hr] at hrun
      obtain ⟨rfl, rfl, -⟩ := hrun.fail_inv
      exact iff_of_true ⟨_, rfl, he⟩ ⟨_, List.mem_singleton_self _, hx⟩
    | effect _ hsound hr =>
      rw [hr] at hrun
      obtain ⟨rfl, rfl, -⟩ := hrun.done_inv
      refine iff_of_false (fun ⟨_, hfail, _⟩ => by cases hfail) fun ⟨x, hx, hfault⟩ => ?_
      obtain rfl := List.mem_singleton.mp hx
      exact hsound hfault
    | rest hsound _ hrest =>
      rw [ih hrest hq]
      refine ⟨fun ⟨x, hx, hfault⟩ => ⟨x, List.mem_cons_of_mem _ hx, hfault⟩, ?_⟩
      rintro ⟨x, hx, hfault⟩
      rcases List.mem_cons.mp hx with rfl | hx
      · exact absurd hfault hsound
      · exact ⟨x, hx, hfault⟩

end Prog.Closes

end Outcomes
