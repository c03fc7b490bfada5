import Mathlib.Data.List.Basic
import Mathlib.Logic.Basic

/-!
# Effectful programs as trees, and their partial runs

A program over a signature of operations either returns (`done`), raises (`fail`), or
issues one operation and continues with the reply (`call`). The environment is a
`Handler`: a relation saying which replies an operation may get in a world, and which
world it leaves. Replies are chosen by the relation, so faults, clocks and foreign
services are all nondeterminism of the handler and never of the program.

`Runs H p w tr q w'` is a *partial* run: from the program `p` in the world `w`, the
operations of the trace `tr` were answered, leaving the program `q` still to run in the
world `w'`. A killed process is a run that is simply not continued, a finished one is a run
whose remaining program is `done` or `fail`. The bind rules (`Runs.bind_inv`, `Runs.append`)
split runs along the program text, and `Runs.invariant_of_only` is the invariant rule for the
operations a program may issue.

`Restarts` is a program that is run again and again, whatever happened to its earlier runs.
-/

/-- A signature of operations, each with the type of its replies. -/
structure Signature where
  Op : Type
  Reply : Op → Type

/-- Programs over a signature, returning values of `α` or raising errors of `ε`. -/
inductive Prog (S : Signature) (ε α : Type) where
  | done (a : α)
  | fail (e : ε)
  | call (op : S.Op) (k : S.Reply op → Prog S ε α)

namespace Prog

variable {S : Signature} {ε ε' α β γ : Type}

/-- Sequencing: continue with `f` where `p` returns; errors skip `f`. -/
def bind (p : Prog S ε α) (f : α → Prog S ε β) : Prog S ε β :=
  match p with
  | done a => f a
  | fail e => fail e
  | call op k => call op fun r => (k r).bind f

instance : Monad (Prog S ε) where
  pure := done
  bind := bind

/-- Return a computed result, or raise its error. -/
def ofExcept : Except ε α → Prog S ε α
  | .ok a => done a
  | .error e => fail e

instance : MonadLift (Except ε) (Prog S ε) := ⟨ofExcept⟩

/-- Run `p` to its end and hand its outcome, error or not, to the caller. -/
def attempt (p : Prog S ε α) : Prog S ε' (Except ε α) :=
  match p with
  | done a => done (.ok a)
  | fail e => done (.error e)
  | call op k => call op fun r => (k r).attempt

@[simp] theorem pure_eq_done (a : α) : (pure a : Prog S ε α) = done a := rfl

@[simp] theorem bind_eq_bind (p : Prog S ε α) (f : α → Prog S ε β) : (p >>= f) = p.bind f := rfl

@[simp] theorem done_bind (a : α) (f : α → Prog S ε β) : (done a).bind f = f a := rfl

@[simp] theorem fail_bind (e : ε) (f : α → Prog S ε β) : (fail e).bind f = fail e := rfl

@[simp] theorem call_bind (op : S.Op) (k : S.Reply op → Prog S ε α) (f : α → Prog S ε β) :
    (call op k).bind f = call op fun r => (k r).bind f := rfl

/-- The program has nothing left to do: it returned or it raised. -/
def Finished : Prog S ε α → Prop
  | done _ => True
  | fail _ => True
  | call _ _ => False

/-- Every operation the program may ever issue is one of `A`. -/
def Only (A : S.Op → Prop) : Prog S ε α → Prop
  | done _ => True
  | fail _ => True
  | call op k => A op ∧ ∀ r, (k r).Only A

theorem Only.bind {A : S.Op → Prop} {p : Prog S ε α} {f : α → Prog S ε β} (hp : p.Only A)
    (hf : ∀ a, (f a).Only A) : (p.bind f).Only A := by
  induction p with
  | done a => exact hf a
  | fail e => trivial
  | call op k ih => exact ⟨hp.1, fun r => ih r (hp.2 r)⟩

theorem Only.attempt {A : S.Op → Prop} {p : Prog S ε α} (hp : p.Only A) :
    (p.attempt : Prog S ε' (Except ε α)).Only A := by
  induction p with
  | done a => trivial
  | fail e => trivial
  | call op k ih => exact ⟨hp.1, fun r => ih r (hp.2 r)⟩

theorem Only.mono {A B : S.Op → Prop} (hAB : ∀ op, A op → B op) {p : Prog S ε α}
    (hp : p.Only A) : p.Only B := by
  induction p with
  | done a => trivial
  | fail e => trivial
  | call op k ih => exact ⟨hAB op hp.1, fun r => ih r (hp.2 r)⟩

theorem finished_of_bind {p : Prog S ε α} {f : α → Prog S ε β} (h : (p.bind f).Finished) :
    p.Finished := by
  cases p with
  | done a => trivial
  | fail e => trivial
  | call op k => exact h

/-- An attempt has nothing left to do where what it attempts has not. -/
theorem finished_of_attempt_eq_done {p : Prog S ε α} {r : Except ε α}
    (h : (p.attempt : Prog S ε' (Except ε α)) = done r) : p.Finished := by
  cases p with
  | done a => trivial
  | fail e => trivial
  | call op k => cases h

/-- An attempt ends where what it attempts does. -/
theorem finished_of_attempt {p : Prog S ε α}
    (h : (p.attempt : Prog S ε' (Except ε α)).Finished) : p.Finished := by
  cases p with
  | done a => trivial
  | fail e => trivial
  | call op k => exact h

/-- An attempt that has not returned is still running. -/
theorem not_finished_of_attempt {p : Prog S ε α}
    (h : ∀ r, (p.attempt : Prog S ε' (Except ε α)) ≠ done r) :
    ¬ (p.attempt : Prog S ε' (Except ε α)).Finished := by
  cases p with
  | done a => exact absurd rfl (h _)
  | fail e => exact absurd rfl (h _)
  | call op k => exact id

/-- Sequencing is associative. -/
theorem bind_assoc (p : Prog S ε α) (f : α → Prog S ε β) (g : β → Prog S ε γ) :
    (p.bind f).bind g = p.bind fun a => (f a).bind g := by
  induction p with
  | done a => rfl
  | fail e => rfl
  | call op k ih =>
    simp only [call_bind]
    congr 1
    funext r
    exact ih r

end Prog

/-- What the environment may do with an operation: the replies it may give in a world, and
the world it then leaves. -/
abbrev Handler (S : Signature) (W : Type) := (op : S.Op) → W → S.Reply op → W → Prop

/-- The record of a run: the operations answered so far with their replies, oldest first. -/
abbrev Signature.Trace (S : Signature) := List (Sigma S.Reply)

section Runs

variable {S : Signature} {ε ε' α β W : Type} {H : Handler S W}

/-- Partial runs of a program against a handler. -/
inductive Runs (H : Handler S W) :
    Prog S ε α → W → S.Trace → Prog S ε α → W → Prop where
  | refl (p : Prog S ε α) (w : W) : Runs H p w [] p w
  | step {op : S.Op} {k : S.Reply op → Prog S ε α} {w w₁ w' : W} {r : S.Reply op}
      {tr : S.Trace} {q : Prog S ε α} (hop : H op w r w₁) (hrun : Runs H (k r) w₁ tr q w') :
      Runs H (.call op k) w (⟨op, r⟩ :: tr) q w'

namespace Runs

variable {p q : Prog S ε α} {w w' w'' : W} {tr tr' : S.Trace}

/-- A finished program runs no further. -/
theorem done_inv {a : α} (h : Runs H (.done a : Prog S ε α) w tr q w') :
    tr = [] ∧ q = .done a ∧ w' = w := by
  cases h
  exact ⟨rfl, rfl, rfl⟩

/-- A failed program runs no further. -/
theorem fail_inv {e : ε} (h : Runs H (.fail e : Prog S ε α) w tr q w') :
    tr = [] ∧ q = .fail e ∧ w' = w := by
  cases h
  exact ⟨rfl, rfl, rfl⟩

/-- A run of a call has either not started or got its first reply. -/
theorem call_inv {op : S.Op} {k : S.Reply op → Prog S ε α} (h : Runs H (.call op k) w tr q w') :
    (tr = [] ∧ q = .call op k ∧ w' = w) ∨
      ∃ r w₁ tr', H op w r w₁ ∧ tr = ⟨op, r⟩ :: tr' ∧ Runs H (k r) w₁ tr' q w' := by
  cases h with
  | refl => exact Or.inl ⟨rfl, rfl, rfl⟩
  | step hop hrun => exact Or.inr ⟨_, _, _, hop, rfl, hrun⟩

/-- A run of a call that has ended did get its reply. -/
theorem call_inv_of_ne {op : S.Op} {k : S.Reply op → Prog S ε α}
    (h : Runs H (.call op k) w tr q w') (hq : q ≠ .call op k) :
    ∃ r w₁ tr', H op w r w₁ ∧ tr = ⟨op, r⟩ :: tr' ∧ Runs H (k r) w₁ tr' q w' := by
  rcases h.call_inv with ⟨-, rfl, -⟩ | h
  · exact absurd rfl hq
  · exact h

/-- Runs compose. -/
theorem append (h : Runs H p w tr q w') {q' : Prog S ε α} (h' : Runs H q w' tr' q' w'') :
    Runs H p w (tr ++ tr') q' w'' := by
  induction h with
  | refl => exact h'
  | step hop _ ih => exact .step hop (ih h')

/-- A run against a handler is one against any that may answer the same. -/
theorem mono {H' : Handler S W} (hH : ∀ op w r w', H op w r w' → H' op w r w')
    (h : Runs H p w tr q w') : Runs H' p w tr q w' := by
  induction h with
  | refl => exact .refl _ _
  | step hop _ ih => exact .step (hH _ _ _ _ hop) ih

/-- A run of the first part is a run of the whole. -/
theorem bind {f : α → Prog S ε β} (h : Runs H p w tr q w') :
    Runs H (p.bind f) w tr (q.bind f) w' := by
  induction h with
  | refl => exact .refl _ _
  | step hop _ ih => exact .step hop ih

/-- **The sequencing rule.** A run of `p.bind f` is a run still inside `p`, or a finished run
of `p` followed by a run of its continuation. -/
theorem bind_inv {f : α → Prog S ε β} {q : Prog S ε β} (h : Runs H (p.bind f) w tr q w') :
    (∃ p', Runs H p w tr p' w' ∧ q = p'.bind f ∧ ∀ a, p' ≠ .done a) ∨
      ∃ a w₁ tr₁ tr₂, Runs H p w tr₁ (.done a) w₁ ∧ Runs H (f a) w₁ tr₂ q w' ∧
        tr = tr₁ ++ tr₂ := by
  induction p generalizing w tr with
  | done a => exact Or.inr ⟨a, w, [], tr, .refl _ _, h, rfl⟩
  | fail e =>
    obtain ⟨rfl, rfl, rfl⟩ := h.fail_inv
    exact Or.inl ⟨.fail e, .refl _ _, rfl, fun _ h => nomatch h⟩
  | call op k ih =>
    rcases h.call_inv with ⟨rfl, rfl, rfl⟩ | ⟨r, w₁, tr', hop, rfl, hrun⟩
    · exact Or.inl ⟨.call op k, .refl _ _, rfl, fun _ h => nomatch h⟩
    · rcases ih r hrun with ⟨p', hp', rfl, hne⟩ | ⟨a, w₂, tr₁, tr₂, hp, hf, rfl⟩
      · exact Or.inl ⟨p', .step hop hp', rfl, hne⟩
      · exact Or.inr ⟨a, w₂, ⟨op, r⟩ :: tr₁, tr₂, .step hop hp, hf, rfl⟩

/-- A finished run of `p.bind f` is one in which `p` failed, or went through the end of `p`. -/
theorem bind_finished_inv {f : α → Prog S ε β} {q : Prog S ε β}
    (h : Runs H (p.bind f) w tr q w') (hq : q.Finished) :
    (∃ e, Runs H p w tr (.fail e) w' ∧ q = .fail e) ∨
      ∃ a w₁ tr₁ tr₂, Runs H p w tr₁ (.done a) w₁ ∧ Runs H (f a) w₁ tr₂ q w' ∧
        tr = tr₁ ++ tr₂ := by
  rcases h.bind_inv with ⟨p', hp', rfl, hne⟩ | h
  · cases p' with
    | done a => exact absurd rfl (hne a)
    | fail e => exact Or.inl ⟨e, hp', rfl⟩
    | call op k => exact hq.elim
  · exact Or.inr h

/-- A run of an attempt is a run of the program attempted. -/
theorem attempt_inv {q : Prog S ε' (Except ε α)} (h : Runs H (p.attempt) w tr q w') :
    ∃ p', Runs H p w tr p' w' ∧ q = p'.attempt := by
  induction p generalizing w tr with
  | done a =>
    obtain ⟨rfl, rfl, rfl⟩ := h.done_inv
    exact ⟨.done a, .refl _ _, rfl⟩
  | fail e =>
    obtain ⟨rfl, rfl, rfl⟩ := h.done_inv
    exact ⟨.fail e, .refl _ _, rfl⟩
  | call op k ih =>
    rcases h.call_inv with ⟨rfl, rfl, rfl⟩ | ⟨r, w₁, tr', hop, rfl, hrun⟩
    · exact ⟨.call op k, .refl _ _, rfl⟩
    · obtain ⟨p', hp', rfl⟩ := ih r hrun
      exact ⟨p', .step hop hp', rfl⟩

/-- A run of a program is a run of its attempt. -/
theorem attempt (h : Runs H p w tr q w') :
    Runs H (p.attempt : Prog S ε' (Except ε α)) w tr q.attempt w' := by
  induction h with
  | refl => exact .refl _ _
  | step hop _ ih => exact .step hop ih

/-- A run issues only what the program may issue. -/
theorem only {A : S.Op → Prop} (h : Runs H p w tr q w') (hp : p.Only A) :
    ∀ x ∈ tr, A x.1 := by
  induction h with
  | refl => exact fun _ hx => by cases hx
  | step _ _ ih =>
    intro x hx
    rcases List.mem_cons.mp hx with rfl | hx
    · exact hp.1
    · exact ih (hp.2 _) x hx

/-- **The invariant rule.** What the operations a program may issue preserve, its runs
preserve. -/
theorem invariant_of_only {A : S.Op → Prop} {I : W → Prop}
    (hI : ∀ op w r w', A op → H op w r w' → I w → I w') (hp : p.Only A)
    (h : Runs H p w tr q w') (hw : I w) : I w' := by
  induction h with
  | refl => exact hw
  | step hop _ ih => exact ih (hp.2 _) (hI _ _ _ _ hp.1 hop hw)

/-- **Progress.** Where every operation a program may issue is answered, the program can be run
to its end. -/
theorem exists_finished {A : S.Op → Prop} (hA : ∀ op w, A op → ∃ r w', H op w r w')
    {p : Prog S ε α} (hp : p.Only A) (w : W) :
    ∃ tr q w', Runs H p w tr q w' ∧ q.Finished := by
  induction p generalizing w with
  | done a => exact ⟨[], _, w, .refl _ _, trivial⟩
  | fail e => exact ⟨[], _, w, .refl _ _, trivial⟩
  | call op k ih =>
    obtain ⟨r, w₁, hop⟩ := hA op w hp.1
    obtain ⟨tr, q, w', hrun, hq⟩ := ih r (hp.2 r) w₁
    exact ⟨⟨op, r⟩ :: tr, q, w', .step hop hrun, hq⟩

end Runs

/-- A program run over and over: each run stops anywhere, and the next one starts afresh in
the world it left. The traces are those of the runs, oldest first. -/
inductive Restarts (H : Handler S W) (p : Prog S ε α) : W → List S.Trace → W → Prop where
  | nil (w : W) : Restarts H p w [] w
  | snoc {w w₁ w₂ : W} {trs : List S.Trace} {tr : S.Trace} {q : Prog S ε α}
      (h : Restarts H p w trs w₁) (hrun : Runs H p w₁ tr q w₂) :
      Restarts H p w (trs ++ [tr]) w₂

/-- Where nothing was run yet, nothing has changed. -/
theorem Restarts.nil_inv {p : Prog S ε α} {w w' : W} (h : Restarts H p w [] w') : w' = w := by
  generalize htrs : ([] : List S.Trace) = trs at h
  cases h with
  | nil => rfl
  | snoc => simp at htrs

/-- Each of the runs starts in the world the ones before it left, and the ones after it start
in the world it leaves. -/
theorem Restarts.exists_run {p : Prog S ε α} {w w' : W} {past future : List S.Trace}
    {tr : S.Trace} (h : Restarts H p w (past ++ tr :: future) w') :
    ∃ w₁ q w₂, Restarts H p w past w₁ ∧ Runs H p w₁ tr q w₂ ∧ Restarts H p w₂ future w' := by
  generalize htrs : past ++ tr :: future = trs at h
  induction h generalizing future with
  | nil => simp at htrs
  | @snoc w₁ w₂ trs tr' q h hrun ih =>
    rcases List.eq_nil_or_concat future with rfl | ⟨future, x, rfl⟩
    · obtain ⟨rfl, heq⟩ := List.append_inj' htrs rfl
      obtain rfl := (List.cons.inj heq).1
      exact ⟨w₁, q, w₂, h, hrun, .nil _⟩
    · rw [List.concat_eq_append, ← List.cons_append, ← List.append_assoc] at htrs
      obtain ⟨htrs, hlast⟩ := List.append_inj' htrs rfl
      obtain ⟨w₃, q', w₄, hpast, hrun', hfuture⟩ := ih htrs
      obtain rfl := (List.cons.inj hlast).1
      rw [List.concat_eq_append]
      exact ⟨w₃, q', w₄, hpast, hrun', hfuture.snoc hrun⟩

end Runs
