import ConcordBackend.Library.Program
import Mathlib.Data.List.Basic

/-!
# Servers: requests handled side by side

A server runs one program for each request it is sent, and the operations of the programs
are answered one at a time, in any order, against one shared world. `Serves` are the partial
runs of such a server: a request may arrive at any time, and a request whose program is
never answered again (a dropped connection, a stopped server) is one that simply rests.

A run is seen from two sides. Seen from a request it is a path through that request's
program (`Serves.leads`): what the program sent, and what was answered, in between which
anything may have happened. Seen from the world it is one sequence of answered operations
(`Serves.answers`), which splits at any of them (`Answers.split`), so that an invariant of
the world is proved there once for all requests.
-/

/-- The operations a server has answered so far, oldest first, each with the number of the
request that sent it. -/
abbrev Signature.History (S : Signature) := List (ℕ × Sigma S.Reply)

section Server

variable {S : Signature} {ε α X W : Type} {H : Handler S W} {serve : X → Prog S ε α}

/-- What a program may go through when nothing is known of the replies. -/
abbrev Leads (p : Prog S ε α) (tr : S.Trace) (q : Prog S ε α) : Prop :=
  Runs (fun _ _ _ _ => True) p () tr q ()

/-- The part of a history that request `i` has seen. -/
def Signature.History.of (hist : S.History) (i : ℕ) : S.Trace :=
  hist.filterMap fun x => if x.1 = i then some x.2 else none

/-- The history without the numbers of the requests. -/
def Signature.History.trace (hist : S.History) : S.Trace := hist.map Prod.snd

@[simp] theorem Signature.History.of_nil (i : ℕ) : Signature.History.of ([] : S.History) i = [] := rfl

@[simp] theorem Signature.History.of_append (hist hist' : S.History) (i : ℕ) :
    Signature.History.of (hist ++ hist') i = hist.of i ++ hist'.of i := List.filterMap_append

/-- What request `i` sent is in its own part of the history. -/
theorem Signature.History.mem_of {hist : S.History} {i : ℕ} {x : Sigma S.Reply} :
    x ∈ hist.of i ↔ (i, x) ∈ hist := by
  simp only [Signature.History.of, List.mem_filterMap, Option.ite_none_right_eq_some,
    Option.some.injEq]
  constructor
  · rintro ⟨⟨j, y⟩, hmem, rfl, rfl⟩
    exact hmem
  · intro hmem
    exact ⟨(i, x), hmem, rfl, rfl⟩

/-- Partial runs of a server: the history, the requests so far with what is left of their
programs, and the world. -/
inductive Serves (H : Handler S W) (serve : X → Prog S ε α) (w : W) :
    S.History → List (X × Prog S ε α) → W → Prop where
  | start : Serves H serve w [] [] w
  | arrive {hist : S.History} {ts : List (X × Prog S ε α)} {w' : W}
      (h : Serves H serve w hist ts w') (x : X) :
      Serves H serve w hist (ts ++ [(x, serve x)]) w'
  | answer {hist : S.History} {ts : List (X × Prog S ε α)} {w' w'' : W} {i : ℕ} {x : X}
      {op : S.Op} {k : S.Reply op → Prog S ε α} {r : S.Reply op}
      (h : Serves H serve w hist ts w') (hi : ts[i]? = some (x, .call op k))
      (hop : H op w' r w'') :
      Serves H serve w (hist ++ [(i, ⟨op, r⟩)]) (ts.set i (x, k r)) w''

/-- A sequence of operations answered one after the other, whoever sent them. -/
inductive Answers (H : Handler S W) (w : W) : S.Trace → W → Prop where
  | nil : Answers H w [] w
  | snoc {tr : S.Trace} {w' w'' : W} {op : S.Op} {r : S.Reply op} (h : Answers H w tr w')
      (hop : H op w' r w'') : Answers H w (tr ++ [⟨op, r⟩]) w''

namespace Answers

variable {w w' : W} {tr tr' : S.Trace}

/-- A sequence splits at any of its operations. -/
theorem split {x : Sigma S.Reply} (h : Answers H w (tr ++ x :: tr') w') :
    ∃ w₁ w₂, Answers H w tr w₁ ∧ H x.1 w₁ x.2 w₂ ∧ Answers H w₂ tr' w' := by
  generalize htr : tr ++ x :: tr' = ops at h
  induction h generalizing tr' with
  | nil => simp at htr
  | @snoc ops w₁ w₂ op r h hop ih =>
    rcases List.eq_nil_or_concat tr' with rfl | ⟨tr', y, rfl⟩
    · obtain ⟨rfl, heq⟩ := List.append_inj' htr rfl
      obtain rfl := (List.cons.inj heq).1
      exact ⟨w₁, w₂, h, hop, .nil⟩
    · rw [List.concat_eq_append] at htr ⊢
      rw [← List.cons_append, ← List.append_assoc] at htr
      obtain ⟨rfl, heq⟩ := List.append_inj' htr rfl
      obtain rfl := (List.cons.inj heq).1
      obtain ⟨w₃, w₄, hpast, hx, hfuture⟩ := ih rfl
      exact ⟨w₃, w₄, hpast, hx, .snoc hfuture hop⟩

/-- What every answered operation preserves, every sequence of them preserves. -/
theorem invariant {I : W → Prop} (hI : ∀ op w r w', H op w r w' → I w → I w')
    (h : Answers H w tr w') (hw : I w) : I w' := by
  induction h with
  | nil => exact hw
  | snoc _ hop ih => exact hI _ _ _ _ hop ih

end Answers

namespace Serves

variable {w w' : W} {hist : S.History} {ts : List (X × Prog S ε α)} {i : ℕ}

/-- Only requests that have arrived send operations. -/
theorem lt_length (h : Serves H serve w hist ts w') {x : ℕ × Sigma S.Reply} (hx : x ∈ hist) :
    x.1 < ts.length := by
  induction h with
  | start => cases hx
  | arrive h y ih =>
    rw [List.length_append]
    exact Nat.lt_add_right _ (ih hx)
  | answer h hi hop ih =>
    rw [List.length_set]
    rcases List.mem_append.mp hx with hx | hx
    · exact ih hx
    · obtain rfl := List.mem_singleton.mp hx
      exact (List.getElem?_eq_some_iff.mp hi).1

/-- **A run as a request sees it**: a path through the request's program. -/
theorem leads (h : Serves H serve w hist ts w') {x : X} {q : Prog S ε α}
    (hi : ts[i]? = some (x, q)) : Leads (serve x) (hist.of i) q := by
  induction h generalizing q with
  | start => cases hi
  | @arrive hist ts w' h y ih =>
    rcases Nat.lt_or_ge i ts.length with hlt | hge
    · rw [List.getElem?_append_left hlt] at hi
      exact ih hi
    · -- the new request has sent nothing yet
      rw [List.getElem?_append_right hge] at hi
      obtain ⟨rfl, rfl⟩ := Prod.mk.inj (List.mem_singleton.mp (List.mem_of_getElem? hi))
      have hnil : hist.of i = [] := by
        refine List.eq_nil_iff_forall_not_mem.mpr fun z hz => ?_
        exact absurd (h.lt_length (Signature.History.mem_of.mp hz)) (Nat.not_lt.mpr hge)
      rw [hnil]
      exact .refl _ _
  | @answer hist ts w' w'' j y op k r h hj hop ih =>
    rw [Signature.History.of_append]
    rcases eq_or_ne j i with rfl | hne
    · -- the answer is the next step of the path
      rw [List.getElem?_set_self (List.getElem?_eq_some_iff.mp hj).1] at hi
      obtain ⟨rfl, rfl⟩ := Prod.mk.inj (Option.some.inj hi)
      have hlast : Signature.History.of [(j, (⟨op, r⟩ : Sigma S.Reply))] j = [⟨op, r⟩] := by
        simp [Signature.History.of]
      rw [hlast]
      exact (ih hj).append (.step trivial (.refl _ _))
    · rw [List.getElem?_set_ne hne] at hi
      have hlast : Signature.History.of [(j, (⟨op, r⟩ : Sigma S.Reply))] i = [] := by
        simp [Signature.History.of, hne]
      rw [hlast, List.append_nil]
      exact ih hi

/-- **A run as the world sees it**: one sequence of answered operations. -/
theorem answers (h : Serves H serve w hist ts w') : Answers H w hist.trace w' := by
  induction h with
  | start => exact .nil
  | arrive _ _ ih => exact ih
  | answer _ _ hop ih =>
    rw [Signature.History.trace, List.map_append]
    exact .snoc ih hop

/-- What is known of all answers of a run may be asked of the handler. -/
theorem strengthen {P : Sigma S.Reply → Prop} (h : Serves H serve w hist ts w')
    (hP : ∀ e ∈ hist, P e.2) :
    Serves (fun op w r w' => H op w r w' ∧ P ⟨op, r⟩) serve w hist ts w' := by
  induction h with
  | start => exact .start
  | arrive _ x ih => exact .arrive (ih hP) x
  | answer _ hi hop ih =>
    have hlast := hP _ (List.mem_append_right _ (List.mem_singleton.mpr rfl))
    exact .answer (ih fun e he => hP e (List.mem_append_left _ he)) hi ⟨hop, hlast⟩

/-- The last request of a list goes on. -/
theorem set_length_concat {β : Type} (l : List β) (x y : β) :
    (l ++ [x]).set l.length y = l ++ [y] := by
  rw [List.set_append_right _ _ (Nat.le_refl _), Nat.sub_self]
  rfl

/-- A request can go on by itself. -/
theorem goes_on {x : X} {p q : Prog S ε α} {tr : S.Trace} {w'' : W}
    (h : Serves H serve w hist ts w') (hi : ts[i]? = some (x, p)) (hrun : Runs H p w' tr q w'') :
    Serves H serve w (hist ++ tr.map fun y => (i, y)) (ts.set i (x, q)) w'' := by
  induction hrun generalizing hist ts with
  | refl =>
    obtain ⟨hlt, hget⟩ := List.getElem?_eq_some_iff.mp hi
    rw [List.map_nil, List.append_nil, ← hget, List.set_getElem_self]
    exact h
  | step hop _ ih =>
    have hlt := (List.getElem?_eq_some_iff.mp hi).1
    rw [List.map_cons, List.append_cons, ← List.set_set]
    exact ih (h.answer hi hop) (List.getElem?_set_self hlt)

/-- **A request can be served in one go**, as far as its program runs by itself. -/
theorem run (h : Serves H serve w hist ts w') {x : X} {tr : S.Trace} {q : Prog S ε α} {w'' : W}
    (hrun : Runs H (serve x) w' tr q w'') :
    Serves H serve w (hist ++ tr.map fun y => (ts.length, y)) (ts ++ [(x, q)]) w'' :=
  set_length_concat ts _ _ ▸ (h.arrive x).goes_on List.getElem?_concat_length hrun

end Serves

end Server
