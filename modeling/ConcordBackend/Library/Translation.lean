import ConcordBackend.Library.Program
import Mathlib.Data.List.Forall2

/-!
# Operations carried out by other operations

A `Signature.Hom` carries out each operation of a signature by one of another, and makes its
reply from that one's. A program runs on the lower signature by carrying out its operations one
by one (`Prog.via`), and its runs there are its runs above, in the same worlds, where an
operation is answered what is made of an answer below (`Hom.pull`, `Runs.of_via`, `Runs.via`).
So what holds of the program above for every handler that may answer as much holds of it below,
also when it is run over and over (`Restarts.of_via`).
-/

/-- Each operation of a signature carried out by one of another. -/
structure Signature.Hom (S T : Signature) where
  op : S.Op → T.Op
  reply : (op' : S.Op) → T.Reply (op op') → S.Reply op'

section Translation

variable {S T : Signature} {ε α W : Type}

/-- A program, with its operations carried out below. -/
def Prog.via (φ : S.Hom T) : Prog S ε α → Prog T ε α
  | .done a => .done a
  | .fail e => .fail e
  | .call op k => .call (φ.op op) fun r => (k (φ.reply op r)).via φ

namespace Signature.Hom

/-- What is answered above, when it is carried out below. -/
def pull (φ : S.Hom T) (K : Handler T W) : Handler S W :=
  fun op w r w' => ∃ r', K (φ.op op) w r' w' ∧ φ.reply op r' = r

/-- The answered operation below carries out the one above. -/
def Carries (φ : S.Hom T) (y : Sigma T.Reply) (x : Sigma S.Reply) : Prop :=
  ∃ r, y = ⟨φ.op x.1, r⟩ ∧ x.2 = φ.reply x.1 r

end Signature.Hom

variable {φ : S.Hom T} {K : Handler T W} {H : Handler S W} {w w' : W}

/-- **A run below is a run above.** -/
theorem Runs.of_via {p : Prog S ε α} {q : Prog T ε α} {tr : T.Trace}
    (h : Runs K (p.via φ) w tr q w') :
    ∃ (q' : Prog S ε α) (tr' : S.Trace), q = q'.via φ ∧ List.Forall₂ φ.Carries tr tr' ∧
      Runs (φ.pull K) p w tr' q' w' := by
  induction p generalizing w tr with
  | done a =>
    obtain ⟨rfl, rfl, rfl⟩ := h.done_inv
    exact ⟨.done a, [], rfl, .nil, .refl _ _⟩
  | fail e =>
    obtain ⟨rfl, rfl, rfl⟩ := h.fail_inv
    exact ⟨.fail e, [], rfl, .nil, .refl _ _⟩
  | call op k ih =>
    rcases Runs.call_inv h with ⟨rfl, rfl, rfl⟩ | ⟨r, w₁, tr₁, hop, rfl, hrun⟩
    · exact ⟨.call op k, [], rfl, .nil, .refl _ _⟩
    · obtain ⟨q', tr', rfl, htr, hq⟩ := ih (φ.reply op r) hrun
      exact ⟨q', ⟨op, φ.reply op r⟩ :: tr', rfl, .cons ⟨r, rfl, rfl⟩ htr, .step ⟨r, hop, rfl⟩ hq⟩

/-- And the other way round. -/
theorem Runs.via {p q : Prog S ε α} {tr : S.Trace} (h : Runs (φ.pull K) p w tr q w') :
    ∃ tr' : T.Trace, List.Forall₂ φ.Carries tr' tr ∧ Runs K (p.via φ) w tr' (q.via φ) w' := by
  induction h with
  | refl => exact ⟨[], .nil, .refl _ _⟩
  | step hop _ ih =>
    obtain ⟨r, hr, rfl⟩ := hop
    obtain ⟨tr', htr, hrun⟩ := ih
    exact ⟨⟨_, r⟩ :: tr', .cons ⟨r, rfl, rfl⟩ htr, .step hr hrun⟩

/-- A program run over and over below is one run over and over above. -/
theorem Restarts.of_via (hφ : ∀ op w r w', φ.pull K op w r w' → H op w r w') {p : Prog S ε α}
    {lives : List T.Trace} (h : Restarts K (p.via φ) w lives w') :
    ∃ lives' : List S.Trace, List.Forall₂ (List.Forall₂ φ.Carries) lives lives' ∧
      Restarts H p w lives' w' := by
  induction h with
  | nil => exact ⟨[], .nil, .nil _⟩
  | snoc _ hrun ih =>
    obtain ⟨lives', hlives, hrestarts⟩ := ih
    obtain ⟨q', tr', -, htr, hrun'⟩ := hrun.of_via
    exact ⟨lives' ++ [tr'], List.rel_append hlives (.cons htr .nil), hrestarts.snoc (hrun'.mono hφ)⟩

/-- A run that only issues operations another handler answers as well is a run against it. -/
theorem Runs.mono_of_only {A : S.Op → Prop} {H' : Handler S W}
    (hH : ∀ op w r w', A op → H op w r w' → H' op w r w') {p q : Prog S ε α} {tr : S.Trace}
    (hp : p.Only A) (h : Runs H p w tr q w') : Runs H' p w tr q w' := by
  induction h with
  | refl => exact .refl _ _
  | step hop _ ih => exact .step (hH _ _ _ _ hp.1 hop) (ih (hp.2 _))

end Translation
