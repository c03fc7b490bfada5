import ConcordBackend.Library.Sum
import Mathlib.Data.List.Forall2

/-!
# Servers that cannot be told apart

What a server answers may depend on part of its world only. To show it, run the server on a
second world that agrees with the first on that part. A `Likeness` says which operations and
which answered operations count as alike; programs are alike where they issue alike operations
and go on alike after alike replies (`Prog.Like`); and the second world simulates the first
where it can always answer alike (`Simulates`). Then every run of the server on the first world
has one on the second that is alike step by step (`Serves.simulate`).
-/

/-- Which operations of a signature, and which of them with their replies, count as alike. -/
structure Likeness (S : Signature) where
  Op : S.Op → S.Op → Prop
  Answer : Sigma S.Reply → Sigma S.Reply → Prop

section Simulation

variable {S T : Signature} {ε ε' α β V W V' W' X : Type}

/-- Outcomes are alike where they are the same error or alike results. -/
inductive Except.Alike (A : α → α → Prop) : Except ε α → Except ε α → Prop where
  | ok {a a' : α} (h : A a a') : Alike A (.ok a) (.ok a')
  | error (e : ε) : Alike A (.error e) (.error e)

/-- Only the same is alike. -/
def Likeness.same (S : Signature) : Likeness S := ⟨Eq, Eq⟩

/-- Each signature with its own likeness. -/
def Likeness.sum (L : Likeness S) (M : Likeness T) : Likeness (S.sum T) where
  Op
    | .inl op, .inl op' => L.Op op op'
    | .inr op, .inr op' => M.Op op op'
    | _, _ => False
  Answer
    | ⟨.inl op, r⟩, ⟨.inl op', r'⟩ => L.Answer ⟨op, r⟩ ⟨op', r'⟩
    | ⟨.inr op, r⟩, ⟨.inr op', r'⟩ => M.Answer ⟨op, r⟩ ⟨op', r'⟩
    | _, _ => False

/-! ### Programs -/

/-- Programs that issue alike operations, go on alike after alike replies, and return alike. -/
inductive Prog.Like (L : Likeness S) (A : α → α → Prop) : Prog S ε α → Prog S ε α → Prop where
  | done {a a' : α} (h : A a a') : Like L A (.done a) (.done a')
  | fail (e : ε) : Like L A (.fail e) (.fail e)
  | call {op op' : S.Op} {k : S.Reply op → Prog S ε α} {k' : S.Reply op' → Prog S ε α}
      (hop : L.Op op op')
      (hk : ∀ r r', L.Answer ⟨op, r⟩ ⟨op', r'⟩ → Like L A (k r) (k' r')) :
      Like L A (.call op k) (.call op' k')

namespace Prog.Like

variable {L : Likeness S} {M : Likeness T} {A : α → α → Prop} {B : β → β → Prop}

theorem bind {p p' : Prog S ε α} {f f' : α → Prog S ε β} (h : Like L A p p')
    (hf : ∀ a a', A a a' → Like L B (f a) (f' a')) : Like L B (p.bind f) (p'.bind f') := by
  induction h with
  | done ha => exact hf _ _ ha
  | fail e => exact .fail e
  | call hop _ ih => exact .call hop ih

/-- Where the results are the same, so is what follows. -/
theorem bind_eq {p p' : Prog S ε α} {f : α → Prog S ε β} (h : Like L Eq p p')
    (hf : ∀ a, Like L B (f a) (f a)) : Like L B (p.bind f) (p'.bind f) :=
  h.bind fun a _ heq => heq ▸ hf a

theorem attempt {p p' : Prog S ε α} (h : Like L A p p') :
    Like L (Except.Alike A) (p.attempt : Prog S ε' (Except ε α)) p'.attempt := by
  induction h with
  | done ha => exact .done (.ok ha)
  | fail e => exact .done (.error e)
  | call hop _ ih => exact .call hop ih

theorem inl {p p' : Prog S ε α} (h : Like L A p p') :
    Like (L.sum M) A (p.inl : Prog (S.sum T) ε α) p'.inl := by
  induction h with
  | done ha => exact .done ha
  | fail e => exact .fail e
  | call hop _ ih => exact .call hop ih

theorem inr {p p' : Prog T ε α} (h : Like M A p p') :
    Like (L.sum M) A (p.inr : Prog (S.sum T) ε α) p'.inr := by
  induction h with
  | done ha => exact .done ha
  | fail e => exact .fail e
  | call hop _ ih => exact .call hop ih

/-- A program is like itself where it issues operations that are, and to which only the same
replies are alike. -/
theorem of_only {O : S.Op → Prop} (hop : ∀ op, O op → L.Op op op)
    (hreply : ∀ op, O op → ∀ r r', L.Answer ⟨op, r⟩ ⟨op, r'⟩ → r = r') {p : Prog S ε α}
    (hp : p.Only O) : Like L Eq p p := by
  induction p with
  | done a => exact .done rfl
  | fail e => exact .fail e
  | call op k ih =>
    refine .call (hop op hp.1) fun r r' hr => ?_
    obtain rfl := hreply op hp.1 r r' hr
    exact ih r (hp.2 r)

/-- Where only the same is alike, every program is like itself. -/
theorem refl (p : Prog S ε α) : Like (.same S) Eq p p := by
  induction p with
  | done a => exact .done rfl
  | fail e => exact .fail e
  | call op k ih =>
    refine .call rfl fun r r' hr => ?_
    obtain rfl := eq_of_heq (Sigma.mk.inj hr).2
    exact ih r

theorem mono {C : α → α → Prop} (hAC : ∀ a a', A a a' → C a a') {p p' : Prog S ε α}
    (h : Like L A p p') : Like L C p p' := by
  induction h with
  | done ha => exact .done (hAC _ _ ha)
  | fail e => exact .fail e
  | call hop _ ih => exact .call hop ih

end Prog.Like

/-! ### Worlds -/

/-- Where the worlds are related, the second can always answer as the first does. -/
def Simulates (L : Likeness S) (H : Handler S W) (K : Handler S V) (R : W → V → Prop) : Prop :=
  ∀ op op' w v r w', L.Op op op' → R w v → H op w r w' →
    ∃ r' v', K op' v r' v' ∧ L.Answer ⟨op, r⟩ ⟨op', r'⟩ ∧ R w' v'

namespace Simulates

variable {L : Likeness S} {M : Likeness T}

/-- The same world answers the same. -/
theorem same (H : Handler S W) : Simulates (.same S) H H Eq := by
  rintro op _ w _ r w' rfl rfl hop
  exact ⟨r, w', hop, rfl, rfl⟩

theorem sum {H : Handler S W} {K : Handler S V} {H' : Handler T W} {K' : Handler T V}
    {R : W → V → Prop} (h : Simulates L H K R) (h' : Simulates M H' K' R) :
    Simulates (L.sum M) (Handler.sum H H') (Handler.sum K K') R := by
  intro op op' w v r w' hop hR hstep
  rcases op with op | op
  · rcases op' with op' | op'
    · exact h op op' w v r w' hop hR hstep
    · exact hop.elim
  · rcases op' with op' | op'
    · exact hop.elim
    · exact h' op op' w v r w' hop hR hstep

/-- Both of two worlds are related. -/
def Both (R : W → V → Prop) (Q : W' → V' → Prop) (w : W × W') (v : V × V') : Prop :=
  R w.1 v.1 ∧ Q w.2 v.2

theorem first {H : Handler S W} {K : Handler S V} {R : W → V → Prop} {Q : W' → V' → Prop}
    (h : Simulates L H K R) : Simulates L H.first K.first (Both R Q) := by
  rintro op op' ⟨w, w₂⟩ ⟨v, v₂⟩ r ⟨w', w₂'⟩ hop ⟨hR, hQ⟩ ⟨hstep, hrest⟩
  obtain ⟨r', v', hstep', hanswer, hR'⟩ := h op op' w v r w' hop hR hstep
  obtain rfl : w₂' = w₂ := hrest
  exact ⟨r', (v', v₂), ⟨hstep', rfl⟩, hanswer, hR', hQ⟩

theorem second {H : Handler T W'} {K : Handler T V'} {R : W → V → Prop} {Q : W' → V' → Prop}
    (h : Simulates M H K Q) : Simulates M H.second K.second (Both R Q) := by
  rintro op op' ⟨w, w₂⟩ ⟨v, v₂⟩ r ⟨w', w₂'⟩ hop ⟨hR, hQ⟩ ⟨hstep, hrest⟩
  obtain ⟨r', v₂', hstep', hanswer, hQ'⟩ := h op op' w₂ v₂ r w₂' hop hQ hstep
  obtain rfl : w' = w := hrest
  exact ⟨r', (v, v₂'), ⟨hstep', rfl⟩, hanswer, hR, hQ'⟩

end Simulates

/-! ### Servers -/

/-- Requests that are the same, with programs that are alike. -/
def SameRequests (L : Likeness S) (A : α → α → Prop) :
    List (X × Prog S ε α) → List (X × Prog S ε α) → Prop :=
  List.Forall₂ fun t t' => t.1 = t'.1 ∧ t.2.Like L A t'.2

/-- Histories that are alike, answer by answer. -/
def SameHistory (L : Likeness S) : S.History → S.History → Prop :=
  List.Forall₂ fun x x' => x.1 = x'.1 ∧ L.Answer x.2 x'.2

/-- A change in the same place. -/
private theorem forall₂_set {R : α → β → Prop} {l : List α} {l' : List β} (h : List.Forall₂ R l l')
    {a : α} {b : β} (hab : R a b) (i : ℕ) : List.Forall₂ R (l.set i a) (l'.set i b) := by
  induction h generalizing i with
  | nil => exact .nil
  | cons hxy hrest ih =>
    rcases i with _ | i
    · exact .cons hab hrest
    · exact .cons hxy (ih i)

/-- **A server cannot tell the worlds apart.** Every run on the first world has one on the
second with the same requests, in which everything that happens is alike. -/
theorem Serves.simulate {L : Likeness S} {A : α → α → Prop} {H : Handler S W} {K : Handler S V}
    {R : W → V → Prop} {serve : X → Prog S ε α} (hsim : Simulates L H K R)
    (hserve : ∀ x, (serve x).Like L A (serve x)) {w w' : W} {v : V} {hist : S.History}
    {ts : List (X × Prog S ε α)} (h : Serves H serve w hist ts w') (hR : R w v) :
    ∃ hist' ts' v', Serves K serve v hist' ts' v' ∧ R w' v' ∧ SameHistory L hist hist' ∧
      SameRequests L A ts ts' := by
  induction h with
  | start => exact ⟨[], [], v, .start, hR, .nil, .nil⟩
  | arrive _ x ih =>
    obtain ⟨hist', ts', v', h', hR', hhist, hts⟩ := ih
    exact ⟨hist', _, v', h'.arrive x, hR', hhist,
      List.rel_append hts (.cons ⟨rfl, hserve x⟩ .nil)⟩
  | @answer hist ts w' w'' i x op k r _ hi hop ih =>
    obtain ⟨hist', ts', v', h', hR', hhist, hts⟩ := ih
    obtain ⟨hlt, hget⟩ := List.getElem?_eq_some_iff.mp hi
    have hlt' : i < ts'.length := hts.length_eq ▸ hlt
    obtain ⟨hx, hlike⟩ := hts.get hlt hlt'
    rw [List.get_eq_getElem, List.get_eq_getElem, hget] at hx hlike
    rcases hi' : ts'[i] with ⟨y, q⟩
    rw [hi'] at hx hlike
    obtain rfl : x = y := hx
    cases hlike with
    | @call _ op' _ k' hop' hk =>
      obtain ⟨r', v'', hstep, hanswer, hR''⟩ := hsim op op' w' v' r w'' hop' hR' hop
      have hi' : ts'[i]? = some (x, .call op' k') := List.getElem?_eq_some_iff.mpr ⟨hlt', hi'⟩
      have hrest : (x, k r).1 = (x, k' r').1 ∧ (k r).Like L A (k' r') := ⟨rfl, hk r r' hanswer⟩
      exact ⟨_, _, v'', h'.answer hi' hstep, hR'',
        List.rel_append hhist (.cons ⟨rfl, hanswer⟩ .nil), forall₂_set hts hrest i⟩

end Simulation
