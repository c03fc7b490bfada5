import ConcordBackend.Library.Server
import Mathlib.Data.List.Dedup

/-!
# Collections kept by a server

Some answers of a server put an element into a collection and some take elements out of it.
Which elements are then in the collection can be read off the log of its answers (`Holds`),
without any notion of a store: an answer has put the element there, and none since has taken
it out.

A store implements the collection where every request takes its effect on the store with the
operation it is answered after (`TakesEffect`). Then, however requests run side by side, the
store holds what the log of the answers given so far says (`Serves.stored_iff_holds`).
-/

/-! ### Logs -/

section Log

variable {β κ : Type} {puts takes : β → κ → Prop} {log : List β} {b : β} {y : κ}

/-- After the entries of a log an element is in the collection: an entry has put it there, and
none since has taken it out. -/
def Holds (puts takes : β → κ → Prop) (log : List β) (y : κ) : Prop :=
  ∃ past b future, log = past ++ b :: future ∧ puts b y ∧ ∀ c ∈ future, ¬ takes c y

theorem not_holds_nil : ¬ Holds puts takes [] y := by
  rintro ⟨past, b, future, hlog, -⟩
  exact List.append_ne_nil_of_right_ne_nil past (List.cons_ne_nil b future) hlog.symm

theorem Holds.exists_mem (h : Holds puts takes log y) : ∃ b ∈ log, puts b y := by
  obtain ⟨past, b, future, rfl, hput, -⟩ := h
  exact ⟨b, List.mem_append_right _ List.mem_cons_self, hput⟩

/-- One more entry puts in what it puts in, and keeps what it does not take out. -/
theorem holds_concat :
    Holds puts takes (log ++ [b]) y ↔ puts b y ∨ Holds puts takes log y ∧ ¬ takes b y := by
  constructor
  · rintro ⟨past, c, future, hlog, hput, hkept⟩
    rcases List.eq_nil_or_concat future with rfl | ⟨future, d, rfl⟩
    · obtain ⟨-, heq⟩ := List.append_inj' hlog rfl
      obtain rfl := (List.cons.inj heq).1
      exact Or.inl hput
    · rw [List.concat_eq_append] at hlog hkept
      rw [← List.cons_append, ← List.append_assoc] at hlog
      obtain ⟨rfl, heq⟩ := List.append_inj' hlog rfl
      obtain rfl := (List.cons.inj heq).1
      exact Or.inr ⟨⟨past, c, future, rfl, hput, fun x hx => hkept x (List.mem_append_left _ hx)⟩,
        hkept b (List.mem_append_right _ List.mem_cons_self)⟩
  · rintro (hput | ⟨⟨past, c, future, rfl, hput, hkept⟩, hkeep⟩)
    · exact ⟨log, b, [], rfl, hput, fun x hx => by cases hx⟩
    · refine ⟨past, c, future ++ [b], by rw [List.append_assoc, List.cons_append], hput, ?_⟩
      intro x hx
      rcases List.mem_append.mp hx with hx | hx
      · exact hkept x hx
      · rw [List.mem_singleton.mp hx]
        exact hkeep

end Log

/-! ### The answers of a server -/

section Answers

variable {S : Signature} {ε α X W : Type}

/-- What a program has returned. -/
def Prog.result? : Prog S ε α → Option α
  | .done a => some a
  | _ => none

/-- The requests that have been answered, each with its answer, in the order of the operations
they were answered after. -/
def Signature.History.answered (hist : S.History) (ts : List (X × Prog S ε α)) : List (X × α) :=
  (hist.map Prod.fst).dedup.filterMap fun i => ts[i]?.bind fun t => t.2.result?.map fun a => (t.1, a)

/-- Of a repeated number the last occurrence counts. -/
private theorem dedup_concat (l : List ℕ) (i : ℕ) :
    (l ++ [i]).dedup = (l.dedup.filter fun j => j ≠ i) ++ [i] := by
  induction l with
  | nil => rfl
  | cons j l ih =>
    rw [List.cons_append, List.dedup_cons, List.dedup_cons, ih]
    rcases eq_or_ne j i with rfl | hne
    · by_cases hj : j ∈ l
      · simp [hj]
      · simp [hj]
    · by_cases hj : j ∈ l
      · simp [hj]
      · simp [hj, hne]

/-- Operations of a program, each with what the program does with the reply. -/
def Prog.Each (A : (op : S.Op) → (S.Reply op → Prog S ε α) → Prop) : Prog S ε α → Prop
  | .done _ => True
  | .fail _ => True
  | .call op k => A op k ∧ ∀ r, (k r).Each A

theorem Prog.Only.each {A : S.Op → Prop} {B : (op : S.Op) → (S.Reply op → Prog S ε α) → Prop}
    (hAB : ∀ op k, A op → B op k) {p : Prog S ε α} (hp : p.Only A) : p.Each B := by
  induction p with
  | done a => trivial
  | fail e => trivial
  | call op k ih => exact ⟨hAB op k hp.1, fun r => ih r (hp.2 r)⟩

/-- What is left of a program. -/
theorem Runs.each {H : Handler S W} {A : (op : S.Op) → (S.Reply op → Prog S ε α) → Prop}
    {p q : Prog S ε α} {w w' : W} {tr : S.Trace} (h : Runs H p w tr q w') (hp : p.Each A) :
    q.Each A := by
  induction h with
  | refl => exact hp
  | step _ _ ih => exact ih (hp.2 _)

/-- A request of one operation that has not been answered has not begun. -/
theorem Runs.eq_of_single {H : Handler S W} {op op' : S.Op} {answer : S.Reply op → α}
    {k : S.Reply op' → Prog S ε α} {w w' : W} {tr : S.Trace}
    (h : Runs H (.call op fun r => .done (answer r) : Prog S ε α) w tr (.call op' k) w') :
    Prog.call op' k = Prog.call op fun r => .done (answer r) := by
  rcases h.call_inv with ⟨-, heq, -⟩ | ⟨r, w₁, tr', -, -, hrest⟩
  · exact heq
  · obtain ⟨-, heq, -⟩ := hrest.done_inv
    cases heq

end Answers

/-- Where every operation changes the store as its answer changes the collection, the store
holds what the answers say. -/
theorem Answers.stored_iff_holds {S : Signature} {W κ : Type} {H : Handler S W}
    {puts takes : Sigma S.Reply → κ → Prop} {stored : W → κ → Prop} {tr : S.Trace} {w w' : W}
    (hstep : ∀ op w r w', H op w r w' → ∀ y,
      stored w' y ↔ puts ⟨op, r⟩ y ∨ stored w y ∧ ¬ takes ⟨op, r⟩ y)
    (h : Answers H w tr w') (hempty : ∀ y, ¬ stored w y) (y : κ) :
    stored w' y ↔ Holds puts takes tr y := by
  induction h generalizing y with
  | nil => exact iff_of_false (hempty y) not_holds_nil
  | snoc _ hop ih => rw [hstep _ _ _ _ hop y, ih, holds_concat]

section Server

variable {S : Signature} {ε α X W κ : Type} {H : Handler S W} {serve : X → Prog S ε α}
  {w w' : W} {hist : S.History} {ts : List (X × Prog S ε α)}

namespace Serves

/-- A request that has only arrived is not answered. -/
theorem answered_arrive (h : Serves H serve w hist ts w') (t : X × Prog S ε α) :
    hist.answered (ts ++ [t]) = hist.answered ts := by
  refine List.filterMap_congr fun i hi => ?_
  obtain ⟨e, he, rfl⟩ := List.mem_map.mp (List.mem_dedup.mp hi)
  rw [List.getElem?_append_left (h.lt_length he)]

/-- A request whose program returns is answered last. -/
theorem answered_answer {i : ℕ} {x : X} {op : S.Op} {k : S.Reply op → Prog S ε α}
    (y : Sigma S.Reply) (q : Prog S ε α) (hi : ts[i]? = some (x, .call op k)) :
    Signature.History.answered (hist ++ [(i, y)]) (ts.set i (x, q)) =
      hist.answered ts ++ (q.result?.map fun a => (x, a)).toList := by
  have hlast : (ts.set i (x, q))[i]? = some (x, q) :=
    List.getElem?_set_self (List.getElem?_eq_some_iff.mp hi).1
  rw [Signature.History.answered, List.map_append, List.map_cons, List.map_nil, dedup_concat,
    List.filterMap_append, List.filterMap_filter, List.filterMap_cons, List.filterMap_nil, hlast]
  congr 1
  -- the others are where they were, and the request itself was still running
  refine List.filterMap_congr fun j _ => ?_
  rcases eq_or_ne j i with rfl | hne
  · simp [hi, Prog.result?]
  · simp [hne, List.getElem?_set_ne hne.symm]

/-- A request served in one go to its end is answered last. -/
theorem answered_run (h : Serves H serve w hist ts w') (x : X) (a : α) {tr : S.Trace}
    (htr : tr ≠ []) :
    Signature.History.answered (hist ++ tr.map fun y => (ts.length, y)) (ts ++ [(x, .done a)]) =
      hist.answered ts ++ [(x, a)] := by
  have hnew : ((tr.map fun y => (ts.length, y)).map Prod.fst).dedup = [ts.length] := by
    rw [List.map_map]
    change (tr.map fun _ => ts.length).dedup = _
    rw [List.map_const', List.replicate_dedup (mt List.eq_nil_of_length_eq_zero htr)]
  have hfresh : (hist.map Prod.fst).Disjoint ((tr.map fun y => (ts.length, y)).map Prod.fst) := by
    intro i hi hnew
    obtain ⟨e, he, rfl⟩ := List.mem_map.mp hi
    have hlt := h.lt_length he
    simp only [List.map_map, List.mem_map, Function.comp_apply] at hnew
    obtain ⟨y, -, heq⟩ := hnew
    omega
  rw [Signature.History.answered, List.map_append, hfresh.dedup_append, hnew,
    List.filterMap_append]
  congr 1
  · exact h.answered_arrive _
  · simp [Prog.result?]

end Serves

/-- The operation and the reply after which a request `x` is answered change the store as the
answer changes the collection; the operations before that leave it alone. -/
def TakesEffect (H : Handler S W) (puts takes : X × α → κ → Prop) (stored : W → κ → Prop) (x : X)
    (op : S.Op) (k : S.Reply op → Prog S ε α) : Prop :=
  ∀ w r w', H op w r w' → ∀ y, stored w' y ↔
    (∃ a, (k r).result? = some a ∧ puts (x, a) y) ∨
      stored w y ∧ ∀ a, (k r).result? = some a → ¬ takes (x, a) y

/-- What leaves the store alone and answers nothing that counts. -/
theorem TakesEffect.of_frame {puts takes : X × α → κ → Prop} {stored : W → κ → Prop} {x : X}
    {op : S.Op} {k : S.Reply op → Prog S ε α}
    (hframe : ∀ w r w', H op w r w' → ∀ y, stored w' y ↔ stored w y)
    (hnone : ∀ r a, (k r).result? = some a → ∀ y, ¬ puts (x, a) y ∧ ¬ takes (x, a) y) :
    TakesEffect H puts takes stored x op k := by
  intro w r w' hop y
  rw [hframe w r w' hop y]
  constructor
  · exact fun h => Or.inr ⟨h, fun a ha => (hnone r a ha y).2⟩
  · rintro (⟨a, ha, hput⟩ | ⟨h, -⟩)
    · exact absurd hput (hnone r a ha y).1
    · exact h

/-- The operation a request is answered after, whatever is replied to it. -/
theorem TakesEffect.of_done {puts takes : X × α → κ → Prop} {stored : W → κ → Prop} {x : X}
    {op : S.Op} {k : S.Reply op → Prog S ε α} (answer : S.Reply op → α)
    (hk : ∀ r, k r = .done (answer r))
    (heffect : ∀ w r w', H op w r w' → ∀ y, stored w' y ↔
      puts (x, answer r) y ∨ stored w y ∧ ¬ takes (x, answer r) y) :
    TakesEffect H puts takes stored x op k := by
  intro w r w' hop y
  rw [heffect w r w' hop y, hk r]
  simp [Prog.result?]

/-- **The store holds what the log says.** Where every request takes its effect with the
operation it is answered after, what is stored at any moment is what the answers given so far
have put in and not taken out since. -/
theorem Serves.stored_iff_holds {puts takes : X × α → κ → Prop} {stored : W → κ → Prop}
    (hserve : ∀ x, (serve x).Each (TakesEffect H puts takes stored x))
    (h : Serves H serve w hist ts w') (hempty : ∀ y, ¬ stored w y) (y : κ) :
    stored w' y ↔ Holds puts takes (hist.answered ts) y := by
  induction h generalizing y with
  | start => exact iff_of_false (hempty y) not_holds_nil
  | arrive h x ih => rw [h.answered_arrive, ih]
  | @answer hist ts w' w'' i x op k r h hi hop ih =>
    have hleft : (Prog.call op k).Each (TakesEffect H puts takes stored x) :=
      (h.leads hi).each (hserve x)
    rw [hleft.1 w' r w'' hop y, answered_answer _ _ hi, ih]
    rcases hresult : (k r).result? with _ | a
    · simp
    · rw [Option.map_some, Option.toList_some, holds_concat]
      simp

end Server
