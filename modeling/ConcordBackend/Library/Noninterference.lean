import ConcordBackend.Library.Server
import Mathlib.Data.List.Count
import Mathlib.Data.List.Forall2
import Mathlib.Logic.Function.Basic

/-!
# Noninterference between the users of a server

One user of a server sees her own requests and their answers. `Unwinding` are the conditions
under which she cannot tell what the others do: a part of the world is her own (`view`), the
operations of the others leave it alone, and what her own operations answer and do to it is
determined by it. What may still differ between two worlds with the same view (the order of a
list, say) is what `Alike` forgets, and what the surroundings decide (whether an operation
fails) is what `choice` reads off a reply.

Then a run of the server goes for her as one in which she is alone (`Unwinding.solo`), and a
run in which she is alone is determined by the order of her operations. Two runs handle her
requests in the same order where no two of her operations come in opposite orders
(`SameOrder`); it follows that they do the same operations in the same order
(`eq_of_sameOrder`), and that she receives the same answers (`Unwinding.noninterference`).
-/

section Schedules

/-! ### Schedules -/

/-- The operations of a schedule that goes on after `past`: each the number of a request, and
how many operations of the request came before. -/
def labelsFrom (past : List ℕ) : List ℕ → List (ℕ × ℕ)
  | [] => []
  | i :: schedule => (i, past.count i) :: labelsFrom (past ++ [i]) schedule

/-- The operations of a schedule. -/
def labels (schedule : List ℕ) : List (ℕ × ℕ) := labelsFrom [] schedule

/-- No two operations come in opposite orders. -/
def SameOrder (schedule schedule' : List ℕ) : Prop :=
  ∀ a b, [a, b].Sublist (labels schedule) → ¬ [b, a].Sublist (labels schedule')

theorem labelsFrom_append (past schedule rest : List ℕ) : labelsFrom past (schedule ++ rest) =
    labelsFrom past schedule ++ labelsFrom (past ++ schedule) rest := by
  induction schedule generalizing past with
  | nil => simp [labelsFrom]
  | cons i schedule ih =>
    rw [List.cons_append, labelsFrom, ih, List.append_assoc, List.singleton_append]
    rfl

theorem labels_append_cons (schedule : List ℕ) (i : ℕ) (rest : List ℕ) :
    labels (schedule ++ i :: rest) =
      labels schedule ++ (i, schedule.count i) :: labelsFrom (schedule ++ [i]) rest := by
  rw [labels, labelsFrom_append, List.nil_append]
  rfl

@[simp] theorem length_labelsFrom (past schedule : List ℕ) :
    (labelsFrom past schedule).length = schedule.length := by
  induction schedule generalizing past with
  | nil => rfl
  | cons i schedule ih => rw [labelsFrom, List.length_cons, List.length_cons, ih]

theorem labels_concat (schedule : List ℕ) (i : ℕ) :
    labels (schedule ++ [i]) = labels schedule ++ [(i, schedule.count i)] :=
  labels_append_cons schedule i []

@[simp] theorem map_fst_labelsFrom (past schedule : List ℕ) :
    (labelsFrom past schedule).map Prod.fst = schedule := by
  induction schedule generalizing past with
  | nil => rfl
  | cons i schedule ih => rw [labelsFrom, List.map_cons, ih]

private theorem count_le_of_mem_labelsFrom {past schedule : List ℕ} {b : ℕ × ℕ}
    (hb : b ∈ labelsFrom past schedule) : past.count b.1 ≤ b.2 := by
  induction schedule generalizing past with
  | nil => cases hb
  | cons i schedule ih =>
    rcases List.mem_cons.mp hb with rfl | hb
    · exact Nat.le_refl _
    · have hlater := ih hb
      rw [List.count_append] at hlater
      exact Nat.le_of_add_right_le hlater

/-- Operations of one request come in order. -/
theorem labelsFrom_pairwise (past schedule : List ℕ) :
    (labelsFrom past schedule).Pairwise fun a b => a.1 = b.1 → a.2 < b.2 := by
  induction schedule generalizing past with
  | nil => exact .nil
  | cons i schedule ih =>
    refine List.pairwise_cons.mpr ⟨?_, ih (past ++ [i])⟩
    rintro b hb rfl
    have hlater := count_le_of_mem_labelsFrom hb
    rw [List.count_append, List.count_singleton_self] at hlater
    exact hlater

/-- Two operations in the order of their requests. -/
private theorem le_of_sublist_labels {schedule : List ℕ} (h : schedule.Pairwise (· ≤ ·))
    {a b : ℕ × ℕ} (hab : [a, b].Sublist (labels schedule)) :
    a.1 ≤ b.1 ∧ (a.1 = b.1 → a.2 < b.2) := by
  constructor
  · have hfst := hab.map Prod.fst
    rw [labels, map_fst_labelsFrom] at hfst
    exact List.rel_of_pairwise_cons (h.sublist hfst) (List.mem_singleton.mpr rfl)
  · have hpair := (labelsFrom_pairwise [] schedule).sublist hab
    exact List.rel_of_pairwise_cons hpair (List.mem_singleton.mpr rfl)

/-- A user who waits for each answer before she sends the next request has her requests handled in
one order only. -/
theorem sameOrder_of_pairwise {schedule schedule' : List ℕ} (h : schedule.Pairwise (· ≤ ·))
    (h' : schedule'.Pairwise (· ≤ ·)) : SameOrder schedule schedule' := by
  intro a b hab hba
  obtain ⟨hle, hlt⟩ := le_of_sublist_labels h hab
  obtain ⟨hle', hlt'⟩ := le_of_sublist_labels h' hba
  omega

/-- The next operation of another request comes after that of the request that goes first. -/
theorem sublist_labels {past rest : List ℕ} {i j : ℕ} (hne : j ≠ i) (hj : j ∈ rest) :
    [(i, past.count i), (j, past.count j)].Sublist (labels (past ++ i :: rest)) := by
  obtain ⟨mid, rest, rfl, hmid⟩ := List.eq_append_cons_of_mem hj
  have hcount : (past ++ i :: mid).count j = past.count j := by
    rw [List.count_append, List.count_cons_of_ne hne.symm, List.count_eq_zero_of_not_mem hmid]
    rfl
  have hsplit : past ++ i :: (mid ++ j :: rest) = (past ++ i :: mid) ++ j :: rest := by simp
  rw [hsplit, labels_append_cons, hcount, labels_append_cons, ← List.singleton_append]
  refine List.Sublist.append ?_ ?_
  · exact (List.singleton_sublist.mpr List.mem_cons_self).trans (List.sublist_append_right _ _)
  · exact List.singleton_sublist.mpr List.mem_cons_self

/-- Two lists are equal, or one goes on where the other ends, or they part somewhere. -/
theorem eq_or_part (l l' : List ℕ) : l = l' ∨ (∃ j rest, l' = l ++ j :: rest) ∨
    (∃ i rest, l = l' ++ i :: rest) ∨
    ∃ past i rest j rest', i ≠ j ∧ l = past ++ i :: rest ∧ l' = past ++ j :: rest' := by
  induction l generalizing l' with
  | nil =>
    rcases l' with _ | ⟨j, rest⟩
    · exact Or.inl rfl
    · exact Or.inr (Or.inl ⟨j, rest, rfl⟩)
  | cons i l ih =>
    rcases l' with _ | ⟨j, l'⟩
    · exact Or.inr (Or.inr (Or.inl ⟨i, l, rfl⟩))
    rcases eq_or_ne i j with rfl | hne
    · rcases ih l' with rfl | ⟨j, rest, rfl⟩ | ⟨j, rest, rfl⟩ | ⟨past, a, rest, b, rest', h, rfl, rfl⟩
      · exact Or.inl rfl
      · exact Or.inr (Or.inl ⟨j, rest, rfl⟩)
      · exact Or.inr (Or.inr (Or.inl ⟨j, rest, rfl⟩))
      · exact Or.inr (Or.inr (Or.inr ⟨i :: past, a, rest, b, rest', h, rfl, rfl⟩))
    · exact Or.inr (Or.inr (Or.inr ⟨[], i, l, j, l', hne, rfl, rfl⟩))

end Schedules

section Solo

/-! ### One user alone -/

variable {S : Signature} {ε α C V : Type}

/-- A user alone: the programs of her requests, and her part of the world. -/
structure Solo (S : Signature) (ε α V : Type) where
  progs : ℕ → Prog S ε α
  view : V

/-- The next operation of request `i`, with what the surroundings decide about it. -/
def Solo.step (act : C → V → (op : S.Op) → S.Reply op × V) (c : C) (i : ℕ) (s : Solo S ε α V) :
    Solo S ε α V :=
  match s.progs i with
  | .call op k =>
    ⟨Function.update s.progs i (k (act c s.view op).1), (act c s.view op).2⟩
  | _ => s

/-- The run of a user alone along a schedule. -/
def Solo.run (act : C → V → (op : S.Op) → S.Reply op × V) (outer : ℕ × ℕ → C)
    (ls : List (ℕ × ℕ)) (s : Solo S ε α V) : Solo S ε α V :=
  ls.foldl (fun s l => s.step act (outer l) l.1) s

variable {act : C → V → (op : S.Op) → S.Reply op × V} {outer : ℕ × ℕ → C} {s : Solo S ε α V}

/-- A step goes on with the answer of the user's part of the world. -/
theorem Solo.step_of_call {c : C} {i : ℕ} {op : S.Op} {k : S.Reply op → Prog S ε α}
    (h : s.progs i = .call op k) : (s.step act c i).progs i = k (act c s.view op).1 ∧
      (s.step act c i).view = (act c s.view op).2 := by
  rw [Solo.step, h]
  exact ⟨Function.update_self _ _ _, rfl⟩

/-- A step changes no other program. -/
theorem Solo.progs_step_of_ne {c : C} {i j : ℕ} (h : j ≠ i) :
    (s.step act c i).progs j = s.progs j := by
  unfold Solo.step
  split
  · exact Function.update_of_ne h _ _
  · rfl

theorem Solo.run_append (ls ls' : List (ℕ × ℕ)) :
    s.run act outer (ls ++ ls') = (s.run act outer ls).run act outer ls' := List.foldl_append

/-- A request that does nothing more keeps its program. -/
theorem Solo.progs_run_labelsFrom {j : ℕ} {rest : List ℕ} (hj : j ∉ rest) (past : List ℕ) :
    (s.run act outer (labelsFrom past rest)).progs j = s.progs j := by
  induction rest generalizing s past with
  | nil => rfl
  | cons i rest ih =>
    obtain ⟨hne, hrest⟩ := not_or.mp (mt List.mem_cons.mpr hj)
    exact (ih hrest (past ++ [i])).trans (Solo.progs_step_of_ne hne)

/-- A schedule in which each request that is given a turn has something to do. -/
def Solo.Busy (act : C → V → (op : S.Op) → S.Reply op × V) (outer : ℕ × ℕ → C)
    (s : Solo S ε α V) (schedule : List ℕ) : Prop :=
  ∀ past i rest, schedule = past ++ i :: rest →
    ¬ ((s.run act outer (labels past)).progs i).Finished

theorem Solo.busy_concat {schedule : List ℕ} {j : ℕ} (h : s.Busy act outer schedule)
    (hj : ¬ ((s.run act outer (labels schedule)).progs j).Finished) :
    s.Busy act outer (schedule ++ [j]) := by
  intro past i rest heq
  rcases List.eq_nil_or_concat rest with rfl | ⟨rest, i', rfl⟩
  · obtain ⟨rfl, hlast⟩ := List.append_inj' heq rfl
    obtain rfl := (List.cons.inj hlast).1
    exact hj
  · rw [List.concat_eq_append, ← List.cons_append, ← List.append_assoc] at heq
    exact h past i rest (List.append_inj' heq rfl).1

/-- A request that still has something to do after `past` is given another turn, if it has
ended after the whole schedule. -/
theorem Solo.mem_of_finished {past rest : List ℕ} {i j : ℕ} (hne : j ≠ i)
    (hbusy : ¬ ((s.run act outer (labels past)).progs j).Finished)
    (hfin : ((s.run act outer (labels (past ++ i :: rest))).progs j).Finished) : j ∈ rest := by
  by_contra hj
  refine hbusy ?_
  have hsame : (s.run act outer (labels (past ++ i :: rest))).progs j =
      (s.run act outer (labels past)).progs j := by
    rw [labels, labelsFrom_append, Solo.run_append]
    exact Solo.progs_run_labelsFrom (List.not_mem_cons_of_ne_of_not_mem hne hj) _
  rwa [hsame] at hfin

/-- **The order of the operations determines the schedule**, if every request ends. -/
theorem eq_of_sameOrder {schedule schedule' : List ℕ} (horder : SameOrder schedule schedule')
    (hbusy : s.Busy act outer schedule) (hbusy' : s.Busy act outer schedule')
    (hfin : ∀ i ∈ schedule', ((s.run act outer (labels schedule)).progs i).Finished)
    (hfin' : ∀ i ∈ schedule, ((s.run act outer (labels schedule')).progs i).Finished) :
    schedule = schedule' := by
  rcases eq_or_part schedule schedule' with heq | ⟨j, rest, rfl⟩ | ⟨i, rest, rfl⟩ |
    ⟨past, i, rest, j, rest', hne, rfl, rfl⟩
  · exact heq
  · have hj : j ∈ schedule ++ j :: rest := List.mem_append_right _ List.mem_cons_self
    exact absurd (hfin j hj) (hbusy' schedule j rest rfl)
  · have hi : i ∈ schedule' ++ i :: rest := List.mem_append_right _ List.mem_cons_self
    exact absurd (hfin' i hi) (hbusy schedule' i rest rfl)
  · -- both go on after `past`, so each of the two comes first in one of the schedules
    have hi : i ∈ past ++ i :: rest := List.mem_append_right _ List.mem_cons_self
    have hj : j ∈ past ++ j :: rest' := List.mem_append_right _ List.mem_cons_self
    have hjrest := Solo.mem_of_finished hne.symm (hbusy' past j rest' rfl) (hfin j hj)
    have hirest := Solo.mem_of_finished hne (hbusy past i rest rfl) (hfin' i hi)
    exact absurd (sublist_labels hne hirest) (horder _ _ (sublist_labels hne.symm hjrest))

end Solo

section Own

/-! ### The requests of one user -/

variable {S : Signature} {ε α X W : Type} {H : Handler S W} {serve : X → Prog S ε α}
  {mine : X → Bool} {ts : List (X × Prog S ε α)}

/-- The requests of the user. -/
def ownRequests (mine : X → Bool) (ts : List (X × Prog S ε α)) : List (X × Prog S ε α) :=
  ts.filter fun t => mine t.1

/-- The number of a request among those of the user. -/
def rank (mine : X → Bool) (xs : List X) (i : ℕ) : ℕ := (xs.take i).countP mine

/-- What the server answered the user, with the numbers of her requests among hers. -/
def ownHistory (mine : X → Bool) (xs : List X) (hist : S.History) : S.History :=
  hist.filterMap fun e => if xs[e.1]?.any mine then some (rank mine xs e.1, e.2) else none

/-- The schedule of the user's requests. -/
def ownSchedule (mine : X → Bool) (xs : List X) (hist : S.History) : List ℕ :=
  (ownHistory mine xs hist).map Prod.fst

/-- Every operation of the user with the answer it got. -/
def ownAnswers (mine : X → Bool) (xs : List X) (hist : S.History) :
    List ((ℕ × ℕ) × Sigma S.Reply) :=
  (labels (ownSchedule mine xs hist)).zip ((ownHistory mine xs hist).map Prod.snd)

/-- The requests themselves. -/
theorem map_fst_ownRequests :
    (ownRequests mine ts).map Prod.fst = (ts.map Prod.fst).filter mine := by
  rw [ownRequests, List.filter_map]
  rfl

/-- A list split at one of its entries. -/
private theorem exists_split {β : Type} {l : List β} {i : ℕ} {b : β} (h : l[i]? = some b) :
    ∃ past rest, l = past ++ b :: rest ∧ past.length = i := by
  obtain ⟨hi, rfl⟩ := List.getElem?_eq_some_iff.mp h
  refine ⟨l.take i, l.drop (i + 1), ?_, List.length_take_of_le (Nat.le_of_lt hi)⟩
  rw [← List.drop_eq_getElem_cons hi, List.take_append_drop]

private theorem set_split {β : Type} (past rest : List β) (b b' : β) :
    (past ++ b :: rest).set past.length b' = past ++ b' :: rest := by
  rw [List.set_append_right _ _ (Nat.le_refl _), Nat.sub_self]
  rfl

private theorem rank_split (past rest : List (X × Prog S ε α)) (t : X × Prog S ε α) :
    rank mine ((past ++ t :: rest).map Prod.fst) past.length = (ownRequests mine past).length := by
  have htake : ((past ++ t :: rest).map Prod.fst).take past.length = past.map Prod.fst := by
    rw [← List.map_take, List.take_left]
  rw [rank, htake, List.countP_map, ownRequests, ← List.countP_eq_length_filter]
  rfl

private theorem ownRequests_split {past rest : List (X × Prog S ε α)} {t : X × Prog S ε α} :
    ownRequests mine (past ++ t :: rest) =
      ownRequests mine past ++ (if mine t.1 then [t] else []) ++ ownRequests mine rest := by
  rw [ownRequests, List.filter_append, List.filter_cons, List.append_assoc]
  split
  · rfl
  · rfl

/-- A request of the user, under its number among hers. -/
theorem getElem?_ownRequests {i : ℕ} {t : X × Prog S ε α} (hi : ts[i]? = some t)
    (hmine : mine t.1 = true) :
    (ownRequests mine ts)[rank mine (ts.map Prod.fst) i]? = some t := by
  obtain ⟨past, rest, rfl, rfl⟩ := exists_split hi
  rw [rank_split, ownRequests_split, if_pos hmine, List.append_assoc, List.singleton_append]
  rw [List.getElem?_append_right (Nat.le_refl _), Nat.sub_self]
  rfl

/-- A request of the user goes on. -/
theorem ownRequests_set {i : ℕ} {x : X} {p q : Prog S ε α} (hi : ts[i]? = some (x, p))
    (hmine : mine x = true) : ownRequests mine (ts.set i (x, q)) =
      (ownRequests mine ts).set (rank mine (ts.map Prod.fst) i) (x, q) := by
  obtain ⟨past, rest, rfl, rfl⟩ := exists_split hi
  rw [rank_split, set_split, ownRequests_split, ownRequests_split, if_pos hmine, if_pos hmine,
    List.append_assoc, List.append_assoc]
  exact (set_split _ _ _ _).symm

/-- A request of another user goes on. -/
theorem ownRequests_set_of_not {i : ℕ} {x : X} {p q : Prog S ε α} (hi : ts[i]? = some (x, p))
    (hmine : mine x = false) : ownRequests mine (ts.set i (x, q)) = ownRequests mine ts := by
  obtain ⟨past, rest, rfl, rfl⟩ := exists_split hi
  rw [set_split, ownRequests_split, ownRequests_split]
  simp [hmine]

theorem map_fst_set {i : ℕ} {x : X} {p q : Prog S ε α} (hi : ts[i]? = some (x, p)) :
    (ts.set i (x, q)).map Prod.fst = ts.map Prod.fst := by
  obtain ⟨past, rest, rfl, rfl⟩ := exists_split hi
  rw [set_split, List.map_append, List.map_append]
  rfl

/-- An answer to the user is the next entry of her history. -/
theorem ownHistory_concat {xs : List X} {hist : S.History} {i : ℕ} {x : X} {y : Sigma S.Reply}
    (hi : xs[i]? = some x) (hmine : mine x = true) :
    ownHistory mine xs (hist ++ [(i, y)]) = ownHistory mine xs hist ++ [(rank mine xs i, y)] := by
  simp [ownHistory, List.filterMap_append, hi, hmine]

/-- An answer to another user is no entry of it. -/
theorem ownHistory_concat_of_not {xs : List X} {hist : S.History} {i : ℕ} {x : X}
    {y : Sigma S.Reply} (hi : xs[i]? = some x) (hmine : mine x = false) :
    ownHistory mine xs (hist ++ [(i, y)]) = ownHistory mine xs hist := by
  simp [ownHistory, List.filterMap_append, hi, hmine]

/-- Only requests of the user are given turns. -/
theorem lt_of_mem_ownSchedule {hist : S.History} {i : ℕ}
    (h : i ∈ ownSchedule mine (ts.map Prod.fst) hist) : i < (ownRequests mine ts).length := by
  obtain ⟨e, he, rfl⟩ := List.mem_map.mp h
  obtain ⟨e', -, heq⟩ := List.mem_filterMap.mp he
  split_ifs at heq with hany
  obtain ⟨x, hx, hmine⟩ := (Option.any_eq_true _ _).mp hany
  obtain ⟨t, ht, rfl⟩ := Option.map_eq_some_iff.mp (List.getElem?_map.symm.trans hx)
  rw [← Option.some.inj heq]
  exact (List.getElem?_eq_some_iff.mp (getElem?_ownRequests ht hmine)).1

/-- The user was answered what the server answered. -/
theorem exists_of_mem_ownAnswers {xs : List X} {hist : S.History} {a : (ℕ × ℕ) × Sigma S.Reply}
    (h : a ∈ ownAnswers mine xs hist) : ∃ e ∈ hist, e.2 = a.2 := by
  obtain ⟨e, he, heq⟩ := List.mem_map.mp (List.of_mem_zip h).2
  obtain ⟨e', he', hown⟩ := List.mem_filterMap.mp he
  split_ifs at hown
  refine ⟨e', he', ?_⟩
  rw [← heq, ← Option.some.inj hown]

theorem ownAnswers_concat {xs : List X} {hist : S.History} {i : ℕ} {x : X} {y : Sigma S.Reply}
    (hi : xs[i]? = some x) (hmine : mine x = true) :
    ownAnswers mine xs (hist ++ [(i, y)]) = ownAnswers mine xs hist ++
      [((rank mine xs i, (ownSchedule mine xs hist).count (rank mine xs i)), y)] := by
  have hlen : (labels (ownSchedule mine xs hist)).length =
      ((ownHistory mine xs hist).map Prod.snd).length := by
    simp [labels, ownSchedule]
  rw [ownAnswers, ownSchedule, ownHistory_concat hi hmine, List.map_append, List.map_append,
    List.map_singleton, labels_concat, List.map_singleton]
  exact List.zip_append hlen

/-- Requests that arrive later do not change what has been answered. -/
theorem ownHistory_arrive {xs : List X} {hist : S.History} (h : ∀ e ∈ hist, e.1 < xs.length)
    (x : X) : ownHistory mine (xs ++ [x]) hist = ownHistory mine xs hist := by
  refine List.filterMap_congr fun e he => ?_
  have hlt := h e he
  rw [List.getElem?_append_left hlt, rank, rank, List.take_append_of_le_length (Nat.le_of_lt hlt)]

end Own

section Unwinding

/-! ### Unwinding -/

variable {S : Signature} {ε α X W C V : Type}

/-- The conditions under which the user of the requests `mine` sees nothing of the others. The
programs of all requests stay within `Inv`. -/
structure Unwinding (H : Handler S W) (serve : X → Prog S ε α) (mine : X → Bool) (view : W → V)
    (choice : Sigma S.Reply → C) (act : C → V → (op : S.Op) → S.Reply op × V)
    (Inv : X → Prog S ε α → Prop) (Alike : Prog S ε α → Prog S ε α → Prop) : Prop where
  start : ∀ x, Inv x (serve x)
  next : ∀ {x : X} {op : S.Op} {k : S.Reply op → Prog S ε α}, Inv x (.call op k) →
    ∀ r, Inv x (k r)
  refl : ∀ p, Alike p p
  /-- alike programs that go on are the same -/
  call : ∀ {op : S.Op} {k : S.Reply op → Prog S ε α} {q : Prog S ε α},
    Alike (.call op k) q → q = .call op k
  finished : ∀ {p q : Prog S ε α}, Alike p q → p.Finished → q.Finished
  /-- the others leave the user's part of the world alone -/
  others : ∀ {x : X} {op : S.Op} {k : S.Reply op → Prog S ε α} {w w' : W} {r : S.Reply op},
    mine x = false → Inv x (.call op k) → H op w r w' → view w' = view w
  /-- her own operations are determined by it -/
  own : ∀ {x : X} {op : S.Op} {k : S.Reply op → Prog S ε α} {w w' : W} {r : S.Reply op},
    mine x = true → Inv x (.call op k) → H op w r w' →
      view w' = (act (choice ⟨op, r⟩) (view w) op).2 ∧
        Alike (k r) (k (act (choice ⟨op, r⟩) (view w) op).1)

namespace Unwinding

variable {H : Handler S W} {serve : X → Prog S ε α} {mine : X → Bool} {view : W → V}
  {choice : Sigma S.Reply → C} {act : C → V → (op : S.Op) → S.Reply op × V}
  {Inv : X → Prog S ε α → Prop} {Alike : Prog S ε α → Prog S ε α → Prop}
  {hist : S.History} {ts : List (X × Prog S ε α)} {w w' : W}

/-- The programs of all requests stay within `Inv`. -/
theorem inv (U : Unwinding H serve mine view choice act Inv Alike)
    (h : Serves H serve w hist ts w') : ∀ t ∈ ts, Inv t.1 t.2 := by
  induction h with
  | start => exact fun t ht => by cases ht
  | arrive _ x ih =>
    intro t ht
    rcases List.mem_append.mp ht with ht | ht
    · exact ih t ht
    · obtain rfl := List.mem_singleton.mp ht
      exact U.start x
  | answer _ hi _ ih =>
    intro t ht
    rcases List.mem_or_eq_of_mem_set ht with ht | rfl
    · exact ih t ht
    · exact U.next (ih _ (List.mem_of_getElem? hi)) _

/-- How far the user alone has come when the server has come to `ts` and `w'`. -/
structure Follows (Alike : Prog S ε α → Prog S ε α → Prop) (view : W → V) (mine : X → Bool)
    (start : ℕ → Prog S ε α) (ts : List (X × Prog S ε α)) (w' : W) (s : Solo S ε α V) :
    Prop where
  view : s.view = view w'
  alike : ∀ i t, (ownRequests mine ts)[i]? = some t → Alike t.2 (s.progs i)
  /-- the requests that have not arrived have not started -/
  waiting : ∀ i, (ownRequests mine ts).length ≤ i → s.progs i = start i

/-- A request that arrives has not started. -/
theorem Follows.arrive (U : Unwinding H serve mine view choice act Inv Alike)
    {start : ℕ → Prog S ε α} {s : Solo S ε α V} {x : X}
    (h : Follows Alike view mine start ts w' s)
    (hstart : ∀ i y, ((ts.map Prod.fst ++ [x]).filter mine)[i]? = some y → start i = serve y) :
    Follows Alike view mine start (ts ++ [(x, serve x)]) w' s := by
  by_cases hmine : mine x = true
  · have hsplit : ownRequests mine (ts ++ [(x, serve x)]) =
        ownRequests mine ts ++ [(x, serve x)] := by simp [ownRequests, List.filter_append, hmine]
    refine ⟨h.view, fun i t hi => ?_, fun i hi => h.waiting i ?_⟩
    · have hserve : start i = serve t.1 := by
        have hreq := congrArg (Option.map Prod.fst) hi
        rw [← List.getElem?_map, map_fst_ownRequests, List.map_append, List.map_singleton] at hreq
        exact hstart i t.1 hreq
      rw [hsplit] at hi
      rcases Nat.lt_or_ge i (ownRequests mine ts).length with hlt | hge
      · rw [List.getElem?_append_left hlt] at hi
        exact h.alike i t hi
      · -- the request that arrives is the first of those that were waiting
        rw [List.getElem?_append_right hge] at hi
        obtain rfl := List.mem_singleton.mp (List.mem_of_getElem? hi)
        rw [h.waiting i hge, hserve]
        exact U.refl _
    · rw [hsplit, List.length_append] at hi
      exact Nat.le_of_add_right_le hi
  · have hsame : ownRequests mine (ts ++ [(x, serve x)]) = ownRequests mine ts := by
      simp [ownRequests, List.filter_append, hmine]
    refine ⟨h.view, ?_, ?_⟩
    · rw [hsame]
      exact h.alike
    · rw [hsame]
      exact h.waiting

section Answers

variable {start : ℕ → Prog S ε α} {s : Solo S ε α V} {i : ℕ} {x : X} {op : S.Op}
  {k : S.Reply op → Prog S ε α} {r : S.Reply op} {w'' : W}

/-- An answer to another user changes nothing for her. -/
theorem Follows.other (U : Unwinding H serve mine view choice act Inv Alike)
    (h : Follows Alike view mine start ts w' s) (hi : ts[i]? = some (x, .call op k))
    (hinv : Inv x (.call op k)) (hmine : mine x = false) (hop : H op w' r w'') :
    Follows Alike view mine start (ts.set i (x, k r)) w'' s := by
  have hsame := ownRequests_set_of_not (q := k r) hi hmine
  refine ⟨h.view.trans (U.others hmine hinv hop).symm, ?_, ?_⟩
  · rw [hsame]
    exact h.alike
  · rw [hsame]
    exact h.waiting

/-- Her own program, where one of her requests has come to. -/
theorem Follows.progs_eq (U : Unwinding H serve mine view choice act Inv Alike)
    (h : Follows Alike view mine start ts w' s) (hi : ts[i]? = some (x, .call op k))
    (hmine : mine x = true) : s.progs (rank mine (ts.map Prod.fst) i) = .call op k :=
  U.call (h.alike _ _ (getElem?_ownRequests hi hmine))

/-- An answer to her is the answer she gets alone. -/
theorem Follows.own (U : Unwinding H serve mine view choice act Inv Alike)
    (h : Follows Alike view mine start ts w' s) (hi : ts[i]? = some (x, .call op k))
    (hinv : Inv x (.call op k)) (hmine : mine x = true) (hop : H op w' r w'') :
    Follows Alike view mine start (ts.set i (x, k r)) w''
      (s.step act (choice ⟨op, r⟩) (rank mine (ts.map Prod.fst) i)) := by
  obtain ⟨hview, halike⟩ := U.own hmine hinv hop
  obtain ⟨hprog, hstep⟩ := Solo.step_of_call (s := s) (c := choice ⟨op, r⟩)
    (h.progs_eq U hi hmine)
  have hset := ownRequests_set (q := k r) hi hmine
  have hlt := (List.getElem?_eq_some_iff.mp (getElem?_ownRequests hi hmine)).1
  constructor
  · rw [hstep, h.view, hview]
  · intro j t hj
    rw [hset] at hj
    rcases eq_or_ne (rank mine (ts.map Prod.fst) i) j with rfl | hne
    · rw [List.getElem?_set_self hlt] at hj
      obtain rfl := Option.some.inj hj
      rw [hprog, h.view]
      exact halike
    · rw [List.getElem?_set_ne hne] at hj
      rw [Solo.progs_step_of_ne hne.symm]
      exact h.alike j t hj
  · intro j hj
    rw [hset, List.length_set] at hj
    have hne : j ≠ rank mine (ts.map Prod.fst) i := by omega
    rw [Solo.progs_step_of_ne hne]
    exact h.waiting j hj

end Answers

/-- **A run goes for the user as if she were alone.** -/
theorem solo (U : Unwinding H serve mine view choice act Inv Alike)
    (h : Serves H serve w hist ts w') {outer : ℕ × ℕ → C}
    (houter : ∀ e ∈ ownAnswers mine (ts.map Prod.fst) hist, choice e.2 = outer e.1)
    {start : ℕ → Prog S ε α}
    (hstart : ∀ i x, ((ts.map Prod.fst).filter mine)[i]? = some x → start i = serve x) :
    Follows Alike view mine start ts w' ((Solo.mk start (view w)).run act outer
        (labels (ownSchedule mine (ts.map Prod.fst) hist))) ∧
      (Solo.mk start (view w)).Busy act outer (ownSchedule mine (ts.map Prod.fst) hist) := by
  induction h with
  | start =>
    refine ⟨⟨rfl, fun i t hi => (by cases hi), fun i _ => rfl⟩, fun past i rest heq => ?_⟩
    exact absurd (heq.symm.trans rfl) (List.append_ne_nil_of_right_ne_nil _ (List.cons_ne_nil _ _))
  | @arrive hist ts w' h x ih =>
    -- a request that arrives, hers or not, changes nothing she was answered
    have hhist : ownHistory mine ((ts ++ [(x, serve x)]).map Prod.fst) hist =
        ownHistory mine (ts.map Prod.fst) hist := by
      rw [List.map_append]
      refine ownHistory_arrive (fun e he => ?_) x
      rw [List.length_map]
      exact h.lt_length he
    rw [ownSchedule, hhist]
    rw [ownAnswers, ownSchedule, hhist] at houter
    rw [List.map_append, List.map_singleton] at hstart
    have hbegins : ∀ i y, ((ts.map Prod.fst).filter mine)[i]? = some y → start i = serve y := by
      intro i y hi
      refine hstart i y ?_
      rw [List.filter_append, List.getElem?_append_left (List.getElem?_eq_some_iff.mp hi).1]
      exact hi
    obtain ⟨hfollows, hbusy⟩ := ih houter hbegins
    exact ⟨hfollows.arrive U hstart, hbusy⟩
  | @answer hist ts w' w'' i x op k r h hi hop ih =>
    have hinv := U.inv h _ (List.mem_of_getElem? hi)
    have hxs : (ts.map Prod.fst)[i]? = some x := by
      rw [List.getElem?_map, hi]
      rfl
    have hmap := map_fst_set (q := k r) hi
    rw [hmap] at houter hstart ⊢
    cases hmine : mine x with
    | false =>
      -- another's answer is not in her history, and leaves her part of the world alone
      have hhist : ownHistory mine (ts.map Prod.fst) (hist ++ [(i, ⟨op, r⟩)]) =
          ownHistory mine (ts.map Prod.fst) hist := ownHistory_concat_of_not hxs hmine
      rw [ownSchedule, hhist]
      rw [ownAnswers, ownSchedule, hhist] at houter
      obtain ⟨hfollows, hbusy⟩ := ih houter hstart
      exact ⟨hfollows.other U hi hinv hmine hop, hbusy⟩
    | true =>
      -- alone she takes the same step, by the choice `outer` has for this turn
      rw [ownAnswers_concat hxs hmine] at houter
      obtain ⟨hfollows, hbusy⟩ := ih (fun e he => houter e (List.mem_append_left _ he)) hstart
      have hchoice := houter _ (List.mem_append_right _ (List.mem_singleton.mpr rfl))
      have hsched : ownSchedule mine (ts.map Prod.fst) (hist ++ [(i, ⟨op, r⟩)]) =
          ownSchedule mine (ts.map Prod.fst) hist ++ [rank mine (ts.map Prod.fst) i] := by
        rw [ownSchedule, ownHistory_concat hxs hmine, List.map_append]
        rfl
      rw [hsched, labels_concat, Solo.run_append]
      constructor
      · have hown := hfollows.own U hi hinv hmine hop
        rw [hchoice] at hown
        exact hown
      · refine Solo.busy_concat hbusy ?_
        rw [hfollows.progs_eq U hi hmine]
        exact id

/-- All of the user's requests have ended, so she has nothing left to do alone. -/
theorem Follows.finished (U : Unwinding H serve mine view choice act Inv Alike)
    {start : ℕ → Prog S ε α} {s : Solo S ε α V} (h : Follows Alike view mine start ts w' s)
    (hfin : ∀ t ∈ ts, mine t.1 = true → t.2.Finished) {i : ℕ}
    (hi : i < (ownRequests mine ts).length) : (s.progs i).Finished := by
  have ht := List.getElem?_eq_getElem hi
  obtain ⟨hmem, hmine⟩ := List.mem_filter.mp (List.mem_of_getElem? ht)
  exact U.finished (h.alike i _ ht) (hfin _ hmem hmine)

/-- **Noninterference.** In two runs from worlds that look the same to the user, in which she
makes the same requests, the server handles them in the same order, the surroundings decide
the same about them and all of them end, she receives the same answers, up to what `Alike`
forgets, and the worlds look the same to her at the end. -/
theorem noninterference [Inhabited α] (U : Unwinding H serve mine view choice act Inv Alike)
    {hist₁ hist₂ : S.History} {ts₁ ts₂ : List (X × Prog S ε α)} {w₁ w₁' w₂ w₂' : W}
    (h₁ : Serves H serve w₁ hist₁ ts₁ w₁') (h₂ : Serves H serve w₂ hist₂ ts₂ w₂')
    (hview : view w₁ = view w₂)
    (hreq : (ts₁.map Prod.fst).filter mine = (ts₂.map Prod.fst).filter mine)
    (horder : SameOrder (ownSchedule mine (ts₁.map Prod.fst) hist₁)
      (ownSchedule mine (ts₂.map Prod.fst) hist₂))
    {outer : ℕ × ℕ → C}
    (houter₁ : ∀ e ∈ ownAnswers mine (ts₁.map Prod.fst) hist₁, choice e.2 = outer e.1)
    (houter₂ : ∀ e ∈ ownAnswers mine (ts₂.map Prod.fst) hist₂, choice e.2 = outer e.1)
    (hfin₁ : ∀ t ∈ ts₁, mine t.1 = true → t.2.Finished)
    (hfin₂ : ∀ t ∈ ts₂, mine t.1 = true → t.2.Finished) :
    view w₁' = view w₂' ∧ List.Forall₂ (fun t₁ t₂ => ∃ p, Alike t₁.2 p ∧ Alike t₂.2 p)
      (ownRequests mine ts₁) (ownRequests mine ts₂) := by
  -- both runs are compared with one run of the user alone, from the programs of her requests
  obtain ⟨start, hstart⟩ : ∃ start : ℕ → Prog S ε α,
      ∀ i x, ((ts₁.map Prod.fst).filter mine)[i]? = some x → start i = serve x := by
    refine ⟨fun i => ((ts₁.map Prod.fst).filter mine)[i]?.elim (.done default) serve, ?_⟩
    exact fun i x hi => congrArg (fun o => Option.elim o (Prog.done default) serve) hi
  obtain ⟨hfollows₁, hbusy₁⟩ := U.solo h₁ houter₁ hstart
  obtain ⟨hfollows₂, hbusy₂⟩ := U.solo h₂ houter₂ (hreq ▸ hstart)
  rw [← hview] at hfollows₂ hbusy₂
  have hlen : (ownRequests mine ts₁).length = (ownRequests mine ts₂).length := by
    have hmap := congrArg List.length hreq
    rwa [← map_fst_ownRequests, ← map_fst_ownRequests, List.length_map, List.length_map] at hmap
  have hsched := eq_of_sameOrder horder hbusy₁ hbusy₂
    (fun i hi => hfollows₁.finished U hfin₁ (hlen ▸ lt_of_mem_ownSchedule hi))
    (fun i hi => hfollows₂.finished U hfin₂ (hlen ▸ lt_of_mem_ownSchedule hi))
  rw [hsched] at hfollows₁
  refine ⟨hfollows₁.view.symm.trans hfollows₂.view, ?_⟩
  refine List.forall₂_iff_get.mpr ⟨hlen, fun i hi hi' => ?_⟩
  exact ⟨_, hfollows₁.alike i _ (List.getElem?_eq_getElem hi),
    hfollows₂.alike i _ (List.getElem?_eq_getElem hi')⟩

end Unwinding

end Unwinding
