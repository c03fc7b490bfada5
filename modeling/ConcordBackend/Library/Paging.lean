import Mathlib.Data.List.Sort
import Mathlib.Data.Nat.Find
import Mathlib.Order.Defs.LinearOrder

/-!
# Reading an ordered query page by page

A page of `SELECT … ORDER BY key DESC LIMIT limit OFFSET offset` is cut out of one ordering of
the rows that the clause allows (`OrderedBy`); rows with the same key may come in any order,
and in another one for the next page (`Page`). A client reads on, at the offset of what it has
received, until a page is empty (`Reading`, `Ends`).

* Where the keys are distinct there is one ordering, and a reading of a table that does not
  change receives it (`Reading.received_eq`). If rows with greater keys are inserted
  while the client reads, the offsets shift towards rows it has received already, and every row
  of the first table is still received (`Reading.covers`).
* Where keys are shared, a page boundary may fall between rows with the same key (`SplitAt`). A
  reading receives every row exactly once, whatever the orderings, if no boundary does so
  (`Reading.received_perm`), and otherwise some reading does not (`exists_reading_of_splitAt`).
-/

variable {ρ κ : Type} [LinearOrder κ]

/-- `l` is an ordering of the rows that `ORDER BY key DESC` allows. -/
structure OrderedBy (key : ρ → κ) (rows l : List ρ) : Prop where
  perm : l.Perm rows
  desc : l.Pairwise fun r r' => key r' ≤ key r

/-- The pages `… ORDER BY key DESC LIMIT limit OFFSET offset` may return. -/
def Page (key : ρ → κ) (rows : List ρ) (limit offset : ℕ) (page : List ρ) : Prop :=
  ∃ l, OrderedBy key rows l ∧ page = (l.drop offset).take limit

/-- The rows of the first `k` pages. -/
def received (pages : ℕ → List ρ) (k : ℕ) : List ρ := (List.range k).flatMap pages

/-- A client asks for its pages at the offset of what it has received, as long as no page was
empty; `rows k` are the rows when it asks for page `k`. -/
def Reading (key : ρ → κ) (limit : ℕ) (rows pages : ℕ → List ρ) : Prop :=
  ∀ k, (∀ i < k, pages i ≠ []) → Page key (rows k) limit (received pages k).length (pages k)

/-- Page `k` is the first empty one. -/
structure Ends (pages : ℕ → List ρ) (k : ℕ) : Prop where
  before : ∀ i < k, pages i ≠ []
  last : pages k = []

@[simp] theorem received_zero (pages : ℕ → List ρ) : received pages 0 = [] := rfl

@[simp] theorem received_succ (pages : ℕ → List ρ) (k : ℕ) :
    received pages (k + 1) = received pages k ++ pages k := by
  simp [received, List.range_succ, List.flatMap_append]

theorem received_isPrefix (pages : ℕ → List ρ) {j k : ℕ} (h : j ≤ k) :
    received pages j <+: received pages k := by
  induction k, h using Nat.le_induction with
  | base => exact List.prefix_rfl
  | succ k _ ih =>
    rw [received_succ]
    exact ih.trans (List.prefix_append _ _)

/-- Every page that is not empty adds a row. -/
theorem le_length_received {pages : ℕ → List ρ} {k : ℕ} (h : ∀ i < k, pages i ≠ []) :
    k ≤ (received pages k).length := by
  induction k with
  | zero => exact Nat.zero_le _
  | succ k ih =>
    have hpos := List.length_pos_iff.mpr (h k (Nat.lt_succ_self k))
    have hk := ih fun i hi => h i (Nat.lt_succ_of_lt hi)
    rw [received_succ, List.length_append]
    omega

/-- A reading that receives a bounded number of rows ends. -/
theorem exists_ends {pages : ℕ → List ρ} {n : ℕ}
    (h : ∀ k, (∀ i < k, pages i ≠ []) → (received pages k).length ≤ n) : ∃ k, Ends pages k := by
  classical
  have hex : ∃ k, pages k = [] := by
    by_contra hno
    have hne : ∀ i < n + 1, pages i ≠ [] := fun i _ hi => hno ⟨i, hi⟩
    have hlow := le_length_received hne
    have hhigh := h (n + 1) hne
    omega
  exact ⟨Nat.find hex, fun i hi => Nat.find_min hex hi, Nat.find_spec hex⟩

/-! ### Orderings -/

namespace OrderedBy

variable {key : ρ → κ} {rows rows' l l' new : List ρ}

/-- Every list of rows has an ordering. -/
theorem exists_of (key : ρ → κ) (rows : List ρ) : ∃ l, OrderedBy key rows l := by
  let desc : ρ → ρ → Prop := fun r r' => key r' ≤ key r
  have : DecidableRel desc := fun r r' => inferInstanceAs (Decidable (key r' ≤ key r))
  have : Std.Total desc := ⟨fun r r' => le_total (key r') (key r)⟩
  have : IsTrans ρ desc := ⟨fun _ _ _ h h' => le_trans h' h⟩
  exact ⟨rows.insertionSort desc, List.perm_insertionSort desc rows,
    List.pairwise_insertionSort desc rows⟩

/-- Rows with distinct keys have one ordering. -/
theorem unique (hkey : ∀ r ∈ rows, ∀ r' ∈ rows, key r = key r' → r = r')
    (h : OrderedBy key rows l) (h' : OrderedBy key rows l') : l = l' := by
  refine List.Perm.eq_of_pairwise (fun r r' hr hr' hle hle' => ?_) h.desc h'.desc
    (h.perm.trans h'.perm.symm)
  exact hkey r (h.perm.mem_iff.mp hr) r' (h'.perm.mem_iff.mp hr') (le_antisymm hle' hle)

theorem length_eq (h : OrderedBy key rows l) : l.length = rows.length := h.perm.length_eq

/-- Rows with greater keys come first. -/
theorem append (hnew : OrderedBy key new l') (h : OrderedBy key rows l)
    (hperm : rows'.Perm (new ++ rows)) (hlt : ∀ r' ∈ new, ∀ r ∈ rows, key r < key r') :
    OrderedBy key rows' (l' ++ l) := by
  refine ⟨(hnew.perm.append h.perm).trans hperm.symm, ?_⟩
  refine List.pairwise_append.mpr ⟨hnew.desc, h.desc, fun r' hr' r hr => ?_⟩
  exact le_of_lt (hlt r' (hnew.perm.mem_iff.mp hr') r (h.perm.mem_iff.mp hr))

/-- The rows of an ordering that satisfy an upward closed condition on the key come first. -/
theorem filter_eq_take {p : ρ → Bool} (hp : ∀ r r', key r' ≤ key r → p r' = true → p r = true)
    (h : l.Pairwise fun r r' => key r' ≤ key r) : l.filter p = l.take (l.countP p) := by
  induction l with
  | nil => rfl
  | cons r l ih =>
    obtain ⟨hr, hl⟩ := List.pairwise_cons.mp h
    by_cases hpr : p r = true
    · rw [List.filter_cons_of_pos hpr, List.countP_cons_of_pos hpr, List.take_succ_cons, ih hl]
    · have hnone : ∀ r' ∈ l, ¬ p r' = true := fun r' hr' hpr' => hpr (hp r r' (hr r' hr') hpr')
      rw [List.filter_cons_of_neg hpr, List.filter_eq_nil_iff.mpr hnone,
        List.countP_cons_of_neg hpr, List.countP_eq_zero.mpr hnone, List.take_zero]

/-- A row of an ordering satisfies an upward closed condition on the key exactly where it stands
among the first ones. -/
theorem getElem_iff {p : ρ → Bool} (hp : ∀ r r', key r' ≤ key r → p r' = true → p r = true)
    (h : l.Pairwise fun r r' => key r' ≤ key r) {i : ℕ} (hi : i < l.length) :
    p l[i] = true ↔ i < l.countP p := by
  induction l generalizing i with
  | nil => cases hi
  | cons r l ih =>
    obtain ⟨hr, hl⟩ := List.pairwise_cons.mp h
    by_cases hpr : p r = true
    · rw [List.countP_cons_of_pos hpr]
      cases i with
      | zero => simp [hpr]
      | succ i =>
        rw [List.getElem_cons_succ, ih hl (Nat.lt_of_succ_lt_succ hi)]
        omega
    · have hnone : ∀ r' ∈ l, ¬ p r' = true := fun r' hr' hpr' => hpr (hp r r' (hr r' hr') hpr')
      rw [List.countP_cons_of_neg hpr, List.countP_eq_zero.mpr hnone]
      cases i with
      | zero => simp [hpr]
      | succ i =>
        have hi' : i < l.length := Nat.lt_of_succ_lt_succ hi
        simp [hnone l[i] (List.getElem_mem hi')]

end OrderedBy

/-! ### Distinct keys -/

namespace Reading

variable {key : ρ → κ} {limit : ℕ} {rows pages : ℕ → List ρ} {l : List ρ}

/-- While the rows stay the same, what has been received is the beginning of their ordering. -/
theorem received_eq_take (h : Reading key limit rows pages) (hrows : ∀ k, rows k = rows 0)
    (hkey : ∀ r ∈ rows 0, ∀ r' ∈ rows 0, key r = key r' → r = r')
    (hl : OrderedBy key (rows 0) l) {k : ℕ} (hk : ∀ i < k, pages i ≠ []) :
    received pages k = l.take (received pages k).length := by
  induction k with
  | zero => rfl
  | succ k ih =>
    have hk' : ∀ i < k, pages i ≠ [] := fun i hi => hk i (Nat.lt_succ_of_lt hi)
    obtain ⟨l', hl', hpage⟩ := h k hk'
    rw [hrows] at hl'
    obtain rfl := hl'.unique hkey hl
    have htake : received pages (k + 1) = l'.take ((received pages k).length + limit) := by
      rw [received_succ, hpage, List.take_add, ← ih hk']
    rw [htake, List.length_take, List.take_eq_take_min]

/-- **A table that does not change, with distinct keys.** The reading ends, and what it has
received is the one ordering of the rows. -/
theorem received_eq (h : Reading key limit rows pages) (hlimit : 0 < limit)
    (hrows : ∀ k, rows k = rows 0)
    (hkey : ∀ r ∈ rows 0, ∀ r' ∈ rows 0, key r = key r' → r = r')
    (hl : OrderedBy key (rows 0) l) : ∃ k, Ends pages k ∧ received pages k = l := by
  obtain ⟨k, hk⟩ := exists_ends (n := l.length) fun k hk => by
    rw [h.received_eq_take hrows hkey hl hk]
    exact List.length_take_le' _ _
  refine ⟨k, hk, ?_⟩
  obtain ⟨l', hl', hpage⟩ := h k hk.before
  rw [hrows] at hl'
  obtain rfl := hl'.unique hkey hl
  rw [hk.last] at hpage
  have hlast : l'.length ≤ (received pages k).length := by
    have hlen := congrArg List.length hpage
    rw [List.length_take, List.length_drop, List.length_nil] at hlen
    omega
  rw [h.received_eq_take hrows hkey hl hk.before, List.take_of_length_le hlast]

/-- Rows that are read past an offset are read past it after an insertion before them. -/
private theorem mem_drop_append {r : ρ} {l l' : List ρ} {n : ℕ} (hr : r ∈ l.drop n) :
    r ∈ (l' ++ l).drop n := by
  rw [List.drop_append]
  refine List.mem_append_right _ ?_
  have hsplit : l.drop n = (l.drop (n - l'.length)).drop (n - (n - l'.length)) := by
    rw [List.drop_drop]
    congr 1
    omega
  exact List.mem_of_mem_drop (hsplit ▸ hr)

/-- What is ahead of the offset is the page that is read there, and what is ahead of the next
offset. -/
private theorem drop_eq_page_append {l page : List ρ} {n : ℕ}
    (hpage : page = (l.drop n).take limit) : l.drop n = page ++ l.drop (n + page.length) := by
  rw [← List.drop_drop, hpage, List.length_take]
  conv_lhs => rw [← List.take_append_drop limit (l.drop n)]
  congr 1
  rcases Nat.le_total limit (l.drop n).length with hle | hle
  · rw [Nat.min_eq_left hle]
  · rw [Nat.min_eq_right hle, List.drop_of_length_le hle, List.drop_length]

/-- While a table grows at the front, a row of the first table has been received or is still
ahead of the offset. -/
theorem received_or_ahead (h : Reading key limit rows pages)
    (hkey : ∀ k, ∀ r ∈ rows k, ∀ r' ∈ rows k, key r = key r' → r = r')
    (hgrow : ∀ k, ∃ new, (rows (k + 1)).Perm (new ++ rows k) ∧
      ∀ r' ∈ new, ∀ r ∈ rows k, key r < key r')
    {n : ℕ} (hn : ∀ i < n, pages i ≠ []) {l : List ρ} (hl : OrderedBy key (rows n) l) {r : ρ}
    (hr : r ∈ rows 0) : r ∈ received pages n ∨ r ∈ l.drop (received pages n).length := by
  induction n generalizing l with
  | zero => exact Or.inr (hl.perm.mem_iff.mpr hr)
  | succ n ih =>
    have hn' : ∀ i < n, pages i ≠ [] := fun i hi => hn i (Nat.lt_succ_of_lt hi)
    obtain ⟨l₀, hl₀, hpage⟩ := h n hn'
    -- the new rows come before the old ones, whose order is the one that was read from
    obtain ⟨new, hperm, hlt⟩ := hgrow n
    obtain ⟨lnew, hlnew⟩ := OrderedBy.exists_of key new
    obtain rfl := (hlnew.append hl₀ hperm hlt).unique (hkey (n + 1)) hl
    rw [received_succ, List.length_append]
    rcases ih hn' hl₀ with hrec | hdrop
    · exact Or.inl (List.mem_append_left _ hrec)
    · rw [drop_eq_page_append hpage] at hdrop
      rcases List.mem_append.mp hdrop with hpage | hrest
      · exact Or.inl (List.mem_append_right _ hpage)
      · exact Or.inr (mem_drop_append hrest)

/-- **A table that grows at the front.** Every row of the first table is received. -/
theorem covers (h : Reading key limit rows pages) (hlimit : 0 < limit)
    (hkey : ∀ k, ∀ r ∈ rows k, ∀ r' ∈ rows k, key r = key r' → r = r')
    (hgrow : ∀ k, ∃ new, (rows (k + 1)).Perm (new ++ rows k) ∧
      ∀ r' ∈ new, ∀ r ∈ rows k, key r < key r')
    {k : ℕ} (hk : Ends pages k) : ∀ r ∈ rows 0, r ∈ received pages k := by
  intro r hr
  obtain ⟨l, hl, hpage⟩ := h k hk.before
  rcases h.received_or_ahead hkey hgrow hk.before hl hr with hrec | hdrop
  · exact hrec
  · -- nothing is ahead of the offset at which an empty page is read
    rw [hk.last] at hpage
    have hlen := congrArg List.length hpage
    have hpos := List.length_pos_of_mem hdrop
    rw [List.length_take, List.length_nil] at hlen
    omega

end Reading

/-! ### Shared keys -/

section Ties

variable {key : ρ → κ} {limit : ℕ} {rows l l' : List ρ}

/-- The boundary after `n` rows falls between rows with one key: fewer than `n` rows have a
greater key, and more than `n` a key at least as great. -/
def SplitAt (key : ρ → κ) (rows : List ρ) (n : ℕ) : Prop :=
  ∃ c, rows.countP (fun r => c < key r) < n ∧ n < rows.countP fun r => c ≤ key r

private theorem le_of_le {c : κ} (r r' : ρ) (hle : key r' ≤ key r)
    (hc : decide (c ≤ key r') = true) : decide (c ≤ key r) = true :=
  decide_eq_true (le_trans (of_decide_eq_true hc) hle)

private theorem lt_of_le {c : κ} (r r' : ρ) (hle : key r' ≤ key r)
    (hc : decide (c < key r') = true) : decide (c < key r) = true :=
  decide_eq_true (lt_of_lt_of_le (of_decide_eq_true hc) hle)

/-- The rows before a boundary that splits no key are the same for all orderings. -/
theorem OrderedBy.take_perm (h : OrderedBy key rows l) (h' : OrderedBy key rows l') {n : ℕ}
    (hn : ¬ SplitAt key rows n) : (l.take n).Perm (l'.take n) := by
  have hperm : l.Perm l' := h.perm.trans h'.perm.symm
  rcases Nat.eq_zero_or_pos n with rfl | hpos
  · rw [List.take_zero, List.take_zero]
  rcases Nat.lt_or_ge l.length n with hlen | hlen
  · rw [List.take_of_length_le hlen.le, List.take_of_length_le (hperm.length_eq ▸ hlen.le)]
    exact hperm
  · -- the rows before the boundary are those whose key is at least the last one's
    have hi : n - 1 < l.length := by omega
    have hle := (OrderedBy.getElem_iff (le_of_le (c := key l[n - 1])) h.desc hi).mp
      (decide_eq_true le_rfl)
    have hlt := mt (OrderedBy.getElem_iff (lt_of_le (c := key l[n - 1])) h.desc hi).mpr
      (by simp)
    have hcount : n = l.countP fun r => key l[n - 1] ≤ key r := by
      rw [h.perm.countP_eq] at hle hlt ⊢
      by_contra hne
      exact hn ⟨key l[n - 1], by omega, by omega⟩
    have hcount' : n = l'.countP fun r => key l[n - 1] ≤ key r := by
      rw [← hperm.countP_eq]
      exact hcount
    have htake := OrderedBy.filter_eq_take (le_of_le (c := key l[n - 1])) h.desc
    have htake' := OrderedBy.filter_eq_take (le_of_le (c := key l[n - 1])) h'.desc
    rw [← hcount] at htake
    rw [← hcount'] at htake'
    rw [← htake, ← htake']
    exact hperm.filter _

private theorem drop_length_take {l : List ρ} (n : ℕ) : l.drop (l.take n).length = l.drop n := by
  rw [List.length_take]
  rcases Nat.le_total n l.length with hle | hle
  · rw [Nat.min_eq_left hle]
  · rw [Nat.min_eq_right hle, List.drop_length, List.drop_of_length_le hle]

/-- **No key is split.** While no boundary splits a key, what has been received are the rows
before the boundary, in whatever order the pages had. -/
theorem Reading.received_perm_take {pages : ℕ → List ρ}
    (h : Reading key limit (fun _ => rows) pages) (hsplit : ∀ k, ¬ SplitAt key rows (k * limit))
    {k : ℕ} (hk : ∀ i < k, pages i ≠ []) (hl : OrderedBy key rows l) :
    (received pages k).Perm (l.take (k * limit)) := by
  induction k generalizing l with
  | zero =>
    rw [received_zero, Nat.zero_mul, List.take_zero]
  | succ k ih =>
    have hk' : ∀ i < k, pages i ≠ [] := fun i hi => hk i (Nat.lt_succ_of_lt hi)
    obtain ⟨l', hl', hpage⟩ := h k hk'
    have hrec := ih hk' hl'
    have hdrop : l'.drop (received pages k).length = l'.drop (k * limit) := by
      rw [hrec.length_eq]
      exact drop_length_take _
    have hpages : (received pages (k + 1)).Perm (l'.take ((k + 1) * limit)) := by
      rw [received_succ, hpage, hdrop, Nat.succ_mul, List.take_add]
      exact hrec.append_right _
    exact hpages.trans (hl'.take_perm hl (hsplit (k + 1)))

/-- **A table whose pages split no key.** The reading ends, and it has received every row exactly
once. -/
theorem Reading.received_perm {pages : ℕ → List ρ}
    (h : Reading key limit (fun _ => rows) pages) (hlimit : 0 < limit)
    (hsplit : ∀ k, ¬ SplitAt key rows (k * limit)) :
    ∃ k, Ends pages k ∧ (received pages k).Perm rows := by
  obtain ⟨l, hl⟩ := OrderedBy.exists_of key rows
  obtain ⟨k, hk⟩ := exists_ends (n := l.length) fun k hk => by
    rw [(h.received_perm_take hsplit hk hl).length_eq]
    exact List.length_take_le' _ _
  refine ⟨k, hk, ?_⟩
  obtain ⟨l', hl', hpage⟩ := h k hk.before
  have hrec := h.received_perm_take hsplit hk.before hl'
  have hlast : l'.length ≤ k * limit := by
    rw [hk.last, hrec.length_eq, drop_length_take] at hpage
    have hlen := congrArg List.length hpage
    rw [List.length_take, List.length_drop, List.length_nil] at hlen
    omega
  rw [List.take_of_length_le hlast] at hrec
  exact hrec.trans hl'.perm

/-- The pages cut out of a choice of orderings, one for each query. -/
private def cut (limit : ℕ) (L : ℕ → List ρ) (k : ℕ) : List ρ := ((L k).drop (k * limit)).take limit

private theorem length_received_cut {L : ℕ → List ρ} (hL : ∀ k, OrderedBy key rows (L k)) (k : ℕ) :
    (received (cut limit L) k).length = min (k * limit) rows.length := by
  induction k with
  | zero => simp
  | succ k ih =>
    rw [received_succ, List.length_append, ih, cut, List.length_take, List.length_drop,
      (hL k).length_eq, Nat.succ_mul]
    omega

/-- Any choice of orderings makes a reading. -/
private theorem reading_cut {L : ℕ → List ρ} (hL : ∀ k, OrderedBy key rows (L k)) :
    Reading key limit (fun _ => rows) (cut limit L) := by
  intro k _
  refine ⟨L k, hL k, ?_⟩
  have hlen : (received (cut limit L) k).length = ((L k).take (k * limit)).length := by
    rw [length_received_cut hL, List.length_take, (hL k).length_eq]
  rw [hlen, drop_length_take]
  rfl

/-- Two neighbours with the same key may change places. -/
private theorem OrderedBy.swap {s t : List ρ} {x y : ρ} (h : OrderedBy key rows (s ++ x :: y :: t))
    (hxy : key x = key y) : OrderedBy key rows (s ++ y :: x :: t) := by
  refine ⟨((List.Perm.swap x y t).append_left s).trans h.perm, ?_⟩
  have hdesc := h.desc
  simp only [List.pairwise_append, List.pairwise_cons, List.mem_cons, forall_eq_or_imp] at hdesc ⊢
  obtain ⟨hs, ⟨⟨-, hx⟩, hy, ht⟩, hcross⟩ := hdesc
  refine ⟨hs, ⟨⟨hxy.le, hy⟩, hx, ht⟩, fun r hr => ?_⟩
  obtain ⟨hrx, hry, hrt⟩ := hcross r hr
  exact ⟨hry, hrx, hrt⟩

/-- A boundary that splits a key has neighbours with that key on its two sides. -/
private theorem SplitAt.exists_neighbours {n : ℕ} (hs : SplitAt key rows n)
    (hl : OrderedBy key rows l) :
    ∃ s x y t, l = s ++ x :: y :: t ∧ s.length + 1 = n ∧ key x = key y := by
  obtain ⟨c, hlow, hhigh⟩ := hs
  rw [← hl.perm.countP_eq] at hlow hhigh
  have hn : n < l.length := Nat.lt_of_lt_of_le hhigh List.countP_le_length
  have hn' : n - 1 < l.length := by omega
  have hkey : ∀ {i : ℕ} (hi : i < l.length), n - 1 ≤ i → i ≤ n → key l[i] = c := by
    intro i hi hlo hup
    have hge := (OrderedBy.getElem_iff (le_of_le (c := c)) hl.desc hi).mpr (by omega)
    have hgt := mt (OrderedBy.getElem_iff (lt_of_le (c := c)) hl.desc hi).mp (by omega)
    exact le_antisymm (not_lt.mp fun h => hgt (decide_eq_true h)) (of_decide_eq_true hge)
  have hdrop : l.drop (n - 1) = l[n - 1] :: l[n] :: l.drop (n + 1) := by
    rw [List.drop_eq_getElem_cons hn', Nat.sub_add_cancel (by omega),
      List.drop_eq_getElem_cons hn]
  refine ⟨l.take (n - 1), l[n - 1], l[n], l.drop (n + 1), ?_, ?_, ?_⟩
  · rw [← hdrop, List.take_append_drop]
  · rw [List.length_take]
    omega
  · rw [hkey hn' le_rfl (by omega), hkey hn (by omega) le_rfl]

private theorem mem_take_append {s t : List ρ} {x : ρ} {n : ℕ} (h : s.length < n) :
    x ∈ (s ++ x :: t).take n := by
  rw [List.take_append]
  obtain ⟨m, hm⟩ := Nat.exists_eq_add_of_lt h
  rw [show n - s.length = m + 1 by omega, List.take_succ_cons]
  exact List.mem_append_right _ List.mem_cons_self

/-- **A table with a page that splits a key.** The orderings can be chosen so that a row is
received twice. -/
theorem exists_reading_of_splitAt (hlimit : 0 < limit) {k : ℕ}
    (hs : SplitAt key rows (k * limit)) : ∃ pages, Reading key limit (fun _ => rows) pages ∧
      ∀ n, Ends pages n → ¬ (received pages n).Nodup := by
  obtain ⟨l, hl⟩ := OrderedBy.exists_of key rows
  obtain ⟨s, x, y, t, rfl, hlen, hxy⟩ := hs.exists_neighbours hl
  -- from page `k` on the neighbours come the other way round
  let L : ℕ → List ρ := fun i => if i < k then s ++ x :: y :: t else s ++ y :: x :: t
  have hL : ∀ i, OrderedBy key rows (L i) := by
    intro i
    by_cases hi : i < k
    · simpa only [L, if_pos hi] using hl
    · simpa only [L, if_neg hi] using hl.swap hxy
  refine ⟨cut limit L, reading_cut hL, fun n hn hnodup => ?_⟩
  obtain ⟨j, rfl⟩ : ∃ j, k = j + 1 := Nat.exists_eq_succ_of_ne_zero fun h => by simp [h] at hlen
  rw [Nat.succ_mul] at hlen
  -- `x` is the last row of page `k - 1`, and the first but one of page `k` after the swap
  have hfirst : x ∈ cut limit L j := by
    have hcut : cut limit L j = (s.drop (j * limit) ++ x :: y :: t).take limit := by
      rw [cut, show L j = s ++ x :: y :: t from if_pos (Nat.lt_succ_self j),
        List.drop_append_of_le_length (by omega)]
    rw [hcut]
    exact mem_take_append (by rw [List.length_drop]; omega)
  have hsecond : x ∈ cut limit L (j + 1) := by
    have hcut : cut limit L (j + 1) = (x :: t).take limit := by
      have hdrop : (s ++ y :: x :: t).drop (j * limit + limit) = x :: t := by
        rw [← hlen, List.drop_append, List.drop_of_length_le (Nat.le_succ _), Nat.add_sub_cancel_left]
        rfl
      rw [cut, show L (j + 1) = s ++ y :: x :: t from if_neg (Nat.lt_irrefl _), Nat.succ_mul, hdrop]
    rw [hcut]
    exact mem_take_append (s := []) hlimit
  have hlast : j + 1 < n := by
    by_contra hle
    have hempty := congrArg List.length hn.last
    have hbound : n * limit ≤ j * limit + limit := by
      rw [← Nat.succ_mul]
      exact Nat.mul_le_mul_right limit (by omega)
    have htotal := hl.length_eq
    simp only [List.length_append, List.length_cons] at htotal
    rw [cut, List.length_take, List.length_drop, (hL n).length_eq, List.length_nil] at hempty
    omega
  have hbegins := received_isPrefix (cut limit L) (Nat.succ_le_of_lt hlast)
  rw [Nat.succ_eq_add_one, received_succ, received_succ, List.append_assoc] at hbegins
  have htwo := (hnodup.sublist hbegins.sublist).sublist (List.sublist_append_right _ _)
  exact List.disjoint_of_nodup_append htwo hfirst hsecond

end Ties
