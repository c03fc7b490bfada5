import ConcordBackend.Library.Server

/-!
# Rely and guarantee

A request that checks something with one operation and acts on it with a later one relies on
the other requests not to undo what it has seen. `Safe` states this for one program: at each
of its operations it keeps an invariant `I` of the world and moves the world along `R`, given
that the others have done so in between. Requests that are safe on their own are safe side by
side (`Serves.safe`).
-/

section Rely

variable {S : Signature} {ε ε' α β X W : Type} {H : Handler S W} {I : W → Prop} {R : W → W → Prop}

/-- From the world `w` on, the program keeps `I` and moves along `R`, as long as the others do. -/
def Safe (H : Handler S W) (I : W → Prop) (R : W → W → Prop) : Prog S ε α → W → Prop
  | .done _, _ => True
  | .fail _, _ => True
  | .call op k, w => ∀ w₁ r w₂, R w w₁ → I w₁ → H op w₁ r w₂ →
      I w₂ ∧ R w₁ w₂ ∧ Safe H I R (k r) w₂

namespace Safe

variable {p : Prog S ε α} {w w' : W}

/-- A safe program does not mind what the others do. -/
theorem stable (htrans : ∀ w₁ w₂ w₃, R w₁ w₂ → R w₂ w₃ → R w₁ w₃) (h : Safe H I R p w)
    (hR : R w w') : Safe H I R p w' := by
  cases p with
  | done a => trivial
  | fail e => trivial
  | call op k => exact fun w₁ r w₂ hw₁ => h w₁ r w₂ (htrans _ _ _ hR hw₁)

/-- A program is safe where each of its operations is, in every world. -/
theorem of_only {A : S.Op → Prop}
    (hA : ∀ op w r w', A op → I w → H op w r w' → I w' ∧ R w w') (hp : p.Only A) (w : W) :
    Safe H I R p w := by
  induction p generalizing w with
  | done a => trivial
  | fail e => trivial
  | call op k ih =>
    intro w₁ r w₂ _ hI hop
    obtain ⟨hI', hR⟩ := hA op w₁ r w₂ hp.1 hI hop
    exact ⟨hI', hR, ih r (hp.2 r) w₂⟩

/-- What returns safely and goes on safely from anywhere is safe. -/
theorem bind {f : α → Prog S ε β} (hp : Safe H I R p w) (hf : ∀ a w, Safe H I R (f a) w) :
    Safe H I R (p.bind f) w := by
  induction p generalizing w with
  | done a => exact hf a w
  | fail e => trivial
  | call op k ih =>
    intro w₁ r w₂ hR hI hop
    obtain ⟨hI', hR', hk⟩ := hp w₁ r w₂ hR hI hop
    exact ⟨hI', hR', ih r hk⟩

/-- An attempt is as safe as what it attempts. -/
theorem attempt (hp : Safe H I R p w) :
    Safe H I R (p.attempt : Prog S ε' (Except ε α)) w := by
  induction p generalizing w with
  | done a => trivial
  | fail e => trivial
  | call op k ih =>
    intro w₁ r w₂ hR hI hop
    obtain ⟨hI', hR', hk⟩ := hp w₁ r w₂ hR hI hop
    exact ⟨hI', hR', ih r hk⟩

end Safe

/-- **Requests that are safe on their own are safe side by side.** -/
theorem Serves.safe {serve : X → Prog S ε α} {w w' : W} {hist : S.History}
    {ts : List (X × Prog S ε α)} (hrefl : ∀ w, R w w)
    (htrans : ∀ w₁ w₂ w₃, R w₁ w₂ → R w₂ w₃ → R w₁ w₃)
    (hserve : ∀ x w, Safe H I R (serve x) w) (h : Serves H serve w hist ts w') (hw : I w) :
    I w' ∧ ∀ t ∈ ts, Safe H I R t.2 w' := by
  induction h with
  | start => exact ⟨hw, fun t ht => by cases ht⟩
  | @arrive hist ts w' _ x ih =>
    refine ⟨ih.1, fun t ht => ?_⟩
    rcases List.mem_append.mp ht with ht | ht
    · exact ih.2 t ht
    · obtain rfl := List.mem_singleton.mp ht
      exact hserve x w'
  | @answer hist ts w' w'' i x op k r _ hi hop ih =>
    have hcall := ih.2 _ (List.mem_of_getElem? hi)
    obtain ⟨hI, hR, hk⟩ := hcall w' r w'' (hrefl w') ih.1 hop
    refine ⟨hI, fun t ht => ?_⟩
    rcases List.mem_or_eq_of_mem_set ht with ht | rfl
    · exact (ih.2 t ht).stable htrans hR
    · exact hk

end Rely
