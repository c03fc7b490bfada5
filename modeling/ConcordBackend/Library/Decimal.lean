import ConcordBackend.Library.Utf8
import Mathlib

/-!
# Decimal numbers in front of a delimiter

The decimal text of an integer has digits and at most a minus sign. A delimiter that is neither
ends the text, so a number followed by the delimiter and by anything at all determines both,
character by character (`toString_cons_inj`) and in the bytes of the encoding
(`utf8_toString_cons_inj`).
-/

section Delimiter

variable {α : Type} {d : α}

/-- The first occurrence of a delimiter splits a list in one way. -/
theorem append_delimiter_inj {l l' rest rest' : List α} (hl : d ∉ l) (hl' : d ∉ l')
    (h : l ++ d :: rest = l' ++ d :: rest') : l = l' ∧ rest = rest' := by
  induction l generalizing l' with
  | nil =>
    cases l' with
    | nil => exact ⟨rfl, (List.cons.inj h).2⟩
    | cons c l' => exact absurd ((List.cons.inj h).1 ▸ List.mem_cons_self) hl'
  | cons c l ih =>
    cases l' with
    | nil => exact absurd ((List.cons.inj h).1 ▸ List.mem_cons_self) hl
    | cons c' l' =>
      obtain ⟨rfl, htail⟩ := List.cons.inj h
      obtain ⟨rfl, hrest⟩ := ih (mt (List.mem_cons_of_mem c) hl) (mt (List.mem_cons_of_mem c) hl')
        htail
      exact ⟨rfl, hrest⟩

end Delimiter

/-- The bytes of an ASCII text are the codes of its characters. -/
theorem utf8_of_ascii {s : String} (h : ∀ c ∈ s.toList, c.toNat < 128) :
    utf8 s = s.toList.map fun c => UInt8.ofNat c.toNat := by
  rw [utf8_eq_flatMap, List.map_eq_flatMap]
  refine List.flatMap_congr fun c hc => ?_
  have hle : c.val.toNat ≤ 127 := Nat.le_of_lt_succ (h c hc)
  rw [String.utf8EncodeChar, if_pos hle]
  rfl

section Decimal

variable {m n : ℤ}

/-- The codes of the digits and of the minus sign. -/
def IsNumeral (code : ℕ) : Prop := 48 ≤ code ∧ code ≤ 57 ∨ code = 45

instance (code : ℕ) : Decidable (IsNumeral code) := inferInstanceAs (Decidable (_ ∨ _))

theorem isNumeral_of_mem_toString {c : Char} (hc : c ∈ (toString n).toList) :
    IsNumeral c.toNat := by
  have hdigits : ∀ k : ℕ, c ∈ k.repr.toList → IsNumeral c.toNat := by
    intro k hk
    rw [Nat.toList_repr] at hk
    exact Or.inl (Char.isDigit_iff_toNat.mp (Nat.isDigit_of_mem_toDigits (by omega) (by omega) hk))
  rw [Int.toString_eq_repr, Int.repr_eq_if] at hc
  split at hc
  · exact hdigits _ hc
  · rw [String.toList_append] at hc
    rcases List.mem_append.mp hc with hc | hc
    · obtain rfl : c = '-' := by simpa using hc
      exact Or.inr rfl
    · exact hdigits _ hc

/-- The bytes of the text of a number. -/
theorem utf8_toString (n : ℤ) :
    utf8 (toString n) = (toString n).toList.map fun c => UInt8.ofNat c.toNat := by
  refine utf8_of_ascii fun c hc => ?_
  have hcode := isNumeral_of_mem_toString hc
  unfold IsNumeral at hcode
  omega

theorem isNumeral_of_mem_utf8_toString {b : UInt8} (hb : b ∈ utf8 (toString n)) :
    IsNumeral b.toNat := by
  rw [utf8_toString] at hb
  obtain ⟨c, hc, rfl⟩ := List.mem_map.mp hb
  have hcode := isNumeral_of_mem_toString hc
  have hlt : c.toNat < 2 ^ 8 := by
    unfold IsNumeral at hcode
    omega
  rwa [UInt8.toNat_ofNat_of_lt' hlt]

/-- **A number and what follows it**, by the characters. -/
theorem toString_cons_inj {d : Char} (hd : ¬ IsNumeral d.toNat) {rest rest' : List Char}
    (h : (toString m).toList ++ d :: rest = (toString n).toList ++ d :: rest') :
    m = n ∧ rest = rest' := by
  obtain ⟨htext, hrest⟩ := append_delimiter_inj (mt isNumeral_of_mem_toString hd)
    (mt isNumeral_of_mem_toString hd) h
  exact ⟨Int.repr_injective (String.toList_inj.mp htext), hrest⟩

/-- **A number and what follows it**, by the bytes. -/
theorem utf8_toString_cons_inj {d : UInt8} (hd : ¬ IsNumeral d.toNat) {rest rest' : List UInt8}
    (h : utf8 (toString m) ++ d :: rest = utf8 (toString n) ++ d :: rest') :
    m = n ∧ rest = rest' := by
  obtain ⟨htext, hrest⟩ := append_delimiter_inj (mt isNumeral_of_mem_utf8_toString hd)
    (mt isNumeral_of_mem_utf8_toString hd) h
  exact ⟨Int.repr_injective (utf8_inj.mp htext), hrest⟩

end Decimal
