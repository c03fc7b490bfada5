import Mathlib.Data.List.Basic

/-!
# The UTF-8 bytes of a text

`utf8 s` are the bytes of the UTF-8 encoding of `s`. A byte is *printed as is* by a printer
`print : UInt8 → List Char` if it prints as the one ASCII character whose code it is. A printer
that otherwise prints at least two characters gives back the text its bytes encode exactly
where all bytes are printed as is (`ofList_flatMap_eq_iff`): an escape makes the text longer.
-/

/-- The bytes of the UTF-8 encoding of a text. -/
def utf8 (s : String) : List UInt8 := s.toUTF8.data.toList

theorem utf8_ofList (l : List Char) : utf8 (String.ofList l) = l.flatMap String.utf8EncodeChar := by
  have hbytes : (String.ofList l).toUTF8 = l.utf8Encode := String.toByteArray_ofList
  rw [utf8, hbytes, List.utf8Encode, List.data_toByteArray]

theorem utf8_eq_flatMap (s : String) : utf8 s = s.toList.flatMap String.utf8EncodeChar := by
  rw [← utf8_ofList, String.ofList_toList]

/-- A text is determined by its bytes. -/
theorem utf8_inj {s t : String} : utf8 s = utf8 t ↔ s = t := by
  refine ⟨fun h => ?_, congrArg utf8⟩
  exact String.toByteArray_inj.mp (ByteArray.ext (Array.toList_inj.mp h))

theorem toNat_ofNat_of_ascii {n : Nat} (h : n < 128) : (Char.ofNat n).toNat = n := by
  have hvalid : n.isValidChar := Or.inl (by omega)
  rw [Char.ofNat, dif_pos hvalid]
  exact BitVec.toNat_ofNatLT ..

/-- The one byte of an ASCII character is its code. -/
theorem utf8EncodeChar_ofNat {b : UInt8} (h : b.toNat < 128) :
    String.utf8EncodeChar (Char.ofNat b.toNat) = [b] := by
  have hval : (Char.ofNat b.toNat).val.toNat = b.toNat := toNat_ofNat_of_ascii h
  have hle : b.toNat ≤ 127 := by omega
  simp only [String.utf8EncodeChar, hval, if_pos hle, UInt8.ofNat_toNat]

/-- No text has more characters than bytes. -/
theorem length_le_length_flatMap_utf8EncodeChar (l : List Char) :
    l.length ≤ (l.flatMap String.utf8EncodeChar).length := by
  induction l with
  | nil => exact Nat.le_refl 0
  | cons c l ih =>
    have hpos := c.utf8Size_pos
    rw [List.flatMap_cons, List.length_append, List.length_cons, String.length_utf8EncodeChar]
    omega

section Printer

variable {print : UInt8 → List Char} {asIs : UInt8 → Prop}
  (hsame : ∀ b, asIs b → b.toNat < 128 ∧ print b = [Char.ofNat b.toNat])
  (hlong : ∀ b, ¬ asIs b → 2 ≤ (print b).length)

include hsame in
/-- Bytes that are printed as they are, are the bytes of what is printed. -/
theorem utf8_print_of_asIs {bytes : List UInt8} (h : ∀ b ∈ bytes, asIs b) :
    utf8 (String.ofList (bytes.flatMap print)) = bytes := by
  rw [utf8_ofList]
  induction bytes with
  | nil => rfl
  | cons b bytes ih =>
    obtain ⟨hascii, hprint⟩ := hsame b (h b List.mem_cons_self)
    rw [List.flatMap_cons, List.flatMap_append, ih fun b' hb' =>
      h b' (List.mem_cons_of_mem b hb'), hprint, List.flatMap_singleton,
      utf8EncodeChar_ofNat hascii]
    rfl

include hsame hlong

/-- What is printed has at least one byte for each byte, and more where one is escaped. -/
private theorem length_print (bytes : List UInt8) :
    bytes.length ≤ ((bytes.flatMap print).flatMap String.utf8EncodeChar).length ∧
      (((bytes.flatMap print).flatMap String.utf8EncodeChar).length = bytes.length →
        ∀ b ∈ bytes, asIs b) := by
  induction bytes with
  | nil => exact ⟨Nat.le_refl 0, fun _ _ hb => by cases hb⟩
  | cons b bytes ih =>
    obtain ⟨hle, hall⟩ := ih
    rw [List.flatMap_cons, List.flatMap_append, List.length_append, List.length_cons]
    by_cases hb : asIs b
    · obtain ⟨hascii, hprint⟩ := hsame b hb
      have hone : ((print b).flatMap String.utf8EncodeChar).length = 1 := by
        rw [hprint, List.flatMap_singleton, utf8EncodeChar_ofNat hascii]
        rfl
      refine ⟨by omega, fun hlen => ?_⟩
      intro b' hb'
      rcases List.mem_cons.mp hb' with rfl | hb'
      · exact hb
      · exact hall (by omega) b' hb'
    · have htwo := hlong b hb
      have hlen := length_le_length_flatMap_utf8EncodeChar (print b)
      exact ⟨by omega, fun hlen => by omega⟩

/-- **A printer that escapes** gives back the text its bytes encode exactly where it escapes
none of them. -/
theorem ofList_flatMap_eq_iff (s : String) :
    String.ofList ((utf8 s).flatMap print) = s ↔ ∀ b ∈ utf8 s, asIs b := by
  constructor
  · intro h
    refine (length_print hsame hlong (utf8 s)).2 ?_
    rw [← utf8_ofList, h]
  · intro hall
    exact utf8_inj.mp (utf8_print_of_asIs hsame hall)

end Printer
