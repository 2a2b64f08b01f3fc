/-
The order of texts is that of their bytes.

Texts are compared character by character, and names in a configuration come in the
order of their UTF-8 bytes.  That is the same: of two characters the smaller one has
the smaller bytes, because longer encodings start with larger bytes, and encodings of
the same length differ first where the characters' digits to base 64 do.
-/
import Highlighting.Text.Name
import Mathlib

namespace Highlighting.Text

/-- The bytes of a text in UTF-8. -/
def bytes (s : String) : List UInt8 := s.toUTF8.data.toList

theorem bytes_eq (s : String) : bytes s = s.toList.flatMap String.utf8EncodeChar := by
  have h : s.toByteArray = s.toList.utf8Encode := by
    rw [← String.toByteArray_ofList, String.ofList_toList]
  rw [bytes, String.toUTF8_eq_toByteArray, h, List.utf8Encode, List.data_toByteArray]

/-- The order of numbers is that of their last two, three or four digits to base 64, where these are
all. -/
theorem digits_lt {m n : Nat} (h : m < n) :
    (m / 64 < n / 64 ∨ m / 64 = n / 64 ∧ m % 64 < n % 64) ∧
    (m / 4096 < n / 4096 ∨ m / 4096 = n / 4096 ∧
      (m / 64 % 64 < n / 64 % 64 ∨ m / 64 % 64 = n / 64 % 64 ∧ m % 64 < n % 64)) ∧
    (m / 262144 < n / 262144 ∨ m / 262144 = n / 262144 ∧
      (m / 4096 % 64 < n / 4096 % 64 ∨ m / 4096 % 64 = n / 4096 % 64 ∧
        (m / 64 % 64 < n / 64 % 64 ∨ m / 64 % 64 = n / 64 % 64 ∧ m % 64 < n % 64))) := by
  refine ⟨?_, ?_, ?_⟩ <;> omega

/-- The smaller of two characters has the smaller bytes, whatever follows. -/
theorem encode_lt {c d : Char} (h : c.val.toNat < d.val.toNat) (xs ys : List UInt8) :
    String.utf8EncodeChar c ++ xs < String.utf8EncodeChar d ++ ys := by
  have hd : d.val.toNat < 0x110000 := by
    have := d.valid
    simp only [UInt32.isValidChar, Nat.isValidChar] at this
    omega
  unfold String.utf8EncodeChar
  generalize c.val.toNat = m at *
  generalize d.val.toNat = n at *
  obtain ⟨h2, h3, h4⟩ := digits_lt h
  simp only
  split_ifs
  all_goals
    simp only [List.cons_append, List.nil_append, List.cons_lt_cons_iff, UInt8.lt_iff_toNat_lt,
      ← UInt8.toNat_inj, UInt8.toNat_ofNat']
    simp (disch := omega) only [Nat.mod_eq_of_lt]
    omega

theorem append_lt_append_iff (l xs ys : List UInt8) : l ++ xs < l ++ ys ↔ xs < ys := by
  induction l with
  | nil => exact Iff.rfl
  | cons b l ih =>
      rw [List.cons_append, List.cons_append, List.cons_lt_cons_iff, ih]
      simp

theorem encode_ne_nil (c : Char) (xs : List UInt8) : String.utf8EncodeChar c ++ xs ≠ [] := by
  intro h
  have hlength := congrArg List.length h
  have hpos := c.utf8Size_pos
  rw [List.length_append, String.length_utf8EncodeChar, List.length_nil] at hlength
  omega

theorem chars_lt_iff (s t : List Char) :
    s < t ↔ s.flatMap String.utf8EncodeChar < t.flatMap String.utf8EncodeChar := by
  induction s generalizing t with
  | nil =>
      cases t with
      | nil => simp
      | cons d t =>
          have hpos := List.length_pos_of_ne_nil (encode_ne_nil d (t.flatMap String.utf8EncodeChar))
          obtain ⟨b, bs, hbs⟩ := List.exists_cons_of_length_pos hpos
          rw [List.flatMap_cons, hbs]
          simp
  | cons c s ih =>
      cases t with
      | nil => simp
      | cons d t =>
          rw [List.flatMap_cons, List.flatMap_cons, List.cons_lt_cons_iff, Char.lt_def,
            UInt32.lt_iff_toNat_lt]
          rcases Nat.lt_trichotomy c.val.toNat d.val.toNat with hlt | heq | hlt
          · exact ⟨fun _ => encode_lt hlt _ _, fun _ => Or.inl hlt⟩
          · obtain rfl : c = d := Char.ext (UInt32.toNat_inj.mp heq)
            rw [append_lt_append_iff, ← ih]
            simp
          · -- neither side: the bytes come the other way round
            have hafter := encode_lt hlt (t.flatMap String.utf8EncodeChar)
              (s.flatMap String.utf8EncodeChar)
            refine ⟨?_, fun h => absurd h (List.lt_asymm hafter)⟩
            rintro (h | ⟨rfl, -⟩) <;> omega

/-- **Texts are in the order of their bytes.** -/
theorem lt_iff_bytes_lt (s t : String) : s < t ↔ bytes s < bytes t := by
  rw [bytes_eq, bytes_eq, ← chars_lt_iff]
  exact String.lt_iff_toList_lt

end Highlighting.Text
