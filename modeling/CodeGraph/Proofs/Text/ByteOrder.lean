import Mathlib.Data.List.Lex
import Mathlib.Tactic.SplitIfs

namespace CodeGraph.Text

/-! Texts in the order of their bytes.  The encoding of characters keeps their order, and no
encoding starts with another. -/

/-- The bytes of a text as it is stored. -/
def bytes (text : String) : List UInt8 :=
  text.toUTF8.data.toList

theorem bytes_eq_flatMap (text : String) :
    bytes text = text.toList.flatMap String.utf8EncodeChar := by
  have hencode : text.toUTF8 = text.toList.utf8Encode := by
    rw [String.utf8Encode_toList]
    rfl
  rw [bytes, hencode, List.utf8Encode, List.data_toByteArray]

theorem ofNat_lt_ofNat_iff {m n : Nat} (hm : m < 256) (hn : n < 256) :
    UInt8.ofNat m < UInt8.ofNat n ↔ m < n :=
  UInt8.ofNat_lt_iff_lt hm hn

theorem ofNat_eq_ofNat_iff {m n : Nat} (hm : m < 256) (hn : n < 256) :
    UInt8.ofNat m = UInt8.ofNat n ↔ m = n := by
  rw [← UInt8.toNat_inj, UInt8.toNat_ofNat', UInt8.toNat_ofNat', Nat.mod_eq_of_lt hm,
    Nat.mod_eq_of_lt hn]

theorem lt_by_digits (base : Nat) {m n : Nat} (hless : m < n) :
    m / base < n / base ∨ m / base = n / base ∧ m % base < n % base := by
  rcases Nat.lt_or_eq_of_le (Nat.div_le_div_right hless.le : m / base ≤ n / base) with hlt | heq
  · exact .inl hlt
  · have hm := Nat.div_add_mod m base
    have hn := Nat.div_add_mod n base
    rw [heq] at hm
    exact .inr ⟨heq, by omega⟩

/-- The longest encoding has four digits. -/
theorem lt_by_four_digits {m n : Nat} (hless : m < n) (hlarge : n < 1114112) :
    m / 262144 % 8 < n / 262144 % 8 ∨ m / 262144 % 8 = n / 262144 % 8 ∧
      (m / 4096 % 64 < n / 4096 % 64 ∨ m / 4096 % 64 = n / 4096 % 64 ∧
        (m / 64 % 64 < n / 64 % 64 ∨ m / 64 % 64 = n / 64 % 64 ∧ m % 64 < n % 64)) := by
  have hsecond : ∀ k, k / 4096 = k / 64 / 64 := fun k => (Nat.div_div_eq_div_mul k 64 64).symm
  have hthird : ∀ k, k / 262144 = k / 64 / 64 / 64 := fun k => by
    rw [Nat.div_div_eq_div_mul, Nat.div_div_eq_div_mul]
  rw [Nat.mod_eq_of_lt (by omega : m / 262144 < 8), Nat.mod_eq_of_lt (by omega : n / 262144 < 8),
    hsecond, hsecond, hthird, hthird]
  rcases lt_by_digits 64 hless with hlow | ⟨hsame, hlast⟩
  · rcases lt_by_digits 64 hlow with hmiddle | ⟨hsame, hlast⟩
    · rcases lt_by_digits 64 hmiddle with hhigh | hlast
      · exact .inl hhigh
      · exact .inr ⟨hlast.1, .inl hlast.2⟩
    · exact .inr ⟨by rw [hsame], .inr ⟨by rw [hsame], .inl hlast⟩⟩
  · exact .inr ⟨by rw [hsame], .inr ⟨by rw [hsame], .inr ⟨by rw [hsame], hlast⟩⟩⟩

theorem utf8EncodeChar_append_lt {c d : Char} (hless : c < d) (front back : List UInt8) :
    String.utf8EncodeChar c ++ front < String.utf8EncodeChar d ++ back := by
  have hvalue : c.val.toNat < d.val.toNat := hless
  have hlarge : d.val.toNat < 1114112 := d.valid.elim (fun hlow => by omega) fun hhigh => hhigh.2
  have hdigits := lt_by_four_digits hvalue hlarge
  rw [String.utf8EncodeChar.eq_1, String.utf8EncodeChar.eq_1]
  generalize c.val.toNat = m at hvalue hdigits
  generalize d.val.toNat = n at hvalue hdigits hlarge
  split_ifs <;>
    simp (disch := omega) only [List.cons_append, List.nil_append, List.cons_lt_cons_iff,
      ofNat_lt_ofNat_iff, ofNat_eq_ofNat_iff] <;>
    omega

theorem flatMap_utf8EncodeChar_lt {first second : List Char} (hless : first < second) :
    first.flatMap String.utf8EncodeChar < second.flatMap String.utf8EncodeChar := by
  have hlex : List.Lex (· < ·) first second := hless
  induction hlex with
  | @nil c rest =>
      have hlength :
          0 < (String.utf8EncodeChar c ++ rest.flatMap String.utf8EncodeChar).length := by
        rw [List.length_append, String.length_utf8EncodeChar]
        exact Nat.add_pos_left c.utf8Size_pos _
      obtain ⟨byte, others, hencode⟩ := List.exists_cons_of_length_pos hlength
      rw [List.flatMap_nil, List.flatMap_cons, hencode]
      exact .nil
  | rel hchar => exact utf8EncodeChar_append_lt hchar _ _
  | cons htail ih => exact List.append_left_lt (ih htail)

/-- The order of texts is that of their bytes. -/
theorem bytes_lt {first second : String} (hless : first < second) : bytes first < bytes second := by
  rw [bytes_eq_flatMap, bytes_eq_flatMap]
  exact flatMap_utf8EncodeChar_lt (String.lt_iff.mp hless)

end CodeGraph.Text
