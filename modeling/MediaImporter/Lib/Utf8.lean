import Mathlib

/-!
# UTF-8 text as byte strings

Operating systems and databases hand out byte strings; a program that wants text
decodes them and may fail. `Text` is a list of characters, `Bytes` a list of bytes,
`utf8` encodes and `ofUtf8` decodes. The two are inverse to each other where decoding
succeeds, so comparing texts and comparing their encodings is the same thing, and an
ASCII character occurs in a text exactly when its byte occurs in the encoding.

## Main definitions

* `utf8 s`, `ofUtf8 b` — encoding and partial decoding.
* `ofUtf8_utf8`, `utf8_of_ofUtf8` — they are mutually inverse.
* `utf8_injective`, `mem_utf8_iff` — what an encoding determines.
-/

namespace Utf8

/-- A byte string, as an operating system or a database stores it. -/
abbrev Bytes := List UInt8

/-- Decoded text: a sequence of Unicode scalar values. -/
abbrev Text := List Char

/-- The UTF-8 encoding of a text. -/
def utf8 (s : Text) : Bytes := s.flatMap String.utf8EncodeChar

/-- The text a byte string encodes, if it is well-formed UTF-8. -/
def ofUtf8 (b : Bytes) : Option Text := b.toByteArray.utf8Decode?.map Array.toList

@[simp] theorem utf8_nil : utf8 [] = [] := rfl

@[simp] theorem utf8_append (s t : Text) : utf8 (s ++ t) = utf8 s ++ utf8 t := by
  simp [utf8]

@[simp] theorem ofUtf8_utf8 (s : Text) : ofUtf8 (utf8 s) = some s := by
  have h : (utf8 s).toByteArray = s.utf8Encode := rfl
  simp [ofUtf8, h, List.utf8Decode?_utf8Encode]

theorem utf8_of_ofUtf8 {b : Bytes} {s : Text} (h : ofUtf8 b = some s) : utf8 s = b := by
  obtain ⟨a, ha, rfl⟩ := Option.map_eq_some_iff.mp h
  have hsome : b.toByteArray.utf8Decode?.isSome = true := by simp [ha]
  have henc := ByteArray.utf8Encode_get_utf8Decode? (b := b.toByteArray) (h := hsome)
  simp only [ha, Option.get_some] at henc
  have hdata : (utf8 a.toList).toByteArray.data = b.toByteArray.data := congrArg _ henc
  simpa [List.data_toByteArray] using hdata

theorem ofUtf8_eq_some_iff {b : Bytes} {s : Text} : ofUtf8 b = some s ↔ b = utf8 s := by
  constructor
  · intro h; exact (utf8_of_ofUtf8 h).symm
  · rintro rfl; exact ofUtf8_utf8 s

theorem utf8_injective : Function.Injective utf8 := by
  intro s t h
  have hs := ofUtf8_utf8 s
  rw [h, ofUtf8_utf8] at hs
  exact (Option.some.inj hs).symm

@[simp] theorem utf8_inj {s t : Text} : utf8 s = utf8 t ↔ s = t := utf8_injective.eq_iff

/-- An encoding has at least one byte for each character. -/
theorem length_le_length_utf8 (s : Text) : s.length ≤ (utf8 s).length := by
  induction s with
  | nil => simp
  | cons c s ih =>
      have hpos : 0 < (String.utf8EncodeChar c).length := by
        rw [String.length_utf8EncodeChar]
        exact Char.utf8Size_pos c
      have hcons : utf8 (c :: s) = String.utf8EncodeChar c ++ utf8 s := rfl
      rw [hcons, List.length_append, List.length_cons]
      omega

@[simp] theorem utf8_eq_nil {s : Text} : utf8 s = [] ↔ s = [] := by
  rw [← utf8_nil, utf8_inj]

/-- A byte below 128 occurs in the encoding of a character only when the character is
that byte: every other byte of an encoding has its top bit set. -/
theorem mem_utf8EncodeChar_iff (c d : Char) (hc : c.val.toNat < 128) :
    UInt8.ofNat c.val.toNat ∈ String.utf8EncodeChar d ↔ d = c := by
  have hbyte (n : ℕ) (hn : 128 ≤ n) (hn' : n < 256) :
      UInt8.ofNat c.val.toNat ≠ UInt8.ofNat n := by
    intro h
    have := congrArg UInt8.toNat h
    simp only [UInt8.toNat_ofNat'] at this
    omega
  have hne (h : 128 ≤ d.val.toNat) : d ≠ c := by rintro rfl; omega
  fun_cases String.utf8EncodeChar d with
  | case1 _ hv =>
      simp only [List.mem_singleton]
      constructor
      · intro h
        have := congrArg UInt8.toNat h
        simp only [UInt8.toNat_ofNat'] at this
        apply Char.ext
        apply UInt32.toNat_inj.mp
        omega
      · rintro rfl; rfl
  | case2 _ hv hv' =>
      simp only [List.mem_cons, List.not_mem_nil, or_false]
      refine iff_of_false ?_ (hne (by omega))
      rintro (h | h)
      · exact hbyte _ (by omega) (by omega) h
      · exact hbyte _ (by omega) (by omega) h
  | case3 _ hv hv' hv'' =>
      simp only [List.mem_cons, List.not_mem_nil, or_false]
      refine iff_of_false ?_ (hne (by omega))
      rintro (h | h | h)
      · exact hbyte _ (by omega) (by omega) h
      · exact hbyte _ (by omega) (by omega) h
      · exact hbyte _ (by omega) (by omega) h
  | case4 _ hv hv' hv'' =>
      simp only [List.mem_cons, List.not_mem_nil, or_false]
      refine iff_of_false ?_ (hne (by omega))
      rintro (h | h | h | h)
      · exact hbyte _ (by omega) (by omega) h
      · exact hbyte _ (by omega) (by omega) h
      · exact hbyte _ (by omega) (by omega) h
      · exact hbyte _ (by omega) (by omega) h

/-- An ASCII character occurs in a text exactly when its byte occurs in the encoding. -/
theorem mem_utf8_iff (c : Char) (hc : c.val.toNat < 128) (s : Text) :
    UInt8.ofNat c.val.toNat ∈ utf8 s ↔ c ∈ s := by
  simp only [utf8, List.mem_flatMap]
  constructor
  · rintro ⟨d, hd, h⟩
    rw [mem_utf8EncodeChar_iff c d hc] at h
    exact h ▸ hd
  · intro h
    exact ⟨c, h, (mem_utf8EncodeChar_iff c c hc).mpr rfl⟩

/-- Byte strings are compared byte by byte, as `memcmp` does. -/
instance byteOrder : LinearOrder UInt8 where
  le_refl := UInt8.le_refl
  le_trans _ _ _ := UInt8.le_trans
  le_antisymm _ _ := UInt8.le_antisymm
  le_total := UInt8.le_total
  lt_iff_le_not_ge a b := by
    simp only [UInt8.le_iff_toNat_le, UInt8.lt_iff_toNat_lt]; omega
  toDecidableLE := inferInstance
  toDecidableEq := inferInstance
  toDecidableLT := inferInstance

end Utf8
