import MediaImporter.Integrity

/-!
# Reading printed paths back

A printed path is a row of pieces: a character that stands for itself, or a byte in its
escaped form. Which pieces were printed is lost in the text, since nothing escapes the
marker that an escape begins with. So a printed path leads back to its bytes only when
they print as themselves and no part of them reads like an escape.

## Main definitions

* `Piece` — what one part of a printed path stands for.
* `ReadsBack` — the paths that no other path prints like.
-/

namespace MediaImporter

open Utf8 UnixPath

/-! ## The front of a byte string -/

/-- Two byte strings that begin with a character and are equal begin with the same one. -/
theorem eq_of_utf8_append {c d : Char} {x y : Bytes} (h : utf8 [c] ++ x = utf8 [d] ++ y) :
    c = d := by
  have hfront (e : Char) (z : Bytes) :
      (utf8 [e] ++ z).toByteArray.utf8DecodeChar? 0 = some e := by
    rw [List.toByteArray_append]
    exact List.utf8DecodeChar?_utf8Encode_singleton_append
  have hc := hfront c x
  rw [h, hfront d y] at hc
  exact (Option.some.inj hc).symm

theorem append_of_decodeFront {b rest : Bytes} {c : Char} (h : decodeFront b = some (c, rest)) :
    b = utf8 [c] ++ rest := by
  obtain ⟨n, -, hn⟩ := List.exists_of_findSome?_eq_some h
  split at hn
  · next d hd =>
    simp only [Option.some.injEq, Prod.mk.injEq] at hn
    obtain ⟨rfl, rfl⟩ := hn
    rw [utf8_of_ofUtf8 hd, List.take_append_drop]
  · cases hn

@[simp] theorem decodeFront_utf8_append (c : Char) (rest : Bytes) :
    decodeFront (utf8 [c] ++ rest) = some (c, rest) := by
  have hsize : (utf8 [c]).length = c.utf8Size := by
    simp [utf8, String.length_utf8EncodeChar]
  have hsome : (decodeFront (utf8 [c] ++ rest)).isSome := by
    have hpos := c.utf8Size_pos
    have hfour := c.utf8Size_le_four
    rw [decodeFront, List.findSome?_isSome_iff]
    refine ⟨c.utf8Size, ?_, ?_⟩
    · simp only [List.mem_cons, List.not_mem_nil, or_false]
      omega
    · rw [← hsize, List.take_left, ofUtf8_utf8]
      rfl
  obtain ⟨⟨d, tail⟩, hd⟩ := Option.isSome_iff_exists.1 hsome
  have heq := append_of_decodeFront hd
  obtain rfl := eq_of_utf8_append heq
  rw [hd, List.append_cancel_left heq]

/-- A character is one byte below 128, or it begins with a byte that is no continuation
byte and goes on with bytes from 128 on. -/
theorem utf8_singleton_cases (c : Char) :
    (c.toNat < 128 ∧ utf8 [c] = [UInt8.ofNat c.toNat]) ∨
    (128 ≤ c.toNat ∧ ∃ first rest, utf8 [c] = first :: rest ∧ 0xC0 ≤ first ∧
      rest ≠ [] ∧ ∀ byte ∈ rest, isContinuation byte) := by
  have hbyte (m n : ℕ) (hm : m < 256) (hn : m ≤ n) (hn' : n < 256) :
      UInt8.ofNat m ≤ UInt8.ofNat n := by
    rw [UInt8.le_iff_toNat_le, UInt8.toNat_ofNat', UInt8.toNat_ofNat']
    omega
  have hnext (n : ℕ) (hn : 0x80 ≤ n) (hn' : n ≤ 0xBF) : isContinuation (UInt8.ofNat n) :=
    ⟨hbyte 0x80 n (by omega) hn (by omega), hbyte n 0xBF (by omega) hn' (by omega)⟩
  have hutf8 : utf8 [c] = String.utf8EncodeChar c := by simp [utf8]
  rw [hutf8]
  change (c.val.toNat < 128 ∧ _ = [UInt8.ofNat c.val.toNat]) ∨ (128 ≤ c.val.toNat ∧ _)
  fun_cases String.utf8EncodeChar c with
  | case1 _ hv => exact .inl ⟨by omega, rfl⟩
  | case2 _ hv hv' =>
      refine .inr ⟨by omega, _, _, rfl, hbyte 0xC0 _ (by omega) (by omega) (by omega),
        List.cons_ne_nil _ _, ?_⟩
      simp only [List.forall_mem_cons, List.not_mem_nil, false_implies, implies_true, and_true]
      exact hnext _ (by omega) (by omega)
  | case3 _ hv hv' hv'' =>
      refine .inr ⟨by omega, _, _, rfl, hbyte 0xC0 _ (by omega) (by omega) (by omega),
        List.cons_ne_nil _ _, ?_⟩
      simp only [List.forall_mem_cons, List.not_mem_nil, false_implies, implies_true, and_true]
      exact ⟨hnext _ (by omega) (by omega),
        hnext _ (by omega) (by omega)⟩
  | case4 _ hv hv' hv'' =>
      refine .inr ⟨by omega, _, _, rfl, hbyte 0xC0 _ (by omega) (by omega) (by omega),
        List.cons_ne_nil _ _, ?_⟩
      simp only [List.forall_mem_cons, List.not_mem_nil, false_implies, implies_true, and_true]
      exact ⟨hnext _ (by omega) (by omega),
        hnext _ (by omega) (by omega),
        hnext _ (by omega) (by omega)⟩

/-- A byte below 128 is a character by itself. -/
theorem exists_char_of_lt {byte : UInt8} (h : byte < 0x80) :
    ∃ c : Char, c.toNat = byte.toNat ∧ utf8 [c] = [byte] := by
  rw [UInt8.lt_iff_toNat_lt] at h
  change byte.toNat < 128 at h
  have hc : (Char.ofNat byte.toNat).toNat = byte.toNat := by
    have hvalid : byte.toNat.isValidChar := .inl (by omega)
    simp only [Char.ofNat, dif_pos hvalid]
    rfl
  refine ⟨Char.ofNat byte.toNat, hc, ?_⟩
  rcases utf8_singleton_cases (Char.ofNat byte.toNat) with ⟨-, heq⟩ | ⟨hlarge, -⟩
  · rw [heq, hc, UInt8.ofNat_toNat]
  · omega

/-! ## Unfolding the escape -/

theorem malformedLength_pos {b : Bytes} (h : b ≠ []) : 0 < malformedLength b := by
  fun_cases malformedLength b <;> first | omega | exact absurd rfl h

/-- Any fuel that covers the bytes gives the same text. -/
theorem escapePrefix_eq (fuel : ℕ) : ∀ (fuel' : ℕ) (b : Bytes), b.length ≤ fuel →
    b.length ≤ fuel' → escapePrefix fuel b = escapePrefix fuel' b := by
  induction fuel with
  | zero =>
      intro fuel' b h h'
      rw [List.eq_nil_of_length_eq_zero (by omega : b.length = 0)]
      cases fuel' <;> rfl
  | succ fuel ih =>
      intro fuel' b h h'
      cases b with
      | nil => cases fuel' <;> rfl
      | cons byte bytes =>
          obtain ⟨fuel', rfl⟩ : ∃ n, fuel' = n + 1 := Nat.exists_eq_add_one.2 (by
            simp only [List.length_cons] at h'
            omega)
          simp only [escapePrefix]
          split
          · next c rest hfront =>
            have hlen := congrArg List.length (append_of_decodeFront hfront)
            have hpos := length_le_length_utf8 [c]
            simp only [List.length_append, List.length_cons, List.length_nil] at hlen hpos h h'
            rw [ih fuel' rest (by omega) (by omega)]
          · have hpos := malformedLength_pos (List.cons_ne_nil byte bytes)
            have hlen := List.length_drop (i := malformedLength (byte :: bytes))
              (l := byte :: bytes)
            simp only [List.length_cons] at hlen h h'
            rw [ih fuel' _ (by omega) (by omega)]

theorem escapePrefix_eq_escapeBytes {fuel : ℕ} {b : Bytes} (h : b.length ≤ fuel) :
    escapePrefix fuel b = escapeBytes b :=
  escapePrefix_eq fuel b.length b h le_rfl

@[simp] theorem escapeBytes_nil : escapeBytes [] = [] := rfl

/-- A character at the front is printed on its own. -/
theorem escapeBytes_utf8_append (c : Char) (rest : Bytes) :
    escapeBytes (utf8 [c] ++ rest) = pushValidText c ++ escapeBytes rest := by
  have hpos := length_le_length_utf8 [c]
  obtain ⟨byte, bytes, hb⟩ : ∃ byte bytes, utf8 [c] ++ rest = byte :: bytes := by
    apply List.exists_cons_of_ne_nil
    simp
  have hlen := congrArg List.length hb
  have hfront := decodeFront_utf8_append c rest
  simp only [List.length_append, List.length_cons, List.length_nil] at hlen hpos
  rw [hb] at hfront ⊢
  simp only [escapeBytes, List.length_cons, escapePrefix, hfront]
  rw [escapePrefix_eq bytes.length rest.length rest (by omega) le_rfl]

/-- Bytes at the front that begin no character are escaped one by one. -/
theorem escapeBytes_malformed {b : Bytes} (hne : b ≠ []) (h : decodeFront b = none) :
    escapeBytes b = (b.take (malformedLength b)).flatMap escapeByte ++
      escapeBytes (b.drop (malformedLength b)) := by
  have hpos := malformedLength_pos hne
  obtain ⟨byte, bytes, rfl⟩ := List.exists_cons_of_ne_nil hne
  simp only [escapeBytes, List.length_cons, escapePrefix, h]
  rw [escapePrefix_eq_escapeBytes, escapeBytes, List.length_drop]
  rw [List.length_drop, List.length_cons]
  omega

/-! ## The pieces of a printed path -/

/-- A character that stands for itself in a printed path. -/
def Printable (c : Char) : Prop := ¬ isControl c ∧ ¬ isWhitespace c

instance (c : Char) : Decidable (Printable c) := inferInstanceAs (Decidable (_ ∧ _))

/-- A byte that is printed in its escaped form, alone or among others. -/
def Escapable (byte : UInt8) : Prop := byte ≤ 0x20 ∨ 0x7F ≤ byte

instance (byte : UInt8) : Decidable (Escapable byte) := inferInstanceAs (Decidable (_ ∨ _))

/-- One part of a printed path. -/
inductive Piece
  | plain (c : Char)
  | escaped (byte : UInt8)

namespace Piece

/-- The bytes of the path that the part stands for. -/
def bytes : Piece → Bytes
  | plain c => utf8 [c]
  | escaped byte => [byte]

/-- How the part is printed. -/
def text : Piece → Text
  | plain c => [c]
  | escaped byte => escapeByte byte

/-- The part is printed that way. -/
def Proper : Piece → Prop
  | plain c => Printable c
  | escaped byte => Escapable byte

end Piece

theorem pushValidText_of_printable {c : Char} (h : Printable c) : pushValidText c = [c] :=
  if_neg (not_or.2 h)

theorem pushValidText_of_not_printable {c : Char} (h : ¬ Printable c) :
    pushValidText c = (utf8 [c]).flatMap escapeByte :=
  if_pos (by rwa [Printable, ← not_or, not_not] at h)

theorem escapable_of_ge {byte : UInt8} (h : 0x80 ≤ byte) : Escapable byte :=
  .inr (le_trans (by decide) h)

/-- The bytes of a character that does not print are escaped. -/
theorem escapable_of_not_printable {c : Char} (h : ¬ Printable c) :
    ∀ byte ∈ utf8 [c], Escapable byte := by
  intro byte hbyte
  rcases utf8_singleton_cases c with ⟨hsmall, heq⟩ | ⟨-, first, rest, heq, hfirst, -, hrest⟩
  · rw [heq, List.mem_singleton] at hbyte
    subst hbyte
    have hn : (UInt8.ofNat c.toNat).toNat = c.toNat := by
      rw [UInt8.toNat_ofNat']
      omega
    simp only [Escapable, UInt8.le_iff_toNat_le, hn]
    change c.toNat ≤ 32 ∨ 127 ≤ c.toNat
    simp only [Printable, isControl, isWhitespace] at h
    omega
  · rw [heq, List.mem_cons] at hbyte
    rcases hbyte with rfl | hbyte
    · exact escapable_of_ge (le_trans (by decide) hfirst)
    · exact escapable_of_ge (hrest byte hbyte).1

/-- A byte that can be escaped is no character that prints. -/
theorem not_printable_of_escapable {c : Char} {byte : UInt8} (h : Escapable byte)
    (hc : utf8 [c] = [byte]) : ¬ Printable c := by
  rcases utf8_singleton_cases c with ⟨hsmall, heq⟩ | ⟨-, first, rest, heq, -, hrest, -⟩
  · rw [heq, List.singleton_inj] at hc
    subst hc
    have hn : (UInt8.ofNat c.toNat).toNat = c.toNat := by
      rw [UInt8.toNat_ofNat']
      omega
    simp only [Escapable, UInt8.le_iff_toNat_le, hn] at h
    change c.toNat ≤ 32 ∨ 127 ≤ c.toNat at h
    simp only [Printable, isControl, isWhitespace]
    omega
  · rw [heq, List.cons.injEq] at hc
    exact absurd hc.2 hrest

theorem isContinuation_of_startsSequence {first second : UInt8} (h : startsSequence first second) :
    isContinuation second := by
  rcases h with ⟨-, hl, hu⟩ | ⟨-, hl, hu⟩ | ⟨-, -, -, hl, hu⟩ | ⟨-, hl, hu⟩ | ⟨-, -, hl, hu⟩ |
    ⟨-, hl, hu⟩ <;> exact ⟨le_trans (by decide) hl, le_trans hu (by decide)⟩

/-- The bytes at the front that begin no character are all from 128 on. -/
theorem ge_of_mem_take_malformedLength {b : Bytes} (h : decodeFront b = none) :
    ∀ byte ∈ b.take (malformedLength b), 0x80 ≤ byte := by
  have hfirst (first : UInt8) (rest : Bytes) (hb : b = first :: rest) : 0x80 ≤ first := by
    by_contra hlt
    obtain ⟨c, -, hc⟩ := exists_char_of_lt (not_le.1 hlt)
    rw [hb, ← List.singleton_append, ← hc, decodeFront_utf8_append] at h
    cases h
  have hsecond {first second : UInt8} (hs : startsSequence first second) : 0x80 ≤ second :=
    (isContinuation_of_startsSequence hs).1
  fun_cases malformedLength b <;>
    simp only [List.take_succ_cons, List.take_zero, List.forall_mem_cons, List.not_mem_nil,
      false_implies, implies_true, and_true]
  case case2 first => exact hfirst first [] rfl
  case case3 first second hs => exact ⟨hfirst _ _ rfl, hsecond hs⟩
  case case4 first second hs => exact hfirst _ _ rfl
  case case5 first second third rest hs hthird =>
    exact ⟨hfirst _ _ rfl, hsecond hs, hthird.1.1⟩
  case case6 first second third rest hs hthird => exact ⟨hfirst _ _ rfl, hsecond hs⟩
  case case7 first second third rest hs => exact hfirst _ _ rfl

/-- Escaped bytes as pieces. -/
theorem pieces_of_escapable {b : Bytes} (h : ∀ byte ∈ b, Escapable byte) :
    (∀ piece ∈ b.map Piece.escaped, piece.Proper) ∧
    (b.map Piece.escaped).flatMap Piece.bytes = b ∧
    (b.map Piece.escaped).flatMap Piece.text = b.flatMap escapeByte := by
  refine ⟨List.forall_mem_map.2 h, ?_, ?_⟩
  · rw [List.flatMap_map]
    exact List.flatMap_singleton' b
  · rw [List.flatMap_map]
    rfl

/-- A printed path is a row of pieces. -/
theorem exists_pieces (b : Bytes) : ∃ pieces : List Piece, (∀ piece ∈ pieces, piece.Proper) ∧
    pieces.flatMap Piece.bytes = b ∧ pieces.flatMap Piece.text = escapeBytes b := by
  induction hn : b.length using Nat.strong_induction_on generalizing b with
  | _ n ih =>
    subst hn
    by_cases hne : b = []
    · subst hne
      exact ⟨[], by simp, rfl, rfl⟩
    cases hfront : decodeFront b with
    | some front =>
        obtain ⟨c, rest⟩ := front
        obtain rfl := append_of_decodeFront hfront
        have hpos := length_le_length_utf8 [c]
        obtain ⟨pieces, hproper, hbytes, htext⟩ := ih rest.length (by
          simp only [List.length_append, List.length_cons, List.length_nil] at hpos ⊢
          omega) rest rfl
        rw [escapeBytes_utf8_append]
        by_cases hc : Printable c
        · refine ⟨.plain c :: pieces, List.forall_mem_cons.2 ⟨hc, hproper⟩, ?_, ?_⟩
          · rw [List.flatMap_cons, hbytes]
            rfl
          · rw [List.flatMap_cons, htext, pushValidText_of_printable hc]
            rfl
        · obtain ⟨hproper', hbytes', htext'⟩ :=
            pieces_of_escapable (escapable_of_not_printable hc)
          refine ⟨(utf8 [c]).map Piece.escaped ++ pieces, ?_, ?_, ?_⟩
          · exact List.forall_mem_append.2 ⟨hproper', hproper⟩
          · rw [List.flatMap_append, hbytes, hbytes']
          · rw [List.flatMap_append, htext, htext', pushValidText_of_not_printable hc]
    | none =>
        have hpos := malformedLength_pos hne
        obtain ⟨pieces, hproper, hbytes, htext⟩ := ih (b.drop (malformedLength b)).length (by
          have := List.length_pos_of_ne_nil hne
          rw [List.length_drop]
          omega) _ rfl
        obtain ⟨hproper', hbytes', htext'⟩ := pieces_of_escapable fun byte hbyte =>
          escapable_of_ge (ge_of_mem_take_malformedLength hfront byte hbyte)
        refine ⟨(b.take (malformedLength b)).map Piece.escaped ++ pieces, ?_, ?_, ?_⟩
        · exact List.forall_mem_append.2 ⟨hproper', hproper⟩
        · rw [List.flatMap_append, hbytes, hbytes', List.take_append_drop]
        · rw [List.flatMap_append, htext, htext', escapeBytes_malformed hne hfront]

/-! ## Reading back -/

/-- Characters that print are printed as they are. -/
theorem escapeBytes_printable_append {t : Text} (h : ∀ c ∈ t, Printable c) (rest : Bytes) :
    escapeBytes (utf8 t ++ rest) = t ++ escapeBytes rest := by
  induction t with
  | nil => rfl
  | cons c t ih =>
      rw [List.forall_mem_cons] at h
      have hcons : utf8 (c :: t) ++ rest = utf8 [c] ++ (utf8 t ++ rest) := by
        rw [← List.append_assoc, ← utf8_append]
        rfl
      rw [hcons, escapeBytes_utf8_append, pushValidText_of_printable h.1, ih h.2]
      rfl

theorem escapeBytes_printable {t : Text} (h : ∀ c ∈ t, Printable c) :
    escapeBytes (utf8 t) = t := by
  have hnil := escapeBytes_printable_append h []
  rwa [List.append_nil, escapeBytes_nil, List.append_nil] at hnil

/-- An escaped byte is spelt in characters that print. -/
theorem printable_escapeByte (byte : UInt8) : ∀ c ∈ escapeByte byte, Printable c := by
  have hdigit : ∀ n < 16,
      Printable (if n < 10 then Char.ofNat (48 + n) else Char.ofNat (87 + n)) := by
    decide
  have hlt := byte.toNat_lt
  intro c hc
  simp only [escapeByte, List.mem_cons, List.not_mem_nil, or_false] at hc
  rcases hc with rfl | rfl | rfl | rfl
  · decide
  · decide
  · exact hdigit (byte.toNat / 16) (by omega)
  · exact hdigit (byte.toNat % 16) (by omega)

/-- A printed path has only characters that print. -/
theorem printable_escapeBytes (b : Bytes) : ∀ c ∈ escapeBytes b, Printable c := by
  obtain ⟨pieces, hproper, -, htext⟩ := exists_pieces b
  intro c hc
  rw [← htext, List.mem_flatMap] at hc
  obtain ⟨piece, hpiece, hc⟩ := hc
  cases piece with
  | plain d =>
      rw [List.mem_singleton.1 hc]
      exact hproper _ hpiece
  | escaped byte => exact printable_escapeByte byte c hc

/-- A byte that can be escaped is escaped where characters follow it. -/
theorem escapeBytes_escapable_cons {byte : UInt8} (h : Escapable byte) (t : Text) :
    escapeBytes (byte :: utf8 t) = escapeByte byte ++ escapeBytes (utf8 t) := by
  by_cases hlt : byte < 0x80
  · obtain ⟨c, -, hc⟩ := exists_char_of_lt hlt
    rw [← List.singleton_append, ← hc, escapeBytes_utf8_append,
      pushValidText_of_not_printable (not_printable_of_escapable h hc), hc]
    simp
  · -- what follows begins with no continuation byte, so the byte is on its own
    have hnext {first : UInt8} {rest : Bytes} (ht : utf8 t = first :: rest) :
        ¬ isContinuation first := by
      cases t with
      | nil => cases ht
      | cons c t =>
          change utf8 ([c] ++ t) = _ at ht
          rw [utf8_append] at ht
          rcases utf8_singleton_cases c with ⟨hsmall, heq⟩ | ⟨-, first', rest', heq, hge, -⟩
          · rw [heq, List.singleton_append, List.cons.injEq] at ht
            rw [← ht.1, isContinuation, UInt8.le_iff_toNat_le, UInt8.toNat_ofNat']
            change ¬ (128 ≤ _ ∧ _)
            omega
          · rw [heq, List.cons_append, List.cons.injEq] at ht
            rw [← ht.1]
            exact fun hc => absurd (le_trans hge hc.2) (by decide)
    have hnone : decodeFront (byte :: utf8 t) = none := by
      by_contra hsome
      obtain ⟨⟨c, tail⟩, hfront⟩ := Option.ne_none_iff_exists'.1 hsome
      have hb := append_of_decodeFront hfront
      rcases utf8_singleton_cases c with ⟨hsmall, heq⟩ | ⟨-, first, rest, heq, -, hne, hrest⟩
      · rw [heq, List.singleton_append, List.cons.injEq] at hb
        rw [hb.1, UInt8.lt_iff_toNat_lt, UInt8.toNat_ofNat'] at hlt
        change ¬ _ < 128 at hlt
        omega
      · obtain ⟨second, rest, rfl⟩ := List.exists_cons_of_ne_nil hne
        rw [heq, List.cons_append, List.cons.injEq] at hb
        exact hnext hb.2 (hrest second List.mem_cons_self)
    have hlen : malformedLength (byte :: utf8 t) = 1 := by
      have hstarts {first : UInt8} {rest : Bytes} (ht : utf8 t = first :: rest) :
          ¬ startsSequence byte first :=
        fun hs => hnext ht (isContinuation_of_startsSequence hs)
      cases ht : utf8 t with
      | nil => rfl
      | cons first rest =>
          cases rest <;> exact if_neg (hstarts ht)
    rw [escapeBytes_malformed (List.cons_ne_nil _ _) hnone, hlen, List.take_succ_cons,
      List.take_zero, List.flatMap_cons, List.flatMap_nil, List.append_nil]
    rfl

/-- No other path prints like this one: it is text, all of it prints, and no part of it
reads like the escaped form of a byte. -/
def ReadsBack (b : Bytes) : Prop :=
  ∃ t : Text, b = utf8 t ∧ (∀ c ∈ t, Printable c) ∧
    ∀ byte, Escapable byte → ¬ escapeByte byte <:+: t

/-- Characters that stand for themselves are read back by encoding them. -/
theorem bytes_of_plain {pieces : List Piece} (h : ∀ piece ∈ pieces, ∃ c, piece = .plain c) :
    pieces.flatMap Piece.bytes = utf8 (pieces.flatMap Piece.text) := by
  induction pieces with
  | nil => rfl
  | cons piece pieces ih =>
      rw [List.forall_mem_cons] at h
      obtain ⟨⟨c, rfl⟩, hrest⟩ := h
      rw [List.flatMap_cons, List.flatMap_cons, utf8_append, ih hrest]
      rfl

/-- A printed path determines its bytes exactly when they read back. -/
theorem escapeBytes_determines_iff (b : Bytes) :
    (∀ b', escapeBytes b' = escapeBytes b → b' = b) ↔ ReadsBack b := by
  constructor
  · intro h
    refine ⟨escapeBytes b, ?_, printable_escapeBytes b, ?_⟩
    · exact (h _ (escapeBytes_printable (printable_escapeBytes b))).symm
    · rintro byte hbyte ⟨u, v, huv⟩
      have hprint := printable_escapeBytes b
      rw [← huv, List.forall_mem_append, List.forall_mem_append] at hprint
      have hother : escapeBytes (utf8 u ++ byte :: utf8 v) = escapeBytes b := by
        rw [escapeBytes_printable_append hprint.1.1, escapeBytes_escapable_cons hbyte,
          escapeBytes_printable hprint.2, ← List.append_assoc, huv]
      have hself := h _ (escapeBytes_printable (printable_escapeBytes b))
      have hlen := congrArg List.length ((h _ hother).trans hself.symm)
      have hspelt : (escapeByte byte).length = 4 := rfl
      have hfour := length_le_length_utf8 (escapeByte byte)
      rw [← huv, utf8_append, utf8_append] at hlen
      simp only [List.length_append, List.length_cons] at hlen
      omega
  · rintro ⟨t, rfl, hprint, hreads⟩ b' hb'
    rw [escapeBytes_printable hprint] at hb'
    obtain ⟨pieces, hproper, hbytes, htext⟩ := exists_pieces b'
    rw [hb'] at htext
    have hplain : ∀ piece ∈ pieces, ∃ c, piece = .plain c := by
      intro piece hpiece
      cases piece with
      | plain c => exact ⟨c, rfl⟩
      | escaped byte =>
          obtain ⟨before, after, rfl⟩ := List.append_of_mem hpiece
          refine absurd ⟨before.flatMap Piece.text, after.flatMap Piece.text, ?_⟩
            (hreads byte (hproper _ hpiece))
          rw [← htext, List.flatMap_append, List.flatMap_cons, List.append_assoc]
          rfl
    rw [← hbytes, ← htext]
    exact bytes_of_plain hplain

/-- Lists of parts with the same path text are the same. -/
theorem eq_of_render_eq {p q : List Name} (hp : ∀ n ∈ p, IsPart n) (hq : ∀ n ∈ q, IsPart n)
    (h : render p = render q) : p = q := by
  have hnil {names : List Name} (hparts : ∀ n ∈ names, IsPart n) (hr : render names = []) :
      names = [] := by
    cases names with
    | nil => rfl
    | cons n names =>
        have hne := (hparts n List.mem_cons_self).1
        cases names with
        | nil => exact absurd (by simpa [render] using hr) hne
        | cons m names =>
            rw [render, List.intercalate_cons_cons] at hr
            simp at hr
  by_cases hp' : p = []
  · subst hp'
    exact (hnil hq h.symm).symm
  by_cases hq' : q = []
  · subst hq'
    exact hnil hp h
  rw [← splitOn_slash_render hp' hp, h, splitOn_slash_render hq' hq]

/-- **What a printed path determines.** A byte string is the only one that prints the way
it does exactly when it reads back; and the identity of a finding about a path that reads
back is the identity of no finding about another path. -/
theorem identity_determines_path (b : Bytes) :
    ((∀ b', escapeBytes b' = escapeBytes b → b' = b) ↔ ReadsBack b) ∧
    ∀ (c c' : FindingCategory) (d d' : Text) (p q : List Name), (∀ n ∈ p, IsPart n) →
      (∀ n ∈ q, IsPart n) → render p = b → ReadsBack b →
      (IntegrityFinding.forPath c p d).identity = (IntegrityFinding.forPath c' q d').identity →
      p = q := by
  refine ⟨escapeBytes_determines_iff b, ?_⟩
  intro c c' d d' p q hp hq hb hreads hsame
  subst hb
  have hbytes := (escapeBytes_determines_iff (render p)).2 hreads (render q) hsame.symm
  exact (eq_of_render_eq hq hp hbytes).symm

/-- A name with a blank in it. -/
def blankPath : List Name := [utf8 "blobs".toList, utf8 "a b".toList]

/-- A name that spells an escaped blank. -/
def speltPath : List Name := [utf8 "blobs".toList, utf8 "a\\x20b".toList]

/-- Both paths can stand in one report, under one identity. -/
theorem one_identity_for_two_paths :
    ¬ Function.Injective escapeBytes ∧ blankPath ≠ speltPath ∧
    (IntegrityFinding.forPath .invalidCasEntry blankPath "reason=invalid-shard".toList).identity =
      (IntegrityFinding.forPath .invalidCasEntry speltPath "reason=invalid-shard".toList).identity ∧
    (sortAndDeduplicate
      [.forPath .invalidCasEntry blankPath "reason=invalid-shard".toList,
        .forPath .invalidCasEntry speltPath "reason=invalid-shard".toList]).length = 2 := by
  have hsame : escapeBytes (render blankPath) = escapeBytes (render speltPath) := by
    decide +kernel
  refine ⟨fun h => absurd (h hsame) (by decide), by decide, hsame, ?_⟩
  decide +kernel

end MediaImporter
