import MediaImporter.Escape

/-!
# The loop that prints paths

`escape_bytes` decodes what is left, prints the text at its front, escapes the bytes at which
the decoder stopped, and goes on behind them. The loop ends, since the decoder always stops at
one byte at least, and what it prints is what `escapeBytes` says, character by character.

## Main definitions

* `fromUtf8`, `escapeIteration`, `escapeLoop` — the decoder and the loop.
* `escapeBytes_prints` — the loop ends, and prints one line without blanks.
-/

namespace MediaImporter

open Utf8 UnixPath

/-! ## The decoder -/

/-- Where decoding stops, and how many bytes there are in error, if it is known. -/
structure Utf8Error where
  validUpTo : ℕ
  errorLen : Option ℕ

/-- The characters at the front, and the bytes after them. -/
def validPrefix : ℕ → Bytes → Text × Bytes
  | 0, bytes => ([], bytes)
  | fuel + 1, bytes => match decodeFront bytes with
    | some (c, rest) => (c :: (validPrefix fuel rest).1, (validPrefix fuel rest).2)
    | none => ([], bytes)

/-- The bytes are a character that is cut short. -/
def isCutShort : Bytes → Prop
  | [first] => 0xC2 ≤ first ∧ first ≤ 0xF4
  | [first, second] => startsSequence first second
  | [first, second, third] =>
      startsSequence first second ∧ isContinuation third ∧ 0xF0 ≤ first
  | _ => False

instance : DecidablePred isCutShort
  | [] => inferInstanceAs (Decidable False)
  | [_] => inferInstanceAs (Decidable (_ ∧ _))
  | [first, second] => inferInstanceAs (Decidable (startsSequence first second))
  | [_, _, _] => inferInstanceAs (Decidable (_ ∧ _ ∧ _))
  | _ :: _ :: _ :: _ :: _ => inferInstanceAs (Decidable False)

/-- `std::str::from_utf8`. -/
def fromUtf8 (bytes : Bytes) : Except Utf8Error Text :=
  let (text, rest) := validPrefix bytes.length bytes
  if rest = [] then .ok text
  else .error
    { validUpTo := bytes.length - rest.length
      errorLen := if isCutShort rest then none else some (malformedLength rest) }

/-! ## The loop -/

/-- `bytes[start..stop]`, which panics when the range is not within the bytes. -/
def sliceBytes (bytes : Bytes) (start stop : ℕ) : Option Bytes :=
  if start ≤ stop ∧ stop ≤ bytes.length then some ((bytes.take stop).drop start) else none

/-- What one pass through the loop prints, and what remains. A panic is `none`. -/
def escapeIteration (remaining : Bytes) : Option (Text × Bytes) :=
  match fromUtf8 remaining with
  | .ok valid => some (valid.flatMap pushValidText, [])
  | .error error => do
      let valid ← sliceBytes remaining 0 error.validUpTo
      let text ← (fromUtf8 valid).toOption
      let invalidLen := max (error.errorLen.getD (remaining.length - error.validUpTo)) 1
      let invalid ← sliceBytes remaining error.validUpTo (error.validUpTo + invalidLen)
      let rest ← sliceBytes remaining (error.validUpTo + invalidLen) remaining.length
      return (text.flatMap pushValidText ++ invalid.flatMap escapeByte, rest)

/-- At most `fuel` passes through the loop. -/
def escapeLoop : ℕ → Text → Bytes → Option Text
  | _, output, [] => some output
  | 0, _, _ :: _ => none
  | fuel + 1, output, byte :: bytes => do
      let (text, rest) ← escapeIteration (byte :: bytes)
      escapeLoop fuel (output ++ text) rest

/-! ## What a pass does -/

theorem decodeFront_nil : decodeFront [] = none := by
  by_contra h
  obtain ⟨⟨c, rest⟩, hfront⟩ := Option.ne_none_iff_exists'.1 h
  have hlen := congrArg List.length (append_of_decodeFront hfront)
  have hpos := length_le_length_utf8 [c]
  simp only [List.length_append, List.length_cons, List.length_nil] at hlen hpos
  omega

/-- Enough fuel decodes all characters at the front. -/
theorem validPrefix_spec {fuel : ℕ} {bytes : Bytes} (h : bytes.length ≤ fuel) :
    utf8 (validPrefix fuel bytes).1 ++ (validPrefix fuel bytes).2 = bytes ∧
    decodeFront (validPrefix fuel bytes).2 = none := by
  induction fuel generalizing bytes with
  | zero =>
      rw [List.eq_nil_of_length_eq_zero (by omega : bytes.length = 0)]
      exact ⟨rfl, decodeFront_nil⟩
  | succ fuel ih =>
      rw [validPrefix]
      cases hfront : decodeFront bytes with
      | none => exact ⟨rfl, hfront⟩
      | some front =>
          obtain ⟨c, rest⟩ := front
          have hbytes := append_of_decodeFront hfront
          have hlen := congrArg List.length hbytes
          have hpos := length_le_length_utf8 [c]
          simp only [List.length_append, List.length_cons, List.length_nil] at hlen hpos
          obtain ⟨hall, hnone⟩ := ih (by omega : rest.length ≤ fuel)
          refine ⟨?_, hnone⟩
          change utf8 ([c] ++ _) ++ _ = bytes
          rw [utf8_append, List.append_assoc, hall, ← hbytes]

theorem validPrefix_utf8 {fuel : ℕ} {text : Text} (h : text.length ≤ fuel) :
    validPrefix fuel (utf8 text) = (text, []) := by
  induction text generalizing fuel with
  | nil =>
      cases fuel with
      | zero => rfl
      | succ fuel => rw [utf8_nil, validPrefix, decodeFront_nil]
  | cons c text ih =>
      cases fuel with
      | zero => simp at h
      | succ fuel =>
          have hcons : utf8 (c :: text) = utf8 [c] ++ utf8 text := utf8_append [c] text
          rw [hcons, validPrefix, decodeFront_utf8_append]
          dsimp only
          rw [ih (by simpa using h)]

theorem fromUtf8_utf8 (text : Text) : fromUtf8 (utf8 text) = .ok text := by
  rw [fromUtf8, validPrefix_utf8 (length_le_length_utf8 text)]
  rfl

/-- A character that is cut short is in error up to the end. -/
theorem malformedLength_of_isCutShort {bytes : Bytes} (h : isCutShort bytes) :
    malformedLength bytes = bytes.length := by
  unfold isCutShort at h
  split at h
  · rfl
  · exact if_pos h
  · rw [malformedLength, if_pos h.1, if_pos h.2]
    rfl
  · exact h.elim

theorem malformedLength_le (bytes : Bytes) : malformedLength bytes ≤ bytes.length := by
  fun_cases malformedLength bytes <;> simp

/-- How many bytes the loop takes to be in error. -/
theorem invalidLen_eq {rest : Bytes} (h : rest ≠ []) :
    max ((if isCutShort rest then none else some (malformedLength rest)).getD rest.length) 1 =
      malformedLength rest := by
  have hpos := malformedLength_pos h
  by_cases hcut : isCutShort rest
  · rw [if_pos hcut, Option.getD_none, ← malformedLength_of_isCutShort hcut]
    omega
  · rw [if_neg hcut, Option.getD_some]
    omega

theorem escapeBytes_utf8_text (text : Text) (rest : Bytes) :
    escapeBytes (utf8 text ++ rest) = text.flatMap pushValidText ++ escapeBytes rest := by
  induction text with
  | nil => rfl
  | cons c text ih =>
      have hcons : utf8 (c :: text) ++ rest = utf8 [c] ++ (utf8 text ++ rest) := by
        rw [← List.append_assoc, ← utf8_append]
        rfl
      rw [hcons, escapeBytes_utf8_append, ih, List.flatMap_cons, List.append_assoc]

/-- **One pass.** It takes a front piece that is not empty, and prints it. -/
theorem escapeIteration_spec {remaining : Bytes} (h : remaining ≠ []) :
    ∃ consumed text rest, escapeIteration remaining = some (text, rest) ∧ consumed ≠ [] ∧
      remaining = consumed ++ rest ∧ escapeBytes remaining = text ++ escapeBytes rest := by
  obtain ⟨hall, hnone⟩ := validPrefix_spec (le_refl remaining.length)
  generalize hprefix : validPrefix remaining.length remaining = decoded at hall hnone
  obtain ⟨valid, rest⟩ := decoded
  dsimp only at hall hnone
  by_cases hrest : rest = []
  · subst hrest
    rw [List.append_nil] at hall
    refine ⟨remaining, valid.flatMap pushValidText, [], ?_, h, (List.append_nil _).symm, ?_⟩
    · rw [escapeIteration, fromUtf8, hprefix]
      rfl
    · rw [← hall, ← List.append_nil (utf8 valid), escapeBytes_utf8_text]
  · have hpos := malformedLength_pos hrest
    have hle := malformedLength_le rest
    have hlen : remaining.length - rest.length = (utf8 valid).length := by
      rw [← hall, List.length_append]
      omega
    have hleft : remaining.length - (utf8 valid).length = rest.length := by
      rw [← hall, List.length_append]
      omega
    refine ⟨utf8 valid ++ rest.take (malformedLength rest),
      valid.flatMap pushValidText ++ (rest.take (malformedLength rest)).flatMap escapeByte,
      rest.drop (malformedLength rest), ?_, ?_, ?_, ?_⟩
    · have hvalid : sliceBytes remaining 0 (utf8 valid).length = some (utf8 valid) := by
        rw [sliceBytes, if_pos ⟨Nat.zero_le _, by omega⟩, ← hall, List.take_left, List.drop_zero]
      have hinvalid : sliceBytes remaining (utf8 valid).length
          ((utf8 valid).length + malformedLength rest) =
          some (rest.take (malformedLength rest)) := by
        rw [sliceBytes, if_pos ⟨by omega, by omega⟩, ← hall, List.take_length_add_append,
          List.drop_left]
      have hbehind : sliceBytes remaining ((utf8 valid).length + malformedLength rest)
          remaining.length = some (rest.drop (malformedLength rest)) := by
        rw [sliceBytes, if_pos ⟨by omega, le_rfl⟩, List.take_length, ← hall,
          List.drop_length_add_append]
      rw [escapeIteration, fromUtf8, hprefix]
      simp only [hrest, if_false, hlen, hleft, invalidLen_eq hrest, hvalid, hinvalid, hbehind,
        fromUtf8_utf8, Except.toOption, Option.bind_eq_bind, Option.bind_some]
      rfl
    · intro hnil
      have hlength := congrArg List.length hnil
      rw [List.length_append, List.length_take, List.length_nil] at hlength
      omega
    · rw [List.append_assoc, List.take_append_drop, hall]
    · rw [← hall, escapeBytes_utf8_text, escapeBytes_malformed hrest hnone, List.append_assoc]

/-- The loop ends within as many passes as there are bytes. -/
theorem escapeLoop_eq {fuel : ℕ} (output : Text) {remaining : Bytes}
    (h : remaining.length ≤ fuel) :
    escapeLoop fuel output remaining = some (output ++ escapeBytes remaining) := by
  induction fuel generalizing output remaining with
  | zero =>
      rw [List.eq_nil_of_length_eq_zero (by omega : remaining.length = 0), escapeLoop,
        escapeBytes_nil, List.append_nil]
  | succ fuel ih =>
      cases remaining with
      | nil => rw [escapeLoop, escapeBytes_nil, List.append_nil]
      | cons byte bytes =>
          obtain ⟨consumed, text, rest, hpass, hne, hall, htext⟩ :=
            escapeIteration_spec (List.cons_ne_nil byte bytes)
          have hlen := congrArg List.length hall
          have hpos := List.length_pos_of_ne_nil hne
          rw [List.length_append] at hlen
          rw [escapeLoop, hpass]
          change escapeLoop fuel (output ++ text) rest = _
          rw [ih (output ++ text) (by omega), htext, List.append_assoc]

/-! ## Text within other bytes -/

/-- Text begins with no continuation byte. -/
theorem not_isContinuation_head {text : Text} {first : UInt8} {rest : Bytes}
    (h : utf8 text = first :: rest) : ¬ isContinuation first := by
  cases text with
  | nil => cases h
  | cons c text =>
      have hcons : utf8 (c :: text) = utf8 [c] ++ utf8 text := utf8_append [c] text
      rw [hcons] at h
      rcases utf8_singleton_cases c with ⟨hsmall, heq⟩ | ⟨-, first', rest', heq, hge, -⟩
      · rw [heq, List.singleton_append, List.cons.injEq] at h
        rw [← h.1, isContinuation, UInt8.le_iff_toNat_le, UInt8.toNat_ofNat']
        change ¬ (128 ≤ _ ∧ _)
        omega
      · rw [heq, List.cons_append, List.cons.injEq] at h
        rw [← h.1]
        exact fun hc => absurd (le_trans hge hc.2) (by decide)

section Boundary

variable {before rest : Bytes} {first : UInt8}

/-- Bytes that begin no character begin none with other bytes after them, unless those begin
with a continuation byte. -/
theorem decodeFront_append (hbefore : decodeFront before = none) (hne : before ≠ [])
    (hfirst : ¬ isContinuation first) : decodeFront (before ++ first :: rest) = none := by
  by_contra hsome
  obtain ⟨⟨c, tail⟩, hfront⟩ := Option.ne_none_iff_exists'.1 hsome
  have hsplit := append_of_decodeFront hfront
  have hdecodes : ∀ y, before ≠ utf8 [c] ++ y := by
    intro y hy
    rw [hy, decodeFront_utf8_append] at hbefore
    cases hbefore
  rcases List.append_eq_append_iff.1 hsplit with ⟨x, hchar, hx⟩ | ⟨y, hy, -⟩
  · cases x with
    | nil => exact hdecodes [] (by simpa using hchar.symm)
    | cons byte x =>
        obtain rfl : byte = first := by simpa using (List.cons.inj hx).1.symm
        obtain ⟨head, tail', rfl⟩ := List.exists_cons_of_ne_nil hne
        rcases utf8_singleton_cases c with ⟨-, heq⟩ | ⟨-, head', others, heq, -, -, hothers⟩
        · rw [heq] at hchar
          simp at hchar
        · rw [heq, List.cons_append, List.cons.injEq] at hchar
          exact hfirst (hothers byte (by rw [hchar.2]; simp))
  · exact hdecodes y hy

theorem malformedLength_append (hne : before ≠ []) (hfirst : ¬ isContinuation first) :
    malformedLength (before ++ first :: rest) = malformedLength before := by
  cases before with
  | nil => exact absurd rfl hne
  | cons a before =>
      cases before with
      | nil =>
          have hstarts : ¬ startsSequence a first := fun h =>
            hfirst (isContinuation_of_startsSequence h)
          cases rest <;> exact if_neg hstarts
      | cons b before =>
          cases before with
          | nil =>
              change (if startsSequence a b then
                if isContinuation first ∧ 0xF0 ≤ a then 3 else 2 else 1) = _
              rw [if_neg fun h : isContinuation first ∧ 0xF0 ≤ a => hfirst h.1]
              rfl
          | cons c before => rfl

/-- What is printed is printed in two parts where no continuation byte follows. -/
theorem escapeBytes_append (before rest : Bytes) (hfirst : ¬ isContinuation first) :
    escapeBytes (before ++ first :: rest) = escapeBytes before ++ escapeBytes (first :: rest) := by
  induction hn : before.length using Nat.strong_induction_on generalizing before with
  | _ n ih =>
    subst hn
    by_cases hne : before = []
    · subst hne
      rfl
    cases hfront : decodeFront before with
    | some front =>
        obtain ⟨c, tail⟩ := front
        obtain rfl := append_of_decodeFront hfront
        have hpos := length_le_length_utf8 [c]
        have hlt : tail.length < (utf8 [c] ++ tail).length := by
          simp only [List.length_append, List.length_cons, List.length_nil] at hpos ⊢
          omega
        rw [List.append_assoc, escapeBytes_utf8_append, escapeBytes_utf8_append, ih _ hlt _ rfl,
          List.append_assoc]
    | none =>
        have hpos := malformedLength_pos hne
        have hle := malformedLength_le before
        have hlt : (before.drop (malformedLength before)).length < before.length := by
          rw [List.length_drop]
          omega
        rw [escapeBytes_malformed hne hfront,
          escapeBytes_malformed (by simp) (decodeFront_append hfront hne hfirst),
          malformedLength_append hne hfirst, List.take_append_of_le_length hle,
          List.drop_append_of_le_length hle, ih _ hlt _ rfl, List.append_assoc]

end Boundary

/-- **Printing paths.** Each pass through the loop takes at least one byte off the front, and
does not panic; the loop ends when it has taken all of them, each of them once as a character or
as an escaped byte. What it prints has no control character and no white space, and text that
has none is printed as it is, wherever it stands among other bytes. -/
theorem escapeBytes_prints (bytes : Bytes) :
    (∀ remaining ≠ [], ∃ consumed text rest, escapeIteration remaining = some (text, rest) ∧
      consumed ≠ [] ∧ remaining = consumed ++ rest) ∧
    escapeLoop bytes.length [] bytes = some (escapeBytes bytes) ∧
    (∃ pieces : List Piece, pieces.flatMap Piece.bytes = bytes ∧
      pieces.flatMap Piece.text = escapeBytes bytes) ∧
    (∀ c ∈ escapeBytes bytes, ¬ isControl c ∧ ¬ isWhitespace c) ∧
    ∀ before text after, text ≠ [] → (∀ c ∈ text, ¬ isControl c ∧ ¬ isWhitespace c) →
      bytes = before ++ utf8 text ++ after →
      escapeBytes bytes = escapeBytes before ++ text ++ escapeBytes after := by
  refine ⟨fun remaining hne => ?_, ?_, ?_, printable_escapeBytes bytes, ?_⟩
  · obtain ⟨consumed, text, rest, hpass, hconsumed, hall, -⟩ := escapeIteration_spec hne
    exact ⟨consumed, text, rest, hpass, hconsumed, hall⟩
  · rw [escapeLoop_eq [] le_rfl, List.nil_append]
  · obtain ⟨pieces, -, hbytes, htext⟩ := exists_pieces bytes
    exact ⟨pieces, hbytes, htext⟩
  · intro before text after hne hprints hbytes
    obtain ⟨first, rest, hfirst⟩ : ∃ first rest, utf8 text = first :: rest :=
      List.exists_cons_of_ne_nil fun hnil => hne (utf8_eq_nil.1 hnil)
    have hboundary := not_isContinuation_head hfirst
    rw [hbytes, List.append_assoc, hfirst, List.cons_append, escapeBytes_append _ _ hboundary,
      ← List.cons_append, ← hfirst, escapeBytes_printable_append hprints, List.append_assoc]

example : escapeBytes (utf8 "bad".toList ++ 0xFF :: utf8 " name\n".toList) =
    "bad\\xff\\x20name\\x0a".toList := by
  decide +kernel

end MediaImporter
