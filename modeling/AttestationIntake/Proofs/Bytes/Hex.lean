import AttestationIntake.Bytes.Hex

/-!
Which texts are hexadecimal: those of an even number of digits, of either case. Reading goes by the
bytes of a text, but a character that takes more than one byte has none that could be a digit, so
nothing is read that is not there.
-/

namespace AttestationIntake

/-! ## Characters as bytes -/

theorem utf8EncodeChar_of_ascii {c : Char} (h : c.toNat < 128) :
    String.utf8EncodeChar c = [c.toNat.toUInt8] :=
  if_pos (Nat.le_of_lt_succ h)

/-- The first byte of a longer character is above all of ASCII. -/
theorem exists_utf8EncodeChar {c : Char} (h : ¬c.toNat < 128) :
    ∃ first rest, String.utf8EncodeChar c = first :: rest ∧ 128 ≤ first.toNat := by
  have hvalue : ¬c.val.toNat ≤ 127 := fun hle => h (Nat.lt_succ_of_le hle)
  unfold String.utf8EncodeChar
  simp only [hvalue, if_false]
  split
  · refine ⟨_, _, rfl, ?_⟩
    simp only [UInt8.toNat_ofNat']
    omega
  split
  · refine ⟨_, _, rfl, ?_⟩
    simp only [UInt8.toNat_ofNat']
    omega
  · refine ⟨_, _, rfl, ?_⟩
    simp only [UInt8.toNat_ofNat']
    omega

/-- What starts with a byte of ASCII starts with its character. -/
theorem eq_cons_of_utf8 {chars : List Char} {byte : UInt8} {rest : List UInt8}
    (h : chars.flatMap String.utf8EncodeChar = byte :: rest) (hbyte : byte.toNat < 128) :
    ∃ tail, chars = Char.ofNat byte.toNat :: tail ∧
      tail.flatMap String.utf8EncodeChar = rest := by
  cases chars with
  | nil => cases h
  | cons c tail =>
    rw [List.flatMap_cons] at h
    by_cases hascii : c.toNat < 128
    · rw [utf8EncodeChar_of_ascii hascii] at h
      obtain ⟨rfl, htail⟩ := List.cons.inj h
      have hnat : c.toNat.toUInt8.toNat = c.toNat := Nat.mod_eq_of_lt (by omega)
      exact ⟨tail, by rw [hnat, Char.ofNat_toNat], htail⟩
    · obtain ⟨first, more, hfirst, hwide⟩ := exists_utf8EncodeChar hascii
      rw [hfirst] at h
      obtain ⟨rfl, -⟩ := List.cons.inj h
      omega

namespace Hex

/-! ## Digits -/

/-- The value of a digit of either case. -/
def valueOf? (c : Char) : Option Nat := "0123456789abcdef".toList.idxOf? c.toLower

/-- Two digits of either case for each byte, that of the high half first. -/
inductive Codes : List Char → List UInt8 → Prop
  | nil : Codes [] []
  | cons {high low : Char} {byte : UInt8} {digits : List Char} {bytes : List UInt8}
      (hhigh : valueOf? high = some (byte.toNat / 16))
      (hlow : valueOf? low = some (byte.toNat % 16)) (hrest : Codes digits bytes) :
      Codes (high :: low :: digits) (byte :: bytes)

/-- Drops `0x` from the front, once. -/
def unmarked : List Char → List Char
  | '0' :: 'x' :: rest => rest
  | chars => chars

theorem valueOf?_eq_of_ascii {c : Char} (h : c.toNat < 128) :
    valueOf? c = (digitValue? c.toNat.toUInt8).map (·.toNat) := by
  have hall : ∀ n : Fin 128, valueOf? (Char.ofNat n) =
      (digitValue? (Char.ofNat n).toNat.toUInt8).map (·.toNat) := by decide +kernel
  have hc := hall ⟨c.toNat, h⟩
  rwa [Char.ofNat_toNat] at hc

theorem lower_eq_digit {c : Char} {n : Nat} (h : valueOf? c = some n) :
    n < 16 ∧ c.toLower = digit n := by
  obtain ⟨hlt, hget, -⟩ := List.idxOf?_eq_some_iff.mp h
  have hall : ∀ n : Fin 16, "0123456789abcdef".toList[n] = digit n := by decide +kernel
  exact ⟨hlt, hget.symm.trans (hall ⟨n, hlt⟩)⟩

theorem valueOf?_eq_none_of_wide {c : Char} (h : ¬c.toNat < 128) : valueOf? c = none := by
  cases hvalue : valueOf? c with
  | none => rfl
  | some n =>
    obtain ⟨hlt, hlower⟩ := lower_eq_digit hvalue
    have hall : ∀ n : Fin 16, (digit n).toNat < 128 := by decide +kernel
    have hupper : ¬(c.val ≥ 'A'.val ∧ c.val ≤ 'Z'.val) := by
      rintro ⟨-, hle⟩
      have hle : c.toNat ≤ 90 := hle
      omega
    have hsame : c.toLower = c := dif_neg hupper
    exact absurd ((hsame.symm.trans hlower) ▸ hall ⟨n, hlt⟩) h

/-- A digit is one byte, and the first byte of any other character is no digit. -/
theorem digit_cases (c : Char) :
    (∃ byte value, String.utf8EncodeChar c = [byte] ∧ digitValue? byte = some value ∧
        valueOf? c = some value.toNat ∧ value.toNat < 16) ∨
      (∃ byte rest, String.utf8EncodeChar c = byte :: rest ∧ digitValue? byte = none ∧
        valueOf? c = none) := by
  by_cases hascii : c.toNat < 128
  · have hencode := utf8EncodeChar_of_ascii hascii
    have hvalue := valueOf?_eq_of_ascii hascii
    cases hdigit : digitValue? c.toNat.toUInt8 with
    | none =>
      rw [hdigit] at hvalue
      exact .inr ⟨_, [], hencode, hdigit, hvalue⟩
    | some value =>
      rw [hdigit] at hvalue
      exact .inl ⟨_, value, hencode, hdigit, hvalue, (lower_eq_digit hvalue).1⟩
  · obtain ⟨first, rest, hencode, hwide⟩ := exists_utf8EncodeChar hascii
    have hnone : digitValue? first = none := by
      simp only [digitValue?, UInt8.le_iff_toNat_le]
      rw [if_neg, if_neg, if_neg] <;> simp only [UInt8.reduceToNat] <;> omega
    exact .inr ⟨first, rest, hencode, hnone, valueOf?_eq_none_of_wide hascii⟩

/-! ## Reading -/

theorem stripMarker_utf8 (chars : List Char) :
    stripMarker (chars.flatMap String.utf8EncodeChar) =
      (unmarked chars).flatMap String.utf8EncodeChar := by
  unfold unmarked
  split
  · rfl
  · rename_i hunmarked
    unfold stripMarker
    split
    -- Bytes that look like the marker are those of its characters.
    · rename_i rest heq
      obtain ⟨tail, rfl, htail⟩ := eq_cons_of_utf8 heq (by decide)
      obtain ⟨tail', rfl, -⟩ := eq_cons_of_utf8 htail (by decide)
      exact (hunmarked tail' rfl).elim
    · rfl

theorem halves_eq_iff {high low byte : UInt8} (hhigh : high.toNat < 16) (hlow : low.toNat < 16) :
    high * 16 + low = byte ↔ high.toNat = byte.toNat / 16 ∧ low.toNat = byte.toNat % 16 := by
  rw [← UInt8.toNat_inj]
  simp only [UInt8.toNat_add, UInt8.toNat_mul, UInt8.reduceToNat]
  omega

theorem decodePairs_digits {high low h l : UInt8} (hhigh : digitValue? high = some h)
    (hlow : digitValue? low = some l) (position : Nat) (rest : List UInt8) :
    decodePairs position (high :: low :: rest) =
      (decodePairs (position + 2) rest).map ((h * 16 + l) :: ·) := by
  rw [decodePairs, readDigit, readDigit, hhigh, hlow]
  cases decodePairs (position + 2) rest <;> rfl

theorem codes_of_decodePairs {chars : List Char} {bytes : List UInt8} {position : Nat}
    (heven : (chars.flatMap String.utf8EncodeChar).length % 2 = 0)
    (h : decodePairs position (chars.flatMap String.utf8EncodeChar) = .ok bytes) :
    Codes chars bytes := by
  match chars with
  | [] =>
    cases h
    exact .nil
  | high :: rest =>
    rw [List.flatMap_cons] at heven h
    rcases digit_cases high with ⟨byte, value, hencode, hdigit, hvalue, hlt⟩ |
      ⟨byte, more, hencode, hdigit, -⟩ <;> rw [hencode, List.cons_append] at heven h
    · match rest with
      | [] => cases heven
      | low :: rest =>
        rw [List.nil_append, List.flatMap_cons] at heven h
        rcases digit_cases low with ⟨byte', value', hencode', hdigit', hvalue', hlt'⟩ |
          ⟨byte', more, hencode', hdigit', -⟩ <;> rw [hencode', List.cons_append] at heven h
        · rw [List.nil_append] at heven h
          rw [decodePairs_digits hdigit hdigit'] at h
          have heven' : (rest.flatMap String.utf8EncodeChar).length % 2 = 0 := by
            rwa [List.length_cons, List.length_cons, Nat.add_assoc, Nat.add_mod_right] at heven
          cases hrest : decodePairs (position + 2) (rest.flatMap String.utf8EncodeChar) with
          | error e =>
            rw [hrest] at h
            cases h
          | ok bytes' =>
            rw [hrest] at h
            cases h
            obtain ⟨hhalf, hhalf'⟩ := (halves_eq_iff hlt hlt').mp rfl
            exact .cons (hhalf ▸ hvalue) (hhalf' ▸ hvalue') (codes_of_decodePairs heven' hrest)
        · rw [decodePairs, readDigit, readDigit, hdigit, hdigit'] at h
          cases h
    -- An even number of bytes that has a first one has a second one.
    · cases hrest : more ++ rest.flatMap String.utf8EncodeChar with
      | nil =>
        rw [hrest] at heven
        cases heven
      | cons second others =>
        rw [hrest, decodePairs, readDigit, hdigit] at h
        cases h

/-- The two digits of a byte are two bytes of text, from which the byte is put together. -/
theorem exists_utf8_of_pair {high low : Char} {byte : UInt8}
    (hhigh : valueOf? high = some (byte.toNat / 16)) (hlow : valueOf? low = some (byte.toNat % 16))
    (digits : List Char) :
    ∃ b b' h l, (high :: low :: digits).flatMap String.utf8EncodeChar =
        b :: b' :: digits.flatMap String.utf8EncodeChar ∧
      digitValue? b = some h ∧ digitValue? b' = some l ∧ h * 16 + l = byte := by
  rcases digit_cases high with ⟨b, h, hencode, hdigit, hvalue, hlt⟩ | ⟨_, _, -, -, hnone⟩
  · rcases digit_cases low with ⟨b', l, hencode', hdigit', hvalue', hlt'⟩ | ⟨_, _, -, -, hnone⟩
    · have hhalf := Option.some.inj (hvalue.symm.trans hhigh)
      have hhalf' := Option.some.inj (hvalue'.symm.trans hlow)
      refine ⟨b, b', h, l, ?_, hdigit, hdigit', (halves_eq_iff hlt hlt').mpr ⟨hhalf, hhalf'⟩⟩
      rw [List.flatMap_cons, List.flatMap_cons, hencode, hencode', List.singleton_append,
        List.singleton_append]
    · cases hlow.symm.trans hnone
  · cases hhigh.symm.trans hnone

theorem Codes.length_utf8 {chars : List Char} {bytes : List UInt8} (h : Codes chars bytes) :
    (chars.flatMap String.utf8EncodeChar).length = 2 * bytes.length := by
  induction h with
  | nil => rfl
  | @cons high low byte digits bytes hhigh hlow _ ih =>
    obtain ⟨b, b', _, _, hutf8, -⟩ := exists_utf8_of_pair hhigh hlow digits
    rw [hutf8, List.length_cons, List.length_cons, ih, List.length_cons]
    rfl

theorem Codes.decodePairs_eq {chars : List Char} {bytes : List UInt8} (h : Codes chars bytes)
    (position : Nat) :
    decodePairs position (chars.flatMap String.utf8EncodeChar) = .ok bytes := by
  induction h generalizing position with
  | nil => rfl
  | @cons high low byte digits bytes hhigh hlow _ ih =>
    obtain ⟨b, b', h, l, hutf8, hdigit, hdigit', hbyte⟩ := exists_utf8_of_pair hhigh hlow digits
    rw [hutf8, decodePairs_digits hdigit hdigit', ih, hbyte]
    rfl

/-- Reading takes the digits of bytes, in either case, and nothing else. -/
theorem decode_eq_ok_iff (chars : List Char) (bytes : List UInt8) :
    decode (chars.flatMap String.utf8EncodeChar) = .ok bytes ↔ Codes chars bytes := by
  rw [decode]
  constructor
  · intro h
    split at h
    · cases h
    · exact codes_of_decodePairs (by omega) h
  · intro h
    have hlength := h.length_utf8
    rw [if_neg (by omega), h.decodePairs_eq 0]

/-! ## Reading between blanks -/

theorem isBlank_eq_false {byte value : UInt8} (h : digitValue? byte = some value) :
    isBlank byte = false := by
  cases hblank : isBlank byte with
  | false => rfl
  | true =>
    -- None of the four blanks has a value.
    simp only [isBlank, Bool.or_eq_true, beq_iff_eq] at hblank
    rcases hblank with ((rfl | rfl) | rfl) | rfl <;> cases h

theorem decodeSpaced_digits {high low h l : UInt8} (hhigh : digitValue? high = some h)
    (hlow : digitValue? low = some l) (position : Nat) (rest : List UInt8) :
    decodeSpaced position (high :: low :: rest) =
      (decodeSpaced (position + 2) rest).map ((h * 16 + l) :: ·) := by
  unfold decodeSpaced
  rw [readDigits, isBlank_eq_false hhigh, readDigits, isBlank_eq_false hlow, readDigit, readDigit,
    hhigh, hlow]
  cases readDigits (position + 2) rest <;> rfl

theorem Codes.decodeSpaced_eq {chars : List Char} {bytes : List UInt8} (h : Codes chars bytes)
    (position : Nat) :
    decodeSpaced position (chars.flatMap String.utf8EncodeChar) = .ok bytes := by
  induction h generalizing position with
  | nil => rfl
  | @cons high low byte digits bytes hhigh hlow _ ih =>
    obtain ⟨b, b', h, l, hutf8, hdigit, hdigit', hbyte⟩ := exists_utf8_of_pair hhigh hlow digits
    rw [hutf8, decodeSpaced_digits hdigit hdigit', ih, hbyte]
    rfl

/-! ## Writing -/

theorem valueOf?_digit {n : Nat} (h : n < 16) : valueOf? (digit n) = some n := by
  have hall : ∀ n : Fin 16, valueOf? (digit n) = some n.val := by decide +kernel
  exact hall ⟨n, h⟩

theorem codes_digits (bytes : List UInt8) : Codes (digits bytes) bytes := by
  induction bytes with
  | nil => exact .nil
  | cons byte bytes ih =>
    have hbyte := byte.toNat_lt
    exact .cons (valueOf?_digit (by omega)) (valueOf?_digit (by omega)) ih

theorem Codes.map_toLower {chars : List Char} {bytes : List UInt8} (h : Codes chars bytes) :
    chars.map Char.toLower = digits bytes := by
  induction h with
  | nil => rfl
  | cons hhigh hlow _ ih =>
    rw [List.map_cons, List.map_cons, ih, (lower_eq_digit hhigh).2, (lower_eq_digit hlow).2]
    rfl

end Hex

end AttestationIntake
