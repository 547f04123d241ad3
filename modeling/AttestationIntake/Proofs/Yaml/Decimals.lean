import AttestationIntake.Proofs.Yaml.Words
import AttestationIntake.Yaml.CoreSchema

/-!
Decimals as plain scalars. The decimal of a whole number is a word, with a hyphen in front if the
number is negative. It is read as a number of 64 bits where there is one, and as none elsewhere.
-/

namespace AttestationIntake.Yaml

/-! ## Digits -/

section Digits

variable {chars : List Char}

theorem hexValue?_digit {c : Char} (h : c.isDigit = true) :
    (hexValue? c).filter (· < 10) = some (c.toNat - '0'.toNat) := by
  have hle : c.toNat ≤ '9'.toNat := by
    rw [Char.isDigit, Bool.and_eq_true, decide_eq_true_eq, decide_eq_true_eq] at h
    exact UInt32.le_iff_toNat_le.mp h.2
  have hlt : c.toNat - '0'.toNat < 10 := by
    change c.toNat ≤ 57 at hle
    change c.toNat - 48 < 10
    omega
  rw [hexValue?, if_pos h, Option.filter_some, if_pos (decide_eq_true hlt)]

theorem filterMap_digits (h : ∀ c ∈ chars, c.isDigit = true) :
    chars.filterMap (fun c => (hexValue? c).filter (· < 10)) =
      chars.map fun c => c.toNat - '0'.toNat := by
  induction chars with
  | nil => rfl
  | cons c chars ih =>
    rw [List.filterMap_cons, hexValue?_digit (h c List.mem_cons_self),
      ih fun d hd => h d (List.mem_cons_of_mem c hd), List.map_cons]

/-- Digits are read as the number that they stand for. -/
theorem digits?_digits (hne : chars ≠ []) (h : ∀ c ∈ chars, c.isDigit = true) :
    digits? 10 chars = some (Nat.ofDigitChars 10 chars 0) := by
  unfold digits?
  rw [filterMap_digits h]
  simp only [hne, List.length_map, Nat.lt_irrefl, or_self, if_false, List.foldl_map,
    Nat.ofDigitChars_eq_foldl, Nat.mul_comm]

/-- A character in front that is no digit makes a text no decimal. -/
theorem digits?_cons_eq_none {c : Char} (hc : hexValue? c = none) (chars : List Char) :
    digits? 10 (c :: chars) = none := by
  have hlength := List.length_filterMap_le (fun c => (hexValue? c).filter (· < 10)) chars
  unfold digits?
  rw [List.filterMap_cons_none (by rw [hc, Option.filter_none])]
  exact if_pos (.inr (Nat.lt_succ_of_le hlength))

/-- Only zero has a decimal that starts with a zero. -/
theorem head?_toDigits {n : Nat} (hn : n ≠ 0) : (Nat.toDigits 10 n).head? ≠ some '0' := by
  induction n using Nat.strongRecOn with
  | ind n ih =>
    rw [Nat.toDigits_eq_if (by decide)]
    split
    · simpa using hn
    · have hquotient : n / 10 ≠ 0 := by omega
      rw [List.head?_append, List.head?_eq_some_head Nat.toDigits_ne_nil, Option.some_or,
        ← List.head?_eq_some_head]
      exact ih (n / 10) (by omega) hquotient

end Digits

/-! ## Numbers -/

theorem magnitude?_toDigits (n : Nat) : magnitude? (Nat.toDigits 10 n) = some n := by
  have hdigits : digits? 10 (Nat.toDigits 10 n) = some n := by
    rw [digits?_digits Nat.toDigits_ne_nil fun c hc =>
      Nat.isDigit_of_mem_toDigits (by decide) (by decide) hc, Nat.ofDigitChars_ten_toDigits]
  by_cases hn : n = 0
  · subst hn
    rfl
  · have hhead := head?_toDigits hn
    unfold magnitude?
    split
    case h_5 => exact hdigits
    all_goals
      rename_i heq
      rw [heq] at hhead
      exact absurd rfl hhead

/-- A number is read from its decimal if it has no more than 64 bits. -/
theorem word?_toDigits (n : Nat) : word? (Nat.toDigits 10 n) =
    if n < UInt64.size then some n.toUInt64 else none := by
  have hplus : dropPlus (Nat.toDigits 10 n) = Nat.toDigits 10 n := by
    refine if_neg fun h => ?_
    have hdigit := Nat.isDigit_of_mem_toDigits (b := 10) (by decide) (by decide)
      (List.mem_of_mem_head? h)
    cases hdigit
  rw [word?, natural?, hplus, magnitude?_toDigits, Option.bind_some]

/-- Nothing with a hyphen in front is a number of 64 bits. -/
theorem word?_hyphen (chars : List Char) : word? ('-' :: chars) = none := by
  have hmagnitude : magnitude? ('-' :: chars) = none := digits?_cons_eq_none rfl chars
  rw [word?, natural?, dropPlus, if_neg (by simp), hmagnitude, Option.bind_none]

theorem toList_toString (n : Int) : (toString n).toList =
    if 0 ≤ n then Nat.toDigits 10 n.toNat else '-' :: Nat.toDigits 10 (-n).toNat := by
  rw [Int.toString_eq_repr, Int.repr_eq_if]
  split
  · exact Nat.toList_repr
  · rw [String.toList_append, Nat.toList_repr]
    rfl

/-- A number is read back from its decimal just if it is a number of 64 bits. -/
theorem word?_decimal (n : Int) : word? (toString n).toList =
    if 0 ≤ n ∧ n < UInt64.size then some n.toNat.toUInt64 else none := by
  rw [toList_toString]
  by_cases hn : 0 ≤ n
  · have hsize : n < UInt64.size ↔ n.toNat < UInt64.size := by omega
    rw [if_pos hn, word?_toDigits]
    simp only [hn, hsize, true_and]
  · rw [if_neg hn, word?_hyphen, if_neg fun h => hn h.1]

theorem isWord_decimal (n : Int) : IsWord (toString n).toList := by
  have hdigits (m : Nat) : ∀ c ∈ Nat.toDigits 10 m, c.isDigit = true := fun c hc =>
    Nat.isDigit_of_mem_toDigits (by decide) (by decide) hc
  have hname (m : Nat) : ∀ c ∈ Nat.toDigits 10 m, isNameChar c = true := fun c hc => by
    simp [isNameChar, Char.isAlphanum, hdigits m c hc]
  rw [toList_toString]
  split
  · refine ⟨Nat.toDigits_ne_nil, hname _, fun h => ?_⟩
    have hdigit := hdigits n.toNat '-' (by simp [h])
    cases hdigit
  · refine ⟨List.cons_ne_nil _ _, List.forall_mem_cons.mpr ⟨rfl, hname _⟩, fun h => ?_⟩
    exact Nat.toDigits_ne_nil (List.cons.inj h).2

end AttestationIntake.Yaml
