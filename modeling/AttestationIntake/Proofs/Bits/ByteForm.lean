import AttestationIntake.Json.Codec
import AttestationIntake.Proofs.Bits.Packing
import AttestationIntake.Proofs.Bytes.Hex
import Mathlib.Data.List.Basic

/-!
The byte form of bit lists is one to one. Every list has one form, and all bytes that are accepted
are the form of the list that is read: nothing stands behind the delimiting bit, so reading loses
nothing. Which bytes are accepted depends only on where that bit is.
-/

namespace AttestationIntake.BitList

variable {max : Nat} {bytes : List UInt8} {length : Nat}

/-- The highest set bit of the last byte stands behind so many bits. -/
def Delimited (bytes : List UInt8) (length : Nat) : Prop :=
  ∃ last place, bytes.getLast? = some last ∧ HighestBit last place ∧
    length = 8 * (bytes.length - 1) + place

namespace Delimited

theorem ne_nil (h : Delimited bytes length) : bytes ≠ [] := by
  rintro rfl
  obtain ⟨_, _, hlast, -⟩ := h
  cases hlast

theorem getLast?_ne (h : Delimited bytes length) : bytes.getLast? ≠ some 0 := by
  obtain ⟨last, _, hlast, hhighest, -⟩ := h
  intro hzero
  exact hhighest.ne_zero (Option.some.inj (hlast.symm.trans hzero))

theorem unique {length' : Nat} (h : Delimited bytes length) (h' : Delimited bytes length') :
    length = length' := by
  obtain ⟨last, place, hlast, hhighest, rfl⟩ := h
  obtain ⟨last', place', hlast', hhighest', rfl⟩ := h'
  cases hlast.symm.trans hlast'
  rw [hhighest.unique hhighest']

end Delimited

/-! ## Bytes -/

theorem bitsBefore_eq_take (front : List UInt8) (last : UInt8) : bitsBefore front last =
    (unpackBits (front ++ [last])).take (8 * front.length + last.toNat.log2) := by
  have hfront : (unpackBits front).length ≤ 8 * front.length + last.toNat.log2 := by
    rw [length_unpackBits]
    exact Nat.le_add_right _ _
  rw [unpackBits, List.flatMap_append, ← unpackBits, List.take_append,
    List.take_of_length_le hfront, length_unpackBits, Nat.add_sub_cancel_left,
    List.flatMap_singleton, bitsBefore]

theorem length_bitsBefore (front : List UInt8) {last : UInt8} (h : last ≠ 0) :
    (bitsBefore front last).length = 8 * front.length + last.toNat.log2 := by
  have hplace := (highestBit_log2 h).lt_eight
  rw [bitsBefore, List.length_append, length_unpackBits, List.length_take, length_byteBits,
    Nat.min_eq_left (Nat.le_of_lt hplace)]

theorem getElem?_bitsBefore (front : List UInt8) {last : UInt8} (h : last ≠ 0) {i : Nat}
    (hi : i < (bitsBefore front last).length) :
    (bitsBefore front last)[i]? = (front ++ [last])[i / 8]?.map (·.toNat.testBit (i % 8)) := by
  rw [length_bitsBefore front h] at hi
  rw [bitsBefore_eq_take, List.getElem?_take_of_lt hi, getElem?_unpackBits]

theorem delimited_append (front : List UInt8) {last : UInt8} (h : last ≠ 0) :
    Delimited (front ++ [last]) (bitsBefore front last).length := by
  refine ⟨last, _, List.getLast?_concat, highestBit_log2 h, ?_⟩
  rw [length_bitsBefore front h, List.length_append, List.length_singleton, Nat.add_sub_cancel]

theorem ofBits_of_le {bits : List Bool} (h : bits.length ≤ max) :
    (ofBits bits : Except Error (BitList max)) = .ok ⟨bits, h⟩ := by
  rw [ofBits, ofBits?, dif_pos h]

theorem ofBits_of_lt {bits : List Bool} (h : max < bits.length) :
    (ofBits bits : Except Error (BitList max)) = .error (.tooLong max bits.length) := by
  rw [ofBits, ofBits?, dif_neg (Nat.not_le_of_lt h)]

theorem ofBytes_zero (h : bytes.getLast? = some 0) :
    (ofBytes bytes : Except Error (BitList max)) = .error .noDelimiter := by
  rw [ofBytes, h]
  rfl

theorem ofBytes_append (front : List UInt8) {last : UInt8} (h : last ≠ 0) :
    (ofBytes (front ++ [last]) : Except Error (BitList max)) = ofBits (bitsBefore front last) := by
  have hcount : (front ++ [last]).length - 1 = front.length := by
    rw [List.length_append, List.length_singleton, Nat.add_sub_cancel]
  unfold ofBytes
  rw [List.getLast?_concat, hcount]
  split
  · rename_i heq
    cases heq
  · rename_i heq
    cases heq
    exact absurd rfl h
  · rename_i heq
    cases heq
    rw [bitsBefore_eq_take]

theorem ofBytes_toBytes (list : BitList max) : ofBytes list.toBytes = .ok list := by
  obtain ⟨front, last, hne, hpack, hbits⟩ := exists_eq_bitsBefore list.bits
  rw [toBytes, hpack, ofBytes_append front hne, ← hbits, ofBits_of_le list.length_le]

/-- All that can be read of bytes. -/
theorem ofBytes_cases (max : Nat) (bytes : List UInt8) :
    (bytes = [] ∧ (ofBytes bytes : Except Error (BitList max)) = .error .noBytes) ∨
      (bytes.getLast? = some 0 ∧
        (ofBytes bytes : Except Error (BitList max)) = .error .noDelimiter) ∨
      (∃ length, Delimited bytes length ∧ max < length ∧
        (ofBytes bytes : Except Error (BitList max)) = .error (.tooLong max length)) ∨
      ∃ list : BitList max, Delimited bytes list.length ∧ ofBytes bytes = .ok list ∧
        list.toBytes = bytes ∧ ∀ i < list.length,
          list.bits[i]? = bytes[i / 8]?.map (·.toNat.testBit (i % 8)) := by
  rcases List.eq_nil_or_concat' bytes with rfl | ⟨front, last, rfl⟩
  · exact .inl ⟨rfl, rfl⟩
  by_cases hzero : last = 0
  · subst hzero
    exact .inr (.inl ⟨List.getLast?_concat, ofBytes_zero List.getLast?_concat⟩)
  have hdelimited := delimited_append front hzero
  by_cases hle : (bitsBefore front last).length ≤ max
  · refine .inr (.inr (.inr ⟨⟨bitsBefore front last, hle⟩, hdelimited, ?_, ?_, ?_⟩))
    · rw [ofBytes_append front hzero, ofBits_of_le hle]
    · exact packBits_bitsBefore front hzero
    · exact fun i hi => getElem?_bitsBefore front hzero hi
  · have hlt := Nat.lt_of_not_le hle
    exact .inr (.inr (.inl ⟨_, hdelimited, hlt, by
      rw [ofBytes_append front hzero, ofBits_of_lt hlt]⟩))

theorem of_ofBytes_eq_ok {list : BitList max} (h : ofBytes bytes = .ok list) :
    Delimited bytes list.length ∧ list.toBytes = bytes ∧ ∀ i < list.length,
      list.bits[i]? = bytes[i / 8]?.map (·.toNat.testBit (i % 8)) := by
  rcases ofBytes_cases max bytes with ⟨-, hread⟩ | ⟨-, hread⟩ | ⟨_, -, -, hread⟩ |
    ⟨_, hdelimited, hread, hform⟩ <;> cases h.symm.trans hread
  exact ⟨hdelimited, hform⟩

/-- What is read of bytes is the list whose form they are. -/
theorem ofBytes_eq_ok_iff (bytes : List UInt8) (list : BitList max) :
    ofBytes bytes = .ok list ↔ list.toBytes = bytes := by
  constructor
  · exact fun h => (of_ofBytes_eq_ok h).2.1
  · rintro rfl
    exact ofBytes_toBytes list

/-- What is read of bytes, by where their delimiting bit is. -/
structure ReadsBytes (max : Nat) (bytes : List UInt8) : Prop where
  noBytes_iff : (ofBytes bytes : Except Error (BitList max)) = .error .noBytes ↔ bytes = []
  noDelimiter_iff : (ofBytes bytes : Except Error (BitList max)) = .error .noDelimiter ↔
    bytes.getLast? = some 0
  tooLong_iff : ∀ maximum actual,
    (ofBytes bytes : Except Error (BitList max)) = .error (.tooLong maximum actual) ↔
      maximum = max ∧ max < actual ∧ Delimited bytes actual
  isOk_iff : (∃ list : BitList max, ofBytes bytes = .ok list) ↔
    ∃ length, Delimited bytes length ∧ length ≤ max
  delimited_length : ∀ list : BitList max, ofBytes bytes = .ok list → Delimited bytes list.length
  bits_eq : ∀ list : BitList max, ofBytes bytes = .ok list → ∀ i < list.length,
    list.bits[i]? = bytes[i / 8]?.map (·.toNat.testBit (i % 8))
  toBytes_eq : ∀ list : BitList max, ofBytes bytes = .ok list → list.toBytes = bytes

theorem isOk_ofBytes_iff (max : Nat) (bytes : List UInt8) :
    (∃ list : BitList max, ofBytes bytes = .ok list) ↔
      ∃ length, Delimited bytes length ∧ length ≤ max := by
  constructor
  · rintro ⟨list, h⟩
    exact ⟨list.length, (of_ofBytes_eq_ok h).1, list.length_le⟩
  · rintro ⟨length, hdelimited, hle⟩
    rcases ofBytes_cases max bytes with ⟨hnil, -⟩ | ⟨hzero, -⟩ | ⟨length', hlength, hlt, -⟩ |
      ⟨list, -, hread, -⟩
    · exact absurd hnil hdelimited.ne_nil
    · exact absurd hzero hdelimited.getLast?_ne
    · rw [hdelimited.unique hlength] at hle
      exact absurd hle (Nat.not_le_of_lt hlt)
    · exact ⟨list, hread⟩

theorem readsBytes (max : Nat) (bytes : List UInt8) : ReadsBytes max bytes where
  noBytes_iff := by
    constructor
    · intro h
      rcases ofBytes_cases max bytes with ⟨hnil, -⟩ | ⟨-, hread⟩ | ⟨_, -, -, hread⟩ |
        ⟨_, -, hread, -⟩
      · exact hnil
      all_goals cases h.symm.trans hread
    · rintro rfl
      rfl
  noDelimiter_iff := by
    refine ⟨?_, ofBytes_zero⟩
    intro h
    rcases ofBytes_cases max bytes with ⟨-, hread⟩ | ⟨hzero, -⟩ | ⟨_, -, -, hread⟩ |
      ⟨_, -, hread, -⟩
    · cases h.symm.trans hread
    · exact hzero
    all_goals cases h.symm.trans hread
  tooLong_iff := by
    intro maximum actual
    constructor
    · intro h
      rcases ofBytes_cases max bytes with ⟨-, hread⟩ | ⟨-, hread⟩ |
        ⟨_, hdelimited, hlt, hread⟩ | ⟨_, -, hread, -⟩ <;> cases h.symm.trans hread
      exact ⟨rfl, hlt, hdelimited⟩
    · rintro ⟨rfl, hlt, hdelimited⟩
      rcases ofBytes_cases maximum bytes with ⟨hnil, -⟩ | ⟨hzero, -⟩ | ⟨_, hlength, -, hread⟩ |
        ⟨list, hlength, -⟩
      · exact absurd hnil hdelimited.ne_nil
      · exact absurd hzero hdelimited.getLast?_ne
      · rw [hread, hdelimited.unique hlength]
      · rw [hdelimited.unique hlength] at hlt
        exact absurd list.length_le (Nat.not_le_of_lt hlt)
  isOk_iff := isOk_ofBytes_iff max bytes
  delimited_length _ h := (of_ofBytes_eq_ok h).1
  bits_eq _ h := (of_ofBytes_eq_ok h).2.2
  toBytes_eq _ h := (of_ofBytes_eq_ok h).2.1

/-! ## Texts -/

theorem decode_text_eq_ok_iff (text : String) (list : BitList max) :
    (Codec.bitList max).decode (.text text) = .ok list ↔
      Hex.Codes (Hex.unmarked text.toList) list.toBytes := by
  have hdecode : (Codec.bitList max).decode (.text text) = .ok list ↔
      (ofHex text : Except Error (BitList max)) = .ok list := by
    cases hread : (ofHex text : Except Error (BitList max)) <;>
      simp [Codec.bitList, Codec.text, hread, bind, Except.bind]
  rw [hdecode, ofHex, utf8Bytes, Hex.stripMarker_utf8, ← Hex.decode_eq_ok_iff]
  cases Hex.decode ((Hex.unmarked text.toList).flatMap String.utf8EncodeChar) with
  | error e => simp
  | ok bytes =>
    show ofBytes bytes = _ ↔ _
    rw [ofBytes_eq_ok_iff, Except.ok.injEq, eq_comm]

/-- What is read of a text, and what is written for it again. -/
structure ReadsText (max : Nat) (text : String) : Prop where
  isOk_iff : (∃ list, (Codec.bitList max).decode (.text text) = .ok list) ↔
    ∃ bytes length, Hex.Codes (Hex.unmarked text.toList) bytes ∧ Delimited bytes length ∧
      length ≤ max
  codes_toBytes : ∀ list, (Codec.bitList max).decode (.text text) = .ok list →
    Hex.Codes (Hex.unmarked text.toList) list.toBytes
  encode_eq : ∀ list, (Codec.bitList max).decode (.text text) = .ok list →
    (Codec.bitList max).encode list =
      .text (String.ofList ('0' :: 'x' :: (Hex.unmarked text.toList).map Char.toLower))

theorem readsText (max : Nat) (text : String) : ReadsText max text where
  isOk_iff := by
    simp only [decode_text_eq_ok_iff]
    constructor
    · rintro ⟨list, hcodes⟩
      obtain ⟨length, hdelimited⟩ := (isOk_ofBytes_iff max _).mp ⟨list, ofBytes_toBytes list⟩
      exact ⟨_, length, hcodes, hdelimited⟩
    · rintro ⟨bytes, length, hcodes, hdelimited⟩
      obtain ⟨list, hread⟩ := (isOk_ofBytes_iff max bytes).mpr ⟨length, hdelimited⟩
      exact ⟨list, (ofBytes_eq_ok_iff bytes list).mp hread ▸ hcodes⟩
  codes_toBytes list h := (decode_text_eq_ok_iff text list).mp h
  encode_eq list h := by
    have hcodes := (decode_text_eq_ok_iff text list).mp h
    show Json.text (Hex.encode list.toBytes) = _
    rw [Hex.encode, hcodes.map_toLower]

/-- Lists and the bytes that are accepted go together one to one, and so do the digits for them, but
for the case of letters and the marker in front. -/
theorem byteForm_unique (max : Nat) :
    (∀ list : BitList max, ofBytes list.toBytes = .ok list) ∧
      (∀ bytes, ReadsBytes max bytes) ∧ ∀ text, ReadsText max text :=
  ⟨ofBytes_toBytes, readsBytes max, readsText max⟩

end AttestationIntake.BitList
