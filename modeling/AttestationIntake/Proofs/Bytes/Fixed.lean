import AttestationIntake.Bytes.Fixed
import AttestationIntake.Proofs.Bytes.Hex

/-!
Reading byte strings of a fixed length. What their digits spell, in either case and with or without
the marker, is read back whole.
-/

namespace AttestationIntake.FixedBytes

variable {n : Nat}

theorem ofBytes_bytes (b : FixedBytes n) : ofBytes n b.bytes = b := by
  obtain ⟨bytes, rfl⟩ := b
  rw [ofBytes, FixedBytes.mk.injEq]
  exact List.take_left

theorem ofHex_of_codes {text : String} {b : FixedBytes n}
    (h : Hex.Codes (Hex.unmarked text.toList) b.bytes) : ofHex n text = .ok b := by
  have hlength : (Hex.stripMarker (utf8Bytes text)).length = 2 * n := by
    rw [utf8Bytes, Hex.stripMarker_utf8, h.length_utf8, b.length_eq]
  unfold ofHex
  simp only
  rw [if_neg (not_not_intro hlength), hlength, utf8Bytes, Hex.stripMarker_utf8, h.decodeSpaced_eq]
  exact congrArg Except.ok b.ofBytes_bytes

theorem ofHex_hex (b : FixedBytes n) : ofHex n b.hex = .ok b := by
  refine ofHex_of_codes ?_
  rw [hex, Hex.encode, String.toList_ofList]
  exact Hex.codes_digits b.bytes

end AttestationIntake.FixedBytes
