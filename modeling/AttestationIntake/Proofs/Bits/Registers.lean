import AttestationIntake.Proofs.Bits.ByteForm
import AttestationIntake.Proofs.Bits.Joining
import AttestationIntake.Proofs.Pool.OffChain

/-!
How long bit lists get. Only steps that make a list anew decide on a length: they are refused just
where they ask for more bits than a list can have. All other steps take over the length of a list
that is there. So whatever program is run, each list has a length that some step of it asked for and
was granted, and a list of the greatest length can take in every other one.
-/

namespace AttestationIntake

variable {max : Nat}

/-! ## Asking for a length -/

namespace RegisterStep

/-- The step makes a list of so many bits, if lists can have so many. -/
inductive Requests : RegisterStep → Nat → Prop
  | empty (name : String) : Requests (.empty name) 0
  | zeros (name : String) (length : Nat) : Requests (.zeros name length) length
  | fill (name : String) (length : Nat) (value : Bool) : Requests (.fill name length value) length
  | ofBits (name : String) (bits : List Bool) : Requests (.ofBits name bits) bits.length
  | ofBytes (name : String) {bytes : List UInt8} {length : Nat}
      (hlength : BitList.Delimited bytes length) : Requests (.ofBytes name bytes) length
  | decode (name : String) {text : String} {bytes : List UInt8} {length : Nat}
      (hcodes : Hex.Codes (Hex.unmarked text.toList) bytes)
      (hlength : BitList.Delimited bytes length) : Requests (.decode name (.text text)) length

/-- How a step is refused that asks for more than `max` bits. -/
def lengthFault (max length : Nat) : RegisterStep → RegisterFault
  | .ofBits .. | .ofBytes .. => .invalid (.tooLong max length)
  | .decode .. => .undecodable (.invalidBits (.tooLong max length))
  | _ => .lengthAboveMax

/-- The register that is written. -/
def target : RegisterStep → String
  | .empty name | .zeros name _ | .fill name _ _ | .ofBits name _ | .ofBytes name _
  | .decode name _ | .copy name _ | .join name _ | .set name _ _ => name

end RegisterStep

/-- The fault is about the length of the list that was asked for. -/
inductive RegisterFault.IsLength : RegisterFault → Prop
  | above : IsLength .lengthAboveMax
  | invalid (maximum actual : Nat) : IsLength (.invalid (.tooLong maximum actual))
  | undecodable (maximum actual : Nat) :
      IsLength (.undecodable (.invalidBits (.tooLong maximum actual)))

namespace BitList

theorem replicate?_of_le {length : Nat} (value : Bool) (h : length ≤ max) :
    ∃ list : BitList max, replicate? length value = some list ∧ list.length = length := by
  rw [replicate?, dif_pos h]
  exact ⟨_, rfl, List.length_replicate⟩

theorem replicate?_of_lt {length : Nat} (value : Bool) (h : max < length) :
    (replicate? length value : Option (BitList max)) = none := by
  rw [replicate?, dif_neg (Nat.not_le_of_lt h)]

theorem ofBytes_of_le {bytes : List UInt8} {length : Nat} (h : Delimited bytes length)
    (hle : length ≤ max) :
    ∃ list : BitList max, ofBytes bytes = .ok list ∧ list.length = length := by
  obtain ⟨list, hread⟩ := (isOk_ofBytes_iff max bytes).mpr ⟨length, h, hle⟩
  exact ⟨list, hread, (of_ofBytes_eq_ok hread).1.unique h⟩

theorem ofBytes_of_lt {bytes : List UInt8} {length : Nat} (h : Delimited bytes length)
    (hlt : max < length) :
    (ofBytes bytes : Except Error (BitList max)) = .error (.tooLong max length) :=
  ((readsBytes max bytes).tooLong_iff max length).mpr ⟨rfl, hlt, h⟩

/-- What is decoded of a text is what is read of the bytes that it codes. -/
theorem decode_text_of_codes {text : String} {bytes : List UInt8}
    (h : Hex.Codes (Hex.unmarked text.toList) bytes) :
    (Codec.bitList max).decode (.text text) = (ofBytes bytes).mapError .invalidBits := by
  have hread : (ofHex text : Except Error (BitList max)) = ofBytes bytes := by
    rw [ofHex, utf8Bytes, Hex.stripMarker_utf8, (Hex.decode_eq_ok_iff _ _).mpr h]
  cases hbytes : (ofBytes bytes : Except Error (BitList max)) <;>
    simp [Codec.bitList, Codec.text, hread, hbytes, bind, Except.bind, Except.mapError]

theorem length_set? {list changed : BitList max} {index : Nat} {value : Bool}
    (h : list.set? index value = some changed) : changed.length = list.length := by
  unfold set? at h
  split at h
  · cases h
    exact List.length_set
  · cases h

/-- Without a length to ask for, bytes are refused for another reason. -/
theorem ofBytes_of_not_delimited (max : Nat) {bytes : List UInt8}
    (h : ∀ length, ¬Delimited bytes length) :
    ∃ error, (ofBytes bytes : Except Error (BitList max)) = .error error ∧
      ∀ maximum actual, error ≠ .tooLong maximum actual := by
  rcases ofBytes_cases max bytes with ⟨-, hread⟩ | ⟨-, hread⟩ | ⟨length, hlength, -⟩ |
    ⟨list, hlength, -⟩
  · exact ⟨.noBytes, hread, nofun⟩
  · exact ⟨.noDelimiter, hread, nofun⟩
  · exact absurd hlength (h _)
  · exact absurd hlength (h _)

theorem decode_text_of_not_codes (max : Nat) {text : String}
    (h : ∀ bytes, ¬Hex.Codes (Hex.unmarked text.toList) bytes) :
    ∃ error, (Codec.bitList max).decode (.text text) = .error (.invalidBits (.notHex error)) := by
  cases hdecode : Hex.decode ((Hex.unmarked text.toList).flatMap String.utf8EncodeChar) with
  | ok bytes => exact absurd ((Hex.decode_eq_ok_iff _ _).mp hdecode) (h bytes)
  | error error =>
    have hread : (ofHex text : Except Error (BitList max)) = .error (.notHex error) := by
      rw [ofHex, utf8Bytes, Hex.stripMarker_utf8, hdecode]
    refine ⟨error, ?_⟩
    simp [Codec.bitList, Codec.text, hread, bind, Except.bind]

end BitList

/-! ## Single steps -/

namespace Registers

variable {registers : Registers max} {s : RegisterStep} {list other : BitList max}

/-- A step that asks for a length gets a list of that length if there are such lists. -/
theorem evaluate_of_le {length : Nat} (h : s.Requests length) (hle : length ≤ max)
    (registers : Registers max) :
    ∃ list, registers.evaluate s = .ok (s.target, list) ∧ list.length = length := by
  cases h with
  | empty name => exact ⟨.empty, rfl, rfl⟩
  | zeros name | fill name _ value =>
    obtain ⟨list, hmade, hlength⟩ := BitList.replicate?_of_le _ hle
    refine ⟨list, ?_, hlength⟩
    rw [evaluate, evaluate.evaluateFill, hmade]
    rfl
  | ofBits name bits =>
    refine ⟨⟨bits, hle⟩, ?_, rfl⟩
    rw [evaluate, BitList.ofBits_of_le hle]
    rfl
  | ofBytes name hdelimited =>
    obtain ⟨list, hread, hlength⟩ := BitList.ofBytes_of_le hdelimited hle
    refine ⟨list, ?_, hlength⟩
    rw [evaluate, hread]
    rfl
  | decode name hcodes hdelimited =>
    obtain ⟨list, hread, hlength⟩ := BitList.ofBytes_of_le hdelimited hle
    refine ⟨list, ?_, hlength⟩
    rw [evaluate, BitList.decode_text_of_codes hcodes, hread]
    rfl

theorem evaluate_of_lt {length : Nat} (h : s.Requests length) (hlt : max < length)
    (registers : Registers max) : registers.evaluate s = .error (s.lengthFault max length) := by
  cases h with
  | empty name => exact absurd hlt (Nat.not_lt_zero max)
  | zeros name | fill name _ value =>
    rw [evaluate, evaluate.evaluateFill, BitList.replicate?_of_lt _ hlt]
    rfl
  | ofBits name bits =>
    rw [evaluate, BitList.ofBits_of_lt hlt]
    rfl
  | ofBytes name hdelimited =>
    rw [evaluate, BitList.ofBytes_of_lt hdelimited hlt]
    rfl
  | decode name hcodes hdelimited =>
    rw [evaluate, BitList.decode_text_of_codes hcodes, BitList.ofBytes_of_lt hdelimited hlt]
    rfl

/-- A step that asks for no length takes over that of a list that is there, or fails for another
reason. -/
theorem evaluate_of_not_requests (h : ∀ length, ¬s.Requests length) (registers : Registers max) :
    (∃ (name : String) (list list' : BitList max), registers[name]? = some list ∧
        registers.evaluate s = .ok (s.target, list') ∧ list'.length = list.length) ∨
      ∃ fault, registers.evaluate s = .error fault ∧ ¬fault.IsLength := by
  cases s with
  | empty name => exact absurd (.empty name) (h 0)
  | zeros name length => exact absurd (.zeros name length) (h length)
  | fill name length value => exact absurd (.fill name length value) (h length)
  | ofBits name bits => exact absurd (.ofBits name bits) (h bits.length)
  | ofBytes name bytes =>
    obtain ⟨error, hread, hne⟩ := BitList.ofBytes_of_not_delimited max
      fun length hlength => h length (.ofBytes name hlength)
    refine .inr ⟨.invalid error, ?_, ?_⟩
    · rw [evaluate, hread]
      rfl
    · intro hfault
      cases hfault
      exact hne _ _ rfl
  | decode name json =>
    suffices hrefused : ∃ error, (Codec.bitList max).decode json = .error error ∧
        ¬(RegisterFault.undecodable error).IsLength by
      obtain ⟨error, hread, hfault⟩ := hrefused
      refine .inr ⟨.undecodable error, ?_, hfault⟩
      rw [evaluate, hread]
      rfl
    cases json with
    | text text =>
      by_cases hcodes : ∃ bytes, Hex.Codes (Hex.unmarked text.toList) bytes
      · obtain ⟨bytes, hcodes⟩ := hcodes
        obtain ⟨error, hread, hne⟩ := BitList.ofBytes_of_not_delimited max
          fun length hlength => h length (.decode name hcodes hlength)
        refine ⟨.invalidBits error, ?_, ?_⟩
        · rw [BitList.decode_text_of_codes hcodes, hread]
          rfl
        · intro hfault
          cases hfault
          exact hne _ _ rfl
      · obtain ⟨error, hread⟩ := BitList.decode_text_of_not_codes max
          fun bytes hbytes => hcodes ⟨bytes, hbytes⟩
        exact ⟨_, hread, by rintro ⟨⟩⟩
    | _ => exact ⟨_, rfl, by rintro ⟨⟩⟩
  | copy name source =>
    rw [evaluate, read]
    cases hsource : registers[source]? with
    | none => exact .inr ⟨_, rfl, by rintro ⟨⟩⟩
    | some list => exact .inl ⟨source, list, list, hsource, rfl, rfl⟩
  | join name source =>
    rw [evaluate, read, read]
    cases hname : registers[name]? with
    | none => exact .inr ⟨_, rfl, by rintro ⟨⟩⟩
    | some list =>
      cases registers[source]? with
      | none => exact .inr ⟨_, rfl, by rintro ⟨⟩⟩
      | some other =>
        simp only [bind, Except.bind]
        cases hjoin : list.or? other with
        | none => exact .inr ⟨_, rfl, by rintro ⟨⟩⟩
        | some joined => exact .inl ⟨name, list, joined, hname, rfl, (BitList.or?_eq_some hjoin).1⟩
  | set name index value =>
    rw [evaluate, read]
    cases hname : registers[name]? with
    | none => exact .inr ⟨_, rfl, by rintro ⟨⟩⟩
    | some list =>
      simp only [bind, Except.bind]
      cases hset : list.set? index value with
      | none => exact .inr ⟨_, rfl, by rintro ⟨⟩⟩
      | some list' => exact .inl ⟨name, list, list', hname, rfl, BitList.length_set? hset⟩

theorem step_of_evaluate {name : String} (h : registers.evaluate s = .ok (name, list)) :
    registers.step s = (.ok list, registers.insert name list) := by
  rw [step, h]

theorem step_of_fault {fault : RegisterFault} (h : registers.evaluate s = .error fault) :
    registers.step s = (.error fault, registers) := by
  rw [step, h]

/-- All that a step can do: it is granted the length that it asks for, or refused for it, or it
takes over the length of a list that is there, or fails for another reason. -/
theorem step_cases (registers : Registers max) (s : RegisterStep) :
    (∃ list, s.Requests list.length ∧ list.length ≤ max ∧
        registers.step s = (.ok list, registers.insert s.target list)) ∨
      (∃ length, s.Requests length ∧ max < length ∧
        registers.step s = (.error (s.lengthFault max length), registers)) ∨
      (∃ (name : String) (list list' : BitList max), registers[name]? = some list ∧
        list'.length = list.length ∧
        registers.step s = (.ok list', registers.insert s.target list')) ∨
      ∃ fault, ¬fault.IsLength ∧ registers.step s = (.error fault, registers) := by
  by_cases hasks : ∃ length, s.Requests length
  · obtain ⟨length, hasks⟩ := hasks
    by_cases hle : length ≤ max
    · obtain ⟨list, hmade, rfl⟩ := evaluate_of_le hasks hle registers
      exact .inl ⟨list, hasks, hle, step_of_evaluate hmade⟩
    · have hlt := Nat.lt_of_not_le hle
      exact .inr (.inl ⟨length, hasks, hlt, step_of_fault (evaluate_of_lt hasks hlt registers)⟩)
  · rcases evaluate_of_not_requests (fun length h => hasks ⟨length, h⟩) registers with
      ⟨name, list, list', hname, hmade, hlength⟩ | ⟨fault, hfails, hfault⟩
    · exact .inr (.inr (.inl ⟨name, list, list', hname, hlength, step_of_evaluate hmade⟩))
    · exact .inr (.inr (.inr ⟨fault, hfault, step_of_fault hfails⟩))

theorem step_of_error {fault : RegisterFault} (h : (registers.step s).1 = .error fault) :
    (registers.step s).2 = registers := by
  unfold step at h ⊢
  split
  · rename_i heq
    rw [heq] at h
    cases h
  · rfl

/-- A list that a step makes is stored, and it is the only change. -/
theorem getElem?_step (registers : Registers max) (s : RegisterStep) (name : String)
    (h : (registers.step s).2[name]? = some list) :
    (registers.step s).1 = .ok list ∨ registers[name]? = some list := by
  unfold step at h ⊢
  split at h
  · rw [Std.ExtTreeMap.getElem?_insert] at h
    split at h
    · cases h
      exact .inl rfl
    · exact .inr h
  · exact .inr h

/-! ## Programs -/

/-- Takes steps one after the other. One that fails changes nothing. -/
def run (registers : Registers max) (program : List RegisterStep) : Registers max :=
  program.foldl (fun registers s => (registers.step s).2) registers

theorem run_snoc (registers : Registers max) (program : List RegisterStep) (s : RegisterStep) :
    registers.run (program ++ [s]) = ((registers.run program).step s).2 := by
  rw [run, List.foldl_append]
  rfl

/-- Some step of the program asked for a list of this length and was granted it. -/
def Granted (max : Nat) (program : List RegisterStep) (length : Nat) : Prop :=
  length ≤ max ∧ ∃ s ∈ program, s.Requests length

theorem Granted.snoc {program : List RegisterStep} {length : Nat} (h : Granted max program length)
    (s : RegisterStep) : Granted max (program ++ [s]) length := by
  obtain ⟨hle, s', hmem, hasks⟩ := h
  exact ⟨hle, s', List.mem_append_left [s] hmem, hasks⟩

/-- If all lengths were granted, so is that of the list that is made next. -/
theorem granted_of_step {program : List RegisterStep}
    (h : ∀ (name : String) (list : BitList max), registers[name]? = some list →
      Granted max program list.length)
    (hmade : (registers.step s).1 = .ok list) : Granted max (program ++ [s]) list.length := by
  rcases registers.step_cases s with ⟨made, hasks, hle, hstep⟩ | ⟨length, -, -, hstep⟩ |
    ⟨name, source, made, hsource, hlength, hstep⟩ | ⟨fault, -, hstep⟩ <;> rw [hstep] at hmade <;>
    cases hmade
  · exact ⟨hle, s, List.mem_append_right program (List.mem_singleton_self s), hasks⟩
  · rw [hlength]
    exact (h name source hsource).snoc s

theorem granted_run (program : List RegisterStep) (name : String)
    (h : ((∅ : Registers max).run program)[name]? = some list) :
    Granted max program list.length := by
  induction program using List.reverseRecOn generalizing name list with
  | nil => simp [run] at h
  | append_singleton program s ih =>
    rw [run_snoc] at h
    rcases getElem?_step _ s name h with hmade | hkept
    · exact granted_of_step (fun name list => ih name) hmade
    · exact (ih name hkept).snoc s

/-! ## The greatest length -/

theorem step_join_longest {name source : String} (hlist : registers[name]? = some list)
    (hother : registers[source]? = some other) (hlength : list.length = max) :
    ∃ joined, registers.step (.join name source) = (.ok joined, registers.insert name joined) ∧
      joined.length = max := by
  have hroom : other.length ≤ list.length := by
    rw [hlength]
    exact other.length_le
  obtain ⟨joined, hjoin, hjoined, -⟩ := BitList.exists_or? list other hroom
  refine ⟨joined, ?_, hjoined.trans hlength⟩
  rw [BitList.step_join hlist hother, hjoin]

/-- What becomes of the lengths of bit lists in programs. -/
structure KeepsBound (max : Nat) : Prop where
  /-- Of every list that is ever made, whether it is kept or not, the length was asked for. -/
  made : ∀ (program : List RegisterStep) (s : RegisterStep) (list : BitList max),
    (((∅ : Registers max).run program).step s).1 = .ok list →
      Granted max (program ++ [s]) list.length
  kept : ∀ (program : List RegisterStep) (name : String) (list : BitList max),
    ((∅ : Registers max).run program)[name]? = some list → Granted max program list.length
  granted : ∀ (registers : Registers max) (s : RegisterStep) (length : Nat),
    s.Requests length → length ≤ max → ∃ list,
      registers.step s = (.ok list, registers.insert s.target list) ∧ list.length = length
  refused : ∀ (registers : Registers max) (s : RegisterStep) (length : Nat),
    s.Requests length → max < length →
      registers.step s = (.error (s.lengthFault max length), registers)
  /-- No other step is refused for a length. -/
  refused_only : ∀ (registers : Registers max) (s : RegisterStep) (fault : RegisterFault),
    (registers.step s).1 = .error fault → fault.IsLength →
      ∃ length, s.Requests length ∧ max < length ∧ fault = s.lengthFault max length
  failed : ∀ (registers : Registers max) (s : RegisterStep) (fault : RegisterFault),
    (registers.step s).1 = .error fault → (registers.step s).2 = registers
  join_longest : ∀ (registers : Registers max) (name source : String) (list other : BitList max),
    registers[name]? = some list → registers[source]? = some other → list.length = max →
      ∃ joined, registers.step (.join name source) = (.ok joined, registers.insert name joined) ∧
        joined.length = max

theorem keepsBound (max : Nat) : KeepsBound max where
  made program s list hmade := granted_of_step (fun name _ => granted_run program name) hmade
  kept program name list := granted_run program name
  granted registers s length hasks hle := by
    obtain ⟨list, hmade, hlength⟩ := evaluate_of_le hasks hle registers
    exact ⟨list, step_of_evaluate hmade, hlength⟩
  refused registers s length hasks hlt := step_of_fault (evaluate_of_lt hasks hlt registers)
  refused_only := by
    intro registers s fault hfails hfault
    rcases registers.step_cases s with ⟨made, -, -, hstep⟩ | ⟨length, hasks, hlt, hstep⟩ |
      ⟨name, source, made, -, -, hstep⟩ | ⟨fault', hfault', hstep⟩ <;> rw [hstep] at hfails <;>
      cases hfails
    · exact ⟨length, hasks, hlt, rfl⟩
    · exact absurd hfault hfault'
  failed registers s fault := step_of_error
  join_longest registers name source list other := step_join_longest

end Registers

/-- The bits that a state has included are joined in lists of the greatest length. -/
theorem Pool.exists_includedBits? {p : Preset} (records : List (PendingAttestation p)) :
    ∃ included, includedBits? records = some included ∧
      ∀ (data : AttestationData) (bits : BitList p.committeeLimit), included[data]? = some bits →
        bits.length = p.committeeLimit := by
  obtain ⟨included, hfold, hjoined⟩ := Joined.empty.foldlM records
  refine ⟨included, hfold, ?_⟩
  intro data bits hbits
  have hlength := hjoined.length_eq data
  rwa [Std.ExtTreeMap.getD_eq_getD_getElem?, hbits] at hlength

/-- No list exceeds its bound. In particular a pool can always say what is off chain, since all that
is joined there is joined into lists of the greatest length. -/
theorem bitLists_keepBound : (∀ max, Registers.KeepsBound max) ∧
    ∀ p : Preset,
      (∀ records : List (PendingAttestation p), ∃ included,
        Pool.includedBits? records = some included ∧
          ∀ (data : AttestationData) (bits : BitList p.committeeLimit),
            included[data]? = some bits → bits.length = p.committeeLimit) ∧
      ∀ (rules : ChainRules p) (pool : Pool p) (state : BeaconState p),
        ∃ result, pool.offChain? rules state = some result := by
  refine ⟨Registers.keepsBound, fun p => ⟨Pool.exists_includedBits?, ?_⟩⟩
  intro rules pool state
  obtain ⟨adds, hresult, -⟩ := Pool.exists_offChain? rules pool state
  exact ⟨_, hresult⟩

end AttestationIntake
