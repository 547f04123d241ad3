import AttestationIntake.Proofs.Settings.Lines
import AttestationIntake.Proofs.Yaml.Decimals

/-!
What a document of settings means: the defaults, with what is written in their place. Settings can
be written in any order, each once, as decimals. One line that does not belong there is enough for
the document to be rejected.
-/

namespace AttestationIntake.Settings

open Yaml (Line IsWord)

/-! ## Values of settings -/

/-- The number that a setting has. -/
def value (settings : Settings) : Key → UInt64
  | .historicEpochs => settings.historicEpochs
  | .orphanLookahead => settings.orphanLookahead
  | .orphanCapacity => settings.orphanCapacity.entries

namespace Overrides

/-- The number that is given for a setting. -/
def value? (overrides : Overrides) : Key → Option UInt64
  | .historicEpochs => overrides.historicEpochs
  | .orphanLookahead => overrides.orphanLookahead
  | .orphanCapacity => overrides.orphanCapacity.map Capacity.entries

theorem gives_eq (overrides : Overrides) (key : Key) :
    overrides.gives key = (overrides.value? key).isSome := by
  cases key with
  | orphanCapacity => exact Option.isSome_map.symm
  | _ => rfl

theorem value_settings (overrides : Overrides) (key : Key) :
    overrides.settings.value key = (overrides.value? key).getD (({} : Settings).value key) := by
  cases key with
  | orphanCapacity =>
    unfold settings value value?
    cases overrides.orphanCapacity <;> rfl
  | _ => rfl

/-- Only the capacity has a value that it cannot have, and that is zero. -/
theorem put?_eq_none_iff (overrides : Overrides) (key : Key) (word : UInt64) :
    overrides.put? key word = none ↔ key = .orphanCapacity ∧ word = 0 := by
  cases key <;> simp [put?, Capacity.ofWord?]

theorem value?_put? {overrides next : Overrides} {key : Key} {word : UInt64}
    (h : overrides.put? key word = some next) (other : Key) :
    next.value? other = if other = key then some word else overrides.value? other := by
  cases key with
  | historicEpochs =>
    cases h
    cases other <;> rfl
  | orphanLookahead =>
    cases h
    cases other <;> rfl
  | orphanCapacity =>
    obtain ⟨capacity, hcapacity, rfl⟩ := Option.map_eq_some_iff.mp h
    obtain rfl : capacity.entries = word := by
      unfold Capacity.ofWord? at hcapacity
      split at hcapacity
      · cases hcapacity
        rfl
      · cases hcapacity
    cases other <;> rfl

/-! ## Lines one after the other -/

/-- A line that can be read in no place makes all of the lines unreadable. -/
theorem foldlM_takeLine?_eq_none {lines : List Line} {line : Line} (hline : line ∈ lines)
    (h : ∀ overrides : Overrides, overrides.takeLine? line = none) (overrides : Overrides) :
    lines.foldlM takeLine? overrides = none := by
  induction lines generalizing overrides with
  | nil => cases hline
  | cons first lines ih =>
    rw [List.foldlM_cons]
    rcases List.mem_cons.mp hline with rfl | hline
    · rw [h]
      rfl
    · cases hfirst : overrides.takeLine? first with
      | none => rfl
      | some next => exact ih hline next

theorem exists_put?_of_takeLine? {overrides next : Overrides} {line : Line}
    (h : overrides.takeLine? line = some next) :
    ∃ key word, Key.ofName? line.key = some key ∧ overrides.put? key word = some next := by
  obtain ⟨key, hkey, h⟩ := Option.bind_eq_some_iff.mp h
  split at h
  · cases h
  · obtain ⟨word, -, hput⟩ := Option.bind_eq_some_iff.mp h
    exact ⟨key, word, hkey, hput⟩

theorem takeLine?_of_gives {overrides : Overrides} {line : Line} {key : Key}
    (hname : Key.ofName? line.key = some key) (hgives : overrides.gives key = true) :
    overrides.takeLine? line = none := by
  simp [takeLine?, hname, hgives]

/-- What is given stays, and what the lines name is given behind them. -/
theorem gives_of_foldlM {lines : List Line} {overrides next : Overrides} {key : Key}
    (h : lines.foldlM takeLine? overrides = some next)
    (hkey : overrides.gives key = true ∨ ∃ line ∈ lines, Key.ofName? line.key = some key) :
    next.gives key = true := by
  induction lines generalizing overrides with
  | nil =>
    cases h
    simpa using hkey
  | cons first lines ih =>
    obtain ⟨middle, hfirst, hrest⟩ := Option.bind_eq_some_iff.mp h
    obtain ⟨firstKey, word, hname, hput⟩ := exists_put?_of_takeLine? hfirst
    refine ih hrest ?_
    rw [gives_eq, value?_put? hput]
    by_cases hsame : key = firstKey
    · simp [hsame]
    · rw [if_neg hsame, ← gives_eq]
      refine hkey.imp_right fun ⟨line, hline, hlineName⟩ => ?_
      rcases List.mem_cons.mp hline with rfl | hline
      · rw [hname, Option.some.injEq] at hlineName
        exact absurd hlineName.symm hsame
      · exact ⟨line, hline, hlineName⟩

/-- A setting that is given already cannot be given again. -/
theorem foldlM_takeLine?_of_gives {lines : List Line} {line : Line} {key : Key}
    {overrides : Overrides} (hgives : overrides.gives key = true) (hline : line ∈ lines)
    (hname : Key.ofName? line.key = some key) : lines.foldlM takeLine? overrides = none := by
  obtain ⟨before, after, rfl⟩ := List.append_of_mem hline
  rw [List.foldlM_append]
  cases h : before.foldlM takeLine? overrides with
  | none => rfl
  | some next =>
    change (next.takeLine? line).bind _ = none
    rw [takeLine?_of_gives hname (gives_of_foldlM h (.inl hgives)), Option.bind_none]

end Overrides

/-! ## Written settings -/

namespace Key

theorem isWord_name (key : Key) : IsWord key.name.toList where
  ne_nil := by cases key <;> decide
  chars := by
    have hchars : key.name.toList.all Yaml.isNameChar = true := by cases key <;> decide
    exact List.all_eq_true.mp hchars
  ne_hyphen := by cases key <;> decide

theorem length_name (key : Key) : key.name.toList.length ≤ 1024 := by
  cases key <;> decide

/-- The line that writes a word as the value of a setting. -/
def line (key : Key) (value : String) (h : IsWord value.toList) : Line where
  key := key.name
  value
  key_isWord := key.isWord_name
  value_isWord := h
  key_length := key.length_name

/-- The line that writes a number as the value of a setting. -/
def decimalLine (key : Key) (n : Int) : Line := key.line (toString n) (Yaml.isWord_decimal n)

end Key

/-- The lines that write numbers of 64 bits as the values of settings. -/
def linesOf (entries : List (Key × UInt64)) : List Line :=
  entries.map fun (key, word) => key.decimalLine word.toNat

theorem takeLine?_decimalLine (overrides : Overrides) (key : Key) (n : Int) :
    overrides.takeLine? (key.decimalLine n) =
      if overrides.gives key = false ∧ 0 ≤ n ∧ n < UInt64.size then
        overrides.put? key n.toNat.toUInt64
      else none := by
  unfold Overrides.takeLine? Key.decimalLine Key.line
  rw [Key.ofName?_name, Yaml.word?_decimal]
  cases hgives : overrides.gives key with
  | true => simp [hgives]
  | false =>
    simp only [bind, Option.bind_some, hgives, Bool.false_eq_true, if_false, true_and]
    split <;> rfl

theorem takeLine?_word {overrides : Overrides} {key : Key} (hfree : overrides.gives key = false)
    (word : UInt64) :
    overrides.takeLine? (key.decimalLine word.toNat) = overrides.put? key word := by
  have hsize : (word.toNat : Int) < UInt64.size := Int.ofNat_lt.mpr word.toNat_lt_size
  rw [takeLine?_decimalLine, if_pos ⟨hfree, Int.natCast_nonneg _, hsize⟩, Int.toNat_natCast]
  congr 1
  exact UInt64.ofNat_toNat

/-- Settings that are written once each are given as they are written, and only those. -/
theorem foldlM_linesOf (overrides : Overrides) {entries : List (Key × UInt64)}
    (hkeys : (entries.map Prod.fst).Nodup) (hcapacity : (.orphanCapacity, 0) ∉ entries)
    (hfree : ∀ key ∈ entries.map Prod.fst, overrides.gives key = false) :
    ∃ next, (linesOf entries).foldlM Overrides.takeLine? overrides = some next ∧
      (∀ key word, (key, word) ∈ entries → next.value? key = some word) ∧
      ∀ key ∉ entries.map Prod.fst, next.value? key = overrides.value? key := by
  induction entries generalizing overrides with
  | nil => exact ⟨overrides, rfl, by simp, fun _ _ => rfl⟩
  | cons entry entries ih =>
    obtain ⟨key, word⟩ := entry
    rw [List.map_cons, List.nodup_cons] at hkeys
    have hfirst := takeLine?_word (hfree key List.mem_cons_self) word
    obtain ⟨middle, hput⟩ : ∃ middle, overrides.put? key word = some middle := by
      refine Option.ne_none_iff_exists'.mp fun h => hcapacity ?_
      obtain ⟨rfl, rfl⟩ := (overrides.put?_eq_none_iff key word).mp h
      exact List.mem_cons_self
    have hvalue := Overrides.value?_put? hput
    have hmiddle : ∀ other ∈ entries.map Prod.fst, middle.gives other = false := by
      intro other hother
      have hne : other ≠ key := fun h => hkeys.1 (h ▸ hother)
      rw [Overrides.gives_eq, hvalue, if_neg hne, ← Overrides.gives_eq]
      exact hfree other (List.mem_cons_of_mem _ hother)
    obtain ⟨next, hnext, hgiven, hother⟩ :=
      ih middle hkeys.2 (fun h => hcapacity (List.mem_cons_of_mem _ h)) hmiddle
    refine ⟨next, ?_, ?_, ?_⟩
    · change ((overrides.takeLine? (key.decimalLine word.toNat)).bind _) = _
      rw [hfirst, hput]
      exact hnext
    · intro other value hmem
      rcases List.mem_cons.mp hmem with heq | hmem
      · cases heq
        rw [hother key hkeys.1, hvalue, if_pos rfl]
      · exact hgiven other value hmem
    · intro other habsent
      rw [List.map_cons, List.mem_cons, not_or] at habsent
      rw [hother other habsent.2, hvalue, if_neg habsent.1]

/-! ## Documents -/

def Rejects (text : String) : Prop := ∃ error, ofYaml text = .error error

theorem rejects_iff {text : String} : Rejects text ↔ (ofYaml text).toOption = none := by
  unfold Rejects
  cases ofYaml text with
  | error error => exact iff_of_true ⟨error, rfl⟩ rfl
  | ok settings => exact iff_of_false (fun ⟨_, h⟩ => nomatch h) fun h => nomatch h

theorem ofYaml_eq_ok_iff {text : String} {settings : Settings} :
    ofYaml text = .ok settings ↔ (ofYaml text).toOption = some settings := by
  cases ofYaml text with
  | error error => exact iff_of_false (fun h => nomatch h) fun h => nomatch h
  | ok other => simp [Except.toOption]

/-- A word of upper-case letters and underscores. -/
structure IsUpperWord (word : List Char) : Prop where
  ne_nil : word ≠ []
  chars : ∀ c ∈ word, c.isUpper = true ∨ c = '_'

theorem IsUpperWord.isWord {word : List Char} (h : IsUpperWord word) : IsWord word where
  ne_nil := h.ne_nil
  chars c hc := by
    rcases h.chars c hc with hupper | rfl
    · show (c.isUpper || c.isLower || c.isDigit || c == '_' || c == '-') = true
      simp [hupper]
    · rfl
  ne_hyphen := by
    rintro rfl
    exact absurd (h.chars '-' List.mem_cons_self) (by decide)

/-- How documents of lines are read that are indented alike. The break behind the last line may be
left out. -/
structure DocumentLaws (indent : Nat) (closed : Bool) : Prop where
  /-- Some settings in any order with any values are accepted, unless the capacity is zero. -/
  accepted_iff (entries : List (Key × UInt64)) : (entries.map Prod.fst).Nodup →
    ((∃ settings, ofYaml (Line.document indent closed (linesOf entries)) = .ok settings) ↔
      (.orphanCapacity, 0) ∉ entries)
  /-- What is written has the written value, and what is not has its default. -/
  value_eq (entries : List (Key × UInt64)) (settings : Settings) :
    (entries.map Prod.fst).Nodup →
      ofYaml (Line.document indent closed (linesOf entries)) = .ok settings → ∀ key,
        (∀ word, (key, word) ∈ entries → settings.value key = word) ∧
        (key ∉ entries.map Prod.fst → settings.value key = ({} : Settings).value key)
  /-- No line has another word of upper-case letters as its key, whatever stands behind the colon
  and on the lines below. -/
  unknown_rejected (above : List (Key × UInt64)) (word tail : List Char) : IsUpperWord word →
    (∀ key : Key, String.ofList word ≠ key.name) → Yaml.startsGap tail = true →
      Rejects (Yaml.openKey indent (linesOf above) word tail)
  /-- No setting is given again by a line above or below, whatever stands behind the colon up to the
  end of the line. -/
  repeated_rejected (above below : List (Key × UInt64)) (key : Key) (value : List Char) :
    key ∈ (above ++ below).map Prod.fst → (∀ c ∈ value, Yaml.isBreak c = false) →
      Yaml.startsGap value = true → Rejects (Yaml.openKey indent (linesOf above) key.name.toList
        (value ++ '\n' :: (Line.document indent closed (linesOf below)).toList))
  /-- No setting is given again below, whatever stands behind the colon and on the lines below. -/
  repeated_below_rejected (above : List (Key × UInt64)) (key : Key) (tail : List Char) :
    key ∈ above.map Prod.fst → Yaml.startsGap tail = true →
      Rejects (Yaml.openKey indent (linesOf above) key.name.toList tail)
  /-- No setting has a negative value or one of more than 64 bits. -/
  outOfRange_rejected (above below : List (Key × UInt64)) (key : Key) (n : Int) :
    n < 0 ∨ UInt64.size ≤ n → Rejects (Line.document indent closed
      (linesOf above ++ key.decimalLine n :: linesOf below))

theorem exists_name_of_mem {entries : List (Key × UInt64)} {key : Key}
    (h : key ∈ entries.map Prod.fst) :
    ∃ line ∈ linesOf entries, Key.ofName? line.key = some key := by
  obtain ⟨entry, hentry, rfl⟩ := List.mem_map.mp h
  exact ⟨_, List.mem_map_of_mem hentry, Key.ofName?_name entry.1⟩

theorem accepted_iff (indent : Nat) (closed : Bool) {entries : List (Key × UInt64)}
    (hkeys : (entries.map Prod.fst).Nodup) :
    (∃ settings, ofYaml (Line.document indent closed (linesOf entries)) = .ok settings) ↔
      (.orphanCapacity, 0) ∉ entries := by
  constructor
  · rintro ⟨settings, hsettings⟩ hzero
    have hline (overrides : Overrides) :
        overrides.takeLine? (Key.orphanCapacity.decimalLine (0 : UInt64).toNat) = none := by
      cases hgives : overrides.gives .orphanCapacity with
      | true => exact Overrides.takeLine?_of_gives (Key.ofName?_name .orphanCapacity) hgives
      | false =>
        rw [takeLine?_word hgives]
        exact (overrides.put?_eq_none_iff _ _).mpr ⟨rfl, rfl⟩
    have hmem := List.mem_map_of_mem (f := fun (key, word) => key.decimalLine word.toNat) hzero
    rw [ofYaml_eq_ok_iff, ofYaml_document, linesOf,
      Overrides.foldlM_takeLine?_eq_none hmem hline] at hsettings
    cases hsettings
  · intro hcapacity
    obtain ⟨next, hnext, -⟩ := foldlM_linesOf {} hkeys hcapacity fun key _ => by
      cases key <;> rfl
    refine ⟨next.settings, ofYaml_eq_ok_iff.mpr ?_⟩
    rw [ofYaml_document, hnext, Option.map_some]

theorem value_eq (indent : Nat) (closed : Bool) {entries : List (Key × UInt64)}
    {settings : Settings} (hkeys : (entries.map Prod.fst).Nodup)
    (hsettings : ofYaml (Line.document indent closed (linesOf entries)) = .ok settings)
    (key : Key) :
    (∀ word, (key, word) ∈ entries → settings.value key = word) ∧
      (key ∉ entries.map Prod.fst → settings.value key = ({} : Settings).value key) := by
  have hcapacity := (accepted_iff indent closed hkeys).mp ⟨settings, hsettings⟩
  obtain ⟨next, hnext, hgiven, hother⟩ := foldlM_linesOf {} hkeys hcapacity fun key _ => by
    cases key <;> rfl
  rw [ofYaml_eq_ok_iff, ofYaml_document, hnext, Option.map_some, Option.some.injEq] at hsettings
  subst hsettings
  rw [Overrides.value_settings]
  constructor
  · intro word hword
    rw [hgiven key word hword, Option.getD_some]
  · intro habsent
    have hnone : ({} : Overrides).value? key = none := by cases key <;> rfl
    rw [hother key habsent, hnone, Option.getD_none]

theorem rejects_repeated_below (indent : Nat) {above : List (Key × UInt64)} {key : Key}
    {tail : List Char} (hkey : key ∈ above.map Prod.fst) (htail : Yaml.startsGap tail = true) :
    Rejects (Yaml.openKey indent (linesOf above) key.name.toList tail) := by
  refine rejects_iff.mpr (ofYaml_openKey indent _ key.isWord_name htail
    fun next hnext other h => ?_)
  rw [String.ofList_toList, Key.ofName?_name, Option.some.injEq] at h
  subst h
  exact Overrides.gives_of_foldlM hnext (.inr (exists_name_of_mem hkey))

theorem rejects_repeated_above (indent : Nat) (closed : Bool) (above : List (Key × UInt64))
    {below : List (Key × UInt64)} {key : Key} {value : List Char}
    (hkey : key ∈ below.map Prod.fst) (hvalue : Yaml.Unbroken value)
    (hgap : Yaml.startsGap value = true) :
    Rejects (Yaml.openKey indent (linesOf above) key.name.toList
      (value ++ '\n' :: (Line.document indent closed (linesOf below)).toList)) := by
  obtain ⟨line, hline, hname⟩ := exists_name_of_mem hkey
  refine rejects_iff.mpr (ofYaml_openLine indent closed _ (List.ne_nil_of_mem hline)
    key.isWord_name key.length_name hvalue hgap fun other h next hgives => ?_)
  rw [String.ofList_toList, Key.ofName?_name, Option.some.injEq] at h
  subst h
  -- the line below is the one that repeats the setting
  exact Overrides.foldlM_takeLine?_of_gives hgives hline hname

theorem rejects_outOfRange (indent : Nat) (closed : Bool) (above below : List (Key × UInt64))
    (key : Key) {n : Int} (hn : n < 0 ∨ UInt64.size ≤ n) :
    Rejects (Line.document indent closed
      (linesOf above ++ key.decimalLine n :: linesOf below)) := by
  have hsize : ¬(0 ≤ n ∧ n < UInt64.size) := by omega
  have hline (overrides : Overrides) : overrides.takeLine? (key.decimalLine n) = none := by
    rw [takeLine?_decimalLine, if_neg fun h => hsize h.2]
  rw [rejects_iff, ofYaml_document, Option.map_eq_none_iff]
  exact Overrides.foldlM_takeLine?_eq_none (by simp) hline _

/-- However their lines are indented, documents of settings mean the defaults with what is written
in their place, and a line that does not belong there makes them rejected. -/
theorem documents_lawful (indent : Nat) (closed : Bool) : DocumentLaws indent closed where
  accepted_iff _ hkeys := accepted_iff indent closed hkeys
  value_eq _ _ hkeys hsettings := value_eq indent closed hkeys hsettings
  unknown_rejected above word tail hword hother htail := by
    refine rejects_iff.mpr (ofYaml_openKey indent _ hword.isWord htail fun _ _ key hkey => ?_)
    rw [Key.ofName?_eq_none hother] at hkey
    cases hkey
  repeated_rejected above below key value hkey hvalue hgap := by
    rw [List.map_append, List.mem_append] at hkey
    rcases hkey with habove | hbelow
    · refine rejects_repeated_below indent habove ?_
      cases value with
      | nil => rfl
      | cons c value => exact hgap
    · exact rejects_repeated_above indent closed above hbelow hvalue hgap
  repeated_below_rejected _ _ _ hkey htail := rejects_repeated_below indent hkey htail
  outOfRange_rejected above below key _ hn := rejects_outOfRange indent closed above below key hn

example : Line.document 0 true (linesOf [(.orphanCapacity, 7), (.historicEpochs, 0)]) =
    "UNKNOWN_ATTESTATION_CAPACITY: 7\nHISTORIC_EPOCHS: 0\n" := by
  decide

end AttestationIntake.Settings
