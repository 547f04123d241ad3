import AttestationIntake.Proofs.Yaml.Values
import AttestationIntake.Settings.Document

/-!
Settings that are written line by line. Each line gives the setting that its key names, unless there
is no such setting, it is given already, or the value is none for it. The outcome for a document is
that of its lines one after the other, wherever these stand.
-/

namespace AttestationIntake.Settings

open Yaml (Anchors Item Mark Node Line PlacedLine IsWord)

/-! ## Single lines -/

namespace Key

theorem ofName?_name (key : Key) : ofName? key.name = some key := by
  cases key <;> decide

theorem ofName?_eq_none {name : String} (h : ∀ key : Key, name ≠ key.name) :
    ofName? name = none := by
  refine List.find?_eq_none.mpr fun key _ => ?_
  rw [beq_iff_eq]
  exact (h key).symm

end Key

namespace Overrides

/-- The overrides with a value for a setting, if it can have that. -/
def put? (overrides : Overrides) : Key → UInt64 → Option Overrides
  | .historicEpochs, word => some { overrides with historicEpochs := some word }
  | .orphanLookahead, word => some { overrides with orphanLookahead := some word }
  | .orphanCapacity, word =>
      (Capacity.ofWord? word).map fun capacity => { overrides with orphanCapacity := some capacity }

theorem gives_of_put? {overrides next : Overrides} {key : Key} {word : UInt64}
    (h : overrides.put? key word = some next) : next.gives key = true := by
  cases key with
  | historicEpochs =>
    cases h
    rfl
  | orphanLookahead =>
    cases h
    rfl
  | orphanCapacity =>
    obtain ⟨_, -, rfl⟩ := Option.map_eq_some_iff.mp h
    rfl

/-- The overrides with what a line gives. -/
def takeLine? (overrides : Overrides) (line : Line) : Option Overrides := do
  let key ← Key.ofName? line.key
  if overrides.gives key then none
  else overrides.put? key (← Yaml.word? line.value.toList)

end Overrides

theorem toOption_bind {ε α β : Type} (x : Except ε α) (f : α → Except ε β) :
    (x >>= f).toOption = x.toOption.bind fun a => (f a).toOption := by
  cases x <;> rfl

theorem toOption_mapError {ε ε' α : Type} (x : Except ε α) (f : ε → ε') :
    (x.mapError f).toOption = x.toOption := by
  cases x <;> rfl

theorem toOption_readWord (node : Node) (expected : String) :
    (readWord node expected).toOption = node.word? := by
  unfold readWord Node.word?
  cases node.content with
  | scalar scalar =>
    simp only
    cases scalar.word? <;> rfl
  | sequence => rfl
  | mapping => rfl

theorem toOption_readCapacity (node : Node) :
    (readCapacity node).toOption = node.word?.bind Capacity.ofWord? := by
  unfold readCapacity
  rw [toOption_bind, toOption_readWord]
  congr 1
  funext word
  cases Capacity.ofWord? word <;> rfl

theorem toOption_read (overrides : Overrides) (key : Key) (node : Node) :
    (overrides.read key node).toOption = node.word?.bind (overrides.put? key) := by
  cases key with
  | historicEpochs =>
    unfold Overrides.read
    rw [toOption_bind, toOption_readWord]
    rfl
  | orphanLookahead =>
    unfold Overrides.read
    rw [toOption_bind, toOption_readWord]
    rfl
  | orphanCapacity =>
    unfold Overrides.read
    rw [toOption_bind, toOption_readCapacity, Option.bind_assoc]
    congr 1
    funext word
    simp only [Overrides.put?, Option.map_eq_bind]
    rfl

theorem readKey_plain (text : String) (mark : Mark) :
    (readKey (.plain text mark)).toOption = Key.ofName? text := by
  unfold readKey Node.plain
  simp only
  cases Key.ofName? text <;> rfl

theorem readItem_node {α : Type} (anchors : Anchors) (node : Node) (path : Option String)
    (read : Node → Except DataError α) :
    (readItem anchors (.node node) path read).toOption = (read node).toOption :=
  toOption_mapError _ _

/-- A value is looked at where its setting is not given already. -/
theorem readItems_pair (anchors : Anchors) (start : Mark) (text : String) (mark : Mark)
    (node : Node) (rest : List Item) (overrides : Overrides) :
    (readItems anchors start (.node (.plain text mark) :: .node node :: rest) overrides).toOption =
      (Key.ofName? text).bind fun key =>
        if overrides.gives key then none
        else (node.word?.bind (overrides.put? key)).bind fun overrides =>
          (readItems anchors start rest overrides).toOption := by
  simp only [readItems]
  rw [toOption_bind, readItem_node, readKey_plain]
  cases Key.ofName? text with
  | none => rfl
  | some key =>
    simp only [Option.bind_some]
    cases overrides.gives key with
    | true => rfl
    | false =>
      simp only [Bool.false_eq_true, if_false]
      change (readItem _ _ _ _ >>= readItems anchors start rest).toOption = _
      rw [toOption_bind, readItem_node, toOption_read]

/-- A key and a value are read as a line of them. -/
theorem readItems_line (anchors : Anchors) (start : Mark) (line : PlacedLine) (rest : List Item)
    (overrides : Overrides) :
    (readItems anchors start (line.items ++ rest) overrides).toOption =
      (overrides.takeLine? line.toLine).bind fun overrides =>
        (readItems anchors start rest overrides).toOption := by
  unfold PlacedLine.items Overrides.takeLine?
  rw [List.cons_append, List.singleton_append, readItems_pair, Node.word?_plain]
  cases Key.ofName? line.key with
  | none => rfl
  | some key =>
    simp only [bind, Option.bind_some]
    cases overrides.gives key <;> rfl

/-! ## Documents -/

/-- Lines are read one after the other. -/
theorem readItems_lines (anchors : Anchors) (start : Mark) (placed : List PlacedLine)
    (rest : List Item) (overrides : Overrides) :
    (readItems anchors start (placed.flatMap (·.items) ++ rest) overrides).toOption =
      ((placed.map (·.toLine)).foldlM Overrides.takeLine? overrides).bind fun overrides =>
        (readItems anchors start rest overrides).toOption := by
  induction placed generalizing overrides with
  | nil => rfl
  | cons line placed ih =>
    rw [List.flatMap_cons, List.append_assoc, readItems_line, List.map_cons, List.foldlM_cons]
    change _ = ((overrides.takeLine? line.toLine).bind _).bind _
    rw [Option.bind_assoc]
    congr 1
    funext overrides
    exact ih overrides

section Documents

variable {document : Yaml.Document} {mark : Mark}

theorem ofDocument_mapping (hroot : document.root = some ⟨.mapping, mark⟩) :
    (ofDocument document).toOption =
      (readItems document.anchors mark document.items {}).toOption.bind fun overrides =>
        if document.complete then some overrides.settings else none := by
  unfold ofDocument
  simp only [hroot]
  rw [toOption_bind]
  congr 1
  funext overrides
  cases document.complete <;> rfl

theorem ofDocument_scalar {text : String} (hroot : document.root = some (.plain text mark))
    (htext : text ≠ "") : (ofDocument document).toOption = none := by
  unfold ofDocument
  simp only [hroot, Node.plain]
  split
  case h_1 heq => cases heq
  case h_2 heq =>
    cases heq
    exact absurd rfl htext
  case h_3 => rfl

theorem ofDocument_incomplete (h : document.complete = false) :
    (ofDocument document).toOption = none := by
  have hlast (overrides : Except DocumentError Overrides) :
      (overrides >>= fun _ => (throw .malformed : Except DocumentError Settings)).toOption =
        none := by
    cases overrides <;> rfl
  unfold ofDocument
  simp only [h, Bool.false_eq_true, if_false]
  split
  · exact hlast _
  · split <;> exact hlast _

end Documents

/-- The outcome for a document is that of its lines. -/
theorem ofYaml_document (indent : Nat) (closed : Bool) (lines : List Line) :
    (ofYaml (Line.document indent closed lines)).toOption =
      (lines.foldlM Overrides.takeLine? {}).map Overrides.settings := by
  by_cases hlines : lines = []
  · subst hlines
    rw [ofYaml, Yaml.Document.ofText_empty]
    rfl
  · obtain ⟨placed, hplaced, start, hdocument⟩ :=
      Yaml.Document.ofText_document indent closed hlines
    have hread := readItems_lines {} start placed [] {}
    rw [List.append_nil, hplaced] at hread
    rw [ofYaml, hdocument, ofDocument_mapping rfl, hread, Option.bind_assoc, Option.map_eq_bind]
    rfl

/-- A key behind lines is refused if it is no setting or is given by the lines, whatever its value
and whatever follows. -/
theorem ofYaml_openKey (indent : Nat) (lines : List Line) {word tail : List Char}
    (hword : IsWord word) (htail : Yaml.startsGap tail = true)
    (hrefused : ∀ overrides, lines.foldlM Overrides.takeLine? {} = some overrides →
      ∀ key, Key.ofName? (String.ofList word) = some key → overrides.gives key = true) :
    (ofYaml (Yaml.openKey indent lines word tail)).toOption = none := by
  rcases Yaml.Document.ofText_openKey indent lines hword htail with
    hcut | ⟨mark, hroot⟩ | ⟨placed, hplaced, start, mark, others, hroot, hitems⟩
  · exact ofDocument_incomplete hcut
  · refine ofDocument_scalar hroot fun h => hword.ne_nil ?_
    exact String.ofList_injective h
  · rw [ofYaml, ofDocument_mapping hroot, hitems, readItems_lines, hplaced]
    cases hlines : lines.foldlM Overrides.takeLine? {} with
    | none => rfl
    | some overrides =>
      have hkey (anchors : Anchors) : (readItems anchors start
          (.node (.plain (String.ofList word) mark) :: others) overrides).toOption = none := by
        unfold readItems Node.plain
        rw [toOption_bind, readItem_node, ← Node.plain, readKey_plain]
        cases hname : Key.ofName? (String.ofList word) with
        | none => rfl
        | some key =>
          rw [Option.bind_some, hrefused overrides hlines key hname]
          rfl
      rw [Option.bind_some, hkey, Option.bind_none]

/-- A setting is refused whatever its value is on its line if the lines below cannot be read where
it is given. -/
theorem ofYaml_openLine (indent : Nat) (closed : Bool) (above : List Line) {below : List Line}
    (hbelow : below ≠ []) {word value : List Char} (hword : IsWord word)
    (hlength : word.length ≤ 1024) (hvalue : Yaml.Unbroken value)
    (hgap : Yaml.startsGap value = true)
    (hrefused : ∀ key, Key.ofName? (String.ofList word) = some key → ∀ overrides : Overrides,
      overrides.gives key = true → below.foldlM Overrides.takeLine? overrides = none) :
    (ofYaml (Yaml.openKey indent above word
      (value ++ '\n' :: (Line.document indent closed below).toList))).toOption = none := by
  rcases Yaml.Document.ofText_openLine indent closed above hbelow hword hlength hvalue hgap with
    hcut | ⟨placed, hplaced, start, mark, node, others, hroot, hitems, hnode⟩
  · exact ofDocument_incomplete hcut
  · rw [ofYaml, ofDocument_mapping hroot, hitems, readItems_lines, hplaced]
    cases above.foldlM Overrides.takeLine? {} with
    | none => rfl
    | some overrides =>
      have hline (anchors : Anchors) : (readItems anchors start
          (.node (.plain (String.ofList word) mark) :: .node node :: others) overrides).toOption =
            none := by
        rw [readItems_pair, Option.bind_eq_none_iff]
        intro key hname
        split
        · rfl
        rw [Option.bind_eq_none_iff]
        intro next hnext
        obtain ⟨word, hword, hput⟩ := Option.bind_eq_some_iff.mp hnext
        rcases hnode with hnone | ⟨placed', hbelow, more, rfl⟩
        · rw [hnone] at hword
          cases hword
        · rw [readItems_lines, hbelow, hrefused key hname next (Overrides.gives_of_put? hput),
            Option.bind_none]
      rw [Option.bind_some, hline, Option.bind_none]

end AttestationIntake.Settings
