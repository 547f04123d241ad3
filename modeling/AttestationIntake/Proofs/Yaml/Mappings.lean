import AttestationIntake.Proofs.Yaml.Lines
import AttestationIntake.Yaml.Document

/-!
Documents that consist of lines with words. What is read of such a document are the keys and values
as they are written, in their order, and the document is complete. Of a word with a colon that
follows such lines it does not matter what stands behind the colon: unless the document is not
complete, the word is read as it is written, behind what the lines hold.
-/

namespace AttestationIntake.Yaml

/-! ## Texts -/

namespace Line

/-- Lines one below the other, indented alike, each with a break behind it. -/
def above (indent : Nat) (lines : List Line) : List Char :=
  lines.flatMap fun line => List.replicate indent ' ' ++ (line.text ++ ['\n'])

/-- A text of lines one below the other, indented alike. The break behind the last one may be left
out. -/
def document (indent : Nat) (closed : Bool) (lines : List Line) : String :=
  String.ofList (if closed then above indent lines else (above indent lines).dropLast)

theorem above_append (indent : Nat) (lines : List Line) (rest : List Char) :
    above indent lines ++ (List.replicate indent ' ' ++ rest) =
      List.replicate indent ' ' ++ blockText indent lines rest := by
  induction lines with
  | nil => rfl
  | cons line lines ih =>
    rw [above, List.flatMap_cons, ← above, List.append_assoc, ih, blockText]
    simp only [List.append_assoc, List.cons_append, List.nil_append]

/-- What stands behind the last line. -/
def ending (closed : Bool) : List Char := if closed then ['\n'] else []

theorem document_concat (indent : Nat) (closed : Bool) (lines : List Line) (last : Line) :
    (document indent closed (lines ++ [last])).toList =
      List.replicate indent ' ' ++ blockText indent lines (last.text ++ ending closed) := by
  have habove : above indent (lines ++ [last]) =
      above indent lines ++ (List.replicate indent ' ' ++ last.text) ++ ['\n'] := by
    simp only [above, List.flatMap_append, List.flatMap_singleton, List.append_assoc]
  rw [document, String.toList_ofList, habove, ← above_append]
  cases closed
  · simp [ending]
  · simp [ending]

theorem blockText_concat (indent : Nat) (lines : List Line) (last : Line) (rest : List Char) :
    blockText indent (lines ++ [last]) rest =
      blockText indent lines (last.text ++ '\n' :: (List.replicate indent ' ' ++ rest)) := by
  induction lines with
  | nil => rfl
  | cons line lines ih => rw [List.cons_append, blockText, ih, blockText]

theorem length_text (line : Line) : 4 ≤ line.text.length := by
  have hkey := List.length_pos_iff.mpr line.key_isWord.ne_nil
  have hvalue := List.length_pos_iff.mpr line.value_isWord.ne_nil
  simp only [text, List.length_append, List.length_cons]
  omega

theorem length_blockText (indent : Nat) (lines : List Line) (rest : List Char) :
    3 * lines.length + rest.length ≤ (blockText indent lines rest).length := by
  induction lines with
  | nil => simp [blockText]
  | cons line lines ih =>
    have htext := line.length_text
    simp only [blockText, List.length_append, List.length_cons]
    omega

theorem isAllowed_text (line : Line) : line.text.all isAllowed = true := by
  have hword {word : List Char} (h : IsWord word) : word.all isAllowed = true :=
    List.all_eq_true.mpr fun c hc => (nameChar_inert (h.chars c hc)).2.2.2.1
  simp [text, hword line.key_isWord, hword line.value_isWord, isAllowed]

theorem isAllowed_blockText (indent : Nat) (lines : List Line) (rest : List Char) :
    (blockText indent lines rest).all isAllowed = rest.all isAllowed := by
  have hspace : (List.replicate indent ' ').all isAllowed = true := by
    simp [isAllowed]
  induction lines with
  | nil => rfl
  | cons line lines ih =>
    rw [blockText, List.all_append, List.all_cons, List.all_append, line.isAllowed_text, hspace, ih]
    simp [isAllowed]

end Line

/-! ## Tokens -/

theorem endsValue_ending (column : Nat) (closed : Bool) :
    ∃ next : Mark → Mark, EndsValue column (Line.ending closed) closed
      fun mark => ⟨[], next mark⟩ := by
  cases closed with
  | false => exact ⟨id, endsValue_text column⟩
  | true => exact ⟨_, endsValue_line (Nat.zero_le column) settled_nil⟩

theorem tokensOf_of_isAllowed {text : String} (h : text.toList.all isAllowed = true) :
    tokensOf text = (TokenStream.between ⟨text.toList, {}⟩ 0 [] true).tokens
      (text.toList.length + 1) := by
  rw [tokensOf, if_pos h]
  rfl

/-- Lines at the end of the text give their tokens, and those of the two ends. -/
theorem TokenStream.tokens_lastLines {indent k : Nat} {indents : List Nat} {mark : Mark}
    (closed : Bool) (lines : List Line) (last : Line) (hmark : mark.column + k = indent)
    (hindents : indents = [] ∨ indents = [indent + 1]) (released n : Nat) :
    ∃ placed : List PlacedLine, placed.map (·.toLine) = lines ++ [last] ∧ ∃ start a b,
      (between ⟨List.replicate k ' ' ++ blockText indent lines (last.text ++ Line.ending closed),
        mark⟩ released indents true).tokens (n + 1 + 3 * (lines.length + 1)) =
          opening indents start ++ (placed.flatMap (·.tokens) ++
            [⟨.blockEnd, a⟩, ⟨.streamEnd, b⟩]) := by
  obtain ⟨next, hending⟩ := endsValue_ending indent closed
  obtain ⟨placed, hplaced, start, released', mark', htokens⟩ :=
    tokens_lines lines last hending hmark hindents released (n + 1)
  obtain ⟨a, b, hend⟩ := tokens_end (next mark') released' indent closed n
  exact ⟨placed, hplaced, start, a, b, by rw [htokens, hend]⟩

/-- The tokens of a document of lines are those of its lines inside of one block mapping. -/
theorem tokensOf_document (indent : Nat) (closed : Bool) {lines : List Line} (hlines : lines ≠ []) :
    ∃ placed : List PlacedLine, placed.map (·.toLine) = lines ∧ ∃ start a b,
      tokensOf (Line.document indent closed lines) =
        ⟨.blockMapping, start⟩ :: (placed.flatMap (·.tokens) ++
          [⟨.blockEnd, a⟩, ⟨.streamEnd, b⟩]) := by
  obtain ⟨lines, last, rfl⟩ : ∃ front last, lines = front ++ [last] :=
    ⟨_, _, (List.dropLast_concat_getLast hlines).symm⟩
  have htext := Line.document_concat indent closed lines last
  have hallowed : (Line.document indent closed (lines ++ [last])).toList.all isAllowed = true := by
    rw [htext, List.all_append, Line.isAllowed_blockText, List.all_append, last.isAllowed_text]
    cases closed <;> simp [Line.ending, isAllowed]
  -- each line has more than three characters, and one more round reads the end
  obtain ⟨n, hn⟩ : ∃ n, (Line.document indent closed (lines ++ [last])).toList.length + 1 =
      n + 1 + 3 * (lines.length + 1) := by
    have hlength := Line.length_blockText indent lines (last.text ++ Line.ending closed)
    have hlast := last.length_text
    refine ⟨(Line.document indent closed (lines ++ [last])).toList.length -
      3 * (lines.length + 1), ?_⟩
    rw [htext]
    simp only [List.length_append] at hlength ⊢
    omega
  have hcolumn : ({} : Mark).column + indent = indent := Nat.zero_add indent
  obtain ⟨placed, hplaced, start, a, b, htokens⟩ :=
    TokenStream.tokens_lastLines closed lines last hcolumn (.inl rfl) 0 n
  refine ⟨placed, hplaced, start, a, b, ?_⟩
  rw [tokensOf_of_isAllowed hallowed, hn, htext, htokens]
  rfl

/-! ## A key behind lines -/

namespace TokenStream

variable {word tail : List Char}

/-- In a mapping a word of more than 1024 bytes is no key, and nothing else may stand there. -/
theorem tokens_longKey (mark : Mark) (k released n : Nat) (hword : IsWord word)
    (hlength : 1024 < word.length) (htail : startsGap tail = true) :
    (between ⟨List.replicate k ' ' ++ (word ++ ':' :: tail), mark⟩ released [mark.column + k + 1]
      true).tokens n = [] := by
  cases n with
  | zero => rfl
  | succ n =>
    rw [tokens_succ, read?_key hword htail (by simp), Option.bind_some,
      dropStale?_behindKey_of_lt hlength rfl]

/-- Outside of all collections, a word of more than 1024 bytes is a node of its own. -/
theorem tokens_longScalar (mark : Mark) (k released n : Nat) (hword : IsWord word)
    (hlength : 1024 < word.length) (htail : startsGap tail = true) :
    ∃ others, (between ⟨List.replicate k ' ' ++ (word ++ ':' :: tail), mark⟩ released []
      true).tokens (n + 1) = ⟨.scalar .plain (String.ofList word), mark.along k⟩ :: others := by
  have hstale : (behindKey word (mark.along k) (':' :: tail) released []).dropStale? =
      some { behindKey word (mark.along k) (':' :: tail) released [] with keyStart := none } := by
    simp [dropStale?, behindKey, KeyStart.isStale, Mark.along, TokenStream.mark, hlength]
  rw [tokens_succ, read?_key hword htail (by simp), Option.bind_some, hstale]
  have hcount : released + 1 - released = 1 := by omega
  simp [behindKey, release, next, hcount]

/-- The tokens of lines, and of what follows them. -/
theorem tokens_above (indent : Nat) {lines : List Line} (hlines : lines ≠ []) {rest : List Char}
    (hrest : Settled rest) (n : Nat) :
    ∃ placed : List PlacedLine, placed.map (·.toLine) = lines ∧ ∃ start mark released,
      mark.column = indent ∧
        (between ⟨List.replicate indent ' ' ++ blockText indent lines rest, {}⟩ 0 [] true).tokens
          (n + 3 * lines.length) = ⟨.blockMapping, start⟩ :: (placed.flatMap (·.tokens) ++
            (between ⟨rest, mark⟩ released [indent + 1] true).tokens n) := by
  obtain ⟨lines, last, rfl⟩ : ∃ front last, lines = front ++ [last] :=
    ⟨_, _, (List.dropLast_concat_getLast hlines).symm⟩
  have hcolumn : ({} : Mark).column + indent = indent := Nat.zero_add indent
  obtain ⟨placed, hplaced, start, released, mark, htokens⟩ :=
    tokens_lines lines last (endsValue_line (Nat.le_refl indent) hrest) hcolumn (.inl rfl) 0 n
  refine ⟨placed, hplaced, start, mark.nextLine.along indent, released, Nat.zero_add indent, ?_⟩
  rw [List.length_append, List.length_singleton, Line.blockText_concat, htokens]
  rfl

end TokenStream

/-- Lines, and behind them a word with a colon. -/
def openKey (indent : Nat) (lines : List Line) (word tail : List Char) : String :=
  String.ofList (Line.above indent lines ++ (List.replicate indent ' ' ++ (word ++ ':' :: tail)))

section OpenKey

variable (indent : Nat) (lines : List Line) {word tail : List Char}

theorem toList_openKey : (openKey indent lines word tail).toList =
    List.replicate indent ' ' ++ blockText indent lines (word ++ ':' :: tail) := by
  rw [openKey, String.toList_ofList, Line.above_append]

/-- There are enough rounds for the lines, for the word with its colon, and one for each character
behind that. -/
theorem exists_tokensOf_openKey (hword : IsWord word)
    (hallowed : (openKey indent lines word tail).toList.all isAllowed = true) :
    ∃ n, tail.length ≤ n ∧ tokensOf (openKey indent lines word tail) =
      (TokenStream.between ⟨List.replicate indent ' ' ++
        blockText indent lines (word ++ ':' :: tail), {}⟩ 0 [] true).tokens
          (n + 2 + 3 * lines.length) := by
  have hlength := Line.length_blockText indent lines (word ++ ':' :: tail)
  have hpos := List.length_pos_iff.mpr hword.ne_nil
  have htext : (openKey indent lines word tail).toList.length = _ :=
    congrArg List.length (toList_openKey indent lines)
  simp only [List.length_append, List.length_cons] at hlength htext
  refine ⟨(openKey indent lines word tail).toList.length - 3 * lines.length - 1, by omega, ?_⟩
  rw [tokensOf_of_isAllowed hallowed, toList_openKey]
  congr 1
  simp only [List.length_append] at hlength ⊢
  omega

/-- A word of at most 1024 bytes is a key of the mapping, whatever follows. -/
theorem tokensOf_key (hword : IsWord word) (hlength : word.length ≤ 1024)
    (htail : startsGap tail = true)
    (hallowed : (openKey indent lines word tail).toList.all isAllowed = true) :
    ∃ placed : List PlacedLine, placed.map (·.toLine) = lines ∧
      ∃ start keyMark colonMark released n, indent ≤ colonMark.column ∧ tail.length ≤ n ∧
        tokensOf (openKey indent lines word tail) = ⟨.blockMapping, start⟩ ::
          (placed.flatMap (·.tokens) ++ ⟨.key, keyMark⟩ ::
            ⟨.scalar .plain (String.ofList word), keyMark⟩ :: ⟨.value, colonMark⟩ ::
            (TokenStream.between ⟨tail, colonMark.along 1⟩ released [indent + 1] false).tokens
              n) := by
  obtain ⟨n, hn, htokens⟩ := exists_tokensOf_openKey indent lines hword hallowed
  by_cases hlines : lines = []
  · subst hlines
    obtain ⟨keyMark, colonMark, released', hcolon, hkey⟩ :=
      TokenStream.tokens_key {} indent 0 n hword hlength htail (.inl rfl)
    have hcolumn : ({} : Mark).column + indent = indent := Nat.zero_add indent
    rw [hcolumn] at hcolon hkey
    exact ⟨[], rfl, keyMark, keyMark, colonMark, released', n, hcolon, hn, htokens.trans hkey⟩
  · obtain ⟨placed, hplaced, start, mark, released, rfl, habove⟩ :=
      TokenStream.tokens_above indent hlines (hword.settled (':' :: tail)) (n + 2)
    obtain ⟨keyMark, colonMark, released', hcolon, hkey⟩ :=
      TokenStream.tokens_key mark 0 released n hword hlength htail (.inr rfl)
    refine ⟨placed, hplaced, start, keyMark, colonMark, released', n, hcolon, hn, ?_⟩
    rw [htokens, habove]
    exact congrArg (fun tokens => _ :: (_ ++ tokens)) hkey

/-- A longer word is no key. -/
theorem tokensOf_longKey (hword : IsWord word) (hlength : 1024 < word.length)
    (htail : startsGap tail = true)
    (hallowed : (openKey indent lines word tail).toList.all isAllowed = true) :
    (∃ placed : List PlacedLine, ∃ start, tokensOf (openKey indent lines word tail) =
      ⟨.blockMapping, start⟩ :: (placed.flatMap (·.tokens) ++ [])) ∨
    ∃ mark others, tokensOf (openKey indent lines word tail) =
      ⟨.scalar .plain (String.ofList word), mark⟩ :: others := by
  obtain ⟨n, -, htokens⟩ := exists_tokensOf_openKey indent lines hword hallowed
  by_cases hlines : lines = []
  · subst hlines
    obtain ⟨others, hscalar⟩ :=
      TokenStream.tokens_longScalar {} indent 0 (n + 1) hword hlength htail
    exact .inr ⟨_, others, htokens.trans hscalar⟩
  · obtain ⟨placed, -, start, mark, released, rfl, habove⟩ :=
      TokenStream.tokens_above indent hlines (hword.settled (':' :: tail)) (n + 2)
    have hkey : (TokenStream.between ⟨word ++ ':' :: tail, mark⟩ released [mark.column + 1]
        true).tokens (n + 2) = [] :=
      TokenStream.tokens_longKey mark 0 released (n + 2) hword hlength htail
    exact .inl ⟨placed, start, by rw [htokens, habove, hkey]⟩

end OpenKey

/-! ## Documents -/

/-- A scalar as it is written, without a tag. -/
def Node.plain (text : String) (mark : Mark) : Node := ⟨.scalar ⟨.plain, none, text⟩, mark⟩

def PlacedLine.items (line : PlacedLine) : List Item :=
  [.node (.plain line.key line.keyMark), .node (.plain line.value line.valueMark)]

variable {handles : TagHandles} {anchors : Anchors}

theorem contents_key (n : Nat) (text : String) (keyMark mark : Mark) (rest : List Token) :
    contents handles (n + 1) [.blockKey] anchors
      (⟨.key, keyMark⟩ :: ⟨.scalar .plain text, mark⟩ :: rest) =
        (contents handles n [.blockValue] anchors rest).push (.node (.plain text mark)) := by
  rfl

theorem contents_value (n : Nat) (text : String) (colonMark mark : Mark) (rest : List Token) :
    contents handles (n + 1) [.blockValue] anchors
      (⟨.value, colonMark⟩ :: ⟨.scalar .plain text, mark⟩ :: rest) =
        (contents handles n [.blockKey] anchors rest).push (.node (.plain text mark)) := by
  rfl

/-- Of a line in a mapping, the key and the value are read by turns. -/
theorem contents_line (n : Nat) (line : PlacedLine) (rest : List Token) :
    contents handles (n + 2) [.blockKey] anchors (line.tokens ++ rest) =
      let behind := contents handles n [.blockKey] anchors rest
      { behind with items := line.items ++ behind.items } := by
  simp only [PlacedLine.tokens, List.cons_append, List.nil_append, contents_key, contents_value]
  rfl

theorem contents_lines (placed : List PlacedLine) (n : Nat) (rest : List Token) :
    contents handles (n + 2 * placed.length) [.blockKey] anchors
      (placed.flatMap (·.tokens) ++ rest) =
        let behind := contents handles n [.blockKey] anchors rest
        { behind with items := placed.flatMap (·.items) ++ behind.items } := by
  induction placed with
  | nil => rfl
  | cons line placed ih =>
    rw [List.length_cons, Nat.mul_succ, ← Nat.add_assoc, List.flatMap_cons, List.append_assoc,
      contents_line, ih]
    simp only [List.flatMap_cons, List.append_assoc]

theorem PlacedLine.length_tokens (placed : List PlacedLine) :
    (placed.flatMap (·.tokens)).length = 4 * placed.length := by
  induction placed with
  | nil => rfl
  | cons line placed ih =>
    rw [List.flatMap_cons, List.length_append, ih, List.length_cons]
    exact Nat.add_comm 4 _

namespace Document

/-- A block mapping outside of all collections is the root. -/
theorem ofTokens_mapping (start : Mark) (tokens : List Token) :
    Document.ofTokens (⟨.blockMapping, start⟩ :: tokens) =
      let inside := contents .standard (3 * (tokens.length + 2)) [.blockKey] {} tokens
      { root := some ⟨.mapping, start⟩, items := inside.items, anchors := inside.anchors,
        complete := inside.rest.any isLast } := by
  cases tokens <;> rfl

theorem ofTokens_scalar (text : String) (mark : Mark) (tokens : List Token) :
    (Document.ofTokens (⟨.scalar .plain text, mark⟩ :: tokens)).root = some (.plain text mark) := by
  cases tokens <;> rfl

/-- What stands behind lines is read in their mapping. -/
theorem ofTokens_lines (start : Mark) (placed : List PlacedLine) (tokens : List Token) :
    ∃ n, Document.ofTokens (⟨.blockMapping, start⟩ :: (placed.flatMap (·.tokens) ++ tokens)) =
      let behind := contents .standard (n + 2) [.blockKey] {} tokens
      { root := some ⟨.mapping, start⟩, items := placed.flatMap (·.items) ++ behind.items,
        anchors := behind.anchors, complete := behind.rest.any isLast } := by
  obtain ⟨n, hn⟩ : ∃ n, 3 * ((placed.flatMap (·.tokens) ++ tokens).length + 2) =
      n + 2 + 2 * placed.length := by
    refine ⟨3 * (4 * placed.length + tokens.length) + 4 - 2 * placed.length, ?_⟩
    rw [List.length_append, PlacedLine.length_tokens]
    omega
  refine ⟨n, ?_⟩
  rw [ofTokens_mapping, hn, contents_lines]

/-- A document of lines holds their keys and values. -/
theorem ofText_document (indent : Nat) (closed : Bool) {lines : List Line} (hlines : lines ≠ []) :
    ∃ placed : List PlacedLine, placed.map (·.toLine) = lines ∧ ∃ start,
      ofText (Line.document indent closed lines) =
        { root := some ⟨.mapping, start⟩
          items := placed.flatMap (·.items)
          complete := true } := by
  obtain ⟨placed, hplaced, start, a, b, htokens⟩ := tokensOf_document indent closed hlines
  obtain ⟨n, hdocument⟩ := ofTokens_lines start placed [⟨.blockEnd, a⟩, ⟨.streamEnd, b⟩]
  refine ⟨placed, hplaced, start, ?_⟩
  rw [ofText, htokens, hdocument]
  simp [contents, Turn.step?, Turn.inBlock?, isLast]

theorem ofText_empty (indent : Nat) (closed : Bool) :
    ofText (Line.document indent closed []) = { complete := true } := by
  have hempty : Line.document indent closed [] = "" := by cases closed <;> rfl
  have htokens : tokensOf "" = [⟨.streamEnd, {}⟩] := by decide
  rw [hempty, ofText, htokens, ofTokens]

theorem ofText_of_not_isAllowed {text : String} (h : ¬text.toList.all isAllowed = true) :
    (ofText text).complete = false := by
  have htokens : tokensOf text = [] := if_neg h
  rw [ofText, htokens, ofTokens]

/-- Unless the document is not complete, a word with a colon behind lines is the whole document, or
a key that follows what the lines hold. -/
theorem ofText_openKey (indent : Nat) (lines : List Line) {word tail : List Char}
    (hword : IsWord word) (htail : startsGap tail = true) :
    let document := ofText (openKey indent lines word tail)
    document.complete = false ∨
      (∃ mark, document.root = some (.plain (String.ofList word) mark)) ∨
      ∃ placed : List PlacedLine, placed.map (·.toLine) = lines ∧ ∃ start mark others,
        document.root = some ⟨.mapping, start⟩ ∧ document.items =
          placed.flatMap (·.items) ++ .node (.plain (String.ofList word) mark) :: others := by
  intro document
  by_cases hallowed : (openKey indent lines word tail).toList.all isAllowed = true
  · rcases Nat.lt_or_ge 1024 word.length with hlength | hlength
    · rcases tokensOf_longKey indent lines hword hlength htail hallowed with
        ⟨placed, start, htokens⟩ | ⟨mark, others, htokens⟩
      · obtain ⟨n, hdocument⟩ := ofTokens_lines start placed []
        refine .inl ?_
        simp only [document, ofText, htokens, hdocument]
        rfl
      · refine .inr (.inl ⟨mark, ?_⟩)
        simp only [document, ofText, htokens, ofTokens_scalar]
    · obtain ⟨placed, hplaced, start, mark, colonMark, released, m, -, -, htokens⟩ :=
        tokensOf_key indent lines hword hlength htail hallowed
      obtain ⟨n, hdocument⟩ := ofTokens_lines start placed (⟨.key, mark⟩ ::
        ⟨.scalar .plain (String.ofList word), mark⟩ :: ⟨.value, colonMark⟩ ::
          (TokenStream.between ⟨tail, colonMark.along 1⟩ released [indent + 1] false).tokens m)
      rw [contents_key] at hdocument
      have hitems : ∃ others, document.items =
          placed.flatMap (·.items) ++ .node (.plain (String.ofList word) mark) :: others := by
        simp only [document, ofText, htokens, hdocument]
        exact ⟨_, rfl⟩
      obtain ⟨items, hitems⟩ := hitems
      refine .inr (.inr ⟨placed, hplaced, start, mark, items, ?_, hitems⟩)
      simp only [document, ofText, htokens, hdocument]
  · exact .inl (ofText_of_not_isAllowed hallowed)

end Document

end AttestationIntake.Yaml
