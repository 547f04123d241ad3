import AttestationIntake.Proofs.Yaml.Words

/-!
Lines of a block mapping that hold a word as key and a word as value. Each gives the same four
tokens, whatever stands on the other lines, and the first one opens the mapping. What stands behind
the colon of a key changes nothing about the tokens in front of it.
-/

namespace AttestationIntake.Yaml

/-! ## Single tokens -/

theorem startsGap_of_documentMark {chars : List Char} (h : startsDocumentMark chars = true) :
    startsGap (chars.drop 3) = true := by
  unfold startsDocumentMark at h
  split at h
  · exact h
  · exact h
  · cases h

theorem atDocumentMark_key {word : List Char} (hword : ∀ c ∈ word, isNameChar c = true)
    (rest : List Char) (mark : Mark) :
    (⟨word ++ ':' :: rest, mark⟩ : Cursor).atDocumentMark = false := by
  have hstart : startsDocumentMark (word ++ ':' :: rest) = false := by
    match word with
    | [] => rfl
    | [_] => simp [startsDocumentMark]
    | [_, _] => simp [startsDocumentMark]
    | a :: b :: c :: word =>
      rw [Bool.eq_false_iff]
      intro h
      have hgap := startsGap_of_documentMark h
      cases word with
      | nil => exact absurd hgap (by simp [startsGap, isBlank, isBreak])
      | cons d word =>
        obtain ⟨hblank, hbreak, -⟩ := nameChar_inert (hword d (by simp))
        simp [startsGap, hblank, hbreak] at hgap
  simp [Cursor.atDocumentMark, hstart]

namespace TokenStream

/-- Outside of flow collections, with no token held back. -/
def between (cursor : Cursor) (released : Nat) (indents : List Nat) (keyAllowed : Bool) :
    TokenStream :=
  { cursor, released, indents, keyAllowed }

variable {word rest : List Char} {mark : Mark} {k released : Nat} {indents : List Nat}
  {keyAllowed : Bool}

/-- No block collection ends where the innermost one starts no further to the right. -/
theorem closeBlocks_of_le (stream : TokenStream) {indent : Nat} (hflow : stream.inFlow = false)
    (h : ∀ i ∈ stream.indents.head?, i ≤ indent) : stream.closeBlocks indent = stream := by
  obtain ⟨cursor, held, released, indents, keyAllowed, keyStart, outer, ended⟩ := stream
  have hkept : indents.dropWhile (indent < ·) = indents ∧ indents.takeWhile (indent < ·) = [] := by
    cases indents with
    | nil => exact ⟨rfl, rfl⟩
    | cons i indents =>
      have hle := h i rfl
      simp [Nat.not_lt.mpr hle]
  simp [closeBlocks, hflow, hkept]

/-- There is nothing to pass over, to forget or to close before the next token. -/
structure Ready (stream : TokenStream) : Prop where
  skipped (rounds : Nat) : stream.skipSpace (rounds + 1) = stream
  fresh : stream.dropStale? = some stream
  inside : stream.closeBlocks (stream.cursor.mark.column + 1) = stream

namespace Ready

variable {stream : TokenStream}

/-- Where a character of a word starts a token, the token is a plain scalar. -/
theorem read?_nameChar (h : stream.Ready) {c : Char} (hrest : stream.cursor.rest = c :: rest)
    (hname : isNameChar c = true) (hhyphen : c = '-' → startsGap rest = false)
    (hmark : stream.cursor.atDocumentMark = false) : stream.read? = stream.addPlain? := by
  obtain ⟨hblank, -, hreserved, -⟩ := nameChar_inert hname
  have hpercent : c ≠ '%' := by
    rintro rfl
    cases hname
  unfold read?
  simp only [h.skipped, h.fresh, bind, Option.bind_some, TokenStream.mark, h.inside, hrest,
    hpercent, hmark, false_and, if_false, Bool.false_eq_true]
  split
  case h_6 => simp [hhyphen rfl]
  case h_16 => simp [hblank, hreserved]
  all_goals exact absurd hname (by decide)

theorem read?_colon (h : stream.Ready) (hrest : stream.cursor.rest = ':' :: rest)
    (hgap : startsGap rest = true) : stream.read? = stream.addValue? := by
  have hmark : stream.cursor.atDocumentMark = false := by
    rw [Cursor.atDocumentMark, hrest]
    exact Bool.and_false _
  unfold read?
  simp only [h.skipped, h.fresh, bind, Option.bind_some, TokenStream.mark, h.inside, hrest, hmark,
    hgap, Bool.or_true, if_true, Bool.false_eq_true, if_false]
  rfl

end Ready

theorem ready_word (hword : IsWord word) (hindents : ∀ i ∈ indents.head?, i ≤ mark.column + 1) :
    (between ⟨word ++ rest, mark⟩ released indents keyAllowed).Ready where
  skipped := skipSpace_spaces (k := 0) _ rfl (hword.settled rest)
  fresh := rfl
  inside := closeBlocks_of_le _ rfl hindents

/-- Where a word stands behind spaces, it is read as a plain scalar. -/
theorem read?_word (hword : IsWord word)
    (hmark : (⟨word ++ rest, mark.along k⟩ : Cursor).atDocumentMark = false)
    (hindents : ∀ i ∈ indents.head?, i ≤ mark.column + k + 1) :
    (between ⟨List.replicate k ' ' ++ (word ++ rest), mark⟩ released indents keyAllowed).read? =
      (between ⟨word ++ rest, mark.along k⟩ released indents keyAllowed).addPlain? := by
  have hready : (between ⟨word ++ rest, mark.along k⟩ released indents keyAllowed).Ready :=
    ready_word hword hindents
  have hskip (rounds : Nat) :
      (between ⟨List.replicate k ' ' ++ (word ++ rest), mark⟩ released indents keyAllowed).skipSpace
        (rounds + 1) = between ⟨word ++ rest, mark.along k⟩ released indents keyAllowed :=
    skipSpace_spaces _ rfl (hword.settled rest) rounds
  have hread : (between ⟨List.replicate k ' ' ++ (word ++ rest), mark⟩ released indents
      keyAllowed).read? =
        (between ⟨word ++ rest, mark.along k⟩ released indents keyAllowed).read? := by
    unfold read?
    rw [hskip, hready.skipped]
  rw [hread]
  obtain ⟨c, tail, rfl⟩ := List.exists_cons_of_ne_nil hword.ne_nil
  refine hready.read?_nameChar rfl (hword.chars c List.mem_cons_self) ?_ hmark
  rintro rfl
  -- a hyphen alone is no word
  obtain ⟨d, tail, rfl⟩ : ∃ d rest, tail = d :: rest :=
    List.exists_cons_of_ne_nil fun h => hword.ne_hyphen (by rw [h])
  obtain ⟨hblank, hbreak, -⟩ := nameChar_inert (hword.chars d (by simp))
  show (isBlank d || isBreak d) = false
  rw [hblank, hbreak, Bool.or_false]

/-! ## Keys -/

/-- Behind a word that is held back, since a colon would make it a key. -/
def behindKey (word : List Char) (start : Mark) (rest : List Char) (released : Nat)
    (indents : List Nat) : TokenStream :=
  { cursor := ⟨rest, start.along word.length⟩, released, indents
    held := [⟨.scalar .plain (String.ofList word), start⟩]
    keyAllowed := false
    keyStart := some ⟨released, indents.headD 0 == start.column + 1, start⟩ }

/-- A word in front of a colon is held back. -/
theorem read?_key (hword : IsWord word) (hrest : startsGap rest = true)
    (hindents : ∀ i ∈ indents.head?, i ≤ mark.column + k + 1) :
    (between ⟨List.replicate k ' ' ++ (word ++ ':' :: rest), mark⟩ released indents true).read? =
      some (behindKey word (mark.along k) (':' :: rest) released indents) := by
  have hmark := atDocumentMark_key hword.chars rest (mark.along k)
  obtain ⟨rounds, hrounds⟩ : ∃ rounds, (word ++ ':' :: rest).length = rounds + 1 :=
    ⟨word.length + rest.length, by simp; omega⟩
  rw [read?_word hword hmark hindents]
  unfold addPlain?
  simp [noteKey?, dropKey?, between, hrounds, plain?_key hword hrest hmark, inFlow, behindKey, add,
    indent, next, TokenStream.mark]

theorem dropStale?_behindKey (hword : word.length ≤ 1024) :
    (behindKey word mark rest released indents).dropStale? =
      some (behindKey word mark rest released indents) := by
  simp [dropStale?, behindKey, KeyStart.isStale, Mark.along, TokenStream.mark, hword]

/-- Where nothing but a key may start, a word must not be too long for one. -/
theorem dropStale?_behindKey_of_lt (hword : 1024 < word.length)
    (hindents : indents.head? = some (mark.column + 1)) :
    (behindKey word mark rest released indents).dropStale? = none := by
  simp [dropStale?, behindKey, KeyStart.isStale, Mark.along, TokenStream.mark, hword, hindents]

theorem release_behindKey :
    (behindKey word mark rest released indents).release =
      ([], behindKey word mark rest released indents) := by
  simp [release, behindKey, next]

/-- What stands in front of a key: the start of a mapping, if it is outside of all collections. -/
def opening (indents : List Nat) (mark : Mark) : List Token :=
  if indents = [] then [⟨.blockMapping, mark⟩] else []

/-- The colon behind a word makes a key of it. -/
theorem read?_colon (hword : word.length ≤ 1024) (hrest : startsGap rest = true)
    (hindents : indents = [] ∨ indents = [mark.column + 1]) :
    (behindKey word mark (':' :: rest) released indents).read? =
      some { between ⟨rest, (mark.along word.length).along 1⟩ released [mark.column + 1] false with
        held := opening indents mark ++ [⟨.key, mark⟩, ⟨.scalar .plain (String.ofList word), mark⟩,
          ⟨.value, mark.along word.length⟩] } := by
  have hready : (behindKey word mark (':' :: rest) released indents).Ready :=
    { skipped := skipSpace_spaces (k := 0) _ rfl (settled_colon rest)
      fresh := dropStale?_behindKey hword
      inside := closeBlocks_of_le _ rfl (by
        rcases hindents with rfl | rfl <;> simp [behindKey, Mark.along]) }
  have hcolon := Cursor.skip_one ':' rest (mark.along word.length) rfl
  rw [hready.read?_colon rfl hrest]
  unfold addValue?
  rcases hindents with rfl | rfl
  · simp [behindKey, insert, openBlock, inFlow, indent, add, hcolon, between, TokenStream.mark,
      opening]
  · simp [behindKey, insert, openBlock, inFlow, indent, add, hcolon, between, TokenStream.mark,
      opening]

/-- The value of a key on its line. -/
theorem read?_value {column : Nat} {leftLine : Bool} {next : Cursor} (hword : IsWord word)
    (hmark : column ≤ mark.column)
    (hplain : ∀ rounds, plain? false (column + 1) (rounds + 1) ⟨word ++ rest, mark.along 1⟩ [] {} =
      some ⟨word, leftLine, next⟩) :
    (between ⟨' ' :: (word ++ rest), mark⟩ released [column + 1] false).read? =
      some { between next released [column + 1] leftLine with
        held := [⟨.scalar .plain (String.ofList word), mark.along 1⟩] } := by
  obtain ⟨rounds, hrounds⟩ : ∃ rounds, (word ++ rest).length = rounds + 1 := by
    obtain ⟨c, tail, rfl⟩ := List.exists_cons_of_ne_nil hword.ne_nil
    exact ⟨(tail ++ rest).length, rfl⟩
  have hread : (between ⟨List.replicate 1 ' ' ++ (word ++ rest), mark⟩ released [column + 1]
      false).read? = _ :=
    read?_word hword (by simp [Cursor.atDocumentMark, Mark.along]) (by simp; omega)
  rw [List.replicate_one, List.singleton_append] at hread
  rw [hread]
  unfold addPlain?
  simp [noteKey?, between, hrounds, hplain, inFlow, add, indent, TokenStream.mark]

/-! ## Rounds -/

section Rounds

variable {stream next : TokenStream} {n : Nat}

theorem tokens_succ (stream : TokenStream) (n : Nat) :
    stream.tokens (n + 1) = match stream.read?.bind dropStale? with
      | none => []
      | some next =>
          if next.ended then next.release.1 else next.release.1 ++ next.release.2.tokens n := by
  rfl

theorem tokens_of_read? (hread : stream.read? = some next) (hstale : next.dropStale? = some next)
    (hended : next.ended = false) :
    stream.tokens (n + 1) = next.release.1 ++ next.release.2.tokens n := by
  rw [tokens_succ, hread, Option.bind_some, hstale]
  simp only [hended, Bool.false_eq_true, if_false]

/-- Tokens that wait for no colon are there at once. -/
theorem tokens_of_read?_between {next : Cursor} {held : List Token}
    (hread : stream.read? = some { between next released indents keyAllowed with held }) :
    stream.tokens (n + 1) =
      held ++ (between next (released + held.length) indents keyAllowed).tokens n := by
  rw [tokens_of_read? hread rfl rfl]
  have hcount : released + held.length - released = held.length := by omega
  simp [release, between, TokenStream.next, hcount]

end Rounds

/-- The tokens of a key and the colon behind it, whatever follows. -/
theorem tokens_key (mark : Mark) (k released n : Nat) (hword : IsWord word)
    (hlength : word.length ≤ 1024) (hrest : startsGap rest = true)
    (hindents : indents = [] ∨ indents = [mark.column + k + 1]) :
    ∃ keyMark colonMark released', mark.column + k ≤ colonMark.column ∧
      (between ⟨List.replicate k ' ' ++ (word ++ ':' :: rest), mark⟩ released indents true).tokens
        (n + 2) = opening indents keyMark ++ ⟨.key, keyMark⟩ ::
          ⟨.scalar .plain (String.ofList word), keyMark⟩ :: ⟨.value, colonMark⟩ ::
          (between ⟨rest, colonMark.along 1⟩ released' [mark.column + k + 1] false).tokens n := by
  have hle : ∀ i ∈ indents.head?, i ≤ mark.column + k + 1 := by
    rcases hindents with rfl | rfl <;> simp
  let held : List Token := opening indents (mark.along k) ++ [⟨.key, mark.along k⟩,
    ⟨.scalar .plain (String.ofList word), mark.along k⟩,
    ⟨.value, (mark.along k).along word.length⟩]
  refine ⟨mark.along k, (mark.along k).along word.length, released + held.length,
    by simp [Mark.along], ?_⟩
  rw [tokens_of_read? (read?_key hword hrest hle) (dropStale?_behindKey hlength) rfl,
    release_behindKey, List.nil_append,
    tokens_of_read?_between (read?_colon hlength hrest hindents)]
  simp only [List.append_assoc, List.cons_append, List.nil_append]
  rfl

end TokenStream

/-! ## Lines -/

/-- A line of a block mapping with a word as key and a word as value. A key is at most 1024 bytes
long. -/
structure Line where
  key : String
  value : String
  key_isWord : IsWord key.toList
  value_isWord : IsWord value.toList
  key_length : key.toList.length ≤ 1024

/-- A line and where its tokens start. -/
structure PlacedLine extends Line where
  keyMark : Mark
  colonMark : Mark
  valueMark : Mark

def PlacedLine.tokens (line : PlacedLine) : List Token :=
  [⟨.key, line.keyMark⟩, ⟨.scalar .plain line.key, line.keyMark⟩, ⟨.value, line.colonMark⟩,
    ⟨.scalar .plain line.value, line.valueMark⟩]

namespace Line

def text (line : Line) : List Char := line.key.toList ++ ':' :: ' ' :: line.value.toList

theorem settled (line : Line) (rest : List Char) : Settled (line.text ++ rest) := by
  rw [text, List.append_assoc]
  exact line.key_isWord.settled _

end Line

/-- Lines with the break behind each and the indentation of the next. -/
def blockText (indent : Nat) : List Line → List Char → List Char
  | [], rest => rest
  | line :: lines, rest =>
      line.text ++ '\n' :: (List.replicate indent ' ' ++ blockText indent lines rest)

theorem settled_blockText (indent : Nat) (lines : List Line) {rest : List Char}
    (hrest : Settled rest) : Settled (blockText indent lines rest) := by
  cases lines with
  | nil => exact hrest
  | cons line lines => exact line.settled _

/-- What ends a value of a mapping in this column, and where the next token is read. -/
def EndsValue (column : Nat) (ending : List Char) (leftLine : Bool) (next : Mark → Cursor) : Prop :=
  ∀ (word : List Char) (mark : Mark) (rounds : Nat), IsWord word → mark.column ≠ 0 →
    plain? false (column + 1) (rounds + 1) ⟨word ++ ending, mark⟩ [] {} =
      some ⟨word, leftLine, next (mark.along word.length)⟩

theorem endsValue_text (column : Nat) : EndsValue column [] false fun mark => ⟨[], mark⟩ := by
  intro word mark rounds hword hmark
  exact plain?_last hword (by simp [Cursor.atDocumentMark, hmark]) rounds

theorem endsValue_line {column k : Nat} (hk : k ≤ column) {rest : List Char}
    (hrest : Settled rest) :
    EndsValue column ('\n' :: (List.replicate k ' ' ++ rest)) true
      fun mark => ⟨rest, mark.nextLine.along k⟩ := by
  intro word mark rounds hword hmark
  have hplace : (⟨word ++ '\n' :: (List.replicate k ' ' ++ rest), mark⟩ : Cursor).atDocumentMark =
      false := by
    simp [Cursor.atDocumentMark, hmark]
  exact plain?_line hword hrest (Nat.lt_succ_of_le hk) hplace rounds

namespace TokenStream

variable {ending : List Char} {leftLine keyAllowed : Bool} {next : Mark → Cursor} {mark : Mark}
  {k released : Nat} {indents : List Nat}

/-- A line gives its tokens, and the first line of a mapping that of the mapping too. -/
theorem tokens_line {indent : Nat} (line : Line) (hending : EndsValue indent ending leftLine next)
    (hmark : mark.column + k = indent) (hindents : indents = [] ∨ indents = [indent + 1])
    (released n : Nat) :
    ∃ placed : PlacedLine, placed.toLine = line ∧ ∃ released' mark',
      (between ⟨List.replicate k ' ' ++ (line.text ++ ending), mark⟩ released indents true).tokens
        (n + 3) =
          opening indents placed.keyMark ++ (placed.tokens ++
            (between (next mark') released' [indent + 1] leftLine).tokens n) := by
  subst hmark
  have htext : line.text ++ ending =
      line.key.toList ++ ':' :: ' ' :: (line.value.toList ++ ending) := by
    simp [Line.text]
  have hgap : startsGap (' ' :: (line.value.toList ++ ending)) = true := rfl
  obtain ⟨keyMark, colonMark, released', hcolumn, hkey⟩ :=
    tokens_key mark k released (n + 1) line.key_isWord line.key_length hgap hindents
  have hplain (rounds : Nat) := hending line.value.toList ((colonMark.along 1).along 1) rounds
    line.value_isWord (by simp [Mark.along])
  have hvalue : (between ⟨' ' :: (line.value.toList ++ ending), colonMark.along 1⟩ released'
      [mark.column + k + 1] false).tokens (n + 1) = _ :=
    tokens_of_read?_between (read?_value line.value_isWord (Nat.le_succ_of_le hcolumn) hplain)
  refine ⟨{ line with keyMark, colonMark, valueMark := (colonMark.along 1).along 1 }, rfl,
    released' + 1, ((colonMark.along 1).along 1).along line.value.toList.length, ?_⟩
  rw [htext, hkey, hvalue]
  simp only [PlacedLine.tokens, String.ofList_toList]
  rfl

/-- Lines give the tokens of one after the other. -/
theorem tokens_lines {indent : Nat} (lines : List Line) (last : Line)
    (hending : EndsValue indent ending leftLine next) (hmark : mark.column + k = indent)
    (hindents : indents = [] ∨ indents = [indent + 1]) (released n : Nat) :
    ∃ placed : List PlacedLine, placed.map (·.toLine) = lines ++ [last] ∧
      ∃ start released' mark', (between ⟨List.replicate k ' ' ++ blockText indent lines
        (last.text ++ ending), mark⟩ released indents true).tokens (n + 3 * (lines.length + 1)) =
          opening indents start ++ (placed.flatMap (·.tokens) ++
            (between (next mark') released' [indent + 1] leftLine).tokens n) := by
  induction lines generalizing k mark released indents with
  | nil =>
    obtain ⟨placed, hplaced, released', mark', htokens⟩ :=
      tokens_line last hending hmark hindents released n
    refine ⟨[placed], by simp [hplaced], placed.keyMark, released', mark', ?_⟩
    rw [List.flatMap_singleton]
    exact htokens
  | cons line lines ih =>
    have hnext := endsValue_line (Nat.le_refl indent)
      (settled_blockText indent lines (last.settled ending))
    obtain ⟨placed, hplaced, released', mark', htokens⟩ := tokens_line line hnext hmark hindents
      released (n + 3 * (lines.length + 1))
    have hcolumn : (mark'.nextLine.along indent).column + 0 = indent := Nat.zero_add indent
    obtain ⟨others, hothers, start, released'', mark'', hrest⟩ := ih hcolumn (.inr rfl) released'
    refine ⟨placed :: others, by simp [hplaced, hothers], placed.keyMark, released'', mark'', ?_⟩
    calc
      _ = opening indents placed.keyMark ++ (placed.tokens ++ (between ⟨List.replicate 0 ' ' ++
            blockText indent lines (last.text ++ ending), mark'.nextLine.along indent⟩ released'
            [indent + 1] true).tokens (n + 3 * (lines.length + 1))) := htokens
      _ = _ := by
        rw [hrest, List.flatMap_cons, List.append_assoc]
        rfl

/-- At the end of the text, its block mapping ends too. -/
theorem tokens_end (mark : Mark) (released column : Nat) (keyAllowed : Bool) (n : Nat) :
    ∃ a b, (between ⟨[], mark⟩ released [column + 1] keyAllowed).tokens (n + 1) =
      [⟨.blockEnd, a⟩, ⟨.streamEnd, b⟩] := by
  have hskip (rounds : Nat) : (between ⟨[], mark⟩ released [column + 1] keyAllowed).skipSpace
      (rounds + 1) = between ⟨[], mark⟩ released [column + 1] keyAllowed :=
    skipSpace_spaces (k := 0) _ rfl settled_nil rounds
  -- the mapping ends in front of the end of the text, or with it if that is not indented less
  have hread : ∃ next, (between ⟨[], mark⟩ released [column + 1] keyAllowed).read? = some next ∧
      next.dropStale? = some next ∧ next.ended = true ∧
        ∃ a b, next.release.1 = [⟨.blockEnd, a⟩, ⟨.streamEnd, b⟩] := by
    unfold read?
    rw [hskip]
    by_cases h : mark.column + 1 < column + 1
    · simp [dropStale?, between, TokenStream.mark, closeBlocks, inFlow, h, addStreamEnd?, dropKey?,
        add, release, TokenStream.next]
    · simp [dropStale?, between, TokenStream.mark, closeBlocks, inFlow, h, addStreamEnd?, dropKey?,
        add, release, TokenStream.next]
  obtain ⟨next, hread, hstale, hended, a, b, htokens⟩ := hread
  refine ⟨a, b, ?_⟩
  rw [tokens_succ, hread, Option.bind_some, hstale]
  simp only [hended, if_true, htokens]

end TokenStream

end AttestationIntake.Yaml
