import AttestationIntake.Proofs.Yaml.Mappings
import AttestationIntake.Proofs.Yaml.OneLine
import AttestationIntake.Yaml.CoreSchema

/-!
What stands behind the colon of a key, up to the end of its line. Whatever that is, the lines below
are read as they would be without it, unless no word can be read there or the document is not
complete.
-/

namespace AttestationIntake.Yaml

/-! ## Tokens on a line -/

/-- No word is empty. -/
theorem word?_empty (style : ScalarStyle) (tag : Option String) :
    (Scalar.mk style tag "").word? = none := by
  unfold Scalar.word?
  split <;> rfl

/-- An anchor or a tag. -/
def TokenKind.isProperty : TokenKind → Bool
  | .anchor _ | .tag _ _ => true
  | _ => false

/-- A token that nothing in a block mapping goes on with, and that gives no word as a value. -/
def TokenKind.Wordless : TokenKind → Prop
  | .key | .blockEnd | .anchor _ | .tag _ _ => False
  | .scalar style text => ∀ tag, (Scalar.mk style tag text).word? = none
  | _ => True

theorem TokenKind.Wordless.isProperty_eq {kind : TokenKind} (h : kind.Wordless) :
    kind.isProperty = false := by
  cases kind
  case anchor => exact h.elim
  case tag => exact h.elim
  all_goals rfl

/-- The tokens from somewhere behind the colon of a key on. The lines below start with a key and are
read as `behind` says, unless some other token gets in their way. -/
inductive LineTokens (behind : List Token → Prop) : List Token → Prop where
  | cut : LineTokens behind []
  | done {mark : Mark} {rest : List Token} : behind (⟨.key, mark⟩ :: rest) →
      LineTokens behind (⟨.key, mark⟩ :: rest)
  | property {kind : TokenKind} {mark : Mark} {rest : List Token} : kind.isProperty = true →
      LineTokens behind rest → LineTokens behind (⟨kind, mark⟩ :: rest)
  | plain {text : String} {mark : Mark} {rest : List Token} : LineTokens behind rest →
      LineTokens behind (⟨.scalar .plain text, mark⟩ :: rest)
  | other {kind : TokenKind} {mark : Mark} {rest : List Token} : kind.Wordless →
      LineTokens behind (⟨kind, mark⟩ :: rest)

namespace TokenStream

variable {column released : Nat} {chars rest : List Char} {mark : Mark} {kind : TokenKind}

/-- Somewhere behind the colon of a key of the block mapping in this column. -/
def onLine (column : Nat) (chars rest : List Char) (mark : Mark) (released : Nat) : TokenStream :=
  between ⟨lineOver column chars rest, mark⟩ released [column + 1] false

/-- At the start of a line of the block mapping in this column. -/
def atLine (column : Nat) (rest : List Char) (mark : Mark) (released : Nat) : TokenStream :=
  between ⟨rest, mark⟩ released [column + 1] true

/-- Behind what does not count there is the next line, or something that counts. -/
theorem skipSpace_onLine (hrest : Settled rest) (hline : Unbroken chars)
    (hmark : column < mark.column) (released : Nat) :
    let stream := onLine column chars rest mark released
    (∃ mark' : Mark, mark'.column = column ∧
        stream.skipSpace (stream.cursor.rest.length + 1) = atLine column rest mark' released) ∨
      ∃ c left mark', c :: left <:+ chars ∧ column < mark'.column ∧
        stream.skipSpace (stream.cursor.rest.length + 1) =
          onLine column (c :: left) rest mark' released := by
  obtain ⟨left, mark', hleft, hmark', hskip⟩ := exists_skipComment hmark chars rest
  have hblanks : (fun c => c == ' ' || c == '\t') = isBlank := rfl
  have hstart : (mark.column == 0) = false := by
    simp
    omega
  rw [Cursor.skipBlanks] at hskip
  intro stream
  obtain ⟨rounds, hrounds⟩ : ∃ rounds, stream.cursor.rest.length = rounds + 1 := by
    refine ⟨chars.length + (List.replicate column ' ' ++ rest).length, ?_⟩
    simp only [stream, onLine, between, lineOver, List.length_append, List.length_cons]
    omega
  rw [hrounds, skipSpace]
  simp only [stream, onLine, between, inFlow, hstart, hblanks, hskip, List.isEmpty_nil,
    Bool.not_true, Bool.not_false, Bool.or_true, Bool.and_true, Bool.false_and, Bool.false_eq_true,
    if_false]
  cases left with
  | nil =>
    refine .inl ⟨mark'.nextLine.along column, Nat.zero_add column, ?_⟩
    exact skipSpace_spaces _ rfl hrest rounds
  | cons c left =>
    have hc : isBreak c = false := hline c (hleft.subset List.mem_cons_self)
    have hstays : ¬(!(lineOver column (c :: left) rest).isEmpty &&
        startsBreak (lineOver column (c :: left) rest)) = true := by
      simp [lineOver, startsBreak, hc]
    refine .inr ⟨c, left, mark', hleft, hmark', ?_⟩
    rw [if_neg hstays]

/-- What the next token is read from decides which it is. -/
theorem read?_of_skipSpace {stream next : TokenStream}
    (hskip : stream.skipSpace (stream.cursor.rest.length + 1) = next)
    (hready : next.skipSpace (next.cursor.rest.length + 1) = next) :
    stream.read? = next.read? := by
  rw [read?, read?, hskip, hready]

/-- What is read on a line of a block mapping behind the colon of a key. That is a fault, a part of
the value with more of the line behind it, the last part with the lines below behind it, or
something that makes the value no word. -/
inductive LineRead (column : Nat) (chars rest : List Char) (released : Nat) :
    Option TokenStream → Prop where
  | fault : LineRead column chars rest released none
  | part {kind : TokenKind} {start mark : Mark} {left : List Char} :
      kind.isProperty = true ∨ (∃ text, kind = .scalar .plain text) → left <:+ chars →
      column < mark.column → LineRead column chars rest released
        (some { onLine column left rest mark released with held := [⟨kind, start⟩] })
  | last {text : String} {start mark : Mark} : mark.column = column →
      LineRead column chars rest released
        (some { atLine column rest mark released with held := [⟨.scalar .plain text, start⟩] })
  | other {kind : TokenKind} {start : Mark} {cursor : Cursor} {keyAllowed : Bool} (depth : Nat) :
      kind.Wordless → LineRead column chars rest released
        (some { between cursor released [column + 1] keyAllowed with
          held := [⟨kind, start⟩], outerKeyStarts := List.replicate depth none })

section Adders

variable {c : Char}

theorem openFlow?_onLine (hkind : kind.Wordless) :
    LineRead column chars rest released
      ((onLine column (c :: chars) rest mark released).openFlow? kind) :=
  .other 1 hkind

theorem closeFlow?_onLine (hkind : kind.Wordless) :
    LineRead column chars rest released
      ((onLine column (c :: chars) rest mark released).closeFlow? kind) :=
  .other 0 hkind

theorem addFlowEntry?_onLine : LineRead column chars rest released
    ( addFlowEntry? (onLine column (c :: chars) rest mark released)) :=
  .other 0 trivial

theorem addName?_reference : LineRead column chars rest released
    ((onLine column (c :: chars) rest mark released).addName? .reference) := by
  change LineRead _ _ _ _ (Option.bind (anchorName? (lineOver column chars rest)) _)
  cases anchorName? (lineOver column chars rest) with
  | none => exact .fault
  | some read => exact .other 0 trivial

/-- An anchor or a tag ends on its line. -/
theorem lineRead_property {more : List Char} (hkind : kind.isProperty = true)
    (hc : isBreak c = false) (hahead : Ahead (lineOver column chars rest) more)
    (hmark : column < mark.column) : LineRead column chars rest released
      (some ((onLine column (c :: chars) rest mark released).add kind
        ((⟨c :: lineOver column chars rest, mark⟩ : Cursor).moveTo more) false)) := by
  obtain ⟨next, hle, hmove⟩ := (hahead.cons hc).moveTo mark
  obtain ⟨left, hleft, rfl⟩ := hahead.onLine
  rw [hmove]
  exact .part (.inl hkind) hleft (Nat.lt_of_lt_of_le hmark hle)

theorem addName?_anchor (hmark : column < mark.column) : LineRead column chars rest released
    ((onLine column ('&' :: chars) rest mark released).addName? .anchor) := by
  change LineRead _ _ _ _ (Option.bind (anchorName? (lineOver column chars rest)) _)
  cases hname : anchorName? (lineOver column chars rest) with
  | none => exact .fault
  | some read =>
    obtain ⟨name, more⟩ := read
    exact lineRead_property rfl (by decide) (anchorName?_ahead hname) hmark

theorem addTag?_onLine (hmark : column < mark.column) : LineRead column chars rest released
    (onLine column ('!' :: chars) rest mark released).addTag? := by
  change LineRead _ _ _ _ (Option.bind (tag? false ('!' :: lineOver column chars rest)) _)
  cases htag : tag? false ('!' :: lineOver column chars rest) with
  | none => exact .fault
  | some read =>
    obtain ⟨kind, more⟩ := read
    obtain ⟨handle, suffix, rfl, hahead⟩ := tag?_ahead htag
    exact lineRead_property rfl (by decide) hahead hmark

theorem addQuoted?_onLine (single : Bool) : LineRead column chars rest released
    ((onLine column (c :: chars) rest mark released).addQuoted? single) := by
  change LineRead _ _ _ _ (Option.bind (quoted? single _ _ []) _)
  cases quoted? single _ _ [] with
  | none => exact .fault
  | some read => exact .other 0 fun tag => if_neg (by simp)

theorem addBlockScalar?_onLine (hrest : Settled rest) (hline : Unbroken chars)
    (hmark : column < mark.column) (folded : Bool) : LineRead column chars rest released
    ((onLine column (c :: chars) rest mark released).addBlockScalar? folded) := by
  let start := ((⟨lineOver column (c :: chars) rest, mark⟩ : Cursor).skip 1).mark
  change LineRead _ _ _ _ (Option.bind (block? folded (column + 1)
    ⟨lineOver column chars rest, start⟩) _)
  cases hread : block? folded (column + 1) ⟨lineOver column chars rest, start⟩ with
  | none => exact .fault
  | some read =>
    obtain ⟨text, next⟩ := read
    obtain rfl := block?_lineOver hrest hline (Nat.lt_succ_of_lt hmark) hread
    exact .other 0 fun tag => word?_empty _ tag

theorem addPlain?_onLine (hrest : Settled rest) (hline : Unbroken (c :: chars))
    (hmark : column < mark.column) : LineRead column chars rest released
    (onLine column (c :: chars) rest mark released).addPlain? := by
  let rounds := (lineOver column (c :: chars) rest).length
  change LineRead _ _ _ _ (Option.bind (plain? false (column + 1) rounds
    ⟨lineOver column (c :: chars) rest, mark⟩ [] {}) _)
  cases hread : plain? false (column + 1) rounds
    ⟨lineOver column (c :: chars) rest, mark⟩ [] {} with
  | none => exact .fault
  | some plain =>
    have hreach := plain?_reaches hrest hline hmark rfl hread
    obtain ⟨text, leftLine, cursor⟩ := plain
    rcases hreach with ⟨rfl, -⟩ | hreach
    · exact .other 0 fun tag => word?_empty _ tag
    · cases hreach with
      | here hleft hmark' => exact .part (.inr ⟨_, rfl⟩) hleft hmark'
      | below hmark' => exact .last hmark'

/-- Whichever character stands where a token is read, it is one of these. -/
theorem read?_onLine {stream : TokenStream} (hrest : Settled rest) (hline : Unbroken (c :: chars))
    (hmark : column < mark.column)
    (hskip : stream.skipSpace (stream.cursor.rest.length + 1) =
      onLine column (c :: chars) rest mark released) :
    LineRead column chars rest released stream.read? := by
  have hinside : (onLine column (c :: chars) rest mark released).closeBlocks
      ((onLine column (c :: chars) rest mark released).mark.column + 1) =
        onLine column (c :: chars) rest mark released :=
    closeBlocks_of_le _ rfl (by simp [onLine, between, TokenStream.mark]; omega)
  have hstart : (onLine column (c :: chars) rest mark released).mark.column ≠ 0 :=
    Nat.ne_of_gt (Nat.lt_of_le_of_lt (Nat.zero_le _) hmark)
  have hdocument :
      (onLine column (c :: chars) rest mark released).cursor.atDocumentMark = false := by
    rw [Cursor.atDocumentMark]
    exact Bool.and_eq_false_iff.mpr (.inl (beq_eq_false_iff_ne.mpr hstart))
  have hflow : (onLine column (c :: chars) rest mark released).inFlow = false := rfl
  have htext : (onLine column (c :: chars) rest mark released).cursor.rest =
      c :: lineOver column chars rest := rfl
  have hplain : LineRead column chars rest released
      (onLine column (c :: chars) rest mark released).addPlain? :=
    addPlain?_onLine hrest hline hmark
  have hline' : Unbroken chars := fun d hd => hline d (List.mem_cons_of_mem c hd)
  unfold read?
  rw [hskip]
  change LineRead _ _ _ _ (Option.bind (some (onLine column (c :: chars) rest mark released)) _)
  simp only [Option.bind_some, hinside, hstart, hdocument, htext, hflow, and_false, if_false,
    Bool.false_or, Bool.false_eq_true]
  split
  · exact openFlow?_onLine trivial
  · exact openFlow?_onLine trivial
  · exact closeFlow?_onLine trivial
  · exact closeFlow?_onLine trivial
  · exact addFlowEntry?_onLine
  -- behind a colon no key may start, and so no entry of a block collection
  · split
    · exact .fault
    · exact hplain
  · split
    · exact .fault
    · exact hplain
  · split
    · exact .fault
    · exact hplain
  · exact addName?_reference
  · exact addName?_anchor hmark
  · exact addTag?_onLine hmark
  · exact addQuoted?_onLine true
  · exact addQuoted?_onLine false
  · exact addBlockScalar?_onLine hrest hline' hmark false
  · exact addBlockScalar?_onLine hrest hline' hmark true
  · split
    · exact .fault
    · exact hplain

end Adders

/-- A token is released even in front of what is noted for flow collections. -/
theorem tokens_of_outer {stream : TokenStream} {cursor : Cursor} {indents : List Nat}
    {keyAllowed : Bool} {token : Token} {depth : Nat}
    (hread : stream.read? = some { between cursor released indents keyAllowed with
      held := [token], outerKeyStarts := List.replicate depth none }) (n : Nat) :
    ∃ others, stream.tokens (n + 1) = token :: others := by
  have hstale : ({ between cursor released indents keyAllowed with
      held := [token], outerKeyStarts := List.replicate depth none } : TokenStream).dropStale? =
        some { between cursor released indents keyAllowed with
          held := [token], outerKeyStarts := List.replicate depth none } := by
    simp [dropStale?, between]
  rw [tokens_of_read? hread hstale rfl]
  simp [release, between, TokenStream.next]

/-- From behind a colon on, the tokens are those of the line and of what follows on the lines below.
A round for each character of the line is enough. -/
theorem lineTokens_onLine (hrest : Settled rest) {behind : List Token → Prop} {rounds : Nat}
    (hbehind : ∀ mark released n, mark.column = column → rounds ≤ n →
      LineTokens behind ((atLine column rest mark released).tokens n))
    (hline : Unbroken chars) (hmark : column < mark.column) {n : Nat}
    (hn : chars.length + rounds ≤ n) :
    LineTokens behind ((onLine column chars rest mark released).tokens n) := by
  -- each round leaves less of the line
  induction n generalizing chars mark released with
  | zero => exact .cut
  | succ n ih =>
    rcases skipSpace_onLine hrest hline hmark released with
      ⟨mark', hmark', hskip⟩ | ⟨c, left, mark', hleft, hmark', hskip⟩
    · have hread := read?_of_skipSpace hskip (skipSpace_spaces (k := 0) _ rfl hrest _)
      rw [tokens_succ, hread, ← tokens_succ]
      exact hbehind mark' released (n + 1) hmark' (by omega)
    · have hlength := hleft.length_le
      have hleft' : Unbroken (c :: left) := fun d hd => hline d (hleft.subset hd)
      have hnext := read?_onLine hrest hleft' hmark' hskip
      generalize hread : (onLine column chars rest mark released).read? = next at hnext
      cases hnext with
      | fault =>
        rw [tokens_succ, hread]
        exact .cut
      | @part _ _ mark'' left' hkind hsuffix hmark'' =>
        have hlength' := hsuffix.length_le
        simp only [List.length_cons] at hlength
        have hrest' : LineTokens behind
            ((onLine column left' rest mark'' (released + 1)).tokens n) :=
          ih (fun d hd => hleft' d (List.mem_cons_of_mem c (hsuffix.subset hd))) hmark'' (by omega)
        rw [tokens_of_read?_between hread]
        rcases hkind with hproperty | ⟨text, rfl⟩
        · exact .property hproperty hrest'
        · exact .plain hrest'
      | last hmark'' =>
        rw [tokens_of_read?_between hread]
        simp only [List.length_cons] at hlength
        exact .plain (hbehind _ _ n hmark'' (by omega))
      | other _ hkind =>
        obtain ⟨others, htokens⟩ := tokens_of_outer hread n
        rw [htokens]
        exact .other hkind

end TokenStream

/-! ## Values -/

/-- The word that a node is read as. -/
def Node.word? (node : Node) : Option UInt64 :=
  match node.content with
  | .scalar scalar => scalar.word?
  | _ => none

theorem Node.word?_plain (text : String) (mark : Mark) :
    (Node.plain text mark).word? = Yaml.word? text.toList := by
  have hword : (Scalar.mk .plain none text).word? = Yaml.word? text.toList := if_pos (.inl rfl)
  exact hword

theorem Node.word?_absent (mark : Mark) : (Node.absent mark).word? = none :=
  word?_empty _ _

theorem content?_wordless {inBlockMapping isBare used : Bool} {tag : Option String}
    {kind : TokenKind} {content : Content} {opened : Option Turn}
    (hkind : ∀ style text, kind = .scalar style text → (Scalar.mk style tag text).word? = none)
    (h : content? inBlockMapping tag isBare kind = some (content, opened, used)) (mark : Mark) :
    (Node.mk content mark).word? = none := by
  unfold content? at h
  split at h
  · cases h
    exact hkind _ _ rfl
  · cases h
    rfl
  · cases h
    rfl
  · cases h
    rfl
  · cases h
    rfl
  · split at h
    · cases h
      rfl
    · split at h
      · cases h
      · cases h
        exact word?_empty _ _

namespace LineTokens

variable {behind : List Token → Prop} {tokens : List Token}

theorem of_property {token : Token} (h : LineTokens behind (token :: tokens))
    (hproperty : token.kind.isProperty = true) : LineTokens behind tokens := by
  cases h with
  | done => cases hproperty
  | property _ hrest => exact hrest
  | plain => cases hproperty
  | other hkind =>
    rw [hkind.isProperty_eq] at hproperty
    cases hproperty

theorem properties (h : LineTokens behind tokens) :
    LineTokens behind (properties tokens).2 := by
  unfold Yaml.properties
  split
  · exact (h.of_property rfl).of_property rfl
  · exact (h.of_property rfl).of_property rfl
  · exact h.of_property rfl
  · exact h.of_property rfl
  · exact h

/-- Where no anchor is known, the value of a key is a node. Unless no word can be read from it, the
line goes on behind it. -/
theorem item?_cases (h : LineTokens behind tokens) {handles : TagHandles} {read : ReadItem}
    (hread : item? true handles {} tokens = some read) :
    ∃ node, read.item = .node node ∧
      (node.word? = none ∨ read.opened = none ∧ LineTokens behind read.rest) := by
  unfold item? at hread
  split at hread
  · cases hread
  · have hrest := h.properties
    generalize Yaml.properties tokens = split at hread hrest
    obtain ⟨properties, rest⟩ := split
    obtain ⟨token, htoken, hread⟩ := Option.bind_eq_some_iff.mp hread
    obtain ⟨tag, -, hread⟩ := Option.bind_eq_some_iff.mp hread
    obtain ⟨⟨content, opened, used⟩, hcontent, hread⟩ := Option.bind_eq_some_iff.mp hread
    cases hread
    refine ⟨_, rfl, ?_⟩
    obtain ⟨rest, rfl⟩ := List.head?_eq_some_iff.mp htoken
    cases hrest with
    | done =>
      refine .inl (content?_wordless ?_ hcontent _)
      rintro style text h
      cases h
    | property hproperty =>
      refine .inl (content?_wordless ?_ hcontent _)
      rintro style text rfl
      cases hproperty
    | plain hrest =>
      cases hcontent
      exact .inr ⟨rfl, hrest⟩
    | other hkind =>
      refine .inl (content?_wordless ?_ hcontent _)
      rintro style text rfl
      exact hkind tag

end LineTokens

/-! ## Contents -/

variable {handles : TagHandles} {anchors : Anchors} {turn : Turn} {outer : List Turn}
  {tokens : List Token}

theorem contents_of_step?_eq_none (h : turn.step? tokens = none) (n : Nat) :
    (contents handles n (turn :: outer) anchors tokens).rest = none := by
  cases n with
  | zero => rfl
  | succ n =>
    rw [contents, h]

/-- A block mapping goes on with a key. -/
theorem LineTokens.contents_blockKey {behind : List Token → Prop} (h : LineTokens behind tokens)
    (handles : TagHandles) (anchors : Anchors) (n : Nat) :
    (contents handles n [.blockKey] anchors tokens).rest = none ∨ behind tokens := by
  cases h with
  | cut => exact .inl (contents_of_step?_eq_none rfl n)
  | done h => exact .inr h
  | @property kind _ _ hkind _ =>
    refine .inl (contents_of_step?_eq_none ?_ n)
    cases kind
    case anchor => rfl
    case tag => rfl
    all_goals cases hkind
  | plain => exact .inl (contents_of_step?_eq_none rfl n)
  | @other kind _ _ hkind =>
    refine .inl (contents_of_step?_eq_none ?_ n)
    cases kind
    case key => exact hkind.elim
    case blockEnd => exact hkind.elim
    all_goals rfl

/-- What a key has as its value: nothing that a word can be read from, or a node with the lines
below behind it. -/
theorem LineTokens.contents_blockValue {behind : List Token → Prop}
    (h : LineTokens behind tokens) (n : Nat) (mark : Mark) :
    let value := contents handles n [.blockValue] {} (⟨.value, mark⟩ :: tokens)
    value.rest = none ∨
      (∃ node others, value.items = .node node :: others ∧ node.word? = none) ∨
      ∃ node m anchors rest, behind rest ∧
        value = (contents handles m [.blockKey] anchors rest).push (.node node) := by
  intro value
  cases n with
  | zero => exact .inl rfl
  | succ n =>
    cases tokens with
    | nil => exact .inl rfl
    | cons token tokens =>
      let ends : List TokenKind := [.key, .value, .blockEnd]
      have hstep : Turn.step? .blockValue (⟨.value, mark⟩ :: token :: tokens) =
          if ends.contains token.kind then
            some (.absent (Yaml.behind mark) .blockKey (token :: tokens))
          else some (.present .blockKey (token :: tokens)) := rfl
      by_cases hends : ends.contains token.kind = true
      · rw [if_pos hends] at hstep
        have hvalue : value = (contents handles n [.blockKey] {} (token :: tokens)).push
            (.node (.absent (Yaml.behind mark))) := by
          simp only [value, contents, hstep]
        exact .inr (.inl ⟨_, _, by rw [hvalue]; rfl, Node.word?_absent _⟩)
      · rw [if_neg hends] at hstep
        simp only [value, contents, hstep]
        cases hitem : item? (Turn.inBlockMapping .blockValue) handles {} (token :: tokens) with
        | none => exact .inl rfl
        | some read =>
          obtain ⟨node, hnode, hread⟩ := h.item?_cases hitem
          obtain ⟨item, opened, anchors, rest⟩ := read
          obtain rfl : item = .node node := hnode
          rcases hread with hwordless | ⟨rfl, hrest⟩
          · exact .inr (.inl ⟨_, _, rfl, hwordless⟩)
          · rcases hrest.contents_blockKey handles anchors n with hcut | hbehind
            · exact .inl hcut
            · exact .inr (.inr ⟨node, n, anchors, rest, hbehind, rfl⟩)

/-- What is read of lines are their keys and values, unless there are not enough rounds. -/
theorem contents_lines_prefix (handles : TagHandles) (anchors : Anchors)
    (placed : List PlacedLine) (rest : List Token) (n : Nat) :
    let inside := contents handles n [.blockKey] anchors (placed.flatMap (·.tokens) ++ rest)
    inside.rest = none ∨ ∃ others, inside.items = placed.flatMap (·.items) ++ others := by
  induction placed generalizing n with
  | nil => exact .inr ⟨_, rfl⟩
  | cons line placed ih =>
    rw [List.flatMap_cons, List.append_assoc]
    match n with
    | 0 => exact .inl rfl
    | 1 => exact .inl rfl
    | n + 2 =>
      rw [contents_line]
      rcases ih n with hcut | ⟨others, hothers⟩
      · exact .inl hcut
      · refine .inr ⟨others, ?_⟩
        simp only [List.flatMap_cons, List.append_assoc, ← hothers]

/-! ## Documents -/

/-- The tokens of lines at the end of a block mapping and of the text. -/
def LastLines (lines : List Line) (tokens : List Token) : Prop :=
  ∃ placed : List PlacedLine, placed.map (·.toLine) = lines ∧ ∃ a b,
    tokens = placed.flatMap (·.tokens) ++ [⟨.blockEnd, a⟩, ⟨.streamEnd, b⟩]

theorem LastLines.lineTokens {lines : List Line} (h : LastLines lines tokens)
    (hlines : lines ≠ []) : LineTokens (LastLines lines) tokens := by
  obtain ⟨placed, rfl, a, b, rfl⟩ := h
  cases placed with
  | nil => exact absurd rfl hlines
  | cons line placed => exact .done ⟨line :: placed, rfl, a, b, rfl⟩

theorem TokenStream.lastLines_atLine (closed : Bool) (lines : List Line) (last : Line)
    {column : Nat} {mark : Mark} (released : Nat) {n : Nat} (hmark : mark.column = column)
    (hn : 3 * (lines.length + 1) + 1 ≤ n) :
    LastLines (lines ++ [last]) ((atLine column
      (blockText column lines (last.text ++ Line.ending closed)) mark released).tokens n) := by
  obtain ⟨n, rfl⟩ : ∃ more, n = more + 1 + 3 * (lines.length + 1) :=
    ⟨n - 1 - 3 * (lines.length + 1), by omega⟩
  obtain ⟨placed, hplaced, start, a, b, htokens⟩ :=
    tokens_lastLines closed lines last (k := 0) hmark (.inr rfl) released n
  exact ⟨placed, hplaced, a, b, htokens⟩

/-- The tokens of a key with lines above and below it, and something else as its value. -/
theorem tokensOf_openLine (indent : Nat) (closed : Bool) (above : List Line) {below : List Line}
    (hbelow : below ≠ []) {word value : List Char} (hword : IsWord word)
    (hlength : word.length ≤ 1024) (hvalue : Unbroken value) (hgap : startsGap value = true)
    (hallowed : (openKey indent above word (value ++ '\n' ::
      (Line.document indent closed below).toList)).toList.all isAllowed = true) :
    ∃ placed : List PlacedLine, placed.map (·.toLine) = above ∧ ∃ start keyMark colonMark others,
      LineTokens (LastLines below) others ∧
        tokensOf (openKey indent above word (value ++ '\n' ::
          (Line.document indent closed below).toList)) = ⟨.blockMapping, start⟩ ::
            (placed.flatMap (·.tokens) ++ ⟨.key, keyMark⟩ ::
              ⟨.scalar .plain (String.ofList word), keyMark⟩ :: ⟨.value, colonMark⟩ :: others) := by
  obtain ⟨lines, last, rfl⟩ : ∃ front last, below = front ++ [last] :=
    ⟨_, _, (List.dropLast_concat_getLast hbelow).symm⟩
  let rest := blockText indent lines (last.text ++ Line.ending closed)
  have hrest : Settled rest := settled_blockText indent lines (last.settled _)
  have htail : value ++ '\n' :: (Line.document indent closed (lines ++ [last])).toList =
      lineOver indent value rest := by
    rw [Line.document_concat]
    rfl
  have hgap' : startsGap (lineOver indent value rest) = true := by
    cases value with
    | nil => rfl
    | cons c value => exact hgap
  rw [htail] at hallowed ⊢
  obtain ⟨placed, hplaced, start, keyMark, colonMark, released, n, hcolon, hn, htokens⟩ :=
    tokensOf_key indent above hword hlength hgap' hallowed
  -- there is a round for each character of the value, and enough of them for the lines below
  have hrounds : value.length + (3 * (lines.length + 1) + 1) ≤ n := by
    have hlines := Line.length_blockText indent lines (last.text ++ Line.ending closed)
    have hlast := last.length_text
    simp only [lineOver, rest, List.length_append, List.length_cons] at hn hlines
    omega
  refine ⟨placed, hplaced, start, keyMark, colonMark, _, ?_, htokens⟩
  exact TokenStream.lineTokens_onLine hrest
    (fun _ released _ hmark hn =>
      (TokenStream.lastLines_atLine closed lines last released hmark hn).lineTokens hbelow)
    hvalue (Nat.lt_succ_of_le hcolon) hrounds

/-- Lines below a key are read as they are written, whatever its value is on its own line. That is
unless no word can be read from the value or the document is not complete. -/
theorem Document.ofText_openLine (indent : Nat) (closed : Bool) (above : List Line)
    {below : List Line} (hbelow : below ≠ []) {word value : List Char} (hword : IsWord word)
    (hlength : word.length ≤ 1024) (hvalue : Unbroken value) (hgap : startsGap value = true) :
    let document := ofText (openKey indent above word
      (value ++ '\n' :: (Line.document indent closed below).toList))
    document.complete = false ∨
      ∃ placed : List PlacedLine, placed.map (·.toLine) = above ∧ ∃ start mark node others,
        document.root = some ⟨.mapping, start⟩ ∧ document.items = placed.flatMap (·.items) ++
          .node (.plain (String.ofList word) mark) :: .node node :: others ∧
        (node.word? = none ∨ ∃ placed' : List PlacedLine, placed'.map (·.toLine) = below ∧
          ∃ more, others = placed'.flatMap (·.items) ++ more) := by
  intro document
  by_cases hallowed : (openKey indent above word
      (value ++ '\n' :: (Line.document indent closed below).toList)).toList.all isAllowed = true
  · obtain ⟨placed, hplaced, start, mark, colonMark, others, hothers, htokens⟩ :=
      tokensOf_openLine indent closed above hbelow hword hlength hvalue hgap hallowed
    obtain ⟨n, hdocument⟩ := ofTokens_lines start placed (⟨.key, mark⟩ ::
      ⟨.scalar .plain (String.ofList word), mark⟩ :: ⟨.value, colonMark⟩ :: others)
    rw [contents_key] at hdocument
    have hread : document = _ := (congrArg ofTokens htokens).trans hdocument
    have hroot : document.root = some ⟨.mapping, start⟩ := by rw [hread]
    have hitems {node : Node} {items : List Item} (h : (contents .standard (n + 1) [.blockValue] {}
        (⟨.value, colonMark⟩ :: others)).items = .node node :: items) :
        document.items = placed.flatMap (·.items) ++
          .node (.plain (String.ofList word) mark) :: .node node :: items := by
      rw [hread, ← h]
      rfl
    have hcomplete (h : (contents .standard (n + 1) [.blockValue] {}
        (⟨.value, colonMark⟩ :: others)).rest = none) : document.complete = false := by
      rw [hread]
      exact congrArg (·.any isLast) h
    rcases hothers.contents_blockValue (n + 1) colonMark with
      hcut | ⟨node, items, hvalue, hwordless⟩ |
        ⟨node, m, anchors, rest, ⟨placed', hplaced', a, b, rfl⟩, hvalue⟩
    · exact .inl (hcomplete hcut)
    · exact .inr ⟨placed, hplaced, start, mark, node, items, hroot, hitems hvalue, .inl hwordless⟩
    · rcases contents_lines_prefix .standard anchors placed' [⟨.blockEnd, a⟩, ⟨.streamEnd, b⟩] m
        with hcut | ⟨more, hmore⟩
      · exact .inl (hcomplete (by rw [hvalue]; exact hcut))
      · refine .inr ⟨placed, hplaced, start, mark, node, _, hroot, hitems (by rw [hvalue]; rfl),
          .inr ⟨placed', hplaced', more, hmore⟩⟩
  · exact .inl (ofText_of_not_isAllowed hallowed)

end AttestationIntake.Yaml
