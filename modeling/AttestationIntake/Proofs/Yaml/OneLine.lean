import AttestationIntake.Proofs.Yaml.Words

/-!
Reading on one line. A reader that starts on a line, in a block mapping whose keys stand in the
column where the text below the line starts, comes no further than to that text: it stays on the
line, or it leaves the line and has passed over the indentation.
-/

namespace AttestationIntake.Yaml

/-! ## Moving on a line -/

/-- What holds of none of the breaks holds only of characters that stay on a line. -/
theorem isBreak_eq_false {q : Char → Bool}
    (hq : ['\n', '\r', '\u0085', '\u2028', '\u2029'].all (!q ·) = true) {c : Char}
    (h : q c = true) : isBreak c = false := by
  rw [Bool.eq_false_iff]
  intro hbreak
  have hcode {n : Nat} (hn : c.toNat = n) : c = Char.ofNat n := by rw [← hn, Char.ofNat_toNat]
  have hmem : c ∈ ['\n', '\r', '\u0085', '\u2028', '\u2029'] := by
    simp only [isBreak, Bool.or_eq_true, beq_iff_eq] at hbreak
    rcases hbreak with (((rfl | rfl) | hn) | hn) | hn
    · decide
    · decide
    all_goals
      rw [hcode hn]
      decide
  have hnot := List.all_eq_true.mp hq c hmem
  rw [h] at hnot
  cases hnot

/-- Characters that stay on one line. -/
def Unbroken (chars : List Char) : Prop := ∀ c ∈ chars, isBreak c = false

/-- A line, and below it a text that is indented by `column`. -/
def lineOver (column : Nat) (chars rest : List Char) : List Char :=
  chars ++ '\n' :: (List.replicate column ' ' ++ rest)

/-- Further on the same line, only `rest` is left of a text. -/
def Ahead (text rest : List Char) : Prop := ∃ run, text = run ++ rest ∧ Unbroken run

namespace Ahead

variable {text rest left : List Char}

theorem refl (text : List Char) : Ahead text text := ⟨[], rfl, by simp [Unbroken]⟩

theorem trans (h : Ahead text left) (h' : Ahead left rest) : Ahead text rest := by
  obtain ⟨run, rfl, hrun⟩ := h
  obtain ⟨run', rfl, hrun'⟩ := h'
  refine ⟨run ++ run', (List.append_assoc ..).symm, ?_⟩
  intro c hc
  exact (List.mem_append.mp hc).elim (hrun c) (hrun' c)

theorem cons {c : Char} (hc : isBreak c = false) (h : Ahead text rest) :
    Ahead (c :: text) rest := by
  obtain ⟨run, rfl, hrun⟩ := h
  exact ⟨c :: run, rfl, List.forall_mem_cons.mpr ⟨hc, hrun⟩⟩

theorem dropWhile {q : Char → Bool} (hq : ∀ c, q c = true → isBreak c = false) (text : List Char) :
    Ahead text (text.dropWhile q) :=
  ⟨text.takeWhile q, List.takeWhile_append_dropWhile.symm, fun c hc =>
    hq c (List.all_eq_true.mp List.all_takeWhile c hc)⟩

/-- Further on a line there is still the break behind it. -/
theorem onLine {column : Nat} {chars below : List Char}
    (h : Ahead (lineOver column chars below) rest) :
    ∃ left, left <:+ chars ∧ rest = lineOver column left below := by
  obtain ⟨run, htext, hrun⟩ := h
  rcases List.append_eq_append_iff.mp htext with ⟨more, rfl, hmore⟩ | ⟨left, rfl, rfl⟩
  · cases more with
    | nil => exact ⟨[], List.nil_suffix, hmore.symm⟩
    | cons c more =>
      -- then the break would be behind the reader
      obtain ⟨rfl, -⟩ := List.cons.inj hmore
      exact absurd (hrun '\n' (by simp)) (by decide)
  · exact ⟨left, List.suffix_append run left, rfl⟩

theorem moveTo (h : Ahead text rest) (mark : Mark) : ∃ next : Mark, mark.column ≤ next.column ∧
    (⟨text, mark⟩ : Cursor).moveTo rest = ⟨rest, next⟩ := by
  obtain ⟨run, rfl, -⟩ := h
  refine ⟨((⟨run ++ rest, mark⟩ : Cursor).moveTo rest).mark, Nat.le_add_right _ _, ?_⟩
  simp [Cursor.moveTo, Cursor.skip]

end Ahead

/-! ## Words on a line -/

theorem uri?_ahead {enclosed : Bool} {pending : Nat} {text run rest : List Char}
    (h : uri? enclosed pending text = some (run, rest)) : Ahead text rest := by
  fun_induction uri? enclosed pending text generalizing run rest with
  | case1 =>
    cases h
    exact .refl []
  | case2 => cases h
  | case3 pending high low tail ih =>
    obtain ⟨_, hhigh, h⟩ := Option.bind_eq_some_iff.mp h
    obtain ⟨_, hlow, h⟩ := Option.bind_eq_some_iff.mp h
    have htail {octet pending' : Nat} (h : ((uri? enclosed pending' tail).bind fun read =>
        some (Char.ofNat octet :: read.1, read.2)) = some (run, rest)) : Ahead tail rest := by
      obtain ⟨_, hrest, h⟩ := Option.bind_eq_some_iff.mp h
      cases h
      exact ih _ hrest
    have hdigit {c : Char} {value : Nat} (h : hexValue? c = some value) : isBreak c = false :=
      isBreak_eq_false (q := fun c => (hexValue? c).isSome) (by decide) (by simp [h])
    refine .cons (by decide) (.cons (hdigit hhigh) (.cons (hdigit hlow) ?_))
    dsimp only at h
    split at h
    · obtain ⟨_, -, h⟩ := Option.bind_eq_some_iff.mp h
      exact htail h
    · split at h
      · exact htail h
      · cases h
  | case4 => cases h
  | case5 _ _ _ _ _ huri ih =>
    obtain ⟨_, hrest, h⟩ := Option.map_eq_some_iff.mp h
    cases h
    exact .cons (isBreak_eq_false (by cases enclosed <;> decide) huri) (ih hrest)
  | case6 =>
    cases h
    exact .refl _

theorem uriText?_ahead {enclosed : Bool} {text run rest : List Char}
    (h : uriText? enclosed text = some (run, rest)) : Ahead text rest := by
  obtain ⟨⟨_, _⟩, huri, h⟩ := Option.bind_eq_some_iff.mp h
  dsimp only at h
  split at h
  · cases h
  · cases h
    exact uri?_ahead huri

theorem tagHandle?_ahead {text handle rest : List Char}
    (h : tagHandle? ('!' :: text) = some (handle, rest)) : Ahead text rest := by
  have hname := Ahead.dropWhile (q := isNameChar) (fun c => isBreak_eq_false (by decide)) text
  simp only [tagHandle?] at h
  split at h
  · rename_i hmark
    cases h
    rw [hmark] at hname
    exact hname.trans (.cons (by decide) (.refl _))
  · split at h
    · cases h
      exact hname
    · cases h

/-- A tag stands on its line as a whole. -/
theorem tag?_ahead {flow : Bool} {text rest : List Char} {kind : TokenKind}
    (h : tag? flow ('!' :: text) = some (kind, rest)) :
    ∃ handle suffix, kind = .tag handle suffix ∧ Ahead text rest := by
  have hend {handle suffix left : List Char} (hleft : Ahead text left)
      (h : (if startsGap left || (flow && left.head? == some ',') then
        some (TokenKind.tag (String.ofList handle) (String.ofList suffix), left) else none) =
          some (kind, rest)) : ∃ handle suffix, kind = .tag handle suffix ∧ Ahead text rest := by
    split at h
    · cases h
      exact ⟨_, _, rfl, hleft⟩
    · cases h
  unfold tag? at h
  dsimp only at h
  split at h
  · rename_i heq
    obtain ⟨-, rfl⟩ := List.cons.inj heq
    obtain ⟨⟨uri, left⟩, huri, h⟩ := Option.bind_eq_some_iff.mp h
    split at h
    · rename_i hclosed
      cases hclosed
      refine hend (.cons (by decide) ?_) h
      exact (uriText?_ahead huri).trans (.cons (by decide) (.refl _))
    · cases h
  · split at h
    · rename_i hhandle
      obtain ⟨⟨suffix, left⟩, huri, h⟩ := Option.bind_eq_some_iff.mp h
      exact hend ((tagHandle?_ahead hhandle).trans (uriText?_ahead huri)) h
    · obtain ⟨⟨suffix, left⟩, huri, h⟩ := Option.bind_eq_some_iff.mp h
      exact hend (uri?_ahead huri) h

theorem anchorName?_ahead {text rest : List Char} {name : String}
    (h : anchorName? text = some (name, rest)) : Ahead text rest := by
  have hname := Ahead.dropWhile (q := isNameChar) (fun c => isBreak_eq_false (by decide)) text
  unfold anchorName? at h
  dsimp only at h
  split at h
  · cases h
  · split at h
    · cases h
      exact hname
    · cases h

theorem plainRun?_eq {flow : Bool} {text run rest : List Char}
    (h : plainRun? flow text = some (run, rest)) : text = run ++ rest ∧ Unbroken run := by
  have hnone : Unbroken [] := by simp [Unbroken]
  induction text generalizing run with
  | nil =>
    cases h
    exact ⟨rfl, hnone⟩
  | cons c text ih =>
    rw [plainRun?] at h
    split at h
    · cases h
      exact ⟨rfl, hnone⟩
    · rename_i hgap
      have hbreak : isBreak c = false := by
        simp only [Bool.or_eq_true, not_or, Bool.not_eq_true] at hgap
        exact hgap.2
      split at h
      · cases h
      · split at h
        · cases h
          exact ⟨rfl, hnone⟩
        · split at h
          · cases h
            exact ⟨rfl, hnone⟩
          · obtain ⟨⟨run, left⟩, hread, h⟩ := Option.map_eq_some_iff.mp h
            cases h
            obtain ⟨rfl, hrun⟩ := ih hread
            exact ⟨rfl, List.forall_mem_cons.mpr ⟨hbreak, hrun⟩⟩

/-! ## Scalars on a line -/

/-- Where a reader has come to that started on a line: further on the line, or, if it has left the
line, at the start of the text below. -/
inductive Reaches (column : Nat) (chars rest : List Char) : Bool → Cursor → Prop where
  | here {left : List Char} {mark : Mark} : left <:+ chars → column < mark.column →
      Reaches column chars rest false ⟨lineOver column left rest, mark⟩
  | below {mark : Mark} : mark.column = column → Reaches column chars rest true ⟨rest, mark⟩

section Reaches

variable {column : Nat} {chars rest : List Char} {mark : Mark}

theorem Reaches.mono {left : List Char} {leftLine : Bool} {cursor : Cursor}
    (h : Reaches column left rest leftLine cursor) (hleft : left <:+ chars) :
    Reaches column chars rest leftLine cursor := by
  cases h with
  | here hsuffix hmark => exact .here (hsuffix.trans hleft) hmark
  | below hmark => exact .below hmark

theorem Gap.read?_reaches (hrest : Settled rest) (hline : Unbroken chars)
    (hmark : column < mark.column) (gap : Gap) (hgap : gap.breaks = none) (indent : Nat)
    {rounds : Nat}
    (hrounds : (lineOver column chars rest).length < rounds) :
    ∃ gap' next, Gap.read? indent rounds ⟨lineOver column chars rest, mark⟩ gap =
      some (gap', next) ∧ Reaches column chars rest gap'.breaks.isSome next := by
  induction chars generalizing mark gap rounds with
  | nil =>
    -- the break takes a round, and so does each space of the indentation
    obtain ⟨rounds, rfl⟩ : ∃ more, rounds = more + column + 1 + 1 := by
      refine ⟨rounds - column - 2, ?_⟩
      simp only [lineOver, List.nil_append, List.length_cons, List.length_append,
        List.length_replicate] at hrounds
      omega
    have hbreaks : (gap.addBreak ['\n']).breaks.isSome = true := by
      simp [Gap.addBreak, hgap]
    have hread := Gap.read?_indentation indent column hrest mark.nextLine hbreaks rounds
    refine ⟨_, _, hread, ?_⟩
    rw [hbreaks]
    exact .below (Nat.zero_add column)
  | cons c chars ih =>
    obtain ⟨hc, hline⟩ := List.forall_mem_cons.mp hline
    obtain ⟨rounds, rfl⟩ : ∃ more, rounds = more + 1 := ⟨rounds - 1, by omega⟩
    have htext : lineOver column (c :: chars) rest = c :: lineOver column chars rest := rfl
    rw [htext] at hrounds ⊢
    rw [Gap.read?]
    simp only [hc, hgap, Option.isSome_none, Bool.false_eq_true, and_false, false_and, if_false]
    cases hblank : isBlank c with
    | true =>
      have hgap' : (gap.addBlank c).breaks = none := by
        simp [Gap.addBlank, hgap]
      have hmark' : column <
          ((⟨c :: lineOver column chars rest, mark⟩ : Cursor).skip 1).mark.column :=
        Nat.lt_succ_of_lt hmark
      obtain ⟨gap', next, hread, hreach⟩ :=
        ih hline hmark' _ hgap' (Nat.lt_of_succ_lt_succ hrounds)
      exact ⟨gap', next, hread, hreach.mono (List.suffix_cons c chars)⟩
    | false =>
      refine ⟨gap, _, rfl, ?_⟩
      rw [hgap]
      exact .here (List.suffix_refl _) hmark

/-- A plain scalar does not go on below, where nothing is indented by more than the keys. It takes up
part of its line unless it is empty. -/
theorem plain?_reaches (hrest : Settled rest) (hline : Unbroken chars)
    (hmark : column < mark.column) {gap : Gap} (hgap : gap.breaks = none) {rounds : Nat}
    {text : List Char} {plain : PlainText}
    (h : plain? false (column + 1) rounds ⟨lineOver column chars rest, mark⟩ text gap =
      some plain) :
    plain.text = text ∧ Reaches column chars rest plain.leftLine plain.cursor ∨
      Reaches column chars.tail rest plain.leftLine plain.cursor := by
  -- a round reads characters up to a gap and then the gap, which may lead to the lines below
  induction rounds generalizing chars mark text gap with
  | zero =>
    cases h
    rw [hgap]
    exact .inl ⟨rfl, .here (List.suffix_refl _) hmark⟩
  | succ rounds ih =>
    rw [plain?] at h
    split at h
    · cases h
      rw [hgap]
      exact .inl ⟨rfl, .here (List.suffix_refl _) hmark⟩
    · obtain ⟨⟨run, left⟩, hrun, h⟩ := Option.bind_eq_some_iff.mp h
      obtain ⟨htext, hunbroken⟩ := plainRun?_eq hrun
      have hahead : Ahead (lineOver column chars rest) left := ⟨run, htext, hunbroken⟩
      obtain ⟨next, hnext, hmove⟩ := hahead.moveTo mark
      have hmark' := Nat.lt_of_lt_of_le hmark hnext
      obtain ⟨left, hleft, rfl⟩ := hahead.onLine
      dsimp only at h
      rw [hmove] at h
      split at h
      · cases h
        rw [hgap]
        exact .inl ⟨rfl, .here hleft hmark'⟩
      · rename_i hrun
        -- part of the line was read
        have htail : left <:+ chars.tail := by
          obtain ⟨c, run, rfl⟩ := List.exists_cons_of_ne_nil hrun
          have hlines : chars ++ '\n' :: (List.replicate column ' ' ++ rest) =
              c :: run ++ left ++ '\n' :: (List.replicate column ' ' ++ rest) := by
            rw [List.append_assoc]
            exact htext
          rw [List.append_cancel_right hlines]
          exact List.suffix_append run left
        refine .inr ?_
        have hleftLine : Unbroken left := fun c hc => hline c (hleft.subset hc)
        obtain ⟨gap', after, hread, hreach⟩ := Gap.read?_reaches hrest hleftLine hmark'
          {} rfl (column + 1) (Nat.lt_succ_self _)
        rw [← Nat.succ_eq_add_one (List.length _), hread] at h
        dsimp only [bind, Option.bind_some] at h
        split at h
        · cases h
          exact .here htail hmark'
        · split at h
          · cases h
            exact hreach.mono htail
          · rename_i hcolumn
            generalize hbreaks : gap'.breaks.isSome = leftLine at hreach
            cases hreach with
            | below hbelow => exact absurd hcolumn (by simp [hbelow])
            | @here left' mark' hsuffix hafter =>
              have hnone := Option.isSome_eq_false_iff.mp hbreaks
              have hsuffix' := hsuffix.trans htail
              have hleftLine' : Unbroken left' := fun c hc => hleftLine c (hsuffix.subset hc)
              rcases ih hleftLine' hafter (Option.isNone_iff_eq_none.mp hnone) h with
                ⟨-, hreach⟩ | hreach
              · exact hreach.mono hsuffix'
              · exact hreach.mono ((List.tail_suffix left').trans hsuffix')

/-! ## Gaps and block scalars on a line -/

theorem exists_skipWhile (hmark : column < mark.column) {q : Char → Bool}
    (hq : ∀ c, q c = true → isBreak c = false) (chars rest : List Char) :
    ∃ left mark', left <:+ chars ∧ column < mark'.column ∧
      (⟨lineOver column chars rest, mark⟩ : Cursor).skipWhile q =
        ⟨lineOver column left rest, mark'⟩ := by
  have hahead := Ahead.dropWhile hq (lineOver column chars rest)
  obtain ⟨mark', hle, hmove⟩ := hahead.moveTo mark
  obtain ⟨left, hleft, hdrop⟩ := hahead.onLine
  refine ⟨left, mark', hleft, Nat.lt_of_lt_of_le hmark hle, ?_⟩
  rw [Cursor.skipWhile, hmove, hdrop]

theorem exists_skipComment (hmark : column < mark.column) (chars rest : List Char) :
    ∃ left mark', left <:+ chars ∧ column < mark'.column ∧
      (⟨lineOver column chars rest, mark⟩ : Cursor).skipBlanks.skipComment =
        ⟨lineOver column left rest, mark'⟩ := by
  obtain ⟨left, mark', hleft, hmark', hskip⟩ :=
    exists_skipWhile hmark (q := isBlank) (fun c => isBreak_eq_false (by decide)) chars rest
  rw [Cursor.skipBlanks, hskip, Cursor.skipComment]
  split
  · obtain ⟨left', mark'', hleft', hmark'', hskip'⟩ :=
      exists_skipWhile hmark' (q := (!isBreak ·)) (fun c => by simp) left rest
    exact ⟨left', mark'', hleft'.trans hleft, hmark'', hskip'⟩
  · exact ⟨left, mark', hleft, hmark', rfl⟩

theorem endLine?_lineOver (hline : Unbroken chars) (hmark : column < mark.column)
    {next : Cursor} (h : (⟨lineOver column chars rest, mark⟩ : Cursor).endLine? = some next) :
    ∃ mark' : Mark, next = ⟨List.replicate column ' ' ++ rest, mark'.nextLine⟩ := by
  obtain ⟨left, mark', hleft, -, hskip⟩ := exists_skipComment hmark chars rest
  rw [Cursor.endLine?, hskip] at h
  cases left with
  | nil =>
    cases h
    exact ⟨mark', rfl⟩
  | cons c left =>
    have hc : isBreak c = false := hline c (hleft.subset List.mem_cons_self)
    simp [lineOver, startsBreak, hc] at h

theorem blockHeader?_lineOver (hmark : column < mark.column) {chomping : Chomping}
    {increment : Nat} {next : Cursor}
    (h : blockHeader? ⟨lineOver column chars rest, mark⟩ = some (chomping, increment, next)) :
    ∃ left mark', left <:+ chars ∧ column < mark'.column ∧
      next = ⟨lineOver column left rest, mark'⟩ := by
  have hskip (run left : List Char) (hchars : chars = run ++ left) :
      ∃ left mark', left <:+ chars ∧ column < mark'.column ∧
        (⟨lineOver column chars rest, mark⟩ : Cursor).skip run.length =
          ⟨lineOver column left rest, mark'⟩ := by
    refine ⟨left, ((⟨lineOver column chars rest, mark⟩ : Cursor).skip run.length).mark,
      hchars ▸ List.suffix_append run left, Nat.lt_of_lt_of_le hmark (Nat.le_add_right _ _), ?_⟩
    simp [Cursor.skip, hchars, lineOver]
  -- a header has at most two characters
  rcases chars with _ | ⟨c, _ | ⟨d, left⟩⟩
  · have hnone : blockHeader? ⟨lineOver column [] rest, mark⟩ =
        some (.clip, 0, ⟨lineOver column [] rest, mark⟩) := rfl
    rw [hnone] at h
    cases h
    exact hskip [] [] rfl
  · simp only [blockHeader?, lineOver, List.cons_append, List.nil_append, List.head?_cons,
      Option.bind_some] at h
    split at h
    · cases h
      exact hskip [c] [] rfl
    · cases h
    · cases h
      exact hskip [c] [] rfl
    · cases h
      exact hskip [] [c] rfl
  · simp only [blockHeader?, lineOver, List.cons_append, List.head?_cons, Option.bind_some] at h
    split at h
    · split at h
      · cases h
        exact hskip [c] (d :: left) rfl
      · cases h
      · cases h
        exact hskip [c, d] left rfl
    · cases h
    · split at h
      · cases h
        exact hskip [c] (d :: left) rfl
      · cases h
        exact hskip [c, d] left rfl
    · cases h
      exact hskip [] (c :: d :: left) rfl

theorem blockBreaks?_spaces (hrest : Settled rest) {indent : Nat}
    (hindent : indent = 0 ∨ column < indent) (mark : Mark) (rounds : Nat) :
    ∃ mark' : Mark, mark'.column = column ∧
      blockBreaks? indent (rounds + 1) ⟨List.replicate column ' ' ++ rest, mark.nextLine⟩ [] 0 =
        some ([], column, ⟨rest, mark'⟩) := by
  have hnone : ∀ c ∈ rest.head?, (c == ' ') = false ∧ c ≠ '\t' ∧ isBreak c = false := by
    cases rest with
    | nil => simp
    | cons c rest =>
      rintro _ ⟨⟩
      obtain ⟨hblank, hbreak, -⟩ := hrest.head
      simp only [isBlank, Bool.or_eq_false_iff] at hblank
      exact ⟨hblank.1, by simpa using hblank.2, hbreak⟩
  have hspaces : ((List.replicate column ' ' ++ rest).takeWhile (· == ' ')).length = column := by
    have hsplit := congrArg List.length
      (List.takeWhile_append_dropWhile (p := (· == ' ')) (l := List.replicate column ' ' ++ rest))
    rw [dropWhile_spaces rfl column fun c hc => (hnone c hc).1] at hsplit
    simpa using hsplit
  have hskip : (⟨List.replicate column ' ' ++ rest, mark.nextLine⟩ : Cursor).skip column =
      ⟨rest, mark.nextLine.along column⟩ := by
    have hmove := moveTo_spaces column rest mark.nextLine
    rwa [Cursor.moveTo, List.length_append, Nat.add_sub_cancel, List.length_replicate] at hmove
  have hcount : (if indent = 0 then column else min column (indent - mark.nextLine.column)) =
      column := by
    split
    · rfl
    · exact Nat.min_eq_left (by simp only [Mark.nextLine]; omega)
  refine ⟨mark.nextLine.along column, Nat.zero_add column, ?_⟩
  rw [blockBreaks?]
  simp only [hspaces, hcount, hskip]
  have hwidest : max 0 (mark.nextLine.along column).column = column := by
    simp [Mark.nextLine, Mark.along]
  have htab : ¬rest.head? = some '\t' := fun h => (hnone '\t' h).2.1 rfl
  have hbreak : (!rest.isEmpty && startsBreak rest) = false := by
    cases rest with
    | nil => rfl
    | cons c rest => exact (hnone c rfl).2.2
  rw [if_neg fun h => htab h.1, hbreak, hwidest]
  rfl

/-- There is nothing in a block scalar if the lines below do not belong to it. -/
theorem block?_lineOver (hrest : Settled rest) (hline : Unbroken chars)
    (hmark : column < mark.column) {folded : Bool} {text : List Char} {next : Cursor}
    (h : block? folded (column + 1) ⟨lineOver column chars rest, mark⟩ = some (text, next)) :
    text = [] := by
  obtain ⟨⟨chomping, increment, cursor⟩, hheader, h⟩ := Option.bind_eq_some_iff.mp h
  obtain ⟨left, mark', hleft, hmark', rfl⟩ := blockHeader?_lineOver hmark hheader
  obtain ⟨cursor, hend, h⟩ := Option.bind_eq_some_iff.mp h
  have hleftLine : Unbroken left := fun c hc => hline c (hleft.subset hc)
  obtain ⟨mark'', rfl⟩ := endLine?_lineOver hleftLine hmark' hend
  dsimp only at h
  generalize hknown : (if increment = 0 then 0 else column + 1 - 1 + increment) = known at h
  have hbound : known = 0 ∨ column < known := by
    rw [← hknown]
    split
    · exact .inl rfl
    · exact .inr (by omega)
  obtain ⟨start, hstart, hbreaks⟩ := blockBreaks?_spaces hrest hbound mark'' _
  rw [hbreaks] at h
  dsimp only [bind, Option.bind_some] at h
  have hdeep : start.column ≠ if known = 0 then max column (max (column + 1) 1) else known := by
    rw [hstart]
    split <;> omega
  rw [blockLines?, if_pos (.inl hdeep)] at h
  cases chomping <;> cases h <;> rfl

end Reaches

end AttestationIntake.Yaml
