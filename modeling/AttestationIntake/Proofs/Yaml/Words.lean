import AttestationIntake.Yaml.TokenStream

/-!
Words in YAML: runs of letters, digits, underscores and hyphens. A word is a plain scalar as it
stands. It ends in front of a gap, or of a colon that a gap follows, and where it is the last thing
on its line, the line break and the indentation behind it are passed over with it.
-/

namespace AttestationIntake.Yaml

/-! ## Characters of words -/

theorem nameChar_ascii {c : Char} (h : isNameChar c = true) : c.toNat < 128 := by
  have hle {bound : Char} (hle : c.val ≤ bound.val) (hbound : bound.toNat < 128) :
      c.toNat < 128 :=
    Nat.lt_of_le_of_lt (UInt32.le_iff_toNat_le.mp hle) hbound
  rw [isNameChar, Bool.or_eq_true, Bool.or_eq_true, beq_iff_eq, beq_iff_eq] at h
  rcases h with (h | rfl) | rfl
  · rcases (Bool.or_eq_true _ _).mp h with h | hdigit
    · rcases (Bool.or_eq_true _ _).mp h with hupper | hlower
      · exact hle (of_decide_eq_true hupper).2 (by decide)
      · exact hle (of_decide_eq_true ((Bool.and_eq_true _ _).mp hlower).2) (by decide)
    · exact hle (of_decide_eq_true ((Bool.and_eq_true _ _).mp hdigit).2) (by decide)
  · decide
  · decide

/-- The characters of words can be checked one by one. -/
theorem nameChar_all {q : Char → Bool}
    (hall : ∀ n : Fin 128, (!isNameChar (Char.ofNat n) || q (Char.ofNat n)) = true) {c : Char}
    (h : isNameChar c = true) : q c = true := by
  have hc := hall ⟨c.toNat, nameChar_ascii h⟩
  rw [Char.ofNat_toNat, h] at hc
  exact hc

/-- No character of a word ends it or means anything. -/
theorem nameChar_inert {c : Char} (h : isNameChar c = true) :
    isBlank c = false ∧ isBreak c = false ∧ isReserved c = false ∧ isAllowed c = true ∧
      c.utf8Size = 1 ∧ (c.toNat == 0xfeff) = false := by
  have hc := nameChar_all (q := fun c => !isBlank c && !isBreak c && !isReserved c && isAllowed c &&
    c.utf8Size == 1 && !(c.toNat == 0xfeff)) (by decide +kernel) h
  simpa [and_assoc] using hc

/-! ## Moving on a line -/

/-- The place `n` characters further on the same line, if all of them are one byte long. -/
def Mark.along (mark : Mark) (n : Nat) : Mark :=
  { mark with index := mark.index + n, column := mark.column + n }

theorem Mark.along_along (mark : Mark) (m n : Nat) :
    (mark.along m).along n = mark.along (m + n) := by
  simp only [along, Nat.add_assoc]

namespace Cursor

theorem bytes_of_single (run : List Char) (start : Nat) (h : ∀ c ∈ run, c.utf8Size = 1) :
    run.foldl (fun bytes c => bytes + c.utf8Size) start = start + run.length := by
  induction run generalizing start with
  | nil => rfl
  | cons c run ih =>
    rw [List.foldl_cons, h c List.mem_cons_self, ih _ fun d hd => h d (List.mem_cons_of_mem c hd),
      List.length_cons]
    omega

theorem moveTo_append (run rest : List Char) (mark : Mark) (h : ∀ c ∈ run, c.utf8Size = 1) :
    (⟨run ++ rest, mark⟩ : Cursor).moveTo rest = ⟨rest, mark.along run.length⟩ := by
  unfold moveTo skip
  simp only
  rw [List.length_append, Nat.add_sub_cancel, List.take_left, List.drop_left,
    bytes_of_single run 0 h, Nat.zero_add]
  rfl

theorem skip_one (c : Char) (rest : List Char) (mark : Mark) (h : c.utf8Size = 1) :
    (⟨c :: rest, mark⟩ : Cursor).skip 1 = ⟨rest, mark.along 1⟩ := by
  unfold skip
  simp [h, Mark.along]

end Cursor

/-! ## Gaps -/

/-- At the end of the text, or in front of a character of a word or a colon. -/
def Settled (rest : List Char) : Prop := ∀ c ∈ rest.head?, isNameChar c = true ∨ c = ':'

theorem Settled.head {c : Char} {rest : List Char} (h : Settled (c :: rest)) :
    isBlank c = false ∧ isBreak c = false ∧ isReserved c = false ∧ (c.toNat == 0xfeff) = false := by
  rcases h c rfl with hname | rfl
  · obtain ⟨hblank, hbreak, hreserved, -, -, hmark⟩ := nameChar_inert hname
    exact ⟨hblank, hbreak, hreserved, hmark⟩
  · decide

theorem settled_nil : Settled [] := by
  rintro _ ⟨⟩

theorem settled_colon (rest : List Char) : Settled (':' :: rest) := by
  rintro _ ⟨⟩
  exact .inr rfl

theorem Settled.ne_hash {c : Char} {rest : List Char} (h : Settled (c :: rest)) : c ≠ '#' := by
  rintro rfl
  exact absurd h.head.2.2.1 (by decide)

theorem dropWhile_spaces {q : Char → Bool} (hspace : q ' ' = true) (k : Nat) {rest : List Char}
    (hrest : ∀ c ∈ rest.head?, q c = false) :
    (List.replicate k ' ' ++ rest).dropWhile q = rest := by
  induction k with
  | zero =>
    cases rest with
    | nil => rfl
    | cons c rest => exact List.dropWhile_cons_of_neg (by simp [hrest c rfl])
  | succ k ih =>
    rw [List.replicate_succ, List.cons_append, List.dropWhile_cons_of_pos hspace]
    exact ih

theorem moveTo_spaces (k : Nat) (rest : List Char) (mark : Mark) :
    (⟨List.replicate k ' ' ++ rest, mark⟩ : Cursor).moveTo rest = ⟨rest, mark.along k⟩ := by
  have hspace : ∀ c ∈ List.replicate k ' ', c.utf8Size = 1 := by
    intro c hc
    rw [List.eq_of_mem_replicate hc]
    rfl
  rw [Cursor.moveTo_append _ _ _ hspace, List.length_replicate]

namespace TokenStream

/-- Spaces in front of a token are passed over. -/
theorem skipSpace_spaces (stream : TokenStream) {k : Nat} {rest : List Char} {mark : Mark}
    (hcursor : stream.cursor = ⟨List.replicate k ' ' ++ rest, mark⟩) (hrest : Settled rest)
    (rounds : Nat) :
    stream.skipSpace (rounds + 1) = { stream with cursor := ⟨rest, mark.along k⟩ } := by
  have hmarked : (List.replicate k ' ' ++ rest).head?.any (·.toNat == 0xfeff) = false := by
    cases k with
    | zero =>
      cases rest with
      | nil => rfl
      | cons c rest => exact hrest.head.2.2.2
    | succ k => rfl
  have hspace : ∀ c ∈ rest.head?,
      (c == ' ' || (c == '\t' && (stream.inFlow || !stream.keyAllowed))) = false := by
    cases rest with
    | nil => simp
    | cons c rest =>
      rintro _ ⟨⟩
      have hblank := hrest.head.1
      simp only [isBlank, Bool.or_eq_false_iff] at hblank
      simp [hblank]
  have hcomment : ¬rest.head? = some '#' := by
    cases rest with
    | nil => simp
    | cons c rest => simpa using hrest.ne_hash
  have hbreak : (!rest.isEmpty && startsBreak rest) = false := by
    cases rest with
    | nil => rfl
    | cons c rest => exact hrest.head.2.1
  unfold skipSpace
  simp only [hcursor, hmarked, Bool.and_false, Bool.false_eq_true, if_false, Cursor.skipWhile,
    Cursor.skipComment]
  rw [dropWhile_spaces (by simp) k hspace, moveTo_spaces]
  simp only [hcomment, hbreak, if_false, Bool.false_eq_true]

end TokenStream

/-- A line break and the indentation of the next line make one gap. -/
theorem Gap.read?_indentation (indent k : Nat) {rest : List Char} (hrest : Settled rest)
    (mark : Mark) {gap : Gap} (hgap : gap.breaks.isSome = true) (rounds : Nat) :
    Gap.read? indent (rounds + k + 1) ⟨List.replicate k ' ' ++ rest, mark⟩ gap =
      some (gap, ⟨rest, mark.along k⟩) := by
  induction k generalizing mark with
  | zero =>
    unfold Gap.read?
    cases rest with
    | nil => rfl
    | cons c rest =>
      obtain ⟨hblank, hbreak, -⟩ := hrest.head
      simp [hblank, hbreak, Mark.along]
  | succ k ih =>
    have hadd : gap.addBlank ' ' = gap := by simp [Gap.addBlank, hgap]
    have hblank : isBlank ' ' = true := rfl
    rw [List.replicate_succ, List.cons_append, ← Nat.add_assoc, Gap.read?]
    simp only [hblank, if_true, hadd, Cursor.skip_one ' ' _ _ rfl]
    rw [if_neg (by simp), ih, Mark.along_along, Nat.add_comm 1 k]

/-! ## Words -/

/-- A hyphen alone is no word, as it starts an entry of a sequence. -/
structure IsWord (word : List Char) : Prop where
  ne_nil : word ≠ []
  chars : ∀ c ∈ word, isNameChar c = true
  ne_hyphen : word ≠ ['-']

namespace IsWord

variable {word : List Char}

theorem single (h : IsWord word) : ∀ c ∈ word, c.utf8Size = 1 :=
  fun c hc => (nameChar_inert (h.chars c hc)).2.2.2.2.1

theorem settled (h : IsWord word) (rest : List Char) : Settled (word ++ rest) := by
  cases word with
  | nil => exact absurd rfl h.ne_nil
  | cons c word =>
    rintro _ ⟨⟩
    exact .inl (h.chars c List.mem_cons_self)

end IsWord

/-- Whether a word ends in front of a text. -/
def endsWord : List Char → Bool
  | [] => true
  | c :: rest => isBlank c || isBreak c || (c == ':' && startsGap rest)

theorem plainRun?_word {word rest : List Char} (hword : ∀ c ∈ word, isNameChar c = true)
    (hrest : endsWord rest = true) : plainRun? false (word ++ rest) = some (word, rest) := by
  induction word with
  | nil =>
    cases rest with
    | nil => rfl
    | cons c rest =>
      rw [endsWord, Bool.or_eq_true] at hrest
      rw [List.nil_append, plainRun?]
      rcases hrest with hgap | hcolon
      · rw [if_pos hgap]
      · simp [hcolon]
  | cons c word ih =>
    have hname := hword c List.mem_cons_self
    obtain ⟨hblank, hbreak, -⟩ := nameChar_inert hname
    have hcolon : (c == ':') = false := by
      rw [beq_eq_false_iff_ne]
      rintro rfl
      cases hname
    rw [List.cons_append, plainRun?, ih fun d hd => hword d (List.mem_cons_of_mem c hd)]
    simp [hblank, hbreak, hcolon]

section Plain

variable {word rest : List Char} {mark : Mark} {indent : Nat}

/-- A word is read as a whole, and so is the gap behind it. If there is none, the scalar ends. -/
theorem plain?_word {gap : Gap} {next : Cursor} (hword : IsWord word)
    (hrest : endsWord rest = true)
    (hmark : (⟨word ++ rest, mark⟩ : Cursor).atDocumentMark = false)
    (hgap : Gap.read? indent (rest.length + 1) ⟨rest, mark.along word.length⟩ {} = some (gap, next))
    (hend : (gap.blanks = [] ∧ gap.breaks.isNone = true) ∨ next.mark.column < indent)
    (rounds : Nat) :
    plain? false indent (rounds + 1) ⟨word ++ rest, mark⟩ [] {} =
      if gap.blanks = [] ∧ gap.breaks.isNone = true then
        some ⟨word, false, ⟨rest, mark.along word.length⟩⟩
      else some ⟨word, gap.breaks.isSome, next⟩ := by
  have hhash : ((word ++ rest).head? == some '#') = false := by
    have hsettled := hword.settled rest
    cases htext : word ++ rest with
    | nil => rfl
    | cons c tail =>
      rw [htext] at hsettled
      simpa using hsettled.ne_hash
  rw [plain?, hmark, hhash]
  simp only [Bool.or_false, Bool.false_eq_true, if_false, plainRun?_word hword.chars hrest,
    bind, Option.bind_some, Cursor.moveTo_append _ _ _ hword.single, hword.ne_nil, hgap]
  rcases hend with hnone | hcolumn
  · simp [hnone, Gap.text]
  · simp [hcolumn, Gap.text]

/-- A word in front of a colon. -/
theorem plain?_key (hword : IsWord word) (hrest : startsGap rest = true)
    (hmark : (⟨word ++ ':' :: rest, mark⟩ : Cursor).atDocumentMark = false) (rounds : Nat) :
    plain? false indent (rounds + 1) ⟨word ++ ':' :: rest, mark⟩ [] {} =
      some ⟨word, false, ⟨':' :: rest, mark.along word.length⟩⟩ :=
  plain?_word hword (by simp [endsWord, hrest]) hmark rfl (.inl ⟨rfl, rfl⟩) rounds

/-- A word at the end of the text. -/
theorem plain?_last (hword : IsWord word)
    (hmark : (⟨word ++ [], mark⟩ : Cursor).atDocumentMark = false) (rounds : Nat) :
    plain? false indent (rounds + 1) ⟨word ++ [], mark⟩ [] {} =
      some ⟨word, false, ⟨[], mark.along word.length⟩⟩ :=
  plain?_word hword rfl hmark rfl (.inl ⟨rfl, rfl⟩) rounds

/-- The first place of the line behind a line break. -/
def Mark.nextLine (mark : Mark) : Mark := ⟨mark.index + 1, mark.line + 1, 0⟩

/-- A word at the end of a line, if the next line does not belong to it. -/
theorem plain?_line {k : Nat} (hword : IsWord word) (hrest : Settled rest) (hk : k < indent)
    (hmark : (⟨word ++ '\n' :: (List.replicate k ' ' ++ rest), mark⟩ : Cursor).atDocumentMark =
      false) (rounds : Nat) :
    plain? false indent (rounds + 1) ⟨word ++ '\n' :: (List.replicate k ' ' ++ rest), mark⟩ [] {} =
      some ⟨word, true, ⟨rest, (mark.along word.length).nextLine.along k⟩⟩ := by
  have hgap : Gap.read? indent (('\n' :: (List.replicate k ' ' ++ rest)).length + 1)
      ⟨'\n' :: (List.replicate k ' ' ++ rest), mark.along word.length⟩ {} =
        some ({ breaks := some (['\n'], []) },
          ⟨rest, (mark.along word.length).nextLine.along k⟩) := by
    have hrounds : ('\n' :: (List.replicate k ' ' ++ rest)).length + 1 =
        rest.length + k + 1 + 1 := by
      simp only [List.length_cons, List.length_append, List.length_replicate]
      omega
    rw [hrounds, ← Gap.read?_indentation indent k hrest _ rfl rest.length]
    rfl
  have hcolumn : ((mark.along word.length).nextLine.along k).column < indent := by
    simpa [Mark.along, Mark.nextLine] using hk
  rw [plain?_word hword rfl hmark hgap (.inr hcolumn)]
  rfl

end Plain

end AttestationIntake.Yaml
