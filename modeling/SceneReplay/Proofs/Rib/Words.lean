import SceneReplay.Proofs.Number.Spelling
import SceneReplay.Rib.Lexer
import SceneReplay.Rib.Writer

/-!
# Written words are read as tokens

A text *spells* some lexemes if reading it, with a delimiter behind it, gives just these
(`SceneReplay.Rib.Spells`). Numbers, quoted texts, brackets and request names do, each
one lexeme; words that spell something do so together when a space is put between them
(`SceneReplay.Rib.spells_intercalate`), and so does an array
(`SceneReplay.Rib.spells_bracketed`).

The delimiter matters for numbers and names only: a quoted text and a bracket end by
themselves.
-/

namespace SceneReplay.Rib

/-! ### One piece at a time -/

section Pieces

variable {line : Int} {c : CodePoint} {cs rest : Text}

theorem lex_of_lexeme {l : Lexeme} (h : scan c cs = (.lexeme l, rest)) :
    lex line (c :: cs) = .token ⟨l, line⟩ :: lex line rest := by
  rw [lex]
  split <;> simp_all

theorem lex_of_spaces (h : scan c cs = (.spaces, rest)) :
    lex line (c :: cs) = lex line rest := by
  rw [lex]
  split <;> simp_all

theorem lex_of_lineEnd (h : scan c cs = (.lineEnd, rest)) :
    lex line (c :: cs) = lex (line + 1) rest := by
  rw [lex]
  split <;> simp_all

theorem lex_of_trouble {t : Trouble} (h : scan c cs = (.trouble t, rest)) :
    lex line (c :: cs) = .trouble t line (cs.length + 1) ::
      if t.isLocal then lex line (rest.dropWhile inLine) else [] := by
  rw [lex]
  split <;> simp_all

theorem lex_lineEnd (line : Int) (rest : Text) :
    lex line (.char '\n' :: rest) = lex (line + 1) rest := by
  refine lex_of_lineEnd ?_
  simp [scan, isSpace, CodePoint.satisfies]

/-- A space is passed over, and so are all that follow it. -/
theorem lex_space (line : Int) (hc : isSpace c = true) (cs : Text) :
    lex line (c :: cs) = lex line cs := by
  have hscan : ∀ (d : CodePoint) (ds : Text), isSpace d = true →
      scan d ds = (.spaces, ds.dropWhile isSpace) := by
    intro d ds hd
    rw [scan, if_pos hd]
  rw [lex_of_spaces (hscan c cs hc)]
  -- One run of spaces or a space and a run: both leave the same rest.
  cases cs with
  | nil => rfl
  | cons d ds =>
    by_cases hd : isSpace d = true
    · rw [lex_of_spaces (hscan d ds hd), List.dropWhile_cons_of_pos hd]
    · rw [List.dropWhile_cons_of_neg hd]

end Pieces

/-! ### Spelling lexemes -/

/-- **A text spells lexemes** if these are what it is read as, given a delimiter behind
it. -/
def Spells (t : Text) (ls : List Lexeme) : Prop :=
  ∀ (line : Int) (rest : Text), Delimits rest →
    lex line (t ++ rest) = (ls.map fun l => .token ⟨l, line⟩) ++ lex line rest

theorem spells_nil : Spells [] [] := fun _ _ _ => rfl

/-- Words with a space between them spell what they spell one after the other. -/
theorem Spells.append_space {t u : Text} {ls ms : List Lexeme} (ht : Spells t ls)
    (hu : Spells u ms) : Spells (t ++ (.char ' ' :: u)) (ls ++ ms) := by
  intro line rest hrest
  rw [List.append_assoc, List.cons_append, ht line _ (delimits_space _), lex_space line (by decide),
    hu line rest hrest, List.map_append, List.append_assoc]

/-- **Spelling words, one space apart.** -/
theorem spells_intercalate {ts : List Text} {lss : List (List Lexeme)}
    (h : List.Forall₂ Spells ts lss) : Spells (List.intercalate " " ts) lss.flatten := by
  induction h with
  | nil => exact spells_nil
  | @cons t ls ts lss ht hts ih =>
    cases hts with
    | nil => simpa [List.intercalate] using ht
    | @cons u ms ts' lss' hu htail =>
      have hjoin : List.intercalate (" " : Text) (t :: u :: ts')
          = t ++ (.char ' ' :: List.intercalate " " (u :: ts')) := by
        simp [List.intercalate, List.intersperse, Text.ofString, Text.ofChars]
      rw [hjoin]
      exact ht.append_space ih

/-! ### Quoted texts -/

/-- Inside a quoted text most code points stand for themselves. -/
theorem takeQuoted_plain {c : CodePoint} (hquote : c ≠ .char '"') (hfeed : c ≠ .char '\n')
    (hbackslash : c ≠ .char '\\') (cs : Text) :
    takeQuoted (c :: cs) = (takeQuoted cs).map fun (body, rest) => (c :: body, rest) := by
  rw [takeQuoted]
  · exact hquote
  · exact hfeed
  · exact fun heq => absurd heq hbackslash
  · exact fun _ heq => absurd heq hbackslash
  · exact fun _ _ heq => absurd heq hbackslash

/-- A backslash and what is behind it stand for one code point. -/
theorem takeQuoted_escape {c : CodePoint} (hfeed : c ≠ .char '\n') (cs : Text) :
    takeQuoted (.char '\\' :: c :: cs)
      = (takeQuoted cs).map fun (body, rest) => (unescape c :: body, rest) := by
  rw [takeQuoted]
  exact hfeed

/-- What is neither at the end of a text nor before anything is no backslash. -/
theorem ne_backslash {c : CodePoint} {cs : Text} (hlast : c = .char '\\' → cs = [] → False)
    (hother : ∀ d ds, c = .char '\\' → cs = d :: ds → False) : c ≠ .char '\\' := by
  rintro rfl
  rcases cs with _ | ⟨d, ds⟩
  · exact hlast rfl rfl
  · exact hother d ds rfl rfl

/-- What is escaped stands for itself again. -/
theorem takeQuoted_quotedChar (c : CodePoint) (cs : Text) :
    takeQuoted (quotedChar c ++ cs)
      = (takeQuoted cs).map fun (body, rest) => (c :: body, rest) := by
  unfold quotedChar
  split
  · rfl
  · rfl
  · rfl
  · rename_i hbackslash hquote hfeed
    exact takeQuoted_plain hquote hfeed hbackslash cs

/-- **A quoted text is read back.** -/
theorem takeQuoted_flatMap (t rest : Text) :
    takeQuoted (t.flatMap quotedChar ++ .char '"' :: rest) = some (t, rest) := by
  induction t with
  | nil => rfl
  | cons c t ih =>
    rw [List.flatMap_cons, List.append_assoc, takeQuoted_quotedChar, ih]
    rfl

/-- **What is read at an opening quote** is the text that was quoted, up to its closing quote. -/
theorem scan_quoted (t rest : Text) :
    scan (.char '"') (t.flatMap quotedChar ++ .char '"' :: rest) = (.lexeme (.text t), rest) := by
  have hspace : isSpace (.char '"') = false := by decide
  simp [scan, hspace, scanQuoted, takeQuoted_flatMap]

theorem quoted_append (t rest : Text) :
    quoted t ++ rest = .char '"' :: (t.flatMap quotedChar ++ .char '"' :: rest) := by
  simp [quoted]

/-- **A quoted text is read as the text**, whatever is behind it. -/
theorem lex_quoted (line : Int) (t rest : Text) :
    lex line (quoted t ++ rest) = .token ⟨.text t, line⟩ :: lex line rest := by
  rw [quoted_append, lex_of_lexeme (scan_quoted t rest)]

theorem spells_quoted (t : Text) : Spells (quoted t) [.text t] :=
  fun line rest _ => lex_quoted line t rest

/-! ### Numbers -/

/-- The front of a text at which a word begins. -/
theorem scan_eq_scanWord {c : CodePoint} (hspace : isSpace c = false) (hfeed : c ≠ .char '\n')
    (hcomment : c ≠ .char '#') (hquote : c ≠ .char '"') (cs : Text) :
    scan c cs = scanWord c cs := by
  simp [scan, hspace, hfeed, hcomment, hquote]

/-- A spelt number begins with a digit or a minus sign. -/
theorem exists_cons_spelling {m : Numeral} (h : m.IsSpelt) :
    ∃ c cs, m.spelling = c :: cs ∧ (c = .char '-' ∨ Text.isDigit c = true) := by
  unfold Numeral.spelling
  cases m.negative with
  | true => exact ⟨_, _, rfl, Or.inl rfl⟩
  | false =>
    obtain ⟨d, ds, hds⟩ := List.exists_cons_of_ne_nil h.whole_ne_nil
    refine ⟨d, _, by rw [hds]; rfl, Or.inr (h.whole d ?_)⟩
    rw [hds]
    exact List.mem_cons_self

theorem spells_number {n : Number} {t : Text} (h : n.SpeltBy t) : Spells t [.number n] := by
  intro line rest hrest
  obtain ⟨m, hscan, hvalue⟩ := h.scan? hrest
  obtain ⟨m', rfl, hspelt, -⟩ := h
  obtain ⟨c, cs, hcs, hc⟩ := exists_cons_spelling hspelt
  have hword : scan c (cs ++ rest) = scanWord c (cs ++ rest) := by
    rcases hc with rfl | hc
    · exact scan_eq_scanWord (by decide) (by decide) (by decide) (by decide) _
    · obtain ⟨-, -, -, hspace, htab, hreturn, hform, hvertical, hfeed, hcomment, hquote⟩ :=
        Text.ne_of_isDigit hc
      refine scan_eq_scanWord ?_ hfeed hcomment hquote _
      cases c with
      | char c =>
        simp only [ne_eq, CodePoint.char.injEq] at hspace htab hreturn hform hvertical
        simp [isSpace, CodePoint.satisfies, hspace, htab, hreturn, hform, hvertical]
      | surrogate i => rfl
  rw [hcs, List.cons_append] at hscan ⊢
  have hpiece : scan c (cs ++ rest) = (.lexeme (.number n), rest) := by
    simp only [hword, scanWord, hscan, numeralPiece, hvalue]
  rw [lex_of_lexeme hpiece]
  rfl

/-! ### Brackets and names -/

/-- Where no sign, digit or point is, no number begins. -/
theorem scan?_eq_none {c : CodePoint} (hdigit : Text.isDigit c = false) (hminus : c ≠ .char '-')
    (hplus : c ≠ .char '+') (hpoint : c ≠ .char '.') (cs : Text) :
    Numeral.scan? (c :: cs) = none := by
  have hsign : Numeral.takeSign (c :: cs) = (false, c :: cs) := by
    unfold Numeral.takeSign
    split
    · exact absurd (List.cons.inj ‹_›).1 hminus
    · exact absurd (List.cons.inj ‹_›).1 hplus
    · rfl
  have hfraction : Numeral.takeFraction (c :: cs) = (none, c :: cs) := by
    unfold Numeral.takeFraction
    split
    · exact absurd (List.cons.inj ‹_›).1 hpoint
    · rfl
  simp [Numeral.scan?, hsign, hdigit, hfraction]

theorem scan_opening (cs : Text) : scan (.char '[') cs = (.lexeme .opening, cs) := by
  have hnumber := scan?_eq_none (c := .char '[') (by decide) (by decide) (by decide) (by decide) cs
  rw [scan_eq_scanWord (by decide) (by decide) (by decide) (by decide), scanWord, hnumber]
  rfl

theorem scan_closing (cs : Text) : scan (.char ']') cs = (.lexeme .closing, cs) := by
  have hnumber := scan?_eq_none (c := .char ']') (by decide) (by decide) (by decide) (by decide) cs
  rw [scan_eq_scanWord (by decide) (by decide) (by decide) (by decide), scanWord, hnumber]
  rfl

/-- **An array spells its brackets and what its items spell.** -/
theorem spells_bracketed {ts : List Text} {lss : List (List Lexeme)}
    (h : List.Forall₂ Spells ts lss) :
    Spells (bracketed ts) (.opening :: (lss.flatten ++ [.closing])) := by
  intro line rest _
  have hbracketed : bracketed ts ++ rest
      = .char '[' :: (List.intercalate (" " : Text) ts ++ .char ']' :: rest) := by
    simp [bracketed]
  rw [hbracketed, lex_of_lexeme (scan_opening _),
    spells_intercalate h line _ (delimits_closing _), lex_of_lexeme (scan_closing _)]
  simp

/-- A request name: a letter or an underscore, then letters, digits and underscores. -/
def IsRequestName (s : String) : Bool :=
  match Text.ofString s with
  | [] => false
  | c :: cs => isNameStart c && cs.all isNameRest

/-- No name begins where something else would. -/
theorem isDigit_of_isNameStart {c : CodePoint} (h : isNameStart c = true) :
    Text.isDigit c = false ∧ isSpace c = false ∧ c ≠ .char '-' ∧ c ≠ .char '+' ∧ c ≠ .char '.' ∧
      c ≠ .char '\n' ∧ c ≠ .char '#' ∧ c ≠ .char '"' ∧ c ≠ .char '[' ∧ c ≠ .char ']' := by
  cases c with
  | surrogate i => cases h
  | char c =>
    have hname : c.isAlpha = true ∨ c = '_' := by
      simpa [isNameStart, CodePoint.satisfies] using h
    -- Letters and the underscore lie above all digits and most marks, around the brackets.
    have hrange : 65 ≤ c.toNat ∧ c.toNat ≤ 122 ∧ c.toNat ≠ 91 ∧ c.toNat ≠ 93 := by
      rcases hname with hname | rfl
      · have hletter : (65 ≤ c.toNat ∧ c.toNat ≤ 90) ∨ (97 ≤ c.toNat ∧ c.toNat ≤ 122) := by
          have hcases : (decide (65 ≤ c.val ∧ c.val ≤ 90)
              || decide (97 ≤ c.val) && decide (c.val ≤ 122)) = true := hname
          simpa [UInt32.le_iff_toNat_le] using hcases
        omega
      · decide
    have hother : ∀ d : Char, d.toNat < 65 ∨ d.toNat = 91 ∨ d.toNat = 93 → c ≠ d := by
      rintro d hd rfl
      omega
    have hpoint : ∀ d : Char, d.toNat < 65 ∨ d.toNat = 91 ∨ d.toNat = 93 →
        CodePoint.char c ≠ .char d := by
      rintro d hd he
      exact hother d hd (CodePoint.char.inj he)
    refine ⟨Text.isDigit_eq_false ?_ ?_, ?_, hpoint _ (by decide), hpoint _ (by decide),
      hpoint _ (by decide), hpoint _ (by decide), hpoint _ (by decide), hpoint _ (by decide),
      hpoint _ (by decide), hpoint _ (by decide)⟩
    · simp only [CodePoint.code]
      omega
    · simp only [CodePoint.code]
      omega
    · simp [isSpace, CodePoint.satisfies, hother ' ' (by decide), hother '\t' (by decide),
        hother '\r' (by decide), hother '\x0C' (by decide), hother '\x0B' (by decide)]

/-- **A request name is read as a name.** -/
theorem spells_name {s : String} (h : IsRequestName s = true) : Spells s [.name s] := by
  intro line rest hrest
  unfold IsRequestName at h
  split at h
  · cases h
  · rename_i c cs hcs
    rw [Bool.and_eq_true, List.all_eq_true] at h
    obtain ⟨hstart, hall⟩ := h
    obtain ⟨hdigit, hspace, hminus, hplus, hpoint, hfeed, hcomment, hquote, hopen, hclose⟩ :=
      isDigit_of_isNameStart hstart
    -- A delimiter ends the name.
    have hnone : rest.takeWhile isNameRest = [] ∧ rest.dropWhile isNameRest = rest := by
      cases rest with
      | nil => exact ⟨rfl, rfl⟩
      | cons d ds =>
        have hd : isNameRest d = false := by rcases hrest with rfl | rfl | rfl <;> decide
        simp [hd]
    have hscan : scan c (cs ++ rest) = (.lexeme (.name s), rest) := by
      rw [scan_eq_scanWord hspace hfeed hcomment hquote, scanWord,
        scan?_eq_none hdigit hminus hplus hpoint]
      simp only [hopen, hclose, hstart, if_true, if_false]
      rw [List.takeWhile_append_of_pos hall, List.dropWhile_append_of_pos hall, hnone.1, hnone.2,
        List.append_nil, ← hcs, Text.display_ofString]
    rw [hcs, List.cons_append, lex_of_lexeme hscan]
    rfl

end SceneReplay.Rib
