import Mathlib.Data.List.TakeWhile
import SceneReplay.Proofs.Rib.Words

/-!
# Reading is line-local

No piece of a text but a line end goes over more than one line, and no piece looks past the
line end behind it (`SceneReplay.Rib.scan_append_lineEnd`): a line end belongs to no token, and
whatever could go on there could as well end with the text. A trouble leads to the end of its
line and no further. So of two texts, one below the other, each is read as if the other were not
there; only the lines of the lower one are counted on (`SceneReplay.Rib.lex_append_lineEnd`).

There is one exception: an integer with too many digits ends the reading for good, and hides
what is below it.
-/

namespace SceneReplay

namespace Rib

/-! ### What a piece goes over -/

/-- A line has no line end in it. -/
theorem count_lineEnd_eq_zero {cs : Text} (h : ∀ c ∈ cs, inLine c = true) :
    cs.count (.char '\n') = 0 :=
  List.count_eq_zero.2 fun hmem => absurd (h _ hmem) (by decide)

/-- **One text is left of another within a line**: it comes after code points none of which
is a line end. -/
def LeftInLine (cs rest : Text) : Prop := ∃ pre, cs = pre ++ rest ∧ ∀ c ∈ pre, inLine c = true

namespace LeftInLine

variable {cs rest rest' : Text}

theorem refl (cs : Text) : LeftInLine cs cs := ⟨[], rfl, nofun⟩

theorem trans (h : LeftInLine cs rest) (h' : LeftInLine rest rest') : LeftInLine cs rest' := by
  obtain ⟨pre, rfl, hpre⟩ := h
  obtain ⟨pre', rfl, hpre'⟩ := h'
  exact ⟨pre ++ pre', (List.append_assoc ..).symm, List.forall_mem_append.2 ⟨hpre, hpre'⟩⟩

theorem cons {c : CodePoint} (hc : inLine c = true) (h : LeftInLine cs rest) :
    LeftInLine (c :: cs) rest :=
  trans ⟨[c], rfl, List.forall_mem_singleton.2 hc⟩ h

theorem dropWhile {p : CodePoint → Bool} (hp : ∀ c, p c = true → inLine c = true) (cs : Text) :
    LeftInLine cs (cs.dropWhile p) :=
  ⟨cs.takeWhile p, List.takeWhile_append_dropWhile.symm,
    fun c hc => hp c (List.mem_takeWhile_imp hc)⟩

/-- All line ends are left. -/
theorem count_lineEnd (h : LeftInLine cs rest) :
    cs.count (.char '\n') = rest.count (.char '\n') := by
  obtain ⟨pre, rfl, hpre⟩ := h
  rw [List.count_append, count_lineEnd_eq_zero hpre, Nat.zero_add]

end LeftInLine

/-- The line end stands within no line. -/
theorem inLine_of_ne {c : CodePoint} (h : c ≠ .char '\n') : inLine c = true := by
  rw [inLine, bne_iff_ne]
  exact h

theorem inLine_of_isDigit (c : CodePoint) (h : Text.isDigit c = true) : inLine c = true :=
  inLine_of_ne fun heq => absurd (heq ▸ h) (by decide)

theorem inLine_of_isSpace (c : CodePoint) (h : isSpace c = true) : inLine c = true :=
  inLine_of_ne fun heq => absurd (heq ▸ h) (by decide)

theorem inLine_of_isNameRest (c : CodePoint) (h : isNameRest c = true) : inLine c = true :=
  inLine_of_ne fun heq => absurd (heq ▸ h) (by decide)

theorem leftInLine_takeQuoted {cs body rest : Text} (h : takeQuoted cs = some (body, rest)) :
    LeftInLine cs rest := by
  fun_induction takeQuoted cs generalizing body rest with
  | case1 | case3 | case4 | case5 => cases h
  | case2 cs =>
    cases h
    exact (LeftInLine.refl _).cons (by decide)
  | case6 c cs hc ih =>
    obtain ⟨⟨body', rest'⟩, htake, hrest⟩ := Option.map_eq_some_iff.1 h
    cases hrest
    exact ((ih htake).cons (inLine_of_ne fun heq => hc (heq ▸ rfl))).cons (by decide)
  | case7 c cs hquote hfeed hlast hbackslash hother ih =>
    obtain ⟨⟨body', rest'⟩, htake, hrest⟩ := Option.map_eq_some_iff.1 h
    cases hrest
    exact (ih htake).cons (inLine_of_ne hfeed)

end Rib

namespace Numeral

open Rib

theorem leftInLine_takeSign (cs : Text) : LeftInLine cs (takeSign cs).2 := by
  unfold takeSign
  split
  · exact (LeftInLine.refl _).cons (by decide)
  · exact (LeftInLine.refl _).cons (by decide)
  · exact .refl _

theorem leftInLine_takeFraction (cs : Text) : LeftInLine cs (takeFraction cs).2 := by
  unfold takeFraction
  split
  · exact (LeftInLine.dropWhile inLine_of_isDigit _).cons (by decide)
  · exact .refl _

theorem leftInLine_takeExponent (cs : Text) : LeftInLine cs (takeExponent cs).2 := by
  rcases cs with _ | ⟨e, cs⟩
  · exact .refl _
  · simp only [takeExponent]
    split
    · rename_i hletter
      split
      · exact .refl _
      · have hletter' : inLine e = true :=
          inLine_of_ne fun heq => absurd (heq ▸ hletter) (by decide)
        exact ((leftInLine_takeSign cs).trans (.dropWhile inLine_of_isDigit _)).cons hletter'
    · exact .refl _

/-- A numeral stands on one line. -/
theorem leftInLine_scan? {cs rest : Text} {m : Numeral} (h : scan? cs = some (m, rest)) :
    LeftInLine cs rest := by
  simp only [scan?] at h
  split at h
  · cases h
  · cases h
    exact (((leftInLine_takeSign cs).trans (.dropWhile inLine_of_isDigit _)).trans
      (leftInLine_takeFraction _)).trans (leftInLine_takeExponent _)

end Numeral

namespace Rib

theorem leftInLine_scanComment (cs : Text) : LeftInLine cs (scanComment cs).2 := by
  unfold scanComment
  split
  · exact (LeftInLine.dropWhile (fun _ hc => hc) _).cons (by decide)
  · exact .dropWhile (fun _ hc => hc) _

theorem leftInLine_scanQuoted (cs : Text) : LeftInLine cs (scanQuoted cs).2 := by
  unfold scanQuoted
  split
  · rename_i htake
    exact leftInLine_takeQuoted htake
  · exact .refl _

theorem leftInLine_scanWord {c : CodePoint} (hc : inLine c = true) (cs : Text) :
    LeftInLine (c :: cs) (scanWord c cs).2 := by
  unfold scanWord
  split
  · rename_i hscan
    exact Numeral.leftInLine_scan? hscan
  · refine LeftInLine.cons hc ?_
    split
    · exact .refl _
    · split
      · exact .refl _
      · split
        · exact .dropWhile inLine_of_isNameRest _
        · exact .refl _

/-- **A piece that is no line end stands on one line.** -/
theorem leftInLine_scan {c : CodePoint} {cs : Text} (h : (scan c cs).1 ≠ .lineEnd) :
    LeftInLine (c :: cs) (scan c cs).2 := by
  unfold scan at h ⊢
  split
  · rename_i hspace
    exact (LeftInLine.dropWhile inLine_of_isSpace cs).cons (inLine_of_isSpace c hspace)
  · split
    · rename_i hspace hfeed
      rw [if_neg hspace, if_pos hfeed] at h
      exact absurd rfl h
    · rename_i hfeed
      have hc : inLine c = true := inLine_of_ne hfeed
      split
      · exact (leftInLine_scanComment cs).cons hc
      · split
        · exact (leftInLine_scanQuoted cs).cons hc
        · exact leftInLine_scanWord hc cs

/-- Only the end of a line is read as one. -/
theorem eq_of_scan_lineEnd {c : CodePoint} {cs rest : Text} (h : scan c cs = (.lineEnd, rest)) :
    c = .char '\n' ∧ rest = cs := by
  unfold scan at h
  split at h
  · cases h
  · split at h
    · rename_i hfeed
      cases h
      exact ⟨hfeed, rfl⟩
    · split at h
      · unfold scanComment at h
        split at h <;> cases h
      · split at h
        · unfold scanQuoted at h
          split at h <;> cases h
        · unfold scanWord numeralPiece at h
          split at h
          · split at h <;> cases h
          · split at h
            · cases h
            · split at h
              · cases h
              · split at h <;> cases h

/-! ### Places of a text -/

/-- **The step of reading that is made at a place of a text**: its token or trouble is the piece
in front of what is left there. -/
inductive Lexed.MadeAt (c : CodePoint) (cs : Text) : Lexed → Prop
  | token {l : Lexeme} {line : Int} (h : (scan c cs).1 = .lexeme l) : MadeAt c cs (.token ⟨l, line⟩)
  | trouble {t : Trouble} {line : Int} (h : (scan c cs).1 = .trouble t) :
      MadeAt c cs (.trouble t line (cs.length + 1))

/-- The line that a step of reading is made on. -/
def Lexed.line : Lexed → Int
  | .token t => t.line
  | .trouble _ line _ => line

/-- **A step is placed in a text** that starts on the given line: it is made at one of the
places of the text, and on the line of that place. -/
def Lexed.IsPlaced (line : Int) (cs : Text) (step : Lexed) : Prop :=
  ∃ before c after, cs = before ++ c :: after ∧ step.MadeAt c after ∧
    step.line = line + before.count (.char '\n')

theorem Lexed.IsPlaced.of_left {line : Int} {cs rest : Text} {step : Lexed}
    (h : step.IsPlaced line rest) (hleft : LeftInLine cs rest) : step.IsPlaced line cs := by
  obtain ⟨pre, rfl, hpre⟩ := hleft
  obtain ⟨before, c, after, rfl, hmade, hline⟩ := h
  refine ⟨pre ++ before, c, after, (List.append_assoc ..).symm, hmade, ?_⟩
  rw [List.count_append, count_lineEnd_eq_zero hpre, Nat.zero_add]
  exact hline

/-- **Every step of reading is placed in the text.** -/
theorem isPlaced_of_mem_lex {line : Int} {cs : Text} {step : Lexed} (h : step ∈ lex line cs) :
    step.IsPlaced line cs := by
  have hleft : ∀ {c : CodePoint} {cs rest : Text} {piece : Piece}, scan c cs = (piece, rest) →
      piece ≠ .lineEnd → LeftInLine (c :: cs) rest := by
    intro c cs rest piece hscan hpiece
    have hrest : LeftInLine (c :: cs) (scan c cs).2 :=
      leftInLine_scan (by rw [hscan]; exact hpiece)
    rwa [hscan] at hrest
  induction line, cs using lex.induct with
  | case1 line =>
    rw [lex] at h
    cases h
  | case2 line c cs rest _ hscan ih =>
    rw [lex_of_spaces hscan] at h
    exact (ih h).of_left (hleft hscan fun h => Piece.noConfusion h)
  | case3 line c cs rest _ hscan ih =>
    rw [lex_of_lineEnd hscan] at h
    obtain ⟨rfl, rfl⟩ := eq_of_scan_lineEnd hscan
    -- The line end itself is one more before the place.
    obtain ⟨before, d, after, rfl, hmade, hline⟩ := ih h
    refine ⟨.char '\n' :: before, d, after, rfl, hmade, ?_⟩
    rw [hline, List.count_cons_self]
    omega
  | case4 line c cs l rest _ hscan ih =>
    rw [lex_of_lexeme hscan] at h
    rcases h with _ | ⟨_, h⟩
    · exact ⟨[], c, cs, rfl, .token (congrArg Prod.fst hscan), (Int.add_zero line).symm⟩
    · exact (ih h).of_left (hleft hscan fun h => Piece.noConfusion h)
  | case5 line c cs trouble rest _ hscan ih =>
    rw [lex_of_trouble hscan] at h
    rcases h with _ | ⟨_, h⟩
    · exact ⟨[], c, cs, rfl, .trouble (congrArg Prod.fst hscan), (Int.add_zero line).symm⟩
    · split at h
      · exact ((ih h).of_left (.dropWhile (fun _ hc => hc) rest)).of_left
          (hleft hscan fun h => Piece.noConfusion h)
      · cases h

/-- **Every step of reading is made at a place of the text.** -/
theorem exists_of_mem_lex {line : Int} {cs : Text} {step : Lexed} (h : step ∈ lex line cs) :
    ∃ d ds, d :: ds <:+ cs ∧ step.MadeAt d ds := by
  obtain ⟨before, d, ds, hcs, hmade, -⟩ := isPlaced_of_mem_lex h
  exact ⟨d, ds, ⟨before, hcs.symm⟩, hmade⟩

/-! ### One text below another -/

section Append

variable {p : CodePoint → Bool} (b : Text)

/-- A run ends at the line end, if not before. -/
theorem takeWhile_append_lineEnd (hp : ∀ c, p c = true → inLine c = true) (cs : Text) :
    (cs ++ .char '\n' :: b).takeWhile p = cs.takeWhile p := by
  have hfeed : p (.char '\n') = false := by
    rw [Bool.eq_false_iff]
    exact fun h => absurd (hp _ h) (by decide)
  induction cs with
  | nil => exact List.takeWhile_cons_of_neg (by rw [hfeed]; nofun)
  | cons c cs ih =>
    by_cases hc : p c = true
    · rw [List.cons_append, List.takeWhile_cons_of_pos hc, List.takeWhile_cons_of_pos hc, ih]
    · rw [List.cons_append, List.takeWhile_cons_of_neg hc, List.takeWhile_cons_of_neg hc]

theorem dropWhile_append_lineEnd (hp : ∀ c, p c = true → inLine c = true) (cs : Text) :
    (cs ++ .char '\n' :: b).dropWhile p = cs.dropWhile p ++ .char '\n' :: b := by
  have hfeed : p (.char '\n') = false := by
    rw [Bool.eq_false_iff]
    exact fun h => absurd (hp _ h) (by decide)
  induction cs with
  | nil => exact List.dropWhile_cons_of_neg (by rw [hfeed]; nofun)
  | cons c cs ih =>
    by_cases hc : p c = true
    · rw [List.cons_append, List.dropWhile_cons_of_pos hc, List.dropWhile_cons_of_pos hc, ih]
    · rw [List.cons_append, List.dropWhile_cons_of_neg hc, List.dropWhile_cons_of_neg hc]
      rfl

/-- A text begins as it does with a line end and another text below it. -/
theorem append_lineEnd_ne_cons {c : CodePoint} (hc : .char '\n' ≠ c) {cs : Text}
    (h : ∀ rest, cs = c :: rest → False) :
    ∀ rest, cs ++ .char '\n' :: b = c :: rest → False := by
  intro rest heq
  rcases cs with _ | ⟨c', cs⟩
  · exact hc (List.cons.inj heq).1
  · exact h cs (congrArg (· :: cs) (List.cons.inj heq).1)

theorem takeQuoted_append_lineEnd (cs : Text) :
    takeQuoted (cs ++ .char '\n' :: b)
      = (takeQuoted cs).map fun (body, rest) => (body, rest ++ .char '\n' :: b) := by
  fun_induction takeQuoted cs with
  | case1 => rfl
  | case2 cs => rfl
  | case3 => rfl
  | case4 => rfl
  | case5 => rfl
  | case6 c cs hc ih =>
    rw [List.cons_append, List.cons_append, takeQuoted_escape hc, ih, Option.map_map,
      Option.map_map]
    rfl
  | case7 c cs hquote hfeed hlast _ hother ih =>
    rw [List.cons_append, takeQuoted_plain hquote hfeed (ne_backslash hlast hother), ih,
      Option.map_map, Option.map_map]
    rfl

end Append

end Rib

namespace Numeral

open Rib

variable (b : Text)

theorem takeSign_append_lineEnd (cs : Text) :
    takeSign (cs ++ .char '\n' :: b)
      = ((takeSign cs).1, (takeSign cs).2 ++ .char '\n' :: b) := by
  fun_cases takeSign cs with
  | case1 => rfl
  | case2 => rfl
  | case3 cs hminus hplus =>
    rw [takeSign]
    · exact append_lineEnd_ne_cons b (by decide) hminus
    · exact append_lineEnd_ne_cons b (by decide) hplus

theorem takeFraction_append_lineEnd (cs : Text) :
    takeFraction (cs ++ .char '\n' :: b)
      = ((takeFraction cs).1, (takeFraction cs).2 ++ .char '\n' :: b) := by
  fun_cases takeFraction cs with
  | case1 cs =>
    rw [List.cons_append, takeFraction, takeWhile_append_lineEnd b inLine_of_isDigit,
      dropWhile_append_lineEnd b inLine_of_isDigit]
  | case2 cs hpoint =>
    rw [takeFraction]
    exact append_lineEnd_ne_cons b (by decide) hpoint

theorem takeExponent_append_lineEnd (cs : Text) :
    takeExponent (cs ++ .char '\n' :: b)
      = ((takeExponent cs).1, (takeExponent cs).2 ++ .char '\n' :: b) := by
  rcases cs with _ | ⟨c, cs⟩
  · rfl
  · simp only [List.cons_append, takeExponent, takeSign_append_lineEnd,
      takeWhile_append_lineEnd b inLine_of_isDigit, dropWhile_append_lineEnd b inLine_of_isDigit]
    split
    · split <;> rfl
    · rfl

theorem scan?_append_lineEnd (cs : Text) :
    scan? (cs ++ .char '\n' :: b)
      = (scan? cs).map fun (m, rest) => (m, rest ++ .char '\n' :: b) := by
  simp only [scan?, takeSign_append_lineEnd, takeFraction_append_lineEnd,
    takeExponent_append_lineEnd, takeWhile_append_lineEnd b inLine_of_isDigit,
    dropWhile_append_lineEnd b inLine_of_isDigit]
  split <;> rfl

end Numeral

namespace Rib

variable (b : Text)

theorem scanComment_append_lineEnd (cs : Text) :
    scanComment (cs ++ .char '\n' :: b)
      = ((scanComment cs).1, (scanComment cs).2 ++ .char '\n' :: b) := by
  have hrun : ∀ c, inLine c = true → inLine c = true := fun _ hc => hc
  fun_cases scanComment cs with
  | case1 cs =>
    rw [List.cons_append, scanComment, takeWhile_append_lineEnd b hrun,
      dropWhile_append_lineEnd b hrun]
  | case2 cs hmark =>
    rw [scanComment, takeWhile_append_lineEnd b hrun, dropWhile_append_lineEnd b hrun]
    exact append_lineEnd_ne_cons b (by decide) hmark

theorem scanQuoted_append_lineEnd (cs : Text) :
    scanQuoted (cs ++ .char '\n' :: b)
      = ((scanQuoted cs).1, (scanQuoted cs).2 ++ .char '\n' :: b) := by
  rw [scanQuoted, takeQuoted_append_lineEnd, scanQuoted]
  rcases takeQuoted cs with _ | ⟨body, rest⟩ <;> rfl

theorem scanWord_append_lineEnd (c : CodePoint) (cs : Text) :
    scanWord c (cs ++ .char '\n' :: b)
      = ((scanWord c cs).1, (scanWord c cs).2 ++ .char '\n' :: b) := by
  rw [scanWord, ← List.cons_append, Numeral.scan?_append_lineEnd, scanWord]
  rcases Numeral.scan? (c :: cs) with _ | ⟨m, rest⟩
  · simp only [Option.map_none, takeWhile_append_lineEnd b inLine_of_isNameRest,
      dropWhile_append_lineEnd b inLine_of_isNameRest]
    split
    · rfl
    · split
      · rfl
      · split <;> rfl
  · rfl

/-- **No piece looks past a line end.** -/
theorem scan_append_lineEnd (c : CodePoint) (cs : Text) :
    scan c (cs ++ .char '\n' :: b) = ((scan c cs).1, (scan c cs).2 ++ .char '\n' :: b) := by
  unfold scan
  split
  · rw [dropWhile_append_lineEnd b inLine_of_isSpace]
  · split
    · rfl
    · split
      · exact scanComment_append_lineEnd b cs
      · split
        · exact scanQuoted_append_lineEnd b cs
        · exact scanWord_append_lineEnd b c cs

/-- A step of reading with so many more code points behind the text. -/
def Lexed.followedBy (more : Nat) : Lexed → Lexed
  | .token t => .token t
  | .trouble t line remaining => .trouble t line (remaining + more)

/-- **All troubles are local**: none of the steps ends the reading for good. -/
def AllLocal (steps : List Lexed) : Prop :=
  ∀ t line remaining, .trouble t line remaining ∈ steps → t.isLocal = true

theorem AllLocal.of_cons {step : Lexed} {steps : List Lexed} (h : AllLocal (step :: steps)) :
    AllLocal steps := fun t line remaining ht => h t line remaining (List.mem_cons_of_mem _ ht)

/-- What is read is the rest of the first line, with the text below it. -/
theorem rest_of_scan {c : CodePoint} {cs rest : Text} {piece : Piece}
    (h : scan c cs = (piece, rest)) :
    scan c (cs ++ .char '\n' :: b) = (piece, rest ++ .char '\n' :: b) := by
  rw [scan_append_lineEnd, h]

/-- **A text above another is read as if it stood alone**. If nothing in it ends the reading for
good, the other one is read from its own line on. -/
theorem exists_lex_append_lineEnd (line : Int) (a : Text) :
    ∃ more, lex line (a ++ .char '\n' :: b)
        = (lex line a).map (Lexed.followedBy (b.length + 1)) ++ more ∧
      (AllLocal (lex line a) → more = lex (line + a.count (.char '\n') + 1) b) := by
  have hcount : ∀ {c : CodePoint} {cs rest : Text} {piece : Piece}, scan c cs = (piece, rest) →
      piece ≠ .lineEnd → (c :: cs).count (.char '\n') = rest.count (.char '\n') := by
    intro c cs rest piece hscan hpiece
    have hleft : LeftInLine (c :: cs) (scan c cs).2 :=
      leftInLine_scan (by rw [hscan]; exact hpiece)
    rw [hleft.count_lineEnd, hscan]
  induction line, a using lex.induct with
  | case1 line =>
    refine ⟨_, ?_, fun _ => rfl⟩
    rw [List.nil_append, lex_lineEnd, lex]
    simp
  | case2 line c cs rest _ hscan ih =>
    obtain ⟨more, hlex, hmore⟩ := ih
    rw [List.cons_append, lex_of_spaces (rest_of_scan b hscan), lex_of_spaces hscan, hlex,
      hcount hscan fun h => Piece.noConfusion h]
    exact ⟨more, rfl, hmore⟩
  | case3 line c cs rest _ hscan ih =>
    obtain ⟨more, hlex, hmore⟩ := ih
    obtain ⟨rfl, rfl⟩ := eq_of_scan_lineEnd hscan
    have hline : line + 1 + (rest.count (.char '\n') : Int) + 1
        = line + ((.char '\n' :: rest).count (.char '\n') : Nat) + 1 := by
      rw [List.count_cons_self]
      omega
    rw [List.cons_append, lex_of_lineEnd (rest_of_scan b hscan), lex_of_lineEnd hscan, hlex,
      ← hline]
    exact ⟨more, rfl, hmore⟩
  | case4 line c cs l rest _ hscan ih =>
    obtain ⟨more, hlex, hmore⟩ := ih
    rw [List.cons_append, lex_of_lexeme (rest_of_scan b hscan), lex_of_lexeme hscan, hlex,
      hcount hscan fun h => Piece.noConfusion h]
    exact ⟨more, rfl, fun h => hmore h.of_cons⟩
  | case5 line c cs trouble rest _ hscan ih =>
    have hremaining : (cs ++ .char '\n' :: b).length + 1 = cs.length + 1 + (b.length + 1) := by
      rw [List.length_append, List.length_cons]
      omega
    have hdrop : rest.count (.char '\n') = (rest.dropWhile inLine).count (.char '\n') :=
      (LeftInLine.dropWhile (fun _ hc => hc) rest).count_lineEnd
    rw [List.cons_append, lex_of_trouble (rest_of_scan b hscan), lex_of_trouble hscan,
      dropWhile_append_lineEnd b (fun _ hc => hc), hremaining,
      hcount hscan (fun h => Piece.noConfusion h), hdrop]
    by_cases hlocal : trouble.isLocal = true
    · obtain ⟨more, hlex, hmore⟩ := ih
      rw [if_pos hlocal, if_pos hlocal, hlex]
      exact ⟨more, rfl, fun h => hmore h.of_cons⟩
    · -- The trouble ends the reading, and is the last of the steps.
      rw [if_neg hlocal, if_neg hlocal]
      exact ⟨[], rfl, fun h => absurd (h _ _ _ List.mem_cons_self) hlocal⟩

/-- **A text above another is read as if it stood alone**, and the other one is read from its
own line on. -/
theorem lex_append_lineEnd {line : Int} {a : Text} (h : AllLocal (lex line a)) :
    lex line (a ++ .char '\n' :: b)
      = (lex line a).map (Lexed.followedBy (b.length + 1))
        ++ lex (line + a.count (.char '\n') + 1) b := by
  obtain ⟨more, hlex, hmore⟩ := exists_lex_append_lineEnd b line a
  rw [hlex, hmore h]

/-- What ends the reading of the upper text ends that of both. -/
theorem AllLocal.of_append_lineEnd {line : Int} {a : Text}
    (h : AllLocal (lex line (a ++ .char '\n' :: b))) : AllLocal (lex line a) := by
  obtain ⟨more, hlex, -⟩ := exists_lex_append_lineEnd b line a
  rw [hlex] at h
  intro t line' remaining ht
  exact h t line' (remaining + (b.length + 1)) (List.mem_append_left _ (List.mem_map_of_mem ht))

/-- A token so many lines below. -/
def Token.below (k : Int) (t : Token) : Token := ⟨t.lexeme, t.line + k⟩

/-- A step of reading so many lines below. -/
def Lexed.below (k : Int) : Lexed → Lexed
  | .token t => .token (t.below k)
  | .trouble t line remaining => .trouble t (line + k) remaining

/-- **Where a text starts** only matters for the lines. -/
theorem lex_add (line k : Int) (cs : Text) :
    lex (line + k) cs = (lex line cs).map (Lexed.below k) := by
  induction line, cs using lex.induct with
  | case1 line =>
    rw [lex, lex]
    rfl
  | case2 line c cs rest _ hscan ih => rw [lex_of_spaces hscan, lex_of_spaces hscan, ih]
  | case3 line c cs rest _ hscan ih =>
    have hnext : line + k + 1 = line + 1 + k := by omega
    rw [lex_of_lineEnd hscan, lex_of_lineEnd hscan, hnext, ih]
  | case4 line c cs l rest _ hscan ih =>
    rw [lex_of_lexeme hscan, lex_of_lexeme hscan, ih]
    rfl
  | case5 line c cs trouble rest _ hscan ih =>
    rw [lex_of_trouble hscan, lex_of_trouble hscan]
    split
    · rw [ih]
      rfl
    · rfl

end Rib

end SceneReplay
