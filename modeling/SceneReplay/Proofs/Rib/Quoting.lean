import SceneReplay.Proofs.Rib.LineLocal

/-!
# Quoted texts in their place

Quoting a text is undone by reading, whatever stands before the quoted text and behind it
(`SceneReplay.Rib.readBack_quoted`). Once reading has got to the opening quote
(`SceneReplay.Rib.GetsTo`), it takes one token, which is the text, and goes on behind the closing
quote, on the same line.

No part of a quoted text is taken for one. What is taken off the front of a text does not depend on
what is behind it (`SceneReplay.Rib.takeQuoted_append`). So if a part were taken, the whole would be
taken with something left over, but it is used up. A quoted text that is cut off is unterminated.

A text is escaped in one pass. This comes to the same as to replace all backslashes, then all
quotation marks, and then all line feeds (`SceneReplay.Rib.quoted_eq_replaced`).
-/

namespace SceneReplay

/-! ### Escaping in one pass -/

/-- A text with every occurrence of a code point replaced. -/
def Text.replaced (t : Text) (old : CodePoint) (new : Text) : Text :=
  t.flatMap fun c => if c = old then new else [c]

namespace Rib

/-- **Escaping in one pass** is escaping the backslashes, then the quotation marks, then the line
feeds. -/
theorem quoted_eq_replaced (t : Text) : quoted t
    = .char '"' :: ((((t.replaced (.char '\\') "\\\\").replaced (.char '"') "\\\"").replaced
        (.char '\n') "\\n") ++ [.char '"']) := by
  have hbody : ((t.replaced (.char '\\') "\\\\").replaced (.char '"') "\\\"").replaced
      (.char '\n') "\\n" = t.flatMap quotedChar := by
    simp only [Text.replaced, List.flatMap_assoc]
    congr 1
    funext c
    -- What stands for an escaped code point holds none that is escaped later.
    fun_cases quotedChar c with
    | case1 | case2 | case3 => decide
    | case4 c hbackslash hquote hfeed =>
      rw [if_neg hbackslash, List.flatMap_singleton, if_neg hquote, List.flatMap_singleton,
        if_neg hfeed]
  rw [quoted, hbody]

/-! ### Getting to a place -/

/-- **Reading gets from one place to another**: from a line and the text that is left there, over
the given steps, to a later line and what is left then. -/
inductive GetsTo : Int → Text → List Lexed → Int → Text → Prop
  /-- Where it begins. -/
  | here (line : Int) (cs : Text) : GetsTo line cs [] line cs
  /-- Over spaces. -/
  | spaces {line line' : Int} {c : CodePoint} {cs rest rest' : Text} {steps : List Lexed}
      (h : scan c cs = (.spaces, rest)) (hrest : GetsTo line rest steps line' rest') :
      GetsTo line (c :: cs) steps line' rest'
  /-- Over a line end. -/
  | lineEnd {line line' : Int} {c : CodePoint} {cs rest rest' : Text} {steps : List Lexed}
      (h : scan c cs = (.lineEnd, rest)) (hrest : GetsTo (line + 1) rest steps line' rest') :
      GetsTo line (c :: cs) steps line' rest'
  /-- Over a token. -/
  | lexeme {line line' : Int} {c : CodePoint} {cs rest rest' : Text} {steps : List Lexed}
      {l : Lexeme} (h : scan c cs = (.lexeme l, rest))
      (hrest : GetsTo line rest steps line' rest') :
      GetsTo line (c :: cs) (.token ⟨l, line⟩ :: steps) line' rest'
  /-- Over a trouble, to the end of its line. -/
  | trouble {line line' : Int} {c : CodePoint} {cs rest rest' : Text} {steps : List Lexed}
      {t : Trouble} (h : scan c cs = (.trouble t, rest)) (hlocal : t.isLocal = true)
      (hrest : GetsTo line (rest.dropWhile inLine) steps line' rest') :
      GetsTo line (c :: cs) (.trouble t line (cs.length + 1) :: steps) line' rest'

namespace GetsTo

variable {line line' line'' : Int} {cs cs' cs'' : Text} {steps steps' : List Lexed}

theorem trans (h : GetsTo line cs steps line' cs') (h' : GetsTo line' cs' steps' line'' cs'') :
    GetsTo line cs (steps ++ steps') line'' cs'' := by
  induction h with
  | here => exact h'
  | spaces hscan _ ih => exact .spaces hscan (ih h')
  | lineEnd hscan _ ih => exact .lineEnd hscan (ih h')
  | lexeme hscan _ ih => exact .lexeme hscan (ih h')
  | trouble hscan hlocal _ ih => exact .trouble hscan hlocal (ih h')

/-- **What is read of a text** are the steps to a place that reading gets to, and what is read
from there. -/
theorem lex_eq (h : GetsTo line cs steps line' cs') :
    lex line cs = steps ++ lex line' cs' := by
  induction h with
  | here => rfl
  | spaces hscan _ ih => rw [lex_of_spaces hscan, ih]
  | lineEnd hscan _ ih => rw [lex_of_lineEnd hscan, ih]
  | lexeme hscan _ ih => rw [lex_of_lexeme hscan, ih, List.cons_append]
  | trouble hscan hlocal _ ih => rw [lex_of_trouble hscan, if_pos hlocal, ih, List.cons_append]

end GetsTo

/-! ### What a quoted text takes up -/

/-- **What is taken does not look ahead**: whatever is put behind a text comes behind the rest. -/
theorem takeQuoted_append {cs body rest : Text} (h : takeQuoted cs = some (body, rest))
    (more : Text) : takeQuoted (cs ++ more) = some (body, rest ++ more) := by
  fun_induction takeQuoted cs generalizing body rest with
  | case1 | case3 | case4 | case5 => cases h
  | case2 cs =>
    cases h
    rfl
  | case6 c cs hc ih =>
    obtain ⟨⟨body', rest'⟩, htake, heq⟩ := Option.map_eq_some_iff.1 h
    cases heq
    rw [List.cons_append, List.cons_append, takeQuoted_escape hc, ih htake]
    rfl
  | case7 c cs hquote hfeed hlast _ hother ih =>
    obtain ⟨⟨body', rest'⟩, htake, heq⟩ := Option.map_eq_some_iff.1 h
    cases heq
    rw [List.cons_append, takeQuoted_plain hquote hfeed (ne_backslash hlast hother), ih htake]
    rfl

/-- What a code point is escaped as has no line end in it. -/
theorem inLine_of_mem_quotedChar (c : CodePoint) : ∀ d ∈ quotedChar c, inLine d = true := by
  unfold quotedChar
  split
  · decide
  · decide
  · decide
  · rename_i hfeed
    exact List.forall_mem_singleton.2 (inLine_of_ne hfeed)

/-- **A quoted text stands on one line.** -/
theorem inLine_of_mem_quoted {s : Text} {c : CodePoint} (h : c ∈ quoted s) : inLine c = true := by
  rcases h with _ | ⟨_, h⟩
  · decide
  · rcases List.mem_append.1 h with h | h
    · obtain ⟨d, -, hd⟩ := List.mem_flatMap.1 h
      exact inLine_of_mem_quotedChar d c hd
    · obtain rfl := List.mem_singleton.1 h
      decide

/-- **No part of a quoted text is taken for one**: if it ends before the closing quote, there is
none. -/
theorem takeQuoted_of_prefix {s p q : Text} (h : quoted s = .char '"' :: (p ++ q)) (hq : q ≠ []) :
    takeQuoted p = none := by
  rcases htake : takeQuoted p with _ | ⟨body, rest⟩
  · rfl
  · -- With the rest of the quoted text behind it, something would be left over.
    have hwhole := takeQuoted_append htake q
    rw [← (List.cons.inj h).2, takeQuoted_flatMap] at hwhole
    obtain ⟨-, hrest⟩ := Prod.mk.inj (Option.some.inj hwhole)
    exact absurd (List.append_eq_nil_iff.1 hrest.symm).2 hq

/-- **Where a quoted text is cut off**, it is unterminated, and nothing else is read of it. -/
theorem lex_of_prefix {s p q : Text} (h : quoted s = p ++ q) (hq : q ≠ []) (line : Int) :
    lex line p = if p = [] then [] else [.trouble .unterminated line p.length] := by
  rcases p with _ | ⟨c, p⟩
  · rw [if_pos rfl, lex]
  · obtain rfl : .char '"' = c := (List.cons.inj h).1
    have hscan : scan (.char '"') p = (.trouble .unterminated, p) := by
      have hspace : isSpace (.char '"') = false := by decide
      simp [scan, hspace, scanQuoted, takeQuoted_of_prefix h hq]
    have hp : p ⊆ quoted s := by
      rw [h]
      exact List.subset_append_of_subset_left q (List.subset_cons_self _ p)
    have hline : p.dropWhile inLine = [] :=
      List.dropWhile_eq_nil_iff.2 fun c hc => inLine_of_mem_quoted (hp hc)
    have hlocal : Trouble.unterminated.isLocal = true := rfl
    rw [lex_of_trouble hscan, if_pos hlocal, hline, lex, if_neg (List.cons_ne_nil _ _),
      List.length_cons]

/-! ### Reading from an offset -/

/-- How the reading of a text ends, given the trouble that it got to, if any. -/
def endingOf (text : Text) : Option (Trouble × Int × Nat) → Ending
  | none => .complete
  | some (t, line, remaining) => .trouble t line (text.length - remaining)

/-- **Reading from a place of a text** on is reading what is left there. -/
theorem readFrom_length (before rest : Text) (line : Int) :
    readFrom (before ++ rest) before.length line
      = ((untilTrouble (lex line rest)).1,
          endingOf (before ++ rest) (untilTrouble (lex line rest)).2) := by
  have hbound : ¬ (before.length : Int) < -(offsetBound : Int) := by omega
  have hnat : ¬ (before.length : Int) < 0 := by omega
  simp only [readFrom, hbound, hnat, decide_false, Bool.false_and, Bool.false_eq_true, if_false,
    Int.toNat_natCast, List.drop_left]
  rcases untilTrouble (lex line rest) with ⟨tokens, _ | ⟨t, line', remaining⟩⟩ <;> rfl

/-- **A quoted text between two others**, as it is read. -/
structure ReadBack (s before after : Text) : Prop where
  /-- When reading has got to the opening quote, it takes one token, which is the text, and has got
  behind the closing quote then, on the same line. -/
  reached {line line' : Int} {steps : List Lexed}
    (h : GetsTo line (before ++ (quoted s ++ after)) steps line' (quoted s ++ after)) :
    GetsTo line (before ++ (quoted s ++ after)) (steps ++ [.token ⟨.text s, line'⟩]) line' after ∧
      lex line (before ++ (quoted s ++ after))
        = steps ++ .token ⟨.text s, line'⟩ :: lex line' after
  /-- Reading that begins at the opening quote, on whatever line, gives the text and then what
  reading gives that begins behind the closing quote, on that line. -/
  begun (line : Int) : ∃ tokens ending,
    readFrom (before ++ (quoted s ++ after)) (before ++ quoted s).length line = (tokens, ending) ∧
      readFrom (before ++ (quoted s ++ after)) before.length line
        = (⟨.text s, line⟩ :: tokens, ending)
  /-- If the quoted text is cut off before its end, reading that begins at the opening quote gives
  no token; the text is unterminated. -/
  cut {p q : Text} (h : quoted s = p ++ q) (hq : q ≠ []) (line : Int) :
    readFrom (before ++ p) before.length line
      = ([], if p = [] then .complete else .trouble .unterminated line before.length)

/-- **Quoting is undone by reading**, for every text and wherever it stands. -/
theorem readBack_quoted (s before after : Text) : ReadBack s before after where
  reached {line line' steps} h := by
    have hquoted : GetsTo line' (quoted s ++ after) [.token ⟨.text s, line'⟩] line' after := by
      rw [quoted_append]
      exact .lexeme (scan_quoted s after) (.here line' after)
    exact ⟨h.trans hquoted, by rw [h.lex_eq, lex_quoted]⟩
  begun line := by
    have hbehind := readFrom_length (before ++ quoted s) after line
    rw [List.append_assoc] at hbehind
    refine ⟨_, _, hbehind, ?_⟩
    rw [readFrom_length, lex_quoted, untilTrouble]
  cut {p q} h hq line := by
    rw [readFrom_length, lex_of_prefix h hq]
    rcases p with _ | ⟨c, p⟩
    · rfl
    · rw [if_neg (List.cons_ne_nil c p), if_neg (List.cons_ne_nil c p)]
      simp [untilTrouble, endingOf]

/-- A backslash, a letter that could be behind one, a quote, a line end, a hash and a backslash at
the end. -/
def trickyText : Text := "\\n\"\n#\\"

/-- A comment with a quote in it, a line that cannot be read, a quote that is not closed, and a
space. -/
def trickyLead : Text := .ofChars ['#', '"', '\n', '@', '\n', '"', '\n', ' ']

theorem readBack_quoted_trickyText :
    quoted trickyText = ("\"\\\\n\\\"\\n#\\\\\"" : String) ∧
      (∃ steps, steps.length = 3 ∧
        GetsTo 1 (trickyLead ++ (quoted trickyText ++ "\"x\"")) steps 4
          (quoted trickyText ++ "\"x\"") ∧
        lex 1 (trickyLead ++ (quoted trickyText ++ "\"x\""))
          = steps ++ .token ⟨.text trickyText, 4⟩ :: lex 4 "\"x\"") ∧
      readFrom (trickyLead ++ (quoted trickyText).dropLast) trickyLead.length 4
        = ([], .trouble .unterminated 4 8) := by
  have hback := readBack_quoted trickyText trickyLead "\"x\""
  obtain ⟨steps, hlength, hsteps⟩ : ∃ steps, steps.length = 3 ∧
      GetsTo 1 (trickyLead ++ (quoted trickyText ++ "\"x\"")) steps 4
        (quoted trickyText ++ "\"x\"") := by
    refine ⟨_, ?_, .lexeme rfl (.lineEnd rfl (.trouble rfl rfl (.lineEnd rfl
      (.trouble rfl rfl (.lineEnd rfl (.spaces rfl (.here _ _)))))))⟩
    rfl
  exact ⟨by decide +kernel, ⟨steps, hlength, hsteps, (hback.reached hsteps).2⟩,
    hback.cut (q := ['"']) rfl (List.cons_ne_nil _ _) 4⟩

end Rib

end SceneReplay
