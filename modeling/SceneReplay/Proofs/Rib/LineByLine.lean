import SceneReplay.Proofs.Rib.Incremental
import SceneReplay.Proofs.Rib.Stopping

/-!
# Reading line by line

A text is read as its lines are, each as if it stood alone
(`SceneReplay.Rib.shown_lex_eq_flatMap`). All that a line learns from its place is its number:
one more than the line ends before it. A line has one trouble at most, because a trouble ends
the reading of its line (`SceneReplay.Rib.pairwise_troublesOf`), and whatever is wrong with it
is of no concern to any other line.

Only an integer with too many digits ends more than its line. The texts here have none that
reading gets to (`SceneReplay.Rib.IsUnstopped`). Two of them, one below the other, are such a
text again, and its tokens and reports are those of the upper one and then those of the lower
one, moved down (`SceneReplay.Rib.lex_by_lines`).
-/

namespace SceneReplay.Rib

/-! ### Texts that are read to their end -/

/-- The trouble that a step of reading meets, with its line. -/
def Lexed.trouble? : Lexed → Option (Trouble × Int)
  | .token _ => none
  | .trouble t line _ => some (t, line)

/-- **Nothing stops the reading of a text before its end**: it has no integer literal with too
many digits that reading gets to. -/
def IsUnstopped (t : Text) : Prop := ∀ literal digits, ¬ IsOversized t literal digits

theorem isUnstopped_iff {t : Text} : IsUnstopped t ↔ AllLocal (lex 1 t) := by
  constructor
  · rintro h (_ | c | digits) line remaining hstep
    · rfl
    · rfl
    · obtain ⟨literal, hliteral⟩ := exists_oversized hstep
      exact absurd hliteral (h literal digits)
  · rintro h literal digits ⟨-, ⟨line, hline⟩, -, -⟩
    exact Bool.false_ne_true (h _ _ _ hline)

instance (steps : List Lexed) : Decidable (AllLocal steps) :=
  decidable_of_iff (∀ step ∈ steps, ∀ u ∈ step.trouble?, u.1.isLocal = true) <| by
    constructor
    · intro h t line remaining ht
      exact h _ ht (t, line) rfl
    · rintro h (_ | ⟨t, line, remaining⟩) hstep u hu
      · cases hu
      · cases hu
        exact h t line remaining hstep

instance (t : Text) : Decidable (IsUnstopped t) := decidable_of_iff _ isUnstopped_iff.symm

theorem allLocal_append {steps steps' : List Lexed} :
    AllLocal (steps ++ steps') ↔ AllLocal steps ∧ AllLocal steps' := by
  constructor
  · intro h
    exact ⟨fun t line remaining ht => h t line remaining (List.mem_append_left _ ht),
      fun t line remaining ht => h t line remaining (List.mem_append_right _ ht)⟩
  · rintro ⟨h, h'⟩ t line remaining ht
    exact (List.mem_append.1 ht).elim (h t line remaining) (h' t line remaining)

theorem allLocal_followedBy (more : Nat) {steps : List Lexed} :
    AllLocal (steps.map (Lexed.followedBy more)) ↔ AllLocal steps := by
  constructor
  · intro h t line remaining ht
    exact h t line (remaining + more) (List.mem_map_of_mem ht)
  · intro h t line remaining ht
    obtain ⟨_ | ⟨t', line', remaining'⟩, hstep, heq⟩ := List.mem_map.1 ht
    · cases heq
    · cases heq
      exact h t line remaining' hstep

theorem allLocal_below (k : Int) {steps : List Lexed} :
    AllLocal (steps.map (Lexed.below k)) ↔ AllLocal steps := by
  constructor
  · intro h t line remaining ht
    exact h t (line + k) remaining (List.mem_map_of_mem ht)
  · intro h t line remaining ht
    obtain ⟨_ | ⟨t', line', remaining'⟩, hstep, heq⟩ := List.mem_map.1 ht
    · cases heq
    · cases heq
      exact h t line' remaining hstep

/-- The steps of reading two texts, one below the other. -/
theorem lex_append_eq {a : Text} (ha : IsUnstopped a) (b : Text) :
    lex 1 (a ++ .char '\n' :: b)
      = (lex 1 a).map (Lexed.followedBy (b.length + 1))
        ++ (lex 1 b).map (Lexed.below (a.count (.char '\n') + 1)) := by
  rw [lex_append_lineEnd b (isUnstopped_iff.1 ha), Int.add_assoc, lex_add]

/-- **Of two texts, one below the other**, nothing stops the reading exactly if nothing stops
that of each. -/
theorem isUnstopped_append {a b : Text} :
    IsUnstopped (a ++ .char '\n' :: b) ↔ IsUnstopped a ∧ IsUnstopped b := by
  by_cases ha : IsUnstopped a
  · rw [isUnstopped_iff, lex_append_eq ha, allLocal_append, allLocal_followedBy, allLocal_below,
      isUnstopped_iff, isUnstopped_iff]
  · refine iff_of_false (fun h => ha ?_) fun h => ha h.1
    rw [isUnstopped_iff] at h ⊢
    exact h.of_append_lineEnd

/-! ### Troubles -/

/-- The troubles among the steps of reading, each with its line. -/
def troublesOf (steps : List Lexed) : List (Trouble × Int) := steps.filterMap Lexed.trouble?

/-- The report of a trouble on a line. -/
def Trouble.report (t : Trouble) (line : Int) : Report := (Problem.unreadable t).report line

/-- What is reported of the code points of a text that make no token. -/
def lexicalReports (t : Text) : List Report := (troubleEvents (lex 1 t)).filterMap Event.report?

/-- **A trouble is reported once**, unless it stops the reading. -/
theorem report_troubleEvents {steps : List Lexed} (h : AllLocal steps) :
    (troubleEvents steps).filterMap Event.report?
      = (troublesOf steps).map fun u => u.1.report u.2 := by
  induction steps with
  | nil => rfl
  | cons step steps ih =>
    rcases step with t | ⟨_ | c | digits, line, remaining⟩
    · exact ih h.of_cons
    · exact congrArg (_ :: ·) (ih h.of_cons)
    · exact congrArg (_ :: ·) (ih h.of_cons)
    · exact absurd (h _ _ _ List.mem_cons_self) Bool.false_ne_true

theorem lexicalReports_eq {t : Text} (h : IsUnstopped t) :
    lexicalReports t = (troublesOf (lex 1 t)).map fun u => u.1.report u.2 :=
  report_troubleEvents (isUnstopped_iff.1 h)

/-- What is left of a text below its first line begins with the end of that line. -/
theorem dropWhile_inLine (t : Text) :
    t.dropWhile inLine = [] ∨ ∃ rest, t.dropWhile inLine = .char '\n' :: rest := by
  rcases hrest : t.dropWhile inLine with _ | ⟨c, rest⟩
  · exact Or.inl rfl
  · have hc : inLine c = false := by
      have hhead := List.head?_dropWhile_not inLine t
      rwa [hrest] at hhead
    obtain rfl : c = .char '\n' := by simpa [inLine] using hc
    exact Or.inr ⟨rest, rfl⟩

/-- Reading never goes up. -/
theorem le_line_of_mem_lex {line : Int} {cs : Text} {step : Lexed} (h : step ∈ lex line cs) :
    line ≤ step.line := by
  obtain ⟨before, -, -, -, -, hline⟩ := isPlaced_of_mem_lex h
  omega

/-- **After a trouble** reading goes on below its line. -/
theorem lt_line_of_mem_lex {line : Int} {cs : Text} {step : Lexed}
    (h : step ∈ lex line (cs.dropWhile inLine)) : line < step.line := by
  rcases dropWhile_inLine cs with hrest | ⟨rest, hrest⟩
  · rw [hrest, lex] at h
    cases h
  · rw [hrest, lex_lineEnd] at h
    exact Int.lt_of_add_one_le (le_line_of_mem_lex h)

/-- **No line has two troubles**: each stands further down than the one before. -/
theorem pairwise_troublesOf (line : Int) (cs : Text) :
    (troublesOf (lex line cs)).Pairwise fun u v => u.2 < v.2 := by
  induction line, cs using lex.induct with
  | case1 line =>
    rw [lex]
    exact .nil
  | case2 line c cs rest _ hscan ih => rwa [lex_of_spaces hscan]
  | case3 line c cs rest _ hscan ih => rwa [lex_of_lineEnd hscan]
  | case4 line c cs l rest _ hscan ih =>
    rw [lex_of_lexeme hscan]
    exact ih
  | case5 line c cs trouble rest _ hscan ih =>
    rw [lex_of_trouble hscan]
    refine List.Pairwise.cons ?_ ?_
    · intro u hu
      obtain ⟨_ | ⟨t, line', remaining⟩, hstep, ⟨⟩⟩ := List.mem_filterMap.1 hu
      split at hstep
      · exact lt_line_of_mem_lex hstep
      · cases hstep
    · split
      · exact ih
      · exact .nil

theorem tokensOf_append (steps steps' : List Lexed) :
    tokensOf (steps ++ steps') = tokensOf steps ++ tokensOf steps' :=
  List.filterMap_append

theorem troublesOf_append (steps steps' : List Lexed) :
    troublesOf (steps ++ steps') = troublesOf steps ++ troublesOf steps' :=
  List.filterMap_append

theorem troublesOf_followedBy (more : Nat) (steps : List Lexed) :
    troublesOf (steps.map (Lexed.followedBy more)) = troublesOf steps := by
  rw [troublesOf, List.filterMap_map, troublesOf]
  refine List.filterMap_congr fun step _ => ?_
  rcases step with t | ⟨t, line, remaining⟩ <;> rfl

theorem troublesOf_below (k : Int) (steps : List Lexed) :
    troublesOf (steps.map (Lexed.below k))
      = (troublesOf steps).map fun u => (u.1, u.2 + k) := by
  rw [troublesOf, List.filterMap_map, troublesOf, List.map_filterMap]
  refine List.filterMap_congr fun step _ => ?_
  rcases step with t | ⟨t, line, remaining⟩ <;> rfl

/-! ### Lines -/

/-- The lines of a text, without their ends. -/
def lines (t : Text) : List Text := t.splitOn (.char '\n')

/-- A single line. -/
theorem lines_of_inLine {l : Text} (h : ∀ c ∈ l, inLine c = true) : lines l = [l] :=
  List.splitOn_eq_singleton fun hmem => absurd (h _ hmem) (by decide)

/-- A line with a text below. -/
theorem lines_append {l : Text} (h : ∀ c ∈ l, inLine c = true) (t : Text) :
    lines (l ++ .char '\n' :: t) = l :: lines t :=
  List.splitOn_append_cons_self_of_not_mem (fun hmem => absurd (h _ hmem) (by decide)) t

/-- **Induction on the lines of a text**: it is a single line, or a line with a text below. -/
theorem line_induction {P : Text → Prop} (single : ∀ l, (∀ c ∈ l, inLine c = true) → P l)
    (above : ∀ l t, (∀ c ∈ l, inLine c = true) → P t → P (l ++ .char '\n' :: t)) (t : Text) :
    P t := by
  have hline : ∀ c ∈ t.takeWhile inLine, inLine c = true := fun c hc => List.mem_takeWhile_imp hc
  have ht : t.takeWhile inLine ++ t.dropWhile inLine = t := List.takeWhile_append_dropWhile
  rcases dropWhile_inLine t with hrest | ⟨rest, hrest⟩
  · rw [← ht, hrest, List.append_nil]
    exact single _ hline
  · have hshorter : rest.length < t.length := by
      have hlength := length_dropWhile_le inLine t
      rw [hrest, List.length_cons] at hlength
      omega
    rw [← ht, hrest]
    exact above _ rest hline (line_induction single above rest)
termination_by t.length

/-- A step of reading, however much of the text is left. -/
def Lexed.shown : Lexed → Lexed
  | .token t => .token t
  | .trouble t line _ => .trouble t line 0

theorem tokensOf_shown (steps : List Lexed) :
    tokensOf (steps.map Lexed.shown) = tokensOf steps := by
  rw [tokensOf, List.filterMap_map, tokensOf]
  refine List.filterMap_congr fun step _ => ?_
  rcases step with t | ⟨t, line, remaining⟩ <;> rfl

theorem troublesOf_shown (steps : List Lexed) :
    troublesOf (steps.map Lexed.shown) = troublesOf steps := by
  rw [troublesOf, List.filterMap_map, troublesOf]
  refine List.filterMap_congr fun step _ => ?_
  rcases step with t | ⟨t, line, remaining⟩ <;> rfl

theorem shown_followedBy (more : Nat) (step : Lexed) :
    (step.followedBy more).shown = step.shown := by
  cases step <;> rfl

theorem shown_below (k : Int) (step : Lexed) : (step.below k).shown = step.shown.below k := by
  cases step <;> rfl

theorem below_zero (step : Lexed) : step.below 0 = step := by
  rcases step with t | ⟨t, line, remaining⟩
  · simp [Lexed.below, Token.below]
  · simp [Lexed.below]

theorem below_below (j k : Int) (step : Lexed) : (step.below j).below k = step.below (j + k) := by
  rcases step with t | ⟨t, line, remaining⟩
  · simp [Lexed.below, Token.below, Int.add_assoc]
  · simp [Lexed.below, Int.add_assoc]

/-- **A text is read as its lines are**, each as if it stood alone, but on its own line. -/
theorem shown_lex_eq_flatMap {t : Text} (h : IsUnstopped t) :
    (lex 1 t).map Lexed.shown
      = (lines t).zipIdx.flatMap fun l => ((lex 1 l.1).map Lexed.shown).map (Lexed.below l.2) := by
  induction t using line_induction with
  | single l hl =>
    rw [lines_of_inLine hl, List.zipIdx_singleton, List.flatMap_singleton, Int.natCast_zero,
      List.map_congr_left fun step _ => below_zero step, List.map_id']
  | above l t hl ih =>
    obtain ⟨hline, ht⟩ := isUnstopped_append.1 h
    have hupper : ((lex 1 l).map (Lexed.followedBy (t.length + 1))).map Lexed.shown
        = (lex 1 l).map Lexed.shown := by
      rw [List.map_map]
      exact List.map_congr_left fun step _ => shown_followedBy _ step
    have hlower : ((lex 1 t).map (Lexed.below 1)).map Lexed.shown
        = ((lex 1 t).map Lexed.shown).map (Lexed.below 1) := by
      rw [List.map_map, List.map_map]
      exact List.map_congr_left fun step _ => shown_below 1 step
    rw [lex_append_eq hline, count_lineEnd_eq_zero hl, lines_append hl, List.map_append, hupper,
      List.zipIdx_cons', List.flatMap_cons, Int.natCast_zero, Int.zero_add, hlower, ih ht,
      List.map_congr_left fun step _ => below_zero step, List.map_id', List.flatMap_map,
      List.map_flatMap]
    refine congrArg (_ ++ ·) (List.flatMap_congr fun l _ => ?_)
    rw [List.map_map]
    exact List.map_congr_left fun step _ => below_below _ 1 step

/-! ### Two texts and their lines -/

/-- **Two texts, one below the other, are read as each by itself**, but for the lines of the
lower one. -/
structure ReadApart (a b : Text) : Prop where
  /-- Nothing stops the reading of both. -/
  unstopped : IsUnstopped (a ++ .char '\n' :: b)
  /-- The tokens are those of the upper text, and those of the lower one, moved down. -/
  tokens : tokensOf (lex 1 (a ++ .char '\n' :: b))
    = tokensOf (lex 1 a) ++ (tokensOf (lex 1 b)).map (Token.below (a.count (.char '\n') + 1))
  /-- So are the reports. -/
  reports : lexicalReports (a ++ .char '\n' :: b)
    = lexicalReports a
      ++ (troublesOf (lex 1 b)).map fun u => u.1.report (u.2 + (a.count (.char '\n') + 1))

/-- **A text is read line by line.** -/
structure ReadByLines (t : Text) : Prop where
  /-- Every token and every trouble is on the line of its place in the text. -/
  placed : ∀ step ∈ lex 1 t, step.IsPlaced 1 t
  /-- The troubles are what is reported, each on its line. -/
  reports : lexicalReports t = (troublesOf (lex 1 t)).map fun u => u.1.report u.2
  /-- No line has two of them. -/
  once : (troublesOf (lex 1 t)).Pairwise fun u v => u.2 < v.2
  /-- The tokens are those of the lines, whatever is wrong with other lines. -/
  tokens : tokensOf (lex 1 t)
    = (lines t).zipIdx.flatMap fun l => (tokensOf (lex 1 l.1)).map (Token.below l.2)
  /-- So are the troubles. -/
  troubles : troublesOf (lex 1 t)
    = (lines t).zipIdx.flatMap fun l =>
        (troublesOf (lex 1 l.1)).map fun u => (u.1, u.2 + (l.2 : Int))

theorem readByLines {t : Text} (h : IsUnstopped t) : ReadByLines t where
  placed _ hstep := isPlaced_of_mem_lex hstep
  reports := lexicalReports_eq h
  once := pairwise_troublesOf 1 t
  tokens := by
    rw [← tokensOf_shown, shown_lex_eq_flatMap h, tokensOf, List.filterMap_flatMap]
    refine List.flatMap_congr fun l _ => ?_
    change tokensOf _ = _
    rw [tokensOf_below, tokensOf_shown]
  troubles := by
    rw [← troublesOf_shown, shown_lex_eq_flatMap h, troublesOf, List.filterMap_flatMap]
    refine List.flatMap_congr fun l _ => ?_
    change troublesOf _ = _
    rw [troublesOf_below, troublesOf_shown]

/-- **Reading is local to lines.** Two texts whose reading nothing stops are read, one below the
other, as each by itself; and such a text is read line by line. -/
theorem lex_by_lines {a b : Text} (ha : IsUnstopped a) (hb : IsUnstopped b) :
    ReadApart a b ∧ ∀ t, IsUnstopped t → ReadByLines t := by
  have hboth : IsUnstopped (a ++ .char '\n' :: b) := isUnstopped_append.2 ⟨ha, hb⟩
  refine ⟨⟨hboth, ?_, ?_⟩, fun t ht => readByLines ht⟩
  · rw [lex_append_eq ha, tokensOf_append, tokensOf_followedBy, tokensOf_below]
  · rw [lexicalReports_eq hboth, lex_append_eq ha, troublesOf_append, troublesOf_followedBy,
      troublesOf_below, List.map_append, List.map_map, lexicalReports_eq ha]
    rfl

/-- A line that leaves a text open after a backslash, one that makes no token, and one with a
quotation mark in its comment. -/
def openLines : Text := "Sphere \"a # b\" \"open \\\n% 1 \"x\nWorld # \"c"

/-- A line that leaves a text open, and one that ends in no token. -/
def openLinesBelow : Text := "\"left open\nEnd 2 @"

theorem lex_by_lines_leftOpen :
    (IsUnstopped openLines ∧ IsUnstopped openLinesBelow) ∧
      (ReadApart openLines openLinesBelow ∧ ReadByLines openLines) ∧
      (tokensOf (lex 1 (openLines ++ .char '\n' :: openLinesBelow))).map Token.line
        = [1, 1, 3, 3, 5, 5] ∧
      (troublesOf (lex 1 (openLines ++ .char '\n' :: openLinesBelow))).map Prod.snd
        = [1, 2, 4, 5] := by
  have hupper : IsUnstopped openLines := by decide +kernel
  have hlower : IsUnstopped openLinesBelow := by decide +kernel
  have h := lex_by_lines hupper hlower
  exact ⟨⟨hupper, hlower⟩, ⟨h.1, h.2 _ hupper⟩, by decide +kernel, by decide +kernel⟩

end SceneReplay.Rib
