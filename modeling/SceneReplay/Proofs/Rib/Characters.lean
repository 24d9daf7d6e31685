import SceneReplay.Proofs.Rib.LineLocal
import SceneReplay.Proofs.Rib.Scalars
import SceneReplay.Text.Encoding

/-!
# Texts of characters

A text may hold lone surrogates, which are no characters; it has no UTF-8 form then
(`SceneReplay.Text.unencodable?_eq_none_iff`). A scene of characters alone never leads to such a
text. No escape spells a surrogate, so its tokens are of characters, and so is all that it
calls for (`SceneReplay.Rib.ofCharacters_of_calls`) and every line that is written for it
(`SceneReplay.Rib.ofCharacters_commandText`).
-/

namespace SceneReplay

/-! ### Texts -/

namespace Text

/-- A text of characters alone. -/
def OfCharacters (t : Text) : Prop := ∀ c ∈ t, c.isSurrogate = false

theorem ofCharacters_ofString (s : String) : (ofString s).OfCharacters :=
  List.forall_mem_map.2 fun _ _ => rfl

theorem OfCharacters.append {t u : Text} (ht : t.OfCharacters) (hu : u.OfCharacters) :
    OfCharacters (t ++ u) := List.forall_mem_append.2 ⟨ht, hu⟩

theorem OfCharacters.of_subset {t u : Text} (h : u.OfCharacters) (hsubset : t ⊆ u) :
    t.OfCharacters := fun c hc => h c (hsubset hc)

/-- A text of characters is the text of the string that shows it. -/
theorem OfCharacters.ofString_display {t : Text} (h : t.OfCharacters) :
    ofString t.display = t := by
  induction t with
  | nil => rfl
  | cons c t ih =>
    rw [OfCharacters, List.forall_mem_cons] at h
    obtain ⟨hc, ht⟩ := h
    have hrest := ih ht
    rw [display, ofString, String.toList_ofList] at hrest ⊢
    rw [List.map_cons, ofChars, List.map_cons]
    rcases c with c | i
    · exact congrArg (CodePoint.char c :: ·) hrest
    · cases hc

theorem ofCharacters_intercalate {separator : Text} (h : separator.OfCharacters) {ts : List Text}
    (hts : ∀ t ∈ ts, t.OfCharacters) : OfCharacters (List.intercalate separator ts) := by
  induction ts with
  | nil => nofun
  | cons t ts ih =>
    rw [List.forall_mem_cons] at hts
    rcases ts with _ | ⟨u, us⟩
    · simpa using hts.1
    · rw [List.intercalate_cons_cons]
      exact (hts.1.append h).append (ih hts.2)

theorem firstSurrogates?_eq_none_iff {position : Nat} {t : Text} :
    firstSurrogates? position t = none ↔ t.OfCharacters := by
  induction t generalizing position with
  | nil => exact iff_of_true rfl nofun
  | cons c t ih =>
    rw [firstSurrogates?, OfCharacters, List.forall_mem_cons]
    cases hc : c.isSurrogate
    · simpa [OfCharacters] using ih
    · simp

/-- **Texts of characters are those with a UTF-8 form.** -/
theorem unencodable?_eq_none_iff {t : Text} : t.unencodable? = none ↔ t.OfCharacters := by
  rw [unencodable?, Option.map_eq_none_iff, firstSurrogates?_eq_none_iff]

end Text

open Text

/-- A scalar that is a number, or a text of characters. -/
def Scalar.OfCharacters : Scalar → Prop
  | .number _ => True
  | .text t => t.OfCharacters

theorem Scalar.Becomes.ofCharacters {s s' : Scalar} (h : s.Becomes s') (hs : s.OfCharacters) :
    s'.OfCharacters := by
  cases h with
  | same => exact hs
  | double | whole => trivial
  | shown n => exact ofCharacters_ofString _

/-- A value with texts of characters alone, however deep. -/
def Value.OfCharacters (v : Value) : Prop := ∀ s ∈ v.scalars, s.OfCharacters

/-- A command with texts of characters alone. -/
def Command.OfCharacters (c : Command) : Prop := ∀ s ∈ c.scalars, s.OfCharacters

namespace Rib

/-! ### Tokens -/

/-- An escape stands for a character unless it is that of a surrogate. -/
theorem isSurrogate_unescape (c : CodePoint) : (unescape c).isSurrogate = c.isSurrogate := by
  unfold unescape
  split <;> rfl

theorem ofCharacters_takeQuoted {cs body rest : Text} (h : takeQuoted cs = some (body, rest))
    (hcs : cs.OfCharacters) : body.OfCharacters := by
  fun_induction takeQuoted cs generalizing body rest with
  | case1 | case3 | case4 | case5 => cases h
  | case2 cs =>
    cases h
    exact List.forall_mem_nil _
  | case6 c cs _ ih =>
    obtain ⟨⟨body', rest'⟩, hrest, ⟨⟩⟩ := Option.map_eq_some_iff.1 h
    simp only [OfCharacters, List.forall_mem_cons] at hcs
    refine List.forall_mem_cons.2 ⟨?_, ih hrest hcs.2.2⟩
    rw [isSurrogate_unescape]
    exact hcs.2.1
  | case7 c cs _ _ _ _ _ ih =>
    obtain ⟨⟨body', rest'⟩, hrest, ⟨⟩⟩ := Option.map_eq_some_iff.1 h
    rw [OfCharacters, List.forall_mem_cons] at hcs
    exact List.forall_mem_cons.2 ⟨hcs.1, ih hrest hcs.2⟩

/-- The text of a quoted text or comment. -/
def Lexeme.text? : Lexeme → Option Text
  | .text t => some t
  | .comment t => some t
  | .hint t => some t
  | _ => none

theorem ofCharacters_of_scan {c : CodePoint} {cs : Text} {l : Lexeme}
    (h : (scan c cs).1 = .lexeme l) (hcs : cs.OfCharacters) : ∀ t ∈ l.text?, t.OfCharacters := by
  have htake : ∀ ds : Text, ds ⊆ cs → OfCharacters (ds.takeWhile inLine) := fun ds hds =>
    hcs.of_subset fun d hd => hds (List.takeWhile_subset _ hd)
  intro t ht
  unfold scan at h
  split at h
  · cases h
  · split at h
    · cases h
    · split at h
      · unfold scanComment at h
        split at h <;> cases h <;> cases ht
        · exact htake _ (List.subset_cons_self _ _)
        · exact htake _ (List.Subset.refl _)
      · split at h
        · unfold scanQuoted at h
          split at h
          · rename_i hquoted
            cases h
            cases ht
            exact ofCharacters_takeQuoted hquoted hcs
          · cases h
        · unfold scanWord numeralPiece at h
          split at h
          · -- A number has no text.
            dsimp only at h
            split at h <;> cases h
            cases ht
          · split at h
            · cases h
              cases ht
            · split at h
              · cases h
                cases ht
              · split at h <;> cases h
                cases ht

/-- **The tokens of a text of characters** have texts of characters. -/
theorem ofCharacters_of_mem_tokensOf {t : Text} (h : t.OfCharacters) (line : Int) :
    ∀ u ∈ tokensOf (lex line t), ∀ s ∈ u.lexeme.text?, s.OfCharacters := by
  intro u hu
  obtain ⟨step, hstep, hsome⟩ := List.mem_filterMap.1 hu
  rcases step with u' | _
  · obtain rfl : u' = u := Option.some.inj hsome
    obtain ⟨d, ds, hsuffix, ⟨hscan⟩⟩ := exists_of_mem_lex hstep
    have hds : ds ⊆ t := List.Subset.trans (List.subset_cons_self d ds) hsuffix.subset
    exact ofCharacters_of_scan hscan (h.of_subset hds)
  · cases hsome

/-- **What a text of characters calls for** has texts of characters. -/
theorem ofCharacters_of_calls {t : Text} (h : t.OfCharacters) : ∀ c ∈ calls t, c.OfCharacters := by
  have htokens := ofCharacters_of_mem_tokensOf h 1
  intro c hc
  refine (origin_of_events c hc).forall_scalars (fun _ _ hbecomes => hbecomes.ofCharacters)
    (fun u hu s hs => ?_) fun u hu r hr => ?_
  · have htext := htokens u hu
    cases hl : u.lexeme with
    | number n =>
      rw [hl] at hs
      cases hs
      trivial
    | text body =>
      rw [hl] at hs htext
      cases hs
      exact htext body rfl
    | _ =>
      rw [hl] at hs
      cases hs
  · refine ⟨ofCharacters_ofString r.type, ?_⟩
    have htext := htokens u hu
    cases hl : u.lexeme with
    | comment body | hint body =>
      rw [hl] at hr htext
      cases hr
      exact htext body rfl
    | _ =>
      rw [hl] at hr
      cases hr

/-! ### Lines -/

theorem ofCharacters_quoted {t : Text} (h : t.OfCharacters) : (quoted t).OfCharacters := by
  have hchar : ∀ c : CodePoint, c.isSurrogate = false → OfCharacters (quotedChar c) := by
    intro c hc
    unfold quotedChar
    split
    · simp [OfCharacters, CodePoint.isSurrogate]
    · simp [OfCharacters, CodePoint.isSurrogate]
    · simp [OfCharacters, CodePoint.isSurrogate]
    · exact List.forall_mem_singleton.2 hc
  have hbody : OfCharacters (t.flatMap quotedChar) :=
    List.forall_mem_flatMap.2 fun c hc => hchar c (h c hc)
  exact List.forall_mem_cons.2 ⟨rfl, OfCharacters.append hbody (List.forall_mem_singleton.2 rfl)⟩

theorem ofCharacters_scalarText {s : Scalar} (h : s.OfCharacters) :
    (scalarText s).OfCharacters := by
  rcases s with n | t
  · exact ofCharacters_ofString _
  · exact ofCharacters_quoted h

theorem ofCharacters_bracketed {ts : List Text} (h : ∀ t ∈ ts, t.OfCharacters) :
    (bracketed ts).OfCharacters := by
  have hitems := ofCharacters_intercalate (ofCharacters_ofString " ") h
  exact List.forall_mem_cons.2 ⟨rfl, hitems.append (List.forall_mem_singleton.2 rfl)⟩

/-- A value as it is shown on its own. -/
theorem ofCharacters_plain {v : Value} (h : v.OfCharacters) : v.plain.OfCharacters := by
  rcases v with _ | b | (n | t) | items | items | ⟨names, fields⟩ | ⟨i, name⟩ | ⟨i, shown⟩
  case scalar.text => exact h _ List.mem_cons_self
  all_goals exact ofCharacters_ofString _

mutual

theorem ofCharacters_valueText : (v : Value) → v.OfCharacters → (valueText v).OfCharacters
  | .null, _ => by
    rw [valueText]
    nofun
  | .flag b, _ => by
    rw [valueText]
    cases b <;> exact ofCharacters_ofString _
  | .scalar s, h => by
    rw [valueText]
    exact ofCharacters_scalarText (h s List.mem_cons_self)
  | .list items, h => by
    rw [valueText]
    exact ofCharacters_bracketed (ofCharacters_valueTexts items h)
  | .tuple items, h => by
    rw [valueText]
    exact ofCharacters_bracketed (ofCharacters_valueTexts items h)
  | .record names fields, h => by
    rw [valueText]
    · exact ofCharacters_quoted (ofCharacters_plain h)
    all_goals nofun
  | .callback _ name, _ => by
    rw [valueText]
    exact ofCharacters_quoted (ofCharacters_ofString name)
  | .object identity shown, h => by
    rw [valueText]
    · exact ofCharacters_quoted (ofCharacters_plain h)
    all_goals nofun

theorem ofCharacters_valueTexts : (vs : List Value) →
    (∀ s ∈ Value.scalarsIn vs, s.OfCharacters) → ∀ t ∈ valueTexts vs, t.OfCharacters
  | [], _ => nofun
  | v :: vs, h => by
    rw [Value.scalarsIn, List.forall_mem_append] at h
    exact List.forall_mem_cons.2 ⟨ofCharacters_valueText v h.1, ofCharacters_valueTexts vs h.2⟩

end

theorem ofCharacters_recordMark (type : Value) : (recordMark type).OfCharacters := by
  unfold recordMark
  split
  · split
    · exact ofCharacters_ofString _
    · split
      · exact ofCharacters_ofString _
      · nofun
  · nofun

theorem ofCharacters_paramListTexts {c : Command} (h : c.OfCharacters) :
    ∀ t ∈ paramListTexts c.params, t.OfCharacters := by
  rw [Command.OfCharacters, Command.scalars, List.forall_mem_append, List.forall_mem_flatMap] at h
  rw [paramListTexts_eq, ← List.flatMap_def, List.forall_mem_flatMap]
  intro p hp
  have hscalars := List.forall_mem_cons.1 (h.2 p hp)
  rw [paramTexts, List.forall_mem_cons, List.forall_mem_singleton]
  refine ⟨ofCharacters_quoted hscalars.1, ofCharacters_bracketed ?_⟩
  rw [List.forall_mem_map]
  exact fun s hs => ofCharacters_scalarText (hscalars.2 s hs)

/-- **The line of a command with texts of characters** is of characters. -/
theorem ofCharacters_commandText {c : Command} (h : c.OfCharacters) {line : Text}
    (hline : commandText c = .ok line) : line.OfCharacters := by
  have hparams := ofCharacters_paramListTexts h
  have hargs : ∀ v ∈ c.args, v.OfCharacters := fun v hv s hs =>
    h s (List.mem_append_left _ (Value.mem_scalarsIn.2 ⟨v, hv, hs⟩))
  have hspace := ofCharacters_ofString " "
  unfold commandText at hline
  split at hline
  · split at hline
    · rename_i type text heq
      cases hline
      rw [heq] at hargs
      exact (ofCharacters_recordMark type).append (ofCharacters_plain (hargs text (by simp)))
    · cases hline
  · split at hline
    · split at hline
      · rename_i data bound refine' rest heq
        cases hline
        rw [heq] at hargs
        simp only [List.forall_mem_cons] at hargs
        refine ofCharacters_intercalate hspace ?_
        simp only [List.forall_mem_cons]
        exact ⟨ofCharacters_ofString _, ofCharacters_valueText _ hargs.2.2.1,
          ofCharacters_valueText _ hargs.1, ofCharacters_valueText _ hargs.2.1, hparams⟩
      · cases hline
    · cases hline
      refine ofCharacters_intercalate hspace ?_
      rw [List.forall_mem_cons, List.forall_mem_append]
      refine ⟨ofCharacters_ofString _, ofCharacters_valueTexts _ fun s hs => ?_, hparams⟩
      obtain ⟨v, hv, hs⟩ := Value.mem_scalarsIn.1 hs
      exact hargs v (List.mem_of_mem_filter hv) s hs

theorem ofCharacters_repeated {t : Text} (h : t.OfCharacters) (n : Nat) :
    (Writer.repeated t n).OfCharacters := by
  induction n with
  | zero => nofun
  | succ n ih => exact h.append ih

/-- **A file of commands with texts of characters** is of characters. -/
theorem ofCharacters_deliver {cs : List Command} (hcs : ∀ c ∈ cs, c.OfCharacters) {w : Writer}
    (hindent : w.indent.OfCharacters) (hlines : ∀ line ∈ w.lines.toList, line.OfCharacters) :
    (deliver w cs).text.OfCharacters := by
  induction cs generalizing w with
  | nil =>
    refine List.forall_mem_flatMap.2 fun line hline => ?_
    exact (hlines line hline).append (List.forall_mem_singleton.2 rfl)
  | cons c cs ih =>
    rw [List.forall_mem_cons] at hcs
    have hnext : (w.write c).1.indent.OfCharacters ∧
        ∀ line ∈ (w.write c).1.lines.toList, line.OfCharacters := by
      unfold Writer.write
      rcases hline : commandText c with f | line
      · exact ⟨hindent, hlines⟩
      · refine ⟨hindent, ?_⟩
        simp only [Array.toList_push, List.forall_mem_append, List.forall_mem_singleton]
        exact ⟨hlines, OfCharacters.append (ofCharacters_repeated hindent _)
          (ofCharacters_commandText hcs.1 hline)⟩
    exact ih hcs.2 hnext.1 hnext.2

end Rib

end SceneReplay
