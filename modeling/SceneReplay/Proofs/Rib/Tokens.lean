import Mathlib.Data.List.Induction
import Mathlib.Data.List.TakeWhile
import SceneReplay.Proofs.Rib.Operands
import SceneReplay.Rib.Event

/-!
# What tokens can be

Reading a text does not give just any tokens. An integer has no more digits than is
allowed, no double is the one that is no number, and a comment stays on its line and does
not start with the mark of a structural hint (`SceneReplay.Rib.Lexeme.IsLexed`). What all
pieces of a text are, all its tokens are (`SceneReplay.Rib.forall_lex`); so the operands of
its requests come from tokens (`SceneReplay.Rib.isLexed_of_firstBroken?`), as does the text
of each comment.
-/

namespace SceneReplay

/-! ### Numbers -/

namespace Text

theorem digitValue?_lt {c : CodePoint} {d : Nat} (h : digitValue? c = some d) : d < 10 := by
  simp only [digitValue?, Option.map_eq_some_iff] at h
  obtain ⟨z, hz, rfl⟩ := h
  have hrange := List.find?_some hz
  simp only [Bool.and_eq_true, decide_eq_true_eq] at hrange
  omega

/-- So many digits spell a number below that power of ten. -/
theorem digitsValue_lt (ds : Text) : digitsValue ds < 10 ^ ds.length := by
  induction ds using List.reverseRecOn with
  | nil => decide
  | append_singleton ds c ih =>
    have hdigit : (digitValue? c).getD 0 < 10 := by
      rcases h : digitValue? c with _ | d
      · decide
      · exact digitValue?_lt h
    rw [digitsValue_append_singleton, List.length_append, List.length_singleton, Nat.pow_succ]
    omega

end Text

theorem Binary64.ofRank_ne_nan (negative : Bool) (rank : Nat) : ofRank negative rank ≠ .nan := by
  unfold ofRank
  split <;> nofun

theorem Decimal.toBinary64_ne_nan (negative : Bool) (d : Decimal) :
    d.toBinary64 negative ≠ .nan := by
  unfold toBinary64 Binary64.ofRatio
  split
  · exact Binary64.ofRank_ne_nan _ _
  · split
    · split
      · nofun
      · exact Binary64.ofRank_ne_nan _ _
    · split
      · exact Binary64.ofRank_ne_nan _ _
      · exact Binary64.ofRank_ne_nan _ _

/-- **The number of a numeral** is no longer than is allowed, and a number. -/
theorem Numeral.isLexed_of_value {m : Numeral} {n : Number} (h : m.value = .ok n) :
    n.IsLexed := by
  unfold value at h
  split at h
  · split at h
    · cases h
    · rename_i hlength
      cases h
      have hlt : Text.digitsValue m.whole < 10 ^ digitLimit :=
        Nat.lt_of_lt_of_le (Text.digitsValue_lt m.whole)
          (Nat.pow_le_pow_right (by decide) (Nat.le_of_not_lt hlength))
      simp only [Number.IsLexed]
      cases m.negative <;> simpa using hlt
  · cases h
    exact Decimal.toBinary64_ne_nan _ _

namespace Rib

/-! ### Tokens -/

/-- A token as reading a text gives it. -/
def Lexeme.IsLexed : Lexeme → Prop
  | .number n => n.IsLexed
  | .comment t => (∀ c ∈ t, inLine c = true) ∧ t.head? ≠ some (.char '#')
  | .hint t => ∀ c ∈ t, inLine c = true
  | _ => True

theorem isLexed_of_scanComment {cs rest : Text} {l : Lexeme}
    (h : scanComment cs = (.lexeme l, rest)) : l.IsLexed := by
  have hinLine : ∀ t : Text, ∀ c ∈ t.takeWhile inLine, inLine c = true :=
    fun _ _ hc => List.mem_takeWhile_imp hc
  unfold scanComment at h
  split at h
  · cases h
    exact hinLine _
  · rename_i hmark
    cases h
    refine ⟨hinLine cs, ?_⟩
    rcases cs with _ | ⟨c, cs⟩
    · nofun
    · -- What is taken begins with the same code point, or is empty.
      intro hhead
      by_cases hc : inLine c = true
      · rw [List.takeWhile_cons_of_pos hc] at hhead
        exact hmark cs (congrArg (· :: cs) (Option.some.inj hhead))
      · rw [List.takeWhile_cons_of_neg hc] at hhead
        cases hhead

theorem isLexed_of_scan {c : CodePoint} {cs rest : Text} {l : Lexeme}
    (h : scan c cs = (.lexeme l, rest)) : l.IsLexed := by
  unfold scan at h
  split at h
  · cases h
  · split at h
    · cases h
    · split at h
      · exact isLexed_of_scanComment h
      · split at h
        · unfold scanQuoted at h
          split at h <;> cases h
          trivial
        · unfold scanWord at h
          split at h
          · rename_i m rest' hm
            unfold numeralPiece at h
            split at h
            · rename_i n hn
              cases h
              exact m.isLexed_of_value hn
            · cases h
          · split at h
            · cases h
              trivial
            · split at h
              · cases h
                trivial
              · split at h
                · cases h
                  trivial
                · cases h

/-- **What all pieces of a text are, all its tokens are.** -/
theorem forall_lex {P : Lexeme → Prop}
    (h : ∀ {c : CodePoint} {cs rest : Text} {l : Lexeme}, scan c cs = (.lexeme l, rest) → P l)
    (line : Int) (cs : Text) : ∀ t, .token t ∈ lex line cs → P t.lexeme := by
  induction line, cs using lex.induct with
  | case1 line =>
    rw [lex]
    rintro t ⟨⟩
  | case2 line c cs rest _ hscan ih =>
    rw [lex_of_spaces hscan]
    exact ih
  | case3 line c cs rest _ hscan ih =>
    rw [lex_of_lineEnd hscan]
    exact ih
  | case4 line c cs l rest _ hscan ih =>
    rw [lex_of_lexeme hscan]
    rintro t (_ | ⟨_, ht⟩)
    · exact h hscan
    · exact ih t ht
  | case5 line c cs trouble rest _ hscan ih =>
    rw [lex_of_trouble hscan]
    rintro t (_ | ⟨_, ht⟩)
    split at ht
    · exact ih t ht
    · cases ht

/-- **All tokens of a text** are as reading gives them. -/
theorem isLexed_of_mem_tokensOf {line : Int} {cs : Text} :
    ∀ t ∈ tokensOf (lex line cs), t.lexeme.IsLexed := by
  intro t ht
  obtain ⟨step, hstep, hsome⟩ := List.mem_filterMap.1 ht
  rcases step with t' | _
  · obtain rfl : t' = t := Option.some.inj hsome
    exact forall_lex isLexed_of_scan line cs t' hstep
  · cases hsome

/-! ### Operands -/

section Scalars

variable {P : Scalar → Prop}

mutual

/-- **What all scalars among some tokens are**, the scalars of their operands are. -/
theorem forall_scalars_operands : (ts : List Token) →
    (∀ t ∈ ts, ∀ s ∈ scalarOf? t.lexeme, P s) → ∀ op ∈ operands ts, ∀ s ∈ op.1.scalars, P s
  | [], _ => nofun
  | ⟨l, line⟩ :: ts, h => by
    rw [List.forall_mem_cons] at h
    have ih := forall_scalars_operands ts h.2
    cases l with
    | number n => exact List.forall_mem_cons.2 ⟨List.forall_mem_singleton.2 (h.1 _ rfl), ih⟩
    | text t => exact List.forall_mem_cons.2 ⟨List.forall_mem_singleton.2 (h.1 _ rfl), ih⟩
    | opening => exact forall_scalars_arrayOperands ts h.2 line [] nofun
    | closing => exact List.forall_mem_cons.2 ⟨nofun, ih⟩
    | name s => exact ih
    | comment t => exact ih
    | hint t => exact ih

theorem forall_scalars_arrayOperands : (ts : List Token) →
    (∀ t ∈ ts, ∀ s ∈ scalarOf? t.lexeme, P s) → ∀ (line : Int) (items : List Scalar),
      (∀ s ∈ items, P s) → ∀ op ∈ arrayOperands line items ts, ∀ s ∈ op.1.scalars, P s
  | [], _, line, items, _ => List.forall_mem_singleton.2 nofun
  | ⟨l, line'⟩ :: ts, h, line, items, hitems => by
    rw [List.forall_mem_cons] at h
    have ih := forall_scalars_operands ts h.2
    -- An array that is broken off leaves the rest to be read outside of it.
    have hbroken : ∀ op ∈ (Operand.broken, line) :: operands ts, ∀ s ∈ op.1.scalars, P s :=
      List.forall_mem_cons.2 ⟨nofun, ih⟩
    have hmore : ∀ s : Scalar, P s → ∀ s' ∈ items ++ [s], P s' := fun s hs =>
      List.forall_mem_append.2 ⟨hitems, List.forall_mem_singleton.2 hs⟩
    cases l with
    | number n =>
      exact forall_scalars_arrayOperands ts h.2 line _ (hmore (.number n) (h.1 _ rfl))
    | text t => exact forall_scalars_arrayOperands ts h.2 line _ (hmore (.text t) (h.1 _ rfl))
    | opening =>
      exact List.forall_mem_cons.2
        ⟨nofun, forall_scalars_arrayOperands ts h.2 line' [] nofun⟩
    | closing => exact List.forall_mem_cons.2 ⟨hitems, ih⟩
    | name s => exact hbroken
    | comment t => exact hbroken
    | hint t => exact hbroken

end

end Scalars

/-- Where no operand is found broken, none is. -/
theorem ne_broken_of_firstBroken? {ops : List (Operand × Int)} (h : firstBroken? ops = none) :
    ∀ op ∈ ops.map Prod.fst, op ≠ .broken := by
  rw [firstBroken?, Option.map_eq_none_iff, List.find?_eq_none] at h
  rw [List.forall_mem_map]
  exact fun op hop => by simpa using h op hop

/-- **Operands that are not broken come from tokens.** -/
theorem isLexed_of_firstBroken? {ts : List Token} (h : ∀ t ∈ ts, t.lexeme.IsLexed)
    (hwhole : firstBroken? (operands ts) = none) :
    ∀ op ∈ (operands ts).map Prod.fst, op.IsLexed := by
  have hscalars : ∀ t ∈ ts, ∀ s ∈ scalarOf? t.lexeme, s.IsLexed := by
    intro t ht s hs
    have hlexed := h t ht
    cases hl : t.lexeme with
    | number n =>
      rw [hl] at hs hlexed
      obtain rfl := Option.some.inj hs
      exact hlexed
    | text t =>
      rw [hl] at hs
      obtain rfl := Option.some.inj hs
      trivial
    | _ =>
      rw [hl] at hs
      cases hs
  intro op hop
  have hne := ne_broken_of_firstBroken? hwhole op hop
  obtain ⟨op', hop', rfl⟩ := List.mem_map.1 hop
  exact ⟨hne, forall_scalars_operands ts hscalars op' hop'⟩

end Rib

end SceneReplay
