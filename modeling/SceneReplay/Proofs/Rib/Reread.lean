import Mathlib.Data.List.Forall2
import SceneReplay.Proofs.Rib.Words
import SceneReplay.Rib.Arguments

/-!
# What is read back

Writing a value and reading it gives the value back, but for two things that nobody can
tell apart: a whole double of moderate size is written without a point, so that a
parameter holds an integer of the same value afterwards, and zero loses its sign.
`SceneReplay.Number.reread` and the functions after it say what exactly is read back of
numbers, values, parameters and commands; what is read back is the *same*, in the sense
in which values are compared (`SceneReplay.Command.same_reread`).

A value is *writable* if it is of the kind that scene files can spell: a flag, a text, an
integer of not too many digits, a finite double, or a list of these. A writable value
spells the operand that stands for what is read back
(`SceneReplay.Rib.spells_value`), and so do parameters and, word for word, the lines of
commands.
-/

namespace SceneReplay

/-! ### Numbers -/

namespace Binary64

/-- The number, but for the sign of zero. -/
def unsignedZero : Binary64 → Binary64
  | .finite negative rank => .finite (negative && rank.val != 0) rank
  | x => x

/-- A whole number is a multiple of one. -/
theorem exists_of_isWhole {negative : Bool} {rank : Fin rankLimit}
    (h : (finite negative rank).isWhole = true) :
    ∃ m : Nat, units rank = m * unitsPerOne ∧
      (finite negative rank).truncate? = some (if negative then -(m : Int) else m) := by
  have hmod : units rank % unitsPerOne = 0 := by rwa [isWhole, beq_iff_eq] at h
  obtain ⟨m, hm⟩ := Nat.dvd_of_mod_eq_zero hmod
  rw [Nat.mul_comm] at hm
  refine ⟨m, hm, ?_⟩
  have hcast : ∀ {n : Nat}, 0 < n → (n : Int) ≠ 0 := by omega
  have hone := hcast unitsPerOne_pos
  simp only [truncate?, signedUnits, hm]
  generalize unitsPerOne = one at hone
  cases negative with
  | true =>
    rw [if_pos rfl, if_pos rfl, Int.natCast_mul, ← Int.neg_mul, Int.mul_tdiv_cancel _ hone]
  | false =>
    rw [if_neg (by simp), if_neg (by simp), Int.natCast_mul, Int.mul_tdiv_cancel _ hone]

theorem decide_lt_zero (negative : Bool) {rank : Fin rankLimit} {m : Nat}
    (hzero : rank.val = 0 ↔ m = 0) :
    decide ((if negative then -(m : Int) else m) < 0) = (negative && rank.val != 0) := by
  cases negative with
  | true =>
    by_cases hm : m = 0
    · simp [hm, hzero.2 hm]
    · have hrank : rank.val ≠ 0 := fun h => hm (hzero.1 h)
      have hless : -(m : Int) < 0 := by omega
      simp only [if_true, hless, decide_true, Bool.true_and]
      simpa using hrank
  | false => simp

/-- **A whole double that is read from the integer of its value** loses no more than the
sign of zero. -/
theorem ofInt?_of_isWhole {negative : Bool} {rank : Fin rankLimit} {n : Int}
    (h : (finite negative rank).isWhole = true)
    (hn : (finite negative rank).truncate? = some n) :
    ofInt? n = some (finite negative rank).unsignedZero := by
  obtain ⟨m, hm, htruncate⟩ := exists_of_isWhole h
  obtain rfl : (if negative then -(m : Int) else m) = n := by
    rw [htruncate] at hn
    exact Option.some.inj hn
  have hzero : rank.val = 0 ↔ m = 0 := by
    rw [← units_eq_zero, hm, Nat.mul_eq_zero]
    exact or_iff_left unitsPerOne_pos.ne'
  have hratio : m * unitsPerOne = units rank * 1 :=
    hm.symm.trans (Nat.mul_one _).symm
  have habs : (if negative then -(m : Int) else m).natAbs = m := by
    cases negative <;> simp
  have hsign := decide_lt_zero negative hzero
  rw [ofInt?, habs, hsign, ofRatio_of_units _ Nat.one_pos hratio]
  rfl

/-- The integer of a whole double has its value. -/
theorem hasValue_of_isWhole {negative : Bool} {rank : Fin rankLimit} {n : Int}
    (h : (finite negative rank).isWhole = true)
    (hn : (finite negative rank).truncate? = some n) :
    (finite negative rank).hasValue n = true := by
  obtain ⟨m, hm, htruncate⟩ := exists_of_isWhole h
  obtain rfl : (if negative then -(m : Int) else m) = n := by
    rw [htruncate] at hn
    exact Option.some.inj hn
  simp only [hasValue, signedUnits, hm, beq_iff_eq]
  generalize unitsPerOne = one
  cases negative <;> simp

/-- Zero has no sign that could be told. -/
theorem sameValue_unsignedZero (negative : Bool) (rank : Fin rankLimit) :
    (finite negative rank).sameValue (finite negative rank).unsignedZero = true := by
  simp only [sameValue, unsignedZero, signedUnits, beq_iff_eq]
  by_cases hzero : rank.val = 0
  · have hunits : units rank.val = 0 := units_eq_zero.2 hzero
    simp [hunits]
  · cases negative <;> simp [hzero]

end Binary64

namespace Number

/-- A number that scene files can spell: a finite double, or an integer of not too many
digits. -/
def IsWritable : Number → Prop
  | .int n => n.natAbs < 10 ^ digitLimit
  | .float (.finite _ _) => True
  | .float _ => False

/-- What is read back of a number: a whole double of moderate size comes back as an
integer. -/
def reread : Number → Number
  | .int n => .int n
  | .float x =>
    match (if x.isWhole then x.truncate? else none) with
    | some n => if n.natAbs < Rib.plainWholeBound then .int n else .float x
    | none => .float x

/-- **What is read back of a finite double**: an integer of its value, or itself. -/
theorem reread_float (negative : Bool) (rank : Fin Binary64.rankLimit) :
    (∃ n : Int, (Binary64.finite negative rank).isWhole = true ∧
        (Binary64.finite negative rank).truncate? = some n ∧ n.natAbs < Rib.plainWholeBound ∧
        reread (.float (.finite negative rank)) = .int n ∧
        Rib.numberText (.float (.finite negative rank)) = toString n) ∨
      rank.val ≠ 0 ∧ reread (.float (.finite negative rank)) = .float (.finite negative rank) ∧
        Rib.numberText (.float (.finite negative rank)) = (Binary64.finite negative rank).text := by
  by_cases hwhole : (Binary64.finite negative rank).isWhole = true
  · obtain ⟨m, hm, htruncate⟩ := Binary64.exists_of_isWhole hwhole
    have habs : (if negative then -(m : Int) else m).natAbs = m := by cases negative <;> simp
    by_cases hsmall : m < Rib.plainWholeBound
    · refine Or.inl ⟨_, hwhole, htruncate, by rw [habs]; exact hsmall, ?_, ?_⟩
      · simp only [reread, hwhole, if_true, htruncate, habs, hsmall]
      · simp only [Rib.numberText, hwhole, if_true, htruncate, habs, hsmall]
    · refine Or.inr ⟨?_, ?_, ?_⟩
      · intro hzero
        -- Zero is small.
        have : m * Binary64.unitsPerOne = 0 := by rw [← hm, Binary64.units_eq_zero.2 hzero]
        rcases Nat.mul_eq_zero.1 this with rfl | hone
        · exact hsmall (by decide)
        · exact absurd hone Binary64.unitsPerOne_pos.ne'
      · simp only [reread, hwhole, if_true, htruncate, habs, hsmall, if_false]
      · simp only [Rib.numberText, hwhole, if_true, htruncate, habs, hsmall, if_false]
  · refine Or.inr ⟨?_, ?_, ?_⟩
    · intro hzero
      refine hwhole ?_
      rw [Binary64.isWhole, Binary64.units_eq_zero.2 hzero, Nat.zero_mod, beq_self_eq_true]
    · simp only [reread, hwhole]
      rfl
    · simp only [Rib.numberText, hwhole]
      rfl

/-- **A written number spells what is read back.** -/
theorem speltBy_reread {n : Number} (h : n.IsWritable) : n.reread.SpeltBy (Rib.numberText n) := by
  match n, h with
  | .int n, h => exact speltBy_int h
  | .float (.finite negative rank), _ =>
    rcases reread_float negative rank with ⟨n, -, -, hsmall, hreread, htext⟩ | ⟨-, hreread, htext⟩
    · rw [hreread, htext]
      have hpow : ∀ {n : Nat}, 15 ≤ n → Rib.plainWholeBound ≤ 10 ^ n :=
        Nat.pow_le_pow_right (by decide)
      exact speltBy_int (Nat.lt_of_lt_of_le hsmall (hpow (by decide)))
    · rw [hreread, htext]
      exact speltBy_float negative rank

/-- What is read back has the same value. -/
theorem sameValue_reread {n : Number} (h : n.IsWritable) : n.sameValue n.reread = true := by
  match n, h with
  | .int n, _ => simp [reread, sameValue]
  | .float (.finite negative rank), _ =>
    rcases reread_float negative rank with ⟨n, hwhole, htruncate, -, hreread, -⟩ | ⟨-, hreread, -⟩
    · rw [hreread]
      exact Binary64.hasValue_of_isWhole hwhole htruncate
    · rw [hreread]
      simp [sameValue, Binary64.sameValue]

/-- A double that is read back as a double loses no more than the sign of zero. -/
theorem toBinary64?_reread (negative : Bool) (rank : Fin Binary64.rankLimit) :
    (reread (.float (.finite negative rank))).toBinary64?
      = some (Binary64.finite negative rank).unsignedZero := by
  rcases reread_float negative rank with ⟨n, hwhole, htruncate, -, hreread, -⟩ | ⟨hne, hreread, -⟩
  · rw [hreread]
    exact Binary64.ofInt?_of_isWhole hwhole htruncate
  · rw [hreread]
    simp [toBinary64?, Binary64.unsignedZero, hne]

end Number

/-! ### Scalars -/

namespace Scalar

/-- A scalar that scene files can spell. -/
def IsWritable : Scalar → Prop
  | .number n => n.IsWritable
  | .text _ => True

/-- What is read back of a scalar. -/
def reread : Scalar → Scalar
  | .number n => .number n.reread
  | .text t => .text t

/-- The token of a scalar. -/
def lexeme : Scalar → Rib.Lexeme
  | .number n => .number n
  | .text t => .text t

theorem same_reread {s : Scalar} (h : s.IsWritable) : s.same s.reread = true := by
  rcases s with n | t
  · exact Number.sameValue_reread h
  · exact beq_self_eq_true t

end Scalar

theorem Rib.spells_scalar {s : Scalar} (h : s.IsWritable) :
    Rib.Spells (Rib.scalarText s) [s.reread.lexeme] := by
  rcases s with n | t
  · exact Rib.spells_number (Number.speltBy_reread h)
  · exact Rib.spells_quoted t

/-! ### Values -/

/-- The tokens of an operand. -/
def Rib.Operand.lexemes : Rib.Operand → List Rib.Lexeme
  | .scalar s => [s.lexeme]
  | .array items => .opening :: (items.map Scalar.lexeme ++ [.closing])
  | .broken => []

namespace Value

/-- A value that is written as a single scalar. -/
inductive IsItem : Value → Prop
  | flag (b : Bool) : IsItem (.flag b)
  | scalar {s : Scalar} (h : s.IsWritable) : IsItem (.scalar s)

/-- A value that scene files can spell: a single one or a list of such. -/
inductive IsWritable : Value → Prop
  | item {v : Value} (h : v.IsItem) : IsWritable v
  | list {vs : List Value} (h : ∀ v ∈ vs, v.IsItem) : IsWritable (.list vs)

/-- What is read back of a single value. Doubles stay doubles where doubles are
wanted. -/
def rereadItem : Value → Value
  | .float x => .float x.unsignedZero
  | v => v

/-- What is read back of a value. -/
def reread : Value → Value
  | .list vs => .list (vs.map rereadItem)
  | v => v.rereadItem

/-- The scalar that a single value is written as. -/
def written? (v : Value) : Option Scalar := (Param.scalarOf? v).map Scalar.reread

/-- The operand that a value is written as; an absent value is not written. -/
def operand? : Value → Option Rib.Operand
  | .list vs => some (.array (vs.filterMap written?))
  | v => v.written?.map .scalar

theorem IsItem.freeze_eq {v : Value} (h : v.IsItem) : v.freeze = v := by
  rcases h with _ | _ <;> simp [freeze]

theorem IsItem.freeze_reread {v : Value} (h : v.IsItem) : v.rereadItem.freeze = v.rereadItem := by
  rcases h with b | @⟨n | t, -⟩
  · simp [rereadItem, freeze]
  · cases n <;> simp [rereadItem, freeze]
  · simp [rereadItem, freeze]

/-- A single value is the same as what is read back of it. -/
theorem IsItem.same_reread {v : Value} (h : v.IsItem) : v.same v.rereadItem = true := by
  rcases h with b | @⟨n | t, h⟩
  · simp [rereadItem, same, asNumber?, Number.sameValue]
  · match n, h with
    | .int n, _ => simp [rereadItem, same, asNumber?, Number.sameValue]
    | .float (.finite negative rank), _ =>
      simp [rereadItem, same, asNumber?, Number.sameValue,
        Binary64.sameValue_unsignedZero negative rank]
  · simp [rereadItem, same]

/-- **A value is the same as what is read back of it**, once both are frozen. -/
theorem same_reread {v : Value} (h : v.IsWritable) : v.freeze.same v.reread.freeze = true := by
  rcases h with h | @⟨vs, h⟩
  · -- A single value is no list, so freezing leaves it alone.
    have hreread : v.reread = v.rereadItem := by rcases h with _ | _ <;> rfl
    rw [hreread, h.freeze_eq, h.freeze_reread]
    exact h.same_reread
  · have hall : ∀ vs : List Value, (∀ v ∈ vs, v.IsItem) →
        sameAll (freezeAll vs) (freezeAll (vs.map rereadItem)) = true := by
      intro vs hvs
      induction vs with
      | nil => simp [sameAll]
      | cons v vs ih =>
        rw [List.forall_mem_cons] at hvs
        rw [List.map_cons, freezeAll_cons, freezeAll_cons, sameAll, hvs.1.freeze_eq,
          hvs.1.freeze_reread, hvs.1.same_reread, ih hvs.2]
        rfl
    simpa [freeze, reread, same] using hall vs h

end Value

namespace Rib

theorem spells_item {v : Value} (h : v.IsItem) :
    ∃ s, v.written? = some s ∧ Spells (valueText v.freeze) [s.lexeme] := by
  rw [h.freeze_eq]
  rcases h with b | @⟨s, h⟩
  · refine ⟨_, rfl, ?_⟩
    -- A flag is written as one of two integers.
    have hflag : Spells (toString (b.toNat : Int)) [.number (.int b.toNat)] := by
      refine spells_number (Number.speltBy_int ?_)
      refine Nat.lt_of_le_of_lt (m := 1) ?_ (Nat.one_lt_pow (by decide) (by decide))
      cases b <;> decide
    cases b <;> exact hflag
  · exact ⟨s.reread, rfl, spells_scalar h⟩

theorem spells_items {vs : List Value} (h : ∀ v ∈ vs, v.IsItem) :
    List.Forall₂ Spells (valueTexts (Value.freezeAll vs))
      ((vs.filterMap Value.written?).map fun s => [s.lexeme]) := by
  induction vs with
  | nil => exact .nil
  | cons v vs ih =>
    rw [List.forall_mem_cons] at h
    obtain ⟨s, hs, hspells⟩ := spells_item h.1
    rw [List.filterMap_cons_some hs]
    exact .cons hspells (ih h.2)

/-- **A writable value spells its operand.** -/
theorem spells_value {v : Value} (h : v.IsWritable) :
    ∃ op, v.operand? = some op ∧ Spells (valueText v.freeze) op.lexemes := by
  rcases h with h | @⟨vs, h⟩
  · obtain ⟨s, hs, hspells⟩ := spells_item h
    refine ⟨.scalar s, ?_, hspells⟩
    rcases h with _ | _ <;> simp_all [Value.operand?]
  · refine ⟨_, rfl, ?_⟩
    have hbracketed := spells_bracketed (spells_items h)
    rw [← List.flatMap_def, ← List.map_eq_flatMap] at hbracketed
    exact hbracketed

end Rib

/-! ### Parameters -/

theorem all_zip_map {α : Type} {f : α → α} {r : α → α → Bool} {l : List α}
    (h : ∀ a ∈ l, r a (f a) = true) : ((l.zip (l.map f)).all fun (a, b) => r a b) = true := by
  induction l with
  | nil => rfl
  | cons a l ih =>
    rw [List.forall_mem_cons] at h
    simpa [h.1] using ih h.2

namespace Param

variable {p : Param}

/-- A parameter that scene files can spell. -/
def IsWritable (p : Param) : Prop := ∀ s ∈ p.values, s.IsWritable

/-- What is read back of a parameter. -/
def reread (p : Param) : Param := { p with values := p.values.map Scalar.reread }

/-- The operands that a parameter is written as. -/
def operands (p : Param) : List Rib.Operand :=
  [.scalar (.text p.token), .array (p.values.map Scalar.reread)]

theorem same_reread (h : p.IsWritable) : p.same p.reread = true := by
  have hvalues := all_zip_map fun s hs => Scalar.same_reread (h s hs)
  simp [same, reread, hvalues]

end Param

theorem Rib.spells_param {p : Param} (h : p.IsWritable) :
    List.Forall₂ Rib.Spells (Rib.paramTexts p) (p.operands.map Rib.Operand.lexemes) := by
  have hvalues : List.Forall₂ Rib.Spells (p.values.map Rib.scalarText)
      ((p.values.map Scalar.reread).map fun s => [s.lexeme]) := by
    rw [List.map_map, List.forall₂_map_left_iff, List.forall₂_map_right_iff, List.forall₂_same]
    exact fun s hs => Rib.spells_scalar (h s hs)
  have harray := Rib.spells_bracketed hvalues
  rw [← List.flatMap_def, ← List.map_eq_flatMap] at harray
  exact .cons (Rib.spells_quoted p.token) (.cons harray .nil)

namespace ParamList

/-- What is read back of a parameter list. -/
def reread (ps : ParamList) : ParamList where
  items := ps.items.map Param.reread
  distinct := by
    rw [List.map_map]
    exact ps.distinct

theorem same_reread {ps : ParamList} (h : ∀ p ∈ ps.items, p.IsWritable) :
    ps.same ps.reread = true := by
  have hitems := all_zip_map fun p hp => Param.same_reread (h p hp)
  simp [same, reread, hitems]

end ParamList

/-! ### Commands -/

/-- The arguments of a procedure in the order in which they are written. -/
def Rib.writtenOrder (proc : String) (args : List Value) : List Value :=
  if proc = "Procedural" then
    match args with
    | [data, bound, refine, _] => [refine, data, bound]
    | _ => args
  else args

namespace Command

variable {c : Command}

/-- The command as a receiver takes it down. -/
def frozen (c : Command) : Command := { c with args := Value.freezeAll c.args }

/-- A command of an existing procedure, with as many arguments as that has and with
parameters exactly if that accepts any. -/
def IsWellFormed (c : Command) : Prop :=
  ∃ p, Procedure.find? c.proc = some p ∧ c.args.length = p.arity ∧
    c.params.isSome = p.takesParams

/-- A well-formed command is taken down as it is, but for its lists. -/
theorem IsWellFormed.reissue_eq (h : c.IsWellFormed) : c.reissue = .ok c.frozen := by
  obtain ⟨p, hp, hlength, hparams⟩ := h
  have hname := Procedure.name_of_find? hp
  rcases c with ⟨proc, args, params⟩
  simp only at hname hlength hparams
  subst hname
  simp only [reissue, hp, create]
  rw [if_neg (not_not.2 hlength)]
  cases htakes : p.takesParams with
  | true =>
    rw [htakes] at hparams
    obtain ⟨ps, rfl⟩ := Option.isSome_iff_exists.1 hparams
    simp [handedOn, htakes, frozen]
  | false =>
    rw [htakes] at hparams
    obtain rfl : params = none := Option.not_isSome_iff_eq_none.1 (Bool.eq_false_iff.1 hparams)
    simp [handedOn, htakes, frozen]

/-- What is read back of a command. -/
def reread (c : Command) : Command :=
  ⟨c.proc, c.args.map Value.reread, c.params.map ParamList.reread⟩

theorem IsWellFormed.reread (h : c.IsWellFormed) : c.reread.IsWellFormed := by
  obtain ⟨p, hp, hlength, hparams⟩ := h
  refine ⟨p, hp, ?_, ?_⟩
  · rw [Command.reread, List.length_map]
    exact hlength
  · rw [Command.reread, Option.isSome_map]
    exact hparams

/-- A command of things that scene files can spell, or that are absent. -/
structure IsWritable (c : Command) : Prop where
  /-- Each argument can be spelt, unless it is absent. -/
  args : ∀ v ∈ c.args, v = .null ∨ v.IsWritable
  /-- Each parameter can be spelt. -/
  params : ∀ ps, c.params = some ps → ∀ p ∈ ps.items, p.IsWritable

/-- The operands that the parameters of a command are written as. -/
def paramOperands (c : Command) : List Rib.Operand :=
  (c.params.map (·.items.flatMap Param.operands)).getD []

/-- The operands that a command is written as. -/
def operands (c : Command) : List Rib.Operand :=
  (Rib.writtenOrder c.proc c.args).filterMap Value.operand? ++ c.paramOperands

/-- **A command is the same as what is read back of it.** -/
theorem same_reread (h : c.IsWritable) : c.frozen.same c.reread.frozen = true := by
  have hargs : ∀ vs : List Value, (∀ v ∈ vs, v = .null ∨ v.IsWritable) →
      Value.sameAll (Value.freezeAll vs) (Value.freezeAll (vs.map Value.reread)) = true := by
    intro vs hvs
    induction vs with
    | nil => simp [Value.sameAll]
    | cons v vs ih =>
      rw [List.forall_mem_cons] at hvs
      have hsame : v.freeze.same v.reread.freeze = true := by
        rcases hvs.1 with rfl | hv
        · simp [Value.freeze, Value.reread, Value.rereadItem, Value.same]
        · exact Value.same_reread hv
      rw [List.map_cons, Value.freezeAll_cons, Value.freezeAll_cons, Value.sameAll, hsame,
        ih hvs.2]
      rfl
  have hparams := h.params
  rcases c with ⟨proc, args, _ | ps⟩
  · simp [same, frozen, reread, hargs args h.args]
  · simp [same, frozen, reread, hargs args h.args, ParamList.same_reread (hparams ps rfl)]

end Command

end SceneReplay
