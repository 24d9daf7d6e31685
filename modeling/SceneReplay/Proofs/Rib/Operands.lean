import SceneReplay.Proofs.Rib.Reread
import SceneReplay.Rib.Arguments

/-!
# Reading operands twice

What the operands of a request are read as can be written, and the operands that it is
written as are read as what is read back of it.

The argument goes kind by kind. A value *fits* a kind if it is of the form that reading
an argument of this kind gives (`SceneReplay.ArgKind.Fits`). Whatever is read fits
(`SceneReplay.Rib.fits_of_readArgument`), and whatever fits is read back from its operand
(`SceneReplay.Rib.readArgument_operand?`); the rest is putting arguments, parameters and
the two together, in `SceneReplay.Rib.readCall_operands`.

Two things are asked of what is read. The operands come from tokens, so that an integer
has no more digits than is allowed and no double is the one that is no number
(`SceneReplay.Rib.Operand.IsLexed`). And no infinite double is left in the call
(`SceneReplay.Command.carriesInfinity`): a scene file can spell one, as `1e999`, but the
text that an infinity is written as is a name.
-/

namespace SceneReplay

/-! ### Infinite doubles -/

/-- Whether a double is infinite. -/
def Binary64.isInfinite : Binary64 → Bool
  | .infinite _ => true
  | _ => false

/-- Whether a scalar is an infinite double. -/
def Scalar.isInfinite : Scalar → Bool
  | .number (.float x) => x.isInfinite
  | _ => false

mutual

/-- Whether there is an infinite double in a value, however deep. -/
def Value.carriesInfinity : Value → Bool
  | .scalar s => s.isInfinite
  | .list items => Value.anyInfinity items
  | .tuple items => Value.anyInfinity items
  | .record _ fields => Value.anyInfinity fields
  | _ => false

/-- Whether there is an infinite double in one of some values. -/
def Value.anyInfinity : List Value → Bool
  | [] => false
  | v :: vs => v.carriesInfinity || Value.anyInfinity vs

end

/-- Whether a command carries an infinite double, in an argument or a parameter. -/
def Command.carriesInfinity (c : Command) : Bool :=
  Value.anyInfinity c.args ||
    (c.params.map fun ps => ps.items.any fun p => p.values.any Scalar.isInfinite).getD false

namespace Value

theorem anyInfinity_eq_false {vs : List Value} :
    anyInfinity vs = false ↔ ∀ v ∈ vs, v.carriesInfinity = false := by
  induction vs with
  | nil => simp [anyInfinity]
  | cons v vs ih => rw [anyInfinity, Bool.or_eq_false_iff, ih, List.forall_mem_cons]

mutual

/-- Freezing a value adds no infinite double to it, and takes none away. -/
theorem carriesInfinity_freeze : (v : Value) → v.freeze.carriesInfinity = v.carriesInfinity
  | .list items => by simp [freeze, carriesInfinity, anyInfinity_freezeAll items]
  | .tuple items => by simp [freeze, carriesInfinity, anyInfinity_freezeAll items]
  | .null | .flag _ | .scalar _ | .record _ _ | .callback _ _ | .object _ _ => by simp [freeze]

theorem anyInfinity_freezeAll : (vs : List Value) → anyInfinity (freezeAll vs) = anyInfinity vs
  | [] => rfl
  | v :: vs => by
    rw [freezeAll_cons, anyInfinity, anyInfinity, carriesInfinity_freeze v,
      anyInfinity_freezeAll vs]

end

end Value

theorem Command.carriesInfinity_frozen (c : Command) :
    c.frozen.carriesInfinity = c.carriesInfinity := by
  simp [carriesInfinity, frozen, Value.anyInfinity_freezeAll]

/-! ### Scalars from tokens -/

namespace Number

/-- A number as tokens spell it. -/
def IsLexed : Number → Prop
  | .int n => n.natAbs < 10 ^ digitLimit
  | .float x => x ≠ .nan

/-- A number from a token is writable, unless it is infinite. -/
theorem IsLexed.isWritable {n : Number} (h : n.IsLexed)
    (hfinite : Scalar.isInfinite (.number n) = false) : n.IsWritable := by
  rcases n with n | _ | _ | ⟨negative, rank⟩
  · exact h
  · exact h rfl
  · exact Bool.noConfusion hfinite
  · trivial

end Number

namespace Scalar

/-- A scalar as tokens spell it. -/
def IsLexed : Scalar → Prop
  | .number n => n.IsLexed
  | .text _ => True

theorem IsLexed.isWritable {s : Scalar} (h : s.IsLexed) (hfinite : s.isInfinite = false) :
    s.IsWritable := by
  rcases s with n | t
  · exact Number.IsLexed.isWritable h hfinite
  · trivial

end Scalar

namespace Rib.Operand

/-- The scalars of an operand. -/
def scalars : Operand → List Scalar
  | .scalar s => [s]
  | .array items => items
  | .broken => []

/-- An operand as tokens spell it. -/
structure IsLexed (op : Operand) : Prop where
  /-- Its brackets fit. -/
  whole : op ≠ .broken
  /-- Its scalars come from tokens. -/
  scalars : ∀ s ∈ op.scalars, s.IsLexed

end Rib.Operand

namespace Binary64

/-- A double that is nearest to an integer is finite. -/
theorem exists_of_ofInt? {n : Int} {x : Binary64} (h : ofInt? n = some x) :
    ∃ negative rank, x = .finite negative rank := by
  unfold ofInt? at h
  generalize ofRatio (n < 0) n.natAbs 1 = y at h
  rcases y with _ | _ | ⟨negative, rank⟩
  · cases h
  · cases h
  · exact ⟨negative, rank, (Option.some.inj h).symm⟩

/-- The units of a double fit in as many bits as an integer may have digits. -/
theorem units_lt (rank : Fin rankLimit) : units rank < 2 ^ digitLimit := by
  have hblock : rank.val / 2 ^ 52 - 1 ≤ 2045 := by
    have : rank.val / 2 ^ 52 < 2047 := (Nat.div_lt_iff_lt_mul (by decide)).2 rank.isLt
    omega
  have hrest : rank.val % 2 ^ 52 < 2 ^ 52 := Nat.mod_lt _ (by decide)
  have hlimit : digitLimit = 4300 := rfl
  unfold units
  split
  · exact Nat.lt_trans ‹_› (Nat.pow_lt_pow_right (by decide) (by decide))
  · generalize rank.val / 2 ^ 52 - 1 = block at hblock
    calc (2 ^ 52 + rank.val % 2 ^ 52) * 2 ^ block
        < 2 ^ 53 * 2 ^ block := Nat.mul_lt_mul_of_pos_right (by omega) (Nat.two_pow_pos _)
      _ = 2 ^ (53 + block) := (Nat.pow_add 2 53 block).symm
      _ ≤ 2 ^ digitLimit := Nat.pow_le_pow_right (by decide) (by omega)

/-- The integer of a whole double has not too many digits. -/
theorem natAbs_lt_of_isWhole {x : Binary64} {n : Int} (h : x.isWhole = true)
    (hn : x.truncate? = some n) : n.natAbs < 10 ^ digitLimit := by
  rcases x with _ | _ | ⟨negative, rank⟩
  · cases h
  · cases h
  · obtain ⟨m, hm, htruncate⟩ := exists_of_isWhole h
    obtain rfl : (if negative then -(m : Int) else m) = n := by
      rw [htruncate] at hn
      exact Option.some.inj hn
    have habs : (if negative then -(m : Int) else m).natAbs = m := by cases negative <;> simp
    have hle : m ≤ units rank := by
      rw [hm]
      exact Nat.le_mul_of_pos_right m unitsPerOne_pos
    rw [habs]
    calc m ≤ units rank := hle
      _ < 2 ^ digitLimit := units_lt rank
      _ ≤ 10 ^ digitLimit := Nat.pow_le_pow_left (by decide) _

end Binary64

/-! ### What a scalar is read as -/

/-- The single values that a kind is read as. -/
inductive ScalarKind.Fits : ScalarKind → Value → Prop
  | int {n : Int} (h : n.natAbs < 10 ^ digitLimit) : Fits .int (.int n)
  | float (negative : Bool) (rank : Fin Binary64.rankLimit) :
      Fits .float (.float (.finite negative rank))
  | flag (b : Bool) : Fits .flag (.flag b)
  | token (t : Text) : Fits .token (.text t)
  | string (t : Text) : Fits .string (.text t)

theorem ScalarKind.Fits.isItem {kind : ScalarKind} {v : Value} (h : kind.Fits v) :
    v.IsItem := by
  rcases h with h | ⟨negative, rank⟩ | b | t | t
  · exact .scalar h
  · exact .scalar trivial
  · exact .flag b
  · exact .scalar trivial
  · exact .scalar trivial

namespace Rib

/-- A computation of two parts succeeds if both do. -/
theorem bind_eq_ok {ε α β : Type} {x : Except ε α} {f : α → Except ε β} {b : β} :
    x >>= f = .ok b ↔ ∃ a, x = .ok a ∧ f a = .ok b := by
  rcases x with e | a
  · exact ⟨nofun, fun ⟨_, h, _⟩ => nomatch h⟩
  · exact ⟨fun h => ⟨a, rfl, h⟩, fun ⟨_, ha, h⟩ => by cases ha; exact h⟩

/-- It fails if one of them does. -/
theorem bind_eq_error {ε α β : Type} {x : Except ε α} {f : α → Except ε β} {e : ε} :
    x >>= f = .error e ↔ x = .error e ∨ ∃ a, x = .ok a ∧ f a = .error e := by
  rcases x with e' | a
  · refine ⟨fun h => Or.inl (congrArg Except.error (Except.error.inj h)), ?_⟩
    rintro (h | ⟨a, ⟨⟩, -⟩)
    exact congrArg Except.error (Except.error.inj h)
  · refine ⟨fun h => Or.inr ⟨a, rfl, h⟩, ?_⟩
    rintro (⟨⟨⟩⟩ | ⟨_, ⟨⟩, h⟩)
    exact h

/-- What is computed from a list is computed from its members. -/
theorem exists_of_mapM {ε α β : Type} {f : α → Except ε β} {as : List α} {bs : List β}
    (h : as.mapM f = .ok bs) : bs.length = as.length ∧ ∀ b ∈ bs, ∃ a ∈ as, f a = .ok b := by
  induction as generalizing bs with
  | nil =>
    obtain rfl : [] = bs := Except.ok.inj h
    exact ⟨rfl, nofun⟩
  | cons a as ih =>
    rw [List.mapM_cons, bind_eq_ok] at h
    obtain ⟨b, hb, h⟩ := h
    obtain ⟨bs', hbs, h⟩ := bind_eq_ok.1 h
    obtain rfl : b :: bs' = bs := Except.ok.inj h
    obtain ⟨hlength, hmem⟩ := ih hbs
    refine ⟨by rw [List.length_cons, List.length_cons, hlength], ?_⟩
    rintro c (_ | ⟨_, hc⟩)
    · exact ⟨a, List.mem_cons_self, hb⟩
    · obtain ⟨a', ha', hf⟩ := hmem c hc
      exact ⟨a', List.mem_cons_of_mem a ha', hf⟩

/-- The computation fails for one of the members if it fails for the list. -/
theorem exists_of_mapM_error {ε α β : Type} {f : α → Except ε β} {as : List α} {e : ε}
    (h : as.mapM f = .error e) : ∃ a ∈ as, f a = .error e := by
  induction as with
  | nil => cases h
  | cons a as ih =>
    rw [List.mapM_cons, bind_eq_error] at h
    rcases h with h | ⟨b, -, h⟩
    · exact ⟨a, List.mem_cons_self, h⟩
    · rcases bind_eq_error.1 h with h | ⟨bs, -, ⟨⟩⟩
      obtain ⟨a', ha', hf⟩ := ih h
      exact ⟨a', List.mem_cons_of_mem a ha', hf⟩

variable {proc arg : String} {v : Value} {s : Scalar}

theorem fits_of_readDouble {n : Number} (h : readDouble n = .ok v) (hn : n.IsLexed)
    (hfinite : v.carriesInfinity = false) : ScalarKind.float.Fits v := by
  unfold readDouble at h
  split at h
  · rename_i x hx
    obtain rfl : Value.float x = v := Except.ok.inj h
    rcases n with n | y
    · obtain ⟨negative, rank, rfl⟩ := Binary64.exists_of_ofInt? hx
      exact .float negative rank
    · -- A double is taken as it is, so tokens and the call leave only the finite ones.
      obtain rfl : y = x := Option.some.inj hx
      rcases y with _ | _ | ⟨negative, rank⟩
      · exact absurd rfl hn
      · exact Bool.noConfusion hfinite
      · exact .float negative rank
  · cases h

/-- **What a scalar is read as fits the kind.** -/
theorem fits_of_readScalar {kind : ScalarKind} (h : readScalar arg kind s = .ok v)
    (hs : s.IsLexed) (hfinite : v.carriesInfinity = false) : kind.Fits v := by
  rcases s with n | t
  · cases kind with
    | int =>
      simp only [readScalar] at h
      split at h
      · rename_i k hk
        obtain rfl : Value.int k = v := Except.ok.inj h
        refine .int ?_
        rcases n with n | x
        · obtain rfl : n = k := Option.some.inj hk
          exact hs
        · -- A whole double becomes the integer of its value, which is never too long.
          simp only [Number.toWhole?] at hk
          split at hk
          · exact Binary64.natAbs_lt_of_isWhole ‹_› hk
          · cases hk
      · cases h
    | float => exact fits_of_readDouble h hs hfinite
    | flag =>
      obtain rfl : Value.flag (!n.isZero) = v := Except.ok.inj h
      exact .flag _
    | token => cases h
    | string => cases h
  · cases kind with
    | int => cases h
    | float => cases h
    | flag => cases h
    | token =>
      obtain rfl : Value.text t = v := Except.ok.inj h
      exact .token t
    | string =>
      obtain rfl : Value.text t = v := Except.ok.inj h
      exact .string t

theorem fits_of_readOne {kind : ScalarKind} (h : readOne proc arg kind s = .ok v)
    (hs : s.IsLexed) (hfinite : v.carriesInfinity = false) : kind.Fits v := by
  unfold readOne at h
  split at h
  · split at h
    · rename_i n _
      obtain rfl : Value.text n.text = v := Except.ok.inj h
      exact .token _
    · cases h
  · split at h
    · rename_i n _
      obtain rfl : Value.text n.text = v := Except.ok.inj h
      exact .string _
    · cases h
  · exact fits_of_readScalar h hs hfinite

theorem readDouble_reread (negative : Bool) (rank : Fin Binary64.rankLimit) :
    readDouble (Number.reread (.float (.finite negative rank)))
      = .ok (.float (Binary64.finite negative rank).unsignedZero) := by
  rw [readDouble, Number.toBinary64?_reread]

/-- **What fits a kind is read back** from the scalar that it is written as. -/
theorem readScalar_written? {kind : ScalarKind} (h : kind.Fits v) (proc arg : String) :
    ∃ s, v.written? = some s ∧ readScalar arg kind s = .ok v.rereadItem ∧
      readOne proc arg kind s = .ok v.rereadItem := by
  rcases h with h | ⟨negative, rank⟩ | b | t | t
  · exact ⟨_, rfl, rfl, rfl⟩
  · have hdouble := readDouble_reread negative rank
    exact ⟨_, rfl, hdouble, hdouble⟩
  · have hflag : (!(Number.int b.toNat).isZero) = b := by cases b <;> rfl
    have hread : ∀ arg, readScalar arg .flag (.number (.int b.toNat)) = .ok (.flag b) := by
      intro arg
      rw [readScalar, hflag]
    exact ⟨_, rfl, hread arg, hread arg⟩
  · exact ⟨_, rfl, rfl, rfl⟩
  · exact ⟨_, rfl, rfl, rfl⟩

theorem mapM_readScalar_written? {kind : ScalarKind} {vs : List Value}
    (h : ∀ v ∈ vs, kind.Fits v) (arg : String) :
    (vs.filterMap Value.written?).mapM (readScalar arg kind)
      = .ok (vs.map Value.rereadItem) := by
  induction vs with
  | nil => rfl
  | cons v vs ih =>
    rw [List.forall_mem_cons] at h
    obtain ⟨s, hs, hread, -⟩ := readScalar_written? h.1 "" arg
    rw [List.filterMap_cons_some hs, List.mapM_cons, hread, ih h.2]
    rfl

/-! ### What rows of numbers are read as -/

theorem mem_of_mapM_some {α β : Type} {f : α → Option β} {as : List α} {bs : List β}
    (h : as.mapM f = some bs) : ∀ b ∈ bs, ∃ a ∈ as, f a = some b := by
  induction as generalizing bs with
  | nil =>
    obtain rfl : [] = bs := Option.some.inj h
    exact nofun
  | cons a as ih =>
    simp only [List.mapM_cons, Option.bind_eq_bind, Option.bind_eq_some_iff] at h
    obtain ⟨b, hb, bs', hbs, h⟩ := h
    obtain rfl : b :: bs' = bs := Option.some.inj h
    rintro c (_ | ⟨_, hc⟩)
    · exact ⟨a, List.mem_cons_self, hb⟩
    · obtain ⟨a', ha', hf⟩ := ih hbs c hc
      exact ⟨a', List.mem_cons_of_mem a ha', hf⟩

theorem number_mem_of_itemNumbers? {items : List Scalar} {ns : List Number}
    (h : itemNumbers? items = some ns) : ∀ n ∈ ns, .number n ∈ items := by
  intro n hn
  obtain ⟨s, hs, hsome⟩ := mem_of_mapM_some h n hn
  rcases s with m | t
  · obtain rfl : m = n := Option.some.inj hsome
    exact hs
  · cases hsome

theorem number_mem_of_bareNumbers? {ops : List Operand} {ns : List Number}
    (h : bareNumbers? ops = some ns) : ∀ n ∈ ns, .scalar (.number n) ∈ ops := by
  intro n hn
  obtain ⟨op, hop, hsome⟩ := mem_of_mapM_some h n hn
  rcases op with (m | t) | items | _
  · obtain rfl : m = n := Option.some.inj hsome
    exact hop
  · cases hsome
  · cases hsome
  · cases hsome

/-- A row of so many finite doubles. -/
def IsRow (count : Nat) (v : Value) : Prop :=
  ∃ vs, v = .list vs ∧ vs.length = count ∧ ∀ v ∈ vs, ScalarKind.float.Fits v

theorem isRow_of_readNumbers {count : Nat} {numbers? : Option (List Number)}
    (h : readNumbers arg count numbers? = .ok v)
    (hlexed : ∀ ns, numbers? = some ns → ∀ n ∈ ns, n.IsLexed)
    (hfinite : v.carriesInfinity = false) : IsRow count v := by
  unfold readNumbers at h
  split at h
  · rename_i ns
    split at h
    · rename_i hcount
      rcases hvs : ns.mapM readDouble with e | vs
      · rw [hvs] at h
        cases h
      · rw [hvs] at h
        obtain rfl : Value.list vs = v := Except.ok.inj h
        obtain ⟨hlength, hmem⟩ := exists_of_mapM hvs
        rw [Value.carriesInfinity, Value.anyInfinity_eq_false] at hfinite
        refine ⟨vs, rfl, hlength.trans hcount, ?_⟩
        intro w hw
        obtain ⟨n, hn, hread⟩ := hmem w hw
        exact fits_of_readDouble hread (hlexed ns rfl n hn) (hfinite w hw)
    · cases h
  · cases h

/-- A row of numbers leaves operands that were there. -/
theorem subset_of_readFixed {count : Nat} {ops rest : List Operand}
    (h : readFixed arg count ops = .ok (v, rest)) : rest ⊆ ops := by
  unfold readFixed at h
  split at h
  · cases h
  · obtain ⟨w, -, h⟩ := bind_eq_ok.1 h
    cases h
    exact List.subset_cons_self _ _
  · obtain ⟨w, -, h⟩ := bind_eq_ok.1 h
    cases h
    exact List.drop_subset _ _

/-- **What a row of numbers is read as**, be it an array or bare numbers. -/
theorem isRow_of_readFixed {count : Nat} {ops rest : List Operand}
    (h : readFixed arg count ops = .ok (v, rest)) (hops : ∀ op ∈ ops, op.IsLexed)
    (hfinite : v.carriesInfinity = false) : IsRow count v := by
  unfold readFixed at h
  split at h
  · cases h
  · rename_i items rest'
    obtain ⟨w, hw, h⟩ := bind_eq_ok.1 h
    cases h
    refine isRow_of_readNumbers hw (fun ns hns n hn => ?_) hfinite
    exact (hops _ List.mem_cons_self).scalars _ (number_mem_of_itemNumbers? hns n hn)
  · obtain ⟨w, hw, h⟩ := bind_eq_ok.1 h
    cases h
    refine isRow_of_readNumbers hw (fun ns hns n hn => ?_) hfinite
    have hmem := List.mem_of_mem_take (number_mem_of_bareNumbers? hns n hn)
    exact (hops _ hmem).scalars _ List.mem_cons_self

/-- **A row of numbers is read back** from the array that it is written as. -/
theorem readFixed_operand? {count : Nat} (h : IsRow count v) (arg : String)
    (rest : List Operand) :
    ∃ op, v.operand? = some op ∧ readFixed arg count (op :: rest) = .ok (v.reread, rest) := by
  obtain ⟨vs, rfl, rfl, hvs⟩ := h
  refine ⟨_, rfl, ?_⟩
  -- Integers may stand in the array now, but each is the double that it was.
  have hnumbers : ∀ vs : List Value, (∀ v ∈ vs, ScalarKind.float.Fits v) →
      ∃ ns, itemNumbers? (vs.filterMap Value.written?) = some ns ∧ ns.length = vs.length ∧
        ns.mapM readDouble = .ok (vs.map Value.rereadItem) := by
    intro vs hvs
    induction vs with
    | nil => exact ⟨[], rfl, rfl, rfl⟩
    | cons v vs ih =>
      rw [List.forall_mem_cons] at hvs
      obtain ⟨ns, hns, hlength, hread⟩ := ih hvs.2
      rcases hvs.1 with _ | ⟨negative, rank⟩
      refine ⟨Number.reread (.float (.finite negative rank)) :: ns, ?_, by simp [hlength], ?_⟩
      · unfold itemNumbers? at hns ⊢
        rw [List.filterMap_cons_some (by rfl), List.mapM_cons, hns]
        rfl
      · rw [List.mapM_cons, readDouble_reread, hread]
        rfl
  obtain ⟨ns, hns, hlength, hread⟩ := hnumbers vs hvs
  simp only [readFixed, readNumbers, hns, hlength, if_true, hread]
  rfl

end Rib

/-! ### What an argument is read as -/

/-- The values that an argument of a kind is read as. -/
inductive ArgKind.Fits : ArgKind → Value → Prop
  | one {kind : ScalarKind} {v : Value} (h : kind.Fits v) : Fits (.one kind) v
  | many {kind : ScalarKind} {vs : List Value} (h : ∀ v ∈ vs, kind.Fits v) :
      Fits (.many kind) (.list vs)
  | row {kind : ArgKind} {count : Nat} {v : Value} (hsize : kind.fixedSize? = some count)
      (h : Rib.IsRow count v) : Fits kind v
  | basis (t : Text) : Fits .basis (.text t)
  | callback (t : Text) : Fits .callback (.text t)
  | pointer (t : Text) : Fits .pointer (.text t)

namespace Rib

variable {proc arg : String} {v : Value}

theorem IsRow.isWritable {count : Nat} (h : IsRow count v) : v.IsWritable := by
  obtain ⟨vs, rfl, -, hvs⟩ := h
  exact .list fun v hv => (hvs v hv).isItem

theorem isWritable_of_fits {kind : ArgKind} (h : kind.Fits v) : v.IsWritable := by
  rcases h with h | h | ⟨-, h⟩ | t | t | t
  · exact .item h.isItem
  · exact .list fun v hv => (h v hv).isItem
  · exact h.isWritable
  · exact .item (.scalar trivial)
  · exact .item (.scalar trivial)
  · exact .item (.scalar trivial)

/-- The one value of an operand is its only scalar. -/
theorem scalars_of_single {op : Operand} {s : Scalar} (h : single arg op = .ok s) :
    op.scalars = [s] := by
  unfold single at h
  split at h <;> cases h <;> rfl

theorem mem_scalars_of_single {op : Operand} {s : Scalar} (h : single arg op = .ok s) :
    s ∈ op.scalars :=
  scalars_of_single h ▸ List.mem_cons_self

/-- An argument leaves operands that were there. -/
theorem subset_of_readArgument {kind : ArgKind} {ops rest : List Operand}
    (h : readArgument proc arg kind ops = .ok (v, rest)) : rest ⊆ ops := by
  unfold readArgument at h
  split at h
  · split at h
    · cases h
      exact List.subset_cons_self _ _
    · exact subset_of_readFixed h
  · split at h
    · cases h
    · split at h
      · obtain ⟨vs, -, h⟩ := bind_eq_ok.1 h
        cases h
        exact List.subset_cons_self _ _
      · cases h
      · obtain ⟨s, -, h⟩ := bind_eq_ok.1 h
        obtain ⟨w, -, h⟩ := bind_eq_ok.1 h
        cases h
        exact List.subset_cons_self _ _
      · obtain ⟨s, -, h⟩ := bind_eq_ok.1 h
        obtain ⟨w, -, h⟩ := bind_eq_ok.1 h
        cases h
        exact List.subset_cons_self _ _

/-- **What an argument is read as fits its kind.** -/
theorem fits_of_readArgument {kind : ArgKind} {ops rest : List Operand}
    (h : readArgument proc arg kind ops = .ok (v, rest)) (hops : ∀ op ∈ ops, op.IsLexed)
    (hfinite : v.carriesInfinity = false) : kind.Fits v := by
  unfold readArgument at h
  split at h
  · rename_i count hsize
    -- A basis may be a name; every other kind of a fixed size is a row.
    split at h
    · cases h
      exact .basis _
    · exact .row hsize (isRow_of_readFixed h hops hfinite)
  · rename_i hsize
    split at h
    · cases h
    · rename_i op rest'
      rw [List.forall_mem_cons] at hops
      split at h
      · rename_i kind items
        obtain ⟨vs, hvs, h⟩ := bind_eq_ok.1 h
        cases h
        refine .many fun w hw => ?_
        obtain ⟨s, hs, hread⟩ := (exists_of_mapM hvs).2 w hw
        rw [Value.carriesInfinity, Value.anyInfinity_eq_false] at hfinite
        exact fits_of_readScalar hread (hops.1.scalars s hs) (hfinite w hw)
      · cases h
      · rename_i kind
        obtain ⟨s, hs, h⟩ := bind_eq_ok.1 h
        obtain ⟨w, hw, h⟩ := bind_eq_ok.1 h
        cases h
        have hlexed := hops.1.scalars s (mem_scalars_of_single hs)
        exact .one (fits_of_readOne hw hlexed hfinite)
      · rename_i hmany hone _
        obtain ⟨s, hs, h⟩ := bind_eq_ok.1 h
        obtain ⟨w, hw, h⟩ := bind_eq_ok.1 h
        cases h
        have hlexed := hops.1.scalars s (mem_scalars_of_single hs)
        rcases fits_of_readScalar hw hlexed hfinite with _ | _ | _ | _ | t
        -- Of the kinds without a fixed size only these two are left.
        cases kind with
        | callback => exact .callback t
        | pointer => exact .pointer t
        | one kind => exact absurd rfl (hone kind)
        | many kind => exact absurd rfl (hmany kind)
        | _ => cases hsize

/-- **What fits its kind is read back** from the operand that it is written as. -/
theorem readArgument_operand? {kind : ArgKind} (h : kind.Fits v) (proc arg : String)
    (rest : List Operand) :
    ∃ op, v.operand? = some op ∧
      readArgument proc arg kind (op :: rest) = .ok (v.reread, rest) := by
  rcases h with @⟨kind, _, h⟩ | @⟨kind, vs, h⟩ | @⟨_, count, _, hsize, hrow⟩ | t | t | t
  · obtain ⟨s, hs, -, hread⟩ := readScalar_written? h proc arg
    have hreread : v.reread = v.rereadItem := by rcases h with _ | _ | _ | _ | _ <;> rfl
    have hoperand : v.operand? = v.written?.map .scalar := by
      rcases h with _ | _ | _ | _ | _ <;> rfl
    refine ⟨.scalar s, by rw [hoperand, hs]; rfl, ?_⟩
    simp only [readArgument, ArgKind.fixedSize?, single]
    rw [hreread]
    exact bind_eq_ok.2 ⟨s, rfl, bind_eq_ok.2 ⟨_, hread, rfl⟩⟩
  · refine ⟨_, rfl, ?_⟩
    simp only [readArgument, ArgKind.fixedSize?]
    exact bind_eq_ok.2 ⟨_, mapM_readScalar_written? h arg, rfl⟩
  · obtain ⟨op, hop, hread⟩ := readFixed_operand? hrow arg rest
    refine ⟨op, hop, ?_⟩
    obtain ⟨vs, rfl, -, -⟩ := hrow
    obtain rfl : Operand.array (vs.filterMap Value.written?) = op := Option.some.inj hop
    simp only [readArgument, hsize]
    exact hread
  · exact ⟨_, rfl, rfl⟩
  · exact ⟨_, rfl, rfl⟩
  · exact ⟨_, rfl, rfl⟩

/-! ### What all arguments are read as -/

/-- The value of an argument: absent if the argument is never written, and otherwise of
its kind. -/
def Fills (proc : String) (a : String × ArgKind) (v : Value) : Prop :=
  if isUnwritten proc a.1 then v = .null else a.2.Fits v

/-- What is left of operands that come from tokens comes from tokens. -/
theorem isLexed_of_subset {ops rest : List Operand} (hops : ∀ op ∈ ops, op.IsLexed)
    (hrest : rest ⊆ ops) : ∀ op ∈ rest, op.IsLexed :=
  fun op hop => hops op (hrest hop)

theorem readArguments_cons (arg : String) (kind : ArgKind) (args : List (String × ArgKind))
    (ops : List Operand) : readArguments proc ((arg, kind) :: args) ops
      = (if isUnwritten proc arg then .ok (.null, ops) else readArgument proc arg kind ops)
          >>= fun (v, ops) => readArguments proc args ops
          >>= fun (vs, ops) => .ok (v :: vs, ops) := by
  rw [readArguments]
  split <;> rfl

theorem subset_of_readArguments {args : List (String × ArgKind)} {vs : List Value}
    {ops rest : List Operand} (h : readArguments proc args ops = .ok (vs, rest)) :
    rest ⊆ ops := by
  induction args generalizing vs ops with
  | nil =>
    cases h
    exact List.Subset.refl _
  | cons a args ih =>
    rw [readArguments_cons, bind_eq_ok] at h
    obtain ⟨⟨w, ops'⟩, hw, h⟩ := h
    obtain ⟨⟨ws, rest'⟩, hws, h⟩ := bind_eq_ok.1 h
    cases h
    refine List.Subset.trans (ih hws) ?_
    split at hw
    · cases hw
      exact List.Subset.refl _
    · exact subset_of_readArgument hw

theorem fills_of_readArguments {args : List (String × ArgKind)} {vs : List Value}
    {ops rest : List Operand} (h : readArguments proc args ops = .ok (vs, rest))
    (hops : ∀ op ∈ ops, op.IsLexed) (hfinite : Value.anyInfinity vs = false) :
    List.Forall₂ (Fills proc) args vs := by
  induction args generalizing vs ops with
  | nil =>
    cases h
    exact .nil
  | cons a args ih =>
    obtain ⟨arg, kind⟩ := a
    rw [readArguments_cons, bind_eq_ok] at h
    obtain ⟨⟨w, ops'⟩, hw, h⟩ := h
    obtain ⟨⟨ws, rest'⟩, hws, h⟩ := bind_eq_ok.1 h
    cases h
    rw [Value.anyInfinity, Bool.or_eq_false_iff] at hfinite
    have hhead : Fills proc (arg, kind) w ∧ ops' ⊆ ops := by
      unfold Fills
      split at hw
      · rename_i hunwritten
        cases hw
        exact ⟨by rw [if_pos hunwritten], List.Subset.refl _⟩
      · rename_i hunwritten
        rw [if_neg hunwritten]
        exact ⟨fits_of_readArgument hw hops hfinite.1, subset_of_readArgument hw⟩
    exact .cons hhead.1 (ih hws (isLexed_of_subset hops hhead.2) hfinite.2)

/-- **Arguments are read back** from the operands that they are written as. -/
theorem readArguments_operand? {args : List (String × ArgKind)} {vs : List Value}
    (h : List.Forall₂ (Fills proc) args vs) (rest : List Operand) :
    readArguments proc args (vs.filterMap Value.operand? ++ rest)
      = .ok (vs.map Value.reread, rest) := by
  induction h with
  | nil => rfl
  | @cons a v args vs hv _ ih =>
    obtain ⟨arg, kind⟩ := a
    unfold Fills at hv
    rw [readArguments_cons]
    split at hv
    · rename_i hunwritten
      subst hv
      rw [if_pos hunwritten]
      exact bind_eq_ok.2 ⟨_, rfl, bind_eq_ok.2 ⟨_, ih, rfl⟩⟩
    · rename_i hunwritten
      obtain ⟨op, hop, hread⟩ :=
        readArgument_operand? hv proc arg (vs.filterMap Value.operand? ++ rest)
      rw [if_neg hunwritten, List.filterMap_cons_some hop]
      exact bind_eq_ok.2 ⟨_, hread, bind_eq_ok.2 ⟨_, ih, rfl⟩⟩

theorem isWritable_of_fills {args : List (String × ArgKind)} {vs : List Value}
    (h : List.Forall₂ (Fills proc) args vs) : ∀ v ∈ vs, v = .null ∨ v.IsWritable := by
  induction h with
  | nil => exact nofun
  | @cons a v args vs hv _ ih =>
    rw [List.forall_mem_cons]
    refine ⟨?_, ih⟩
    unfold Fills at hv
    split at hv
    · exact Or.inl hv
    · exact Or.inr (isWritable_of_fits hv)

/-! ### Procedural primitives -/

/-- The arguments of a procedural primitive: texts, a box, its name, and nothing. -/
def AreProcedural (args : List Value) : Prop :=
  ∃ texts box name, args = [.list texts, box, .text name, .null] ∧
    (∀ v ∈ texts, ScalarKind.string.Fits v) ∧ IsRow 6 box

theorem text_of_itemTexts? {items : List Scalar} {vs : List Value}
    (h : itemTexts? items = some vs) : ∀ v ∈ vs, ScalarKind.string.Fits v := by
  intro v hv
  obtain ⟨s, -, hsome⟩ := mem_of_mapM_some h v hv
  rcases s with n | t
  · cases hsome
  · obtain rfl : Value.text t = v := Option.some.inj hsome
    exact .string t

theorem itemTexts?_written? {vs : List Value} (h : ∀ v ∈ vs, ScalarKind.string.Fits v) :
    itemTexts? (vs.filterMap Value.written?) = some (vs.map Value.rereadItem) := by
  unfold itemTexts?
  induction vs with
  | nil => rfl
  | cons v vs ih =>
    rw [List.forall_mem_cons] at h
    rcases h.1 with _ | _ | _ | _ | t
    rw [List.filterMap_cons_some (by rfl), List.mapM_cons, ih h.2]
    rfl

/-- The name of a procedural primitive. -/
def readProceduralName : Operand → Reading Value
  | .scalar (.text s) => .ok (.text s)
  | _ => refuse .proceduralName

/-- The data of a procedural primitive. -/
def readProceduralData : Operand → Reading Value
  | .array items =>
    match itemTexts? items with
    | some vs => .ok (.list vs)
    | none => refuse .proceduralData
  | _ => refuse .proceduralData

theorem readProcedural_eq (name data bound : Operand) (rest : List Operand) :
    readProcedural (name :: data :: bound :: rest)
      = readProceduralName name >>= fun name => readProceduralData data
          >>= fun data => readFixed "bound" 6 [bound]
          >>= fun (box, _) => .ok ([data, box, name, .null], rest) := by
  -- The name is looked at first, so that a wrong one hides all else.
  have hdata : ∀ t : Text, readProcedural (.scalar (.text t) :: data :: bound :: rest)
      = readProceduralData data >>= fun data => readFixed "bound" 6 [bound]
          >>= fun (box, _) => .ok ([data, box, .text t, .null], rest) := by
    intro t
    rcases data with s | items | _
    · rfl
    · simp only [readProcedural, readProceduralData]
      cases itemTexts? items <;> rfl
    · rfl
  have hname : ∀ name, readProceduralName name = refuse .proceduralName →
      readProcedural (name :: data :: bound :: rest) = refuse .proceduralName := by
    intro name h
    rcases name with (n | t) | items | _
    · rcases data with s | items | _ <;> rfl
    · cases h
    · rcases data with s | items | _ <;> rfl
    · rcases data with s | items | _ <;> rfl
  rcases name with (n | t) | items | _
  · exact hname _ rfl
  · exact hdata t
  · exact hname _ rfl
  · exact hname _ rfl

theorem areProcedural_of_readProcedural {args : List Value} {ops rest : List Operand}
    (h : readProcedural ops = .ok (args, rest)) (hops : ∀ op ∈ ops, op.IsLexed)
    (hfinite : Value.anyInfinity args = false) : AreProcedural args := by
  rcases ops with _ | ⟨name, _ | ⟨data, _ | ⟨bound, rest'⟩⟩⟩
  · cases h
  · cases h
  · cases h
  · rw [readProcedural_eq, bind_eq_ok] at h
    obtain ⟨name', hname, h⟩ := h
    obtain ⟨data', hdata, h⟩ := bind_eq_ok.1 h
    obtain ⟨⟨box, left⟩, hbox, h⟩ := bind_eq_ok.1 h
    cases h
    simp only [List.forall_mem_cons] at hops
    rw [Value.anyInfinity_eq_false] at hfinite
    have hrow : IsRow 6 box :=
      isRow_of_readFixed hbox (by simpa using hops.2.2.1) (hfinite box (by simp))
    obtain ⟨t, rfl⟩ : ∃ t, name' = .text t := by
      unfold readProceduralName at hname
      split at hname
      · cases hname
        exact ⟨_, rfl⟩
      · cases hname
    obtain ⟨texts, rfl, htexts⟩ : ∃ texts, data' = .list texts ∧
        ∀ v ∈ texts, ScalarKind.string.Fits v := by
      unfold readProceduralData at hdata
      split at hdata
      · split at hdata
        · rename_i texts htexts
          cases hdata
          exact ⟨texts, rfl, text_of_itemTexts? htexts⟩
        · cases hdata
      · cases hdata
    exact ⟨texts, box, t, rfl, htexts, hrow⟩

/-- **The arguments of a procedural primitive are read back**, name first. -/
theorem readProcedural_operand? {args : List Value} (h : AreProcedural args)
    (rest : List Operand) :
    readProcedural ((writtenOrder "Procedural" args).filterMap Value.operand? ++ rest)
      = .ok (args.map Value.reread, rest) := by
  obtain ⟨texts, box, name, rfl, htexts, hrow⟩ := h
  obtain ⟨op, hop, hread⟩ := readFixed_operand? hrow "bound" []
  have horder : (writtenOrder "Procedural" [.list texts, box, .text name, .null]).filterMap
      Value.operand? = [.scalar (.text name), .array (texts.filterMap Value.written?), op] := by
    have hname : (Value.text name).operand? = some (.scalar (.text name)) := rfl
    have hdata : (Value.list texts).operand? = some (.array (texts.filterMap Value.written?)) :=
      rfl
    simp only [writtenOrder, if_true, List.filterMap_cons_some hname,
      List.filterMap_cons_some hdata, List.filterMap_cons_some hop, List.filterMap_nil]
  have hdata : readProceduralData (.array (texts.filterMap Value.written?))
      = .ok (.list (texts.map Value.rereadItem)) := by
    simp only [readProceduralData, itemTexts?_written? htexts]
  rw [horder, List.cons_append, List.cons_append, List.cons_append, List.nil_append,
    readProcedural_eq]
  exact bind_eq_ok.2 ⟨_, rfl, bind_eq_ok.2 ⟨_, hdata, bind_eq_ok.2 ⟨_, hread, rfl⟩⟩⟩

/-! ### Positional arguments -/

/-- The arguments that a procedure's operands are read as. -/
def AreArguments (p : Procedure) (args : List Value) : Prop :=
  if p.name = "Procedural" then AreProcedural args
  else List.Forall₂ (Fills p.name) p.args args

theorem areArguments_of_readPositional {p : Procedure} {args : List Value}
    {ops rest : List Operand} (h : readPositional p ops = .ok (args, rest))
    (hops : ∀ op ∈ ops, op.IsLexed) (hfinite : Value.anyInfinity args = false) :
    AreArguments p args := by
  unfold readPositional at h
  unfold AreArguments
  split at h
  · rw [if_pos ‹_›]
    exact areProcedural_of_readProcedural h hops hfinite
  · rw [if_neg ‹_›]
    exact fills_of_readArguments h hops hfinite

/-- Positional arguments leave operands that were there. -/
theorem subset_of_readPositional {p : Procedure} {args : List Value} {ops rest : List Operand}
    (h : readPositional p ops = .ok (args, rest)) : rest ⊆ ops := by
  unfold readPositional at h
  split at h
  · rcases ops with _ | ⟨name, _ | ⟨data, _ | ⟨bound, ops⟩⟩⟩
    · cases h
    · cases h
    · cases h
    · simp only [readProcedural_eq, bind_eq_ok] at h
      obtain ⟨_, -, _, -, ⟨_, _⟩, -, h⟩ := h
      cases h
      exact List.Subset.trans (List.subset_cons_self _ _)
        (List.Subset.trans (List.subset_cons_self _ _) (List.subset_cons_self _ _))
  · exact subset_of_readArguments h

theorem readPositional_operand? {p : Procedure} {args : List Value}
    (h : AreArguments p args) (rest : List Operand) :
    readPositional p ((writtenOrder p.name args).filterMap Value.operand? ++ rest)
      = .ok (args.map Value.reread, rest) := by
  unfold AreArguments at h
  unfold readPositional
  split at h
  · rename_i hname
    rw [if_pos hname, hname]
    exact readProcedural_operand? h rest
  · rename_i hname
    have horder : writtenOrder p.name args = args := if_neg hname
    rw [if_neg hname, horder]
    exact readArguments_operand? h rest

/-- There are as many arguments as the procedure has, or as a procedural primitive has. -/
theorem length_of_readPositional {p : Procedure} {args : List Value} {ops rest : List Operand}
    (h : readPositional p ops = .ok (args, rest)) :
    args.length = if p.name = "Procedural" then 4 else p.arity := by
  unfold readPositional at h
  split at h
  · rw [if_pos ‹_›]
    rcases ops with _ | ⟨name, _ | ⟨data, _ | ⟨bound, ops⟩⟩⟩
    · cases h
    · cases h
    · cases h
    · simp only [readProcedural_eq, bind_eq_ok] at h
      obtain ⟨_, -, _, -, ⟨_, _⟩, -, h⟩ := h
      cases h
      rfl
  · rw [if_neg ‹_›, Procedure.arity]
    generalize p.args = all at h
    induction all generalizing args ops with
    | nil =>
      cases h
      rfl
    | cons a all ih =>
      rw [readArguments_cons, bind_eq_ok] at h
      obtain ⟨⟨v, ops'⟩, -, h⟩ := h
      obtain ⟨⟨vs, rest'⟩, hvs, h⟩ := bind_eq_ok.1 h
      cases h
      rw [List.length_cons, List.length_cons, ih hvs]

theorem isWritable_of_areArguments {p : Procedure} {args : List Value}
    (h : AreArguments p args) : ∀ v ∈ args, v = .null ∨ v.IsWritable := by
  unfold AreArguments at h
  split at h
  · obtain ⟨texts, box, name, rfl, htexts, hrow⟩ := h
    simp only [List.forall_mem_cons]
    exact ⟨Or.inr (.list fun v hv => (htexts v hv).isItem), Or.inr hrow.isWritable,
      Or.inr (.item (.scalar trivial)), Or.inl trivial, nofun⟩
  · exact isWritable_of_fills h

/-! ### Parameters -/

theorem valuesOf_toValue {op : Operand} (h : op ≠ .broken) :
    Param.valuesOf op.toValue = .ok op.scalars := by
  rcases op with s | items | _
  · cases s <;> rfl
  · have hscalars : ∀ (index : Nat) (ss : List Scalar),
        Param.scalarsOf index (ss.map Value.scalar) = .ok ss := by
      intro index ss
      induction ss generalizing index with
      | nil => rfl
      | cons s ss ih => simp only [List.map_cons, Param.scalarsOf, Param.scalarOf?, ih]
    exact hscalars 0 items
  · exact absurd rfl h

theorem val_of_tokenOf {token : Text} {t : { t : Text // Text.words t ≠ [] }}
    (h : Param.tokenOf (some (.text token)) = .ok t) : t.val = token := by
  simp only [Param.tokenOf, Param.textOf, bind_eq_ok] at h
  obtain ⟨_, h, h'⟩ := h
  cases h
  split at h'
  · cases h'
  · split at h'
    · cases h'
    · split at h'
      · cases h'
      · cases h'
        rfl

/-- **What a token and its values make**: a parameter of just these, if the token is in
order. -/
theorem parse_toValue {token declared : Text} {op : Operand} (hop : op ≠ .broken)
    {p : Param} : Param.parse token op.toValue (.text declared) = .ok p ↔
      (∃ t, Param.tokenOf (some (.text token)) = .ok t) ∧ p.token = token ∧
        p.type = (Param.inlineType? token).getD declared ∧ p.values = op.scalars := by
  -- Be it the token's own or the declared one, the type is a text.
  have htype : ((Param.inlineType? token).map Value.text).getD (.text declared)
      = .text ((Param.inlineType? token).getD declared) := by
    cases Param.inlineType? token <;> rfl
  simp only [Param.parse, Param.ofFields, htype, Option.map_some, Option.getD_some,
    Param.textOf, valuesOf_toValue hop]
  rcases htoken : Param.tokenOf (some (.text token)) with issues | ⟨t, named⟩
  · constructor
    · rintro ⟨⟩
    · rintro ⟨⟨_, ⟨⟩⟩, -⟩
  · obtain rfl : t = token := val_of_tokenOf htoken
    constructor
    · rintro ⟨rfl⟩
      exact ⟨⟨_, rfl⟩, rfl, rfl, rfl⟩
    · rintro ⟨-, htoken, htype, hvalues⟩
      rcases p with ⟨token, type, values, named'⟩
      simp only at htoken htype hvalues
      subst htoken htype hvalues
      rfl

/-- **Parameters are writable, and read back** from the operands that they are written
as. -/
theorem readParamItems_operands {declared : Text → Text} {ops : List Operand}
    {items : List Param} (h : readParamItems declared ops = .ok items)
    (hops : ∀ op ∈ ops, op.IsLexed)
    (hfinite : ∀ p ∈ items, p.values.any Scalar.isInfinite = false) :
    (∀ p ∈ items, p.IsWritable) ∧
      readParamItems declared (items.flatMap Param.operands)
        = .ok (items.map Param.reread) := by
  fun_induction readParamItems declared ops generalizing items with
  | case1 token value rest reasons hparse => cases h
  | case2 token value rest p hparse ih =>
    simp only [List.forall_mem_cons] at hops
    rcases hrest : readParamItems declared rest with e | items'
    · rw [hrest] at h
      cases h
    · rw [hrest] at h
      obtain rfl : p :: items' = items := Except.ok.inj h
      rw [List.forall_mem_cons] at hfinite
      obtain ⟨hwritable, hread⟩ := ih hrest hops.2.2 hfinite.2
      obtain ⟨htoken, rfl, htype, hvalues⟩ := (parse_toValue hops.2.1.whole).1 hparse
      refine ⟨List.forall_mem_cons.2 ⟨?_, hwritable⟩, ?_⟩
      · intro s hs
        have hlexed := hops.2.1.scalars s (hvalues ▸ hs)
        exact hlexed.isWritable (by simpa using (List.any_eq_false.1 hfinite.1) s hs)
      · -- The token is the same, so is what it declares, and the values are an array.
        have hagain : Param.parse p.token
            (Operand.array (p.values.map Scalar.reread)).toValue (.text (declared p.token))
            = .ok p.reread := by
          rw [parse_toValue Operand.noConfusion]
          exact ⟨htoken, rfl, htype, rfl⟩
        simp only [List.flatMap_cons, Param.operands, List.cons_append, List.nil_append,
          readParamItems, hagain]
        rw [hread]
        rfl
  | case3 found value rest hfound => cases h
  | case4 ops hnone hfew =>
    cases h
    exact ⟨nofun, rfl⟩

theorem length_operands (items : List Param) :
    (items.flatMap Param.operands).length = 2 * items.length := by
  induction items with
  | nil => rfl
  | cons p items ih =>
    rw [List.flatMap_cons, List.length_append, ih, List.length_cons, Nat.mul_add, Nat.add_comm]
    rfl

/-- A parameter list is read if its operands come in pairs that make its parameters. -/
theorem readParams_eq_ok {declared : Text → Text} {ops : List Operand} {ps : ParamList} :
    readParams declared ops = .ok ps ↔
      ops.length % 2 ≠ 1 ∧ readParamItems declared ops = .ok ps.items := by
  unfold readParams
  split
  · rename_i hodd
    exact ⟨nofun, fun h => absurd hodd h.1⟩
  · rename_i heven
    rw [bind_eq_ok, and_iff_right heven]
    constructor
    · rintro ⟨items, hitems, h⟩
      unfold ParamList.ofList at h
      by_cases hdistinct : (items.map Param.name).Nodup
      · rw [dif_pos hdistinct] at h
        cases h
        exact hitems
      · rw [dif_neg hdistinct] at h
        cases h
    · intro hitems
      refine ⟨ps.items, hitems, ?_⟩
      simp only [ParamList.ofList, dif_pos ps.distinct]

/-- **A parameter list is writable, and read back.** -/
theorem readParams_operands {declared : Text → Text} {ops : List Operand} {ps : ParamList}
    (h : readParams declared ops = .ok ps) (hops : ∀ op ∈ ops, op.IsLexed)
    (hfinite : ∀ p ∈ ps.items, p.values.any Scalar.isInfinite = false) :
    (∀ p ∈ ps.items, p.IsWritable) ∧
      readParams declared (ps.items.flatMap Param.operands) = .ok ps.reread := by
  obtain ⟨-, hitems⟩ := readParams_eq_ok.1 h
  obtain ⟨hwritable, hread⟩ := readParamItems_operands hitems hops hfinite
  refine ⟨hwritable, readParams_eq_ok.2 ⟨?_, hread⟩⟩
  rw [length_operands]
  omega

/-! ### Calls -/

/-- The parts of a call that was read. -/
theorem parts_of_readCall {declared : Text → Text} {p : Procedure} {ops : List Operand}
    {c : Command} (h : readCall declared p ops = .ok c) :
    c.proc = p.name ∧ c.params.isSome = p.takesParams ∧
      ∃ rest, readPositional p ops = .ok (c.args, rest) := by
  unfold readCall at h
  obtain ⟨⟨args, rest⟩, hargs, h⟩ := bind_eq_ok.1 h
  simp only at h
  split at h
  · rename_i htakes
    obtain ⟨ps, -, h⟩ := bind_eq_ok.1 h
    cases h
    exact ⟨rfl, htakes.symm, rest, hargs⟩
  · rename_i htakes
    split at h
    · cases h
      exact ⟨rfl, (Bool.not_eq_true _ ▸ htakes).symm, rest, hargs⟩
    · cases h

/-- **What a request is read as is writable, and read back**: the call of the procedure
can be spelt, and its operands are read as what is read back of it. -/
theorem readCall_operands {declared : Text → Text} {p : Procedure} {ops : List Operand}
    {c : Command} (h : readCall declared p ops = .ok c) (hops : ∀ op ∈ ops, op.IsLexed)
    (hfinite : c.carriesInfinity = false) :
    AreArguments p c.args ∧ c.IsWritable ∧
      readCall declared p c.operands = .ok c.reread := by
  unfold readCall at h
  obtain ⟨⟨args, rest⟩, hargs, h⟩ := bind_eq_ok.1 h
  simp only at h
  -- The arguments do not depend on the parameters after them.
  have hargs' : ∀ params : Option ParamList,
      (⟨p.name, args, params⟩ : Command).carriesInfinity = false → AreArguments p args := by
    intro params hparams
    rw [Command.carriesInfinity, Bool.or_eq_false_iff] at hparams
    exact areArguments_of_readPositional hargs hops hparams.1
  split at h
  · rename_i htakes
    obtain ⟨ps, hps, h⟩ := bind_eq_ok.1 h
    cases h
    have hareArgs := hargs' _ hfinite
    rw [Command.carriesInfinity, Bool.or_eq_false_iff] at hfinite
    obtain ⟨hwritable, hread⟩ := readParams_operands hps
      (isLexed_of_subset hops (subset_of_readPositional hargs)) (by simpa using hfinite.2)
    refine ⟨hareArgs, ⟨isWritable_of_areArguments hareArgs, ?_⟩, ?_⟩
    · rintro ps' ⟨rfl⟩
      exact hwritable
    · refine bind_eq_ok.2 ⟨_, readPositional_operand? hareArgs _, ?_⟩
      simp only [htakes, if_true]
      exact bind_eq_ok.2 ⟨_, hread, rfl⟩
  · rename_i htakes
    split at h
    · cases h
      have hareArgs := hargs' _ hfinite
      refine ⟨hareArgs, ⟨isWritable_of_areArguments hareArgs, nofun⟩, ?_⟩
      refine bind_eq_ok.2 ⟨_, readPositional_operand? hareArgs [], ?_⟩
      simp only [htakes]
      rfl
    · cases h

end Rib

end SceneReplay
