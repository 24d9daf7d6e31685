import SceneReplay.Proofs.Rib.Stopping

/-!
# The grammar of requests

The operands of a request spell a call if they split into one segment for each argument of the
procedure, one after the other, and the parameters behind them (`SceneReplay.Rib.SpellsCall`).
Kind by kind, `SceneReplay.Rib.Segment` says which operands an argument is spelt by, and as which
value they are passed on. It says nothing of how operands are gone through.

A request is read as just the call that its operands spell, and what spells none is a misfit
(`SceneReplay.Rib.readCall_eq_ok`). This is found reader by reader: each accepts the operands of
its form off the front and leaves the rest alone (`SceneReplay.Rib.readArgument_eq_ok`,
`SceneReplay.Rib.readArguments_eq_ok`, `SceneReplay.Rib.readPositional_eq_ok`), so that no
argument takes an operand from the next one or from the parameters.

One condition is not about how operands are arranged. The token of a parameter is a text of
characters alone (`SceneReplay.Param.IsUnbroken`): half a surrogate pair in it, which a scene that
arrives in a document can spell, makes the request a misfit
(`SceneReplay.Rib.readCall_eq_ok_surrogate`).
-/

namespace SceneReplay

/-! ### Values of scalars -/

/-- The double nearest to a number. -/
def Number.nearest : Number → Binary64
  | .int z => Binary64.ofRatio (z < 0) z.natAbs 1
  | .float x => x

/-- Whether a scalar is no integer too large for a double. -/
def Scalar.hasDouble : Scalar → Bool
  | .number n => n.toBinary64?.isSome
  | .text _ => true

/-- **The scalars of a kind**, and the values that they are passed on as. -/
inductive ScalarKind.Spells : ScalarKind → Scalar → Value → Prop
  /-- A whole number, be it an integer or a double. -/
  | int {n : Number} {k : Int} (h : n.sameValue (.int k) = true) : Spells .int (.number n) (.int k)
  /-- Any number. -/
  | float (n : Number) : Spells .float (.number n) (.float n.nearest)
  /-- Any number, of which only zero is false. -/
  | flag (n : Number) : Spells .flag (.number n) (.flag (!n.isZero))
  | token (t : Text) : Spells .token (.text t) (.text t)
  | string (t : Text) : Spells .string (.text t) (.text t)

/-- The token of a parameter is a text of characters alone. -/
def Param.IsUnbroken (q : Param) : Prop := q.token.any CodePoint.isSurrogate = false

/-- Only a finite double is taken for the one that is nearest. -/
theorem Number.toBinary64?_of_hasDouble {n : Number} (h : (Scalar.number n).hasDouble = true) :
    n.toBinary64? = some n.nearest := by
  rcases n with z | x
  · change (Binary64.ofInt? z).isSome = true at h
    change Binary64.ofInt? z = some (Binary64.ofRatio (z < 0) z.natAbs 1)
    unfold Binary64.ofInt? at h ⊢
    generalize Binary64.ofRatio (z < 0) z.natAbs 1 = y at h ⊢
    rcases y with _ | _ | ⟨negative, rank⟩
    · exact Bool.noConfusion h
    · exact Bool.noConfusion h
    · rfl
  · rfl

/-- A double with the value of an integer is whole, and has nothing to cut off. -/
theorem Binary64.isWhole_of_hasValue {negative : Bool} {rank : Fin rankLimit} {k : Int}
    (h : (finite negative rank).hasValue k = true) :
    (finite negative rank).isWhole = true ∧ (finite negative rank).truncate? = some k := by
  have hvalue : signedUnits negative rank = k * unitsPerOne := eq_of_beq h
  have hone : (unitsPerOne : Int) ≠ 0 := Int.natCast_ne_zero.2 unitsPerOne_pos.ne'
  have hdvd : (unitsPerOne : Int) ∣ units rank := by
    have hsigned : (unitsPerOne : Int) ∣ signedUnits negative rank := ⟨k, by rw [hvalue, mul_comm]⟩
    unfold signedUnits at hsigned
    split at hsigned
    · exact Int.dvd_neg.1 hsigned
    · exact hsigned
  constructor
  · rw [isWhole, beq_iff_eq]
    exact Nat.mod_eq_zero_of_dvd (Int.natCast_dvd_natCast.1 hdvd)
  · rw [truncate?, hvalue, Int.mul_tdiv_cancel k hone]

/-- **A number is whole** if it has the value of an integer, which it is then taken for. -/
theorem Number.toWhole?_eq_some {n : Number} {k : Int} :
    n.toWhole? = some k ↔ n.sameValue (.int k) = true := by
  rcases n with z | _ | _ | ⟨negative, rank⟩
  · simp [toWhole?, sameValue]
  · constructor <;> rintro ⟨⟩
  · constructor <;> rintro ⟨⟩
  · simp only [toWhole?]
    constructor
    · intro h
      split at h
      · exact Binary64.hasValue_of_isWhole ‹_› h
      · cases h
    · intro h
      obtain ⟨hwhole, htruncate⟩ := Binary64.isWhole_of_hasValue h
      rw [if_pos hwhole, htruncate]

namespace Rib

/-! ### The grammar -/

/-- **An operand that is one scalar**: bare, or alone in an array. -/
inductive Operand.Holds : Operand → Scalar → Prop
  | bare (s : Scalar) : Holds (.scalar s) s
  | alone (s : Scalar) : Holds (.array [s]) s

/-- **The single values of a kind**: the scalars of this kind, and for the handle of an object any
number, which is passed on as the text that it shows as. -/
inductive SpellsOne (proc : String) : ScalarKind → Scalar → Value → Prop
  | scalar {kind : ScalarKind} {s : Scalar} {v : Value} (h : kind.Spells s v) :
      SpellsOne proc kind s v
  | handle {kind : ScalarKind} (n : Number) (hproc : proc ∈ handleProcedures)
      (hkind : kind = .token ∨ kind = .string) : SpellsOne proc kind (.number n) (.text n.text)

/-- Some numbers, as what they are passed on as. -/
def rowOf (ns : List Number) : Value := .list (ns.map fun n => .float n.nearest)

/-- **A row of numbers**: in an array of their own, or bare. -/
inductive IsRowOf (ns : List Number) : List Operand → Prop
  | packed : IsRowOf ns [.array (ns.map .number)]
  | loose : IsRowOf ns (ns.map fun n => .scalar (.number n))

/-- **The operands of one argument**, and the value that they are passed on as. -/
inductive Segment (proc : String) : ArgKind → List Operand → Value → Prop
  | one {kind : ScalarKind} {op : Operand} {s : Scalar} {v : Value} (hop : op.Holds s)
      (hs : SpellsOne proc kind s v) : Segment proc (.one kind) [op] v
  | many {kind : ScalarKind} {items : List Scalar} {vs : List Value}
      (h : List.Forall₂ kind.Spells items vs) : Segment proc (.many kind) [.array items] (.list vs)
  | row {kind : ArgKind} {ns : List Number} {ops : List Operand}
      (hsize : kind.fixedSize? = some ns.length) (h : IsRowOf ns ops) :
      Segment proc kind ops (rowOf ns)
  | basis (t : Text) : Segment proc .basis [.scalar (.text t)] (.text t)
  | callback {op : Operand} {t : Text} (hop : op.Holds (.text t)) :
      Segment proc .callback [op] (.text t)
  | pointer {op : Operand} {t : Text} (hop : op.Holds (.text t)) :
      Segment proc .pointer [op] (.text t)

/-- **The operands of some arguments**: one segment after the other, and none for an argument that
is never written. -/
inductive Segments (proc : String) : List (String × ArgKind) → List Operand → List Value → Prop
  | nil : Segments proc [] [] []
  | unwritten {arg : String} {kind : ArgKind} {args : List (String × ArgKind)}
      {ops : List Operand} {vs : List Value} (harg : isUnwritten proc arg = true)
      (h : Segments proc args ops vs) : Segments proc ((arg, kind) :: args) ops (.null :: vs)
  | cons {arg : String} {kind : ArgKind} {args : List (String × ArgKind)}
      {front ops : List Operand} {v : Value} {vs : List Value}
      (harg : isUnwritten proc arg = false) (hfront : Segment proc kind front v)
      (h : Segments proc args ops vs) :
      Segments proc ((arg, kind) :: args) (front ++ ops) (v :: vs)

/-- **The operands of the positional arguments.** Those of a procedural primitive are its name,
texts and a box, and are passed on in another order, with nothing as the fourth. -/
inductive Positional (p : Procedure) : List Operand → List Value → Prop
  | arguments {ops : List Operand} {args : List Value} (hname : p.name ≠ "Procedural")
      (h : Segments p.name p.args ops args) : Positional p ops args
  | procedural (hname : p.name = "Procedural") (name : Text) {items : List Scalar}
      {texts : List Value} {ns : List Number}
      (htexts : List.Forall₂ ScalarKind.string.Spells items texts) (hns : ns.length = 6) :
      Positional p [.scalar (.text name), .array items, .array (ns.map .number)]
        [.list texts, rowOf ns, .text name, .null]

/-- **The operands of parameters**: a token with a name in it, and a value for it, in turn. -/
inductive Pairs (declared : Text → Text) : List Operand → List Param → Prop
  | nil : Pairs declared [] []
  | cons (q : Param) {op : Operand} {ops : List Operand} {qs : List Param} (hop : op ≠ .broken)
      (htype : q.type = (Param.inlineType? q.token).getD (declared q.token))
      (hvalues : q.values = op.scalars) (h : Pairs declared ops qs) :
      Pairs declared (.scalar (.text q.token) :: op :: ops) (q :: qs)

/-- **The operands behind the arguments**: those of parameters, or none. -/
inductive Tail (declared : Text → Text) (p : Procedure) : List Operand → Option ParamList → Prop
  | none (htakes : p.takesParams = false) : Tail declared p [] none
  | some {ops : List Operand} {ps : ParamList} (htakes : p.takesParams = true)
      (h : Pairs declared ops ps.items) : Tail declared p ops (some ps)

/-- **Operands spell a call** of a procedure. -/
structure SpellsCall (declared : Text → Text) (p : Procedure) (ops : List Operand) (c : Command) :
    Prop where
  /-- It is called. -/
  proc : c.proc = p.name
  /-- The operands split into those of its arguments and those of its parameters. -/
  split : ∃ front back, ops = front ++ back ∧ Positional p front c.args ∧
    Tail declared p back c.params

/-! ### Reading single values -/

/-- What is computed from a list is computed member by member. -/
theorem mapM_eq_ok {ε α β : Type} {f : α → Except ε β} {R : α → β → Prop} {as : List α}
    {bs : List β} (h : ∀ a ∈ as, ∀ b, f a = .ok b ↔ R a b) :
    as.mapM f = .ok bs ↔ List.Forall₂ R as bs := by
  induction as generalizing bs with
  | nil =>
    rw [List.forall₂_nil_left_iff]
    exact ⟨fun hbs => (Except.ok.inj hbs).symm, fun hbs => hbs ▸ rfl⟩
  | cons a as ih =>
    rw [List.forall_mem_cons] at h
    rw [List.mapM_cons, bind_eq_ok, List.forall₂_cons_left_iff]
    refine exists_congr fun b => ?_
    rw [h.1, bind_eq_ok]
    constructor
    · rintro ⟨hb, bs', hbs', ⟨⟩⟩
      exact ⟨bs', hb, (ih h.2).1 hbs', rfl⟩
    · rintro ⟨bs', hb, hbs', rfl⟩
      exact ⟨hb, bs', (ih h.2).2 hbs', rfl⟩

/-- What is found of a list is found member by member. -/
theorem mapM_eq_some {α β : Type} {f : α → Option β} {R : α → β → Prop} {as : List α}
    {bs : List β} (h : ∀ a b, f a = some b ↔ R a b) :
    as.mapM f = some bs ↔ List.Forall₂ R as bs := by
  induction as generalizing bs with
  | nil =>
    rw [List.forall₂_nil_left_iff]
    exact ⟨fun hbs => (Option.some.inj hbs).symm, fun hbs => hbs ▸ rfl⟩
  | cons a as ih =>
    simp only [List.mapM_cons, Option.bind_eq_bind, Option.bind_eq_some_iff, h, ih,
      List.forall₂_cons_left_iff]
    refine exists_congr fun b => ?_
    constructor
    · rintro ⟨hb, bs', hbs', ⟨⟩⟩
      exact ⟨bs', hb, hbs', rfl⟩
    · rintro ⟨bs', hb, hbs', rfl⟩
      exact ⟨hb, bs', hbs', rfl⟩

/-- A list whose members can be told from those of another is the list of these. -/
theorem forall₂_eq_map {α β : Type} {g : β → α} {as : List α} {bs : List β} :
    List.Forall₂ (fun a b => a = g b) as bs ↔ as = bs.map g := by
  rw [← List.forall₂_map_right_iff (R := Eq) (f := g), List.forall₂_eq_eq_eq]

/-- No integer among the scalars of some operands is too large for a double. -/
def HaveDoubles (ops : List Operand) : Prop := ∀ op ∈ ops, ∀ s ∈ op.scalars, s.hasDouble = true

instance (ops : List Operand) : Decidable (HaveDoubles ops) :=
  inferInstanceAs (Decidable (∀ op ∈ ops, ∀ s ∈ op.scalars, s.hasDouble = true))

theorem HaveDoubles.of_subset {ops ops' : List Operand} (h : HaveDoubles ops)
    (hsubset : ops' ⊆ ops) : HaveDoubles ops' := fun op hop => h op (hsubset hop)

section Arguments

variable {proc arg : String} {v : Value} {s : Scalar} {ops rest : List Operand}

theorem readDouble_eq {n : Number} (hn : (Scalar.number n).hasDouble = true) :
    readDouble n = .ok (.float n.nearest) := by
  rw [readDouble, Number.toBinary64?_of_hasDouble hn]

/-- **A scalar is read** as what it is passed on as, if it is of the kind. -/
theorem readScalar_eq_ok {kind : ScalarKind} (hs : s.hasDouble = true) :
    readScalar arg kind s = .ok v ↔ kind.Spells s v := by
  constructor
  · intro h
    rcases s with n | t
    · cases kind with
      | int =>
        simp only [readScalar] at h
        split at h
        · cases h
          exact .int (Number.toWhole?_eq_some.1 ‹_›)
        · cases h
      | float =>
        rw [readScalar, readDouble_eq hs] at h
        cases h
        exact .float n
      | flag =>
        cases h
        exact .flag n
      | token => cases h
      | string => cases h
    · cases kind with
      | token =>
        cases h
        exact .token t
      | string =>
        cases h
        exact .string t
      | int => cases h
      | float => cases h
      | flag => cases h
  · rintro (h | n | n | t | t)
    · rw [readScalar, Number.toWhole?_eq_some.2 h]
    · exact readDouble_eq hs
    · rfl
    · rfl
    · rfl

theorem single_eq_ok {op : Operand} : single arg op = .ok s ↔ op.Holds s := by
  constructor
  · intro h
    unfold single at h
    split at h <;> cases h
    · exact .bare s
    · exact .alone s
  · rintro (_ | _) <;> rfl

theorem readOne_eq_ok {kind : ScalarKind} (hs : s.hasDouble = true) :
    readOne proc arg kind s = .ok v ↔ SpellsOne proc kind s v := by
  constructor
  · intro h
    unfold readOne at h
    split at h
    · split at h
      · cases h
        exact .handle _ ‹_› (Or.inl rfl)
      · cases h
    · split at h
      · cases h
        exact .handle _ ‹_› (Or.inr rfl)
      · cases h
    · exact .scalar ((readScalar_eq_ok hs).1 h)
  · rintro (h | ⟨n, hproc, rfl | rfl⟩)
    · have hread : readScalar arg kind s = .ok v := (readScalar_eq_ok hs).2 h
      rcases h with _ | _ | _ | _ | _ <;> exact hread
    · exact if_pos hproc
    · exact if_pos hproc

/-! ### Reading rows -/

theorem itemNumbers?_eq_some {items : List Scalar} {ns : List Number} :
    itemNumbers? items = some ns ↔ items = ns.map .number := by
  rw [← forall₂_eq_map]
  refine mapM_eq_some ?_
  rintro (n | t) m <;> simp

theorem bareNumbers?_eq_some {ns : List Number} :
    bareNumbers? ops = some ns ↔ ops = ns.map fun n => .scalar (.number n) := by
  rw [← forall₂_eq_map]
  refine mapM_eq_some ?_
  rintro ((n | t) | items | _) m <;> simp

/-- **Numbers are read as a row**, if there are as many as wanted. -/
theorem readNumbers_eq_ok {count : Nat} {ns : List Number}
    (hns : ∀ n ∈ ns, (Scalar.number n).hasDouble = true) :
    readNumbers arg count (some ns) = .ok v ↔ ns.length = count ∧ v = rowOf ns := by
  have hrow : ns.mapM readDouble = .ok (ns.map fun n => .float n.nearest) := by
    refine (mapM_eq_ok (R := fun n w => .float n.nearest = w) fun n hn w => ?_).2
      (List.forall₂_map_right_iff.2 (List.forall₂_same.2 fun _ _ => rfl))
    rw [readDouble_eq (hns n hn), Except.ok.injEq]
  simp only [readNumbers, hrow]
  constructor
  · intro h
    split at h
    · cases h
      exact ⟨‹_›, rfl⟩
    · cases h
  · rintro ⟨hcount, rfl⟩
    exact if_pos hcount

/-- The numbers of a row are among the scalars of its operands. -/
theorem IsRowOf.hasDouble {ns : List Number} (h : IsRowOf ns ops)
    (hops : HaveDoubles ops) :
    ∀ n ∈ ns, (Scalar.number n).hasDouble = true := by
  intro n hn
  rcases h with _ | _
  · exact hops _ List.mem_cons_self _ (List.mem_map_of_mem hn)
  · exact hops _ (List.mem_map_of_mem hn) _ List.mem_cons_self

/-- **A row is read off the front** of the operands: an array of its numbers, or just as many
bare numbers. -/
theorem readFixed_eq_ok {count : Nat} (hcount : 0 < count) (hops : HaveDoubles ops) :
    readFixed arg count ops = .ok (v, rest) ↔
      ∃ front ns, ops = front ++ rest ∧ ns.length = count ∧ IsRowOf ns front ∧ v = rowOf ns := by
  constructor
  · intro h
    unfold readFixed at h
    split at h
    · cases h
    · rename_i items rest'
      obtain ⟨w, hw, ⟨⟩⟩ := bind_eq_ok.1 h
      rcases hns : itemNumbers? items with _ | ns
      · rw [hns] at hw
        cases hw
      · obtain rfl := itemNumbers?_eq_some.1 hns
        have hrow : IsRowOf ns [.array (ns.map .number)] := .packed
        have hdouble := hrow.hasDouble (hops.of_subset (List.subset_append_left _ rest))
        rw [hns, readNumbers_eq_ok hdouble] at hw
        exact ⟨_, ns, rfl, hw.1, hrow, hw.2⟩
    · obtain ⟨w, hw, ⟨⟩⟩ := bind_eq_ok.1 h
      rcases hns : bareNumbers? (ops.take count) with _ | ns
      · rw [hns] at hw
        cases hw
      · have hrow : IsRowOf ns (ops.take count) := bareNumbers?_eq_some.1 hns ▸ .loose
        have hdouble := hrow.hasDouble (hops.of_subset (List.take_subset count ops))
        rw [hns, readNumbers_eq_ok hdouble] at hw
        exact ⟨_, ns, (List.take_append_drop count ops).symm, hw.1, hrow, hw.2⟩
  · rintro ⟨front, ns, rfl, hlength, hrow, rfl⟩
    have hdouble := hrow.hasDouble (hops.of_subset (List.subset_append_left front rest))
    have hread : readNumbers arg count (some ns) = .ok (rowOf ns) :=
      (readNumbers_eq_ok hdouble).2 ⟨hlength, rfl⟩
    rcases hrow with _ | _
    · rw [← itemNumbers?_eq_some.2 rfl] at hread
      exact bind_eq_ok.2 ⟨_, hread, rfl⟩
    · -- There is a first number, by which the row is told from an array.
      rcases ns with _ | ⟨n, ns⟩
      · exact absurd hlength hcount.ne
      · have hfront : ((n :: ns).map fun n => Operand.scalar (.number n)).length = count := by
          rwa [List.length_map]
        rw [readFixed, List.take_left' hfront, List.drop_left' hfront, bareNumbers?_eq_some.2 rfl,
          hread]
        · rfl
        · rintro ⟨⟩
        · rintro items rest' ⟨⟩

/-! ### Reading arguments -/

theorem pos_of_fixedSize? {kind : ArgKind} {count : Nat} (h : kind.fixedSize? = some count) :
    0 < count := by
  cases kind <;> cases h <;> decide

/-- What a row begins with is not the name of a basis. -/
theorem IsRowOf.ne_text {ns : List Number} (h : IsRowOf ns ops) (hns : 0 < ns.length) (t : Text)
    (rest rest' : List Operand) : ops ++ rest ≠ .scalar (.text t) :: rest' := by
  rcases h with _ | _
  · rintro ⟨⟩
  · rcases ns with _ | ⟨n, ns⟩
    · exact absurd hns (Nat.lt_irrefl 0)
    · rintro ⟨⟩

/-- What is read off for an argument is one of its segments. -/
theorem exists_segment_of_readArgument {kind : ArgKind} (hops : HaveDoubles ops)
    (h : readArgument proc arg kind ops = .ok (v, rest)) :
    ∃ front, ops = front ++ rest ∧ Segment proc kind front v := by
  unfold readArgument at h
  split at h
  · rename_i count hsize
    split at h
    · cases h
      exact ⟨_, rfl, .basis _⟩
    · obtain ⟨front, ns, rfl, rfl, hrow, rfl⟩ :=
        (readFixed_eq_ok (pos_of_fixedSize? hsize) hops).1 h
      exact ⟨front, rfl, .row hsize hrow⟩
  · rename_i hsize
    split at h
    · cases h
    · rename_i op rest'
      have hop : ∀ s ∈ op.scalars, s.hasDouble = true := hops op List.mem_cons_self
      split at h
      · obtain ⟨vs, hvs, ⟨⟩⟩ := bind_eq_ok.1 h
        exact ⟨_, rfl, .many ((mapM_eq_ok fun s hs w => readScalar_eq_ok (hop s hs)).1 hvs)⟩
      · cases h
      · obtain ⟨s, hs, h⟩ := bind_eq_ok.1 h
        obtain ⟨w, hw, ⟨⟩⟩ := bind_eq_ok.1 h
        have hdouble := hop s (mem_scalars_of_single hs)
        exact ⟨[op], rfl, .one (single_eq_ok.1 hs) ((readOne_eq_ok hdouble).1 hw)⟩
      · rename_i hmany hone _
        obtain ⟨s, hs, h⟩ := bind_eq_ok.1 h
        obtain ⟨w, hw, ⟨⟩⟩ := bind_eq_ok.1 h
        have hdouble := hop s (mem_scalars_of_single hs)
        rcases (readScalar_eq_ok hdouble).1 hw with _ | _ | _ | _ | t
        -- Of the kinds without a fixed size only these two are left.
        cases kind with
        | callback => exact ⟨[op], rfl, .callback (single_eq_ok.1 hs)⟩
        | pointer => exact ⟨[op], rfl, .pointer (single_eq_ok.1 hs)⟩
        | one kind => exact absurd rfl (hone kind)
        | many kind => exact absurd rfl (hmany kind)
        | _ => cases hsize

/-- **An argument is read off the front** of the operands: just those that spell it. -/
theorem readArgument_eq_ok {kind : ArgKind} (hops : HaveDoubles ops) :
    readArgument proc arg kind ops = .ok (v, rest) ↔
      ∃ front, ops = front ++ rest ∧ Segment proc kind front v := by
  constructor
  · exact exists_segment_of_readArgument hops
  · rintro ⟨front, rfl, h⟩
    rcases h with @⟨_, op, s, _, hop, hs⟩ | hvs | @⟨_, ns, _, hsize, hrow⟩ | t | hop | hop
    · have hsingle : single arg op = .ok s := single_eq_ok.2 hop
      have hdouble := hops _ List.mem_cons_self _ (mem_scalars_of_single hsingle)
      exact bind_eq_ok.2 ⟨_, hsingle, bind_eq_ok.2 ⟨_, (readOne_eq_ok hdouble).2 hs, rfl⟩⟩
    · have hdouble := hops _ List.mem_cons_self
      exact bind_eq_ok.2 ⟨_, (mapM_eq_ok fun s hs w => readScalar_eq_ok (hdouble s hs)).2 hvs, rfl⟩
    · have hpos := pos_of_fixedSize? hsize
      have hread : readFixed arg ns.length (front ++ rest) = .ok (rowOf ns, rest) :=
        (readFixed_eq_ok hpos hops).2 ⟨front, ns, rfl, rfl, hrow, rfl⟩
      simp only [readArgument, hsize]
      split
      · rename_i htext
        exact absurd htext (hrow.ne_text hpos _ _ _)
      · exact hread
    · rfl
    · exact bind_eq_ok.2 ⟨_, single_eq_ok.2 hop, rfl⟩
    · exact bind_eq_ok.2 ⟨_, single_eq_ok.2 hop, rfl⟩

/-- **All arguments are read off the front** of the operands, one after the other. -/
theorem readArguments_eq_ok {args : List (String × ArgKind)} {vs : List Value}
    (hops : HaveDoubles ops) :
    readArguments proc args ops = .ok (vs, rest) ↔
      ∃ front, ops = front ++ rest ∧ Segments proc args front vs := by
  induction args generalizing vs ops with
  | nil =>
    constructor
    · rintro ⟨⟩
      exact ⟨[], rfl, .nil⟩
    · rintro ⟨_, rfl, ⟨⟩⟩
      rfl
  | cons a args ih =>
    obtain ⟨arg, kind⟩ := a
    rw [readArguments_cons, bind_eq_ok]
    constructor
    · rintro ⟨⟨v, ops'⟩, hv, h⟩
      obtain ⟨⟨vs', rest'⟩, hvs, ⟨⟩⟩ := bind_eq_ok.1 h
      split at hv
      · cases hv
        obtain ⟨front, rfl, hsegments⟩ := (ih hops).1 hvs
        exact ⟨front, rfl, .unwritten ‹_› hsegments⟩
      · rename_i harg
        obtain ⟨front, rfl, hsegment⟩ := (readArgument_eq_ok hops).1 hv
        obtain ⟨front', rfl, hsegments⟩ :=
          (ih (hops.of_subset (List.subset_append_right front _))).1 hvs
        exact ⟨front ++ front', (List.append_assoc ..).symm,
          .cons (Bool.eq_false_of_not_eq_true harg) hsegment hsegments⟩
    · rintro ⟨_, rfl, _ | ⟨harg, hsegments⟩ | ⟨harg, hsegment, hsegments⟩⟩
      · rw [if_pos harg]
        exact ⟨_, rfl, bind_eq_ok.2 ⟨_, (ih hops).2 ⟨_, rfl, hsegments⟩, rfl⟩⟩
      · rw [List.append_assoc] at hops ⊢
        rw [if_neg (Bool.eq_false_iff.1 harg)]
        refine ⟨_, (readArgument_eq_ok hops).2 ⟨_, rfl, hsegment⟩, ?_⟩
        have hrest := (ih (hops.of_subset (List.subset_append_right _ _))).2
          ⟨_, rfl, hsegments⟩
        exact bind_eq_ok.2 ⟨_, hrest, rfl⟩

theorem readProceduralName_eq_ok {op : Operand} :
    readProceduralName op = .ok v ↔ ∃ t, op = .scalar (.text t) ∧ v = .text t := by
  constructor
  · intro h
    unfold readProceduralName at h
    split at h
    · cases h
      exact ⟨_, rfl, rfl⟩
    · cases h
  · rintro ⟨t, rfl, rfl⟩
    rfl

theorem readProceduralData_eq_ok {op : Operand} :
    readProceduralData op = .ok v ↔ ∃ items texts, op = .array items ∧
      List.Forall₂ ScalarKind.string.Spells items texts ∧ v = .list texts := by
  have htexts : ∀ {items texts}, itemTexts? items = some texts ↔
      List.Forall₂ ScalarKind.string.Spells items texts := by
    refine mapM_eq_some ?_
    rintro (n | t) w
    · exact ⟨nofun, nofun⟩
    · constructor
      · rintro ⟨⟩
        exact .string t
      · rintro ⟨⟩
        rfl
  constructor
  · intro h
    unfold readProceduralData at h
    split at h
    · split at h
      · cases h
        exact ⟨_, _, rfl, htexts.1 ‹_›, rfl⟩
      · cases h
    · cases h
  · rintro ⟨items, texts, rfl, h, rfl⟩
    simp only [readProceduralData, htexts.2 h]

/-- **The operands of a procedural primitive** are its name, its texts and its box. -/
theorem readProcedural_eq_ok {p : Procedure} (hname : p.name = "Procedural") {args : List Value}
    (hops : HaveDoubles ops) :
    readProcedural ops = .ok (args, rest) ↔
      ∃ front, ops = front ++ rest ∧ Positional p front args := by
  constructor
  · intro h
    rcases ops with _ | ⟨name, _ | ⟨data, _ | ⟨bound, rest'⟩⟩⟩
    · cases h
    · cases h
    · cases h
    · simp only [readProcedural_eq, bind_eq_ok, readProceduralName_eq_ok,
        readProceduralData_eq_ok] at h
      obtain ⟨_, ⟨t, rfl, rfl⟩, _, ⟨items, texts, rfl, htexts, rfl⟩, ⟨box, left⟩, hbox, ⟨⟩⟩ := h
      have hdouble : HaveDoubles [bound] := hops.of_subset (by simp)
      obtain ⟨front, ns, hbound, hns, hrow, rfl⟩ := (readFixed_eq_ok (by decide) hdouble).1 hbox
      rcases hrow with _ | _
      · obtain ⟨rfl, -⟩ := List.cons.inj hbound
        exact ⟨_, rfl, .procedural hname t htexts hns⟩
      · -- One operand is not enough for six bare numbers.
        have hlength : 1 = (ns.map _ ++ left).length := congrArg List.length hbound
        rw [List.length_append, List.length_map, hns] at hlength
        omega
  · rintro ⟨front, rfl, (⟨hname', -⟩ | @⟨-, name, items, texts, ns, htexts, hns⟩)⟩
    · exact absurd hname hname'
    · have hdouble : HaveDoubles [.array (ns.map .number)] := hops.of_subset (by simp)
      have hbox : readFixed "bound" 6 [.array (ns.map .number)] = .ok (rowOf ns, []) :=
        (readFixed_eq_ok (by decide) hdouble).2
          ⟨_, ns, (List.append_nil _).symm, hns, .packed, rfl⟩
      rw [List.cons_append, List.cons_append, List.cons_append, List.nil_append, readProcedural_eq]
      exact bind_eq_ok.2 ⟨_, rfl, bind_eq_ok.2
        ⟨_, readProceduralData_eq_ok.2 ⟨_, _, rfl, htexts, rfl⟩, bind_eq_ok.2 ⟨_, hbox, rfl⟩⟩⟩

/-- **The positional arguments are read off the front** of the operands. -/
theorem readPositional_eq_ok {p : Procedure} {args : List Value} (hops : HaveDoubles ops) :
    readPositional p ops = .ok (args, rest) ↔
      ∃ front, ops = front ++ rest ∧ Positional p front args := by
  unfold readPositional
  split
  · exact readProcedural_eq_ok ‹_› hops
  · rename_i hname
    rw [readArguments_eq_ok hops]
    refine exists_congr fun front => and_congr_right fun _ => ⟨.arguments hname, ?_⟩
    rintro (⟨-, h⟩ | ⟨hname', -, -⟩)
    · exact h
    · exact absurd hname' hname

end Arguments

/-! ### Reading parameters -/

/-- **A token is in order** if it is a text of characters alone, with a name in it. -/
theorem exists_tokenOf {token : Text} : (∃ t, Param.tokenOf (some (.text token)) = .ok t) ↔
    token.any CodePoint.isSurrogate = false ∧ Text.words token ≠ [] := by
  simp only [Param.tokenOf, Param.textOf, bind_eq_ok]
  constructor
  · rintro ⟨t, _, ⟨⟩, h⟩
    split at h
    · cases h
    · split at h
      · cases h
      · split at h
        · cases h
        · exact ⟨Bool.eq_false_of_not_eq_true ‹_›, ‹_›⟩
  · rintro ⟨hunbroken, hnamed⟩
    have hne : token.isEmpty = false := by
      rcases token with _ | ⟨c, cs⟩
      · exact absurd rfl hnamed
      · rfl
    refine ⟨⟨token, hnamed⟩, _, rfl, ?_⟩
    simp only [hunbroken, hne, hnamed, Bool.false_eq_true, if_false, dif_neg, not_false_iff]

/-- **Parameters are read** off pairs of a token and a value. -/
theorem readParamItems_eq_ok {declared : Text → Text} {ops : List Operand} {qs : List Param}
    (hwhole : ∀ op ∈ ops, op ≠ .broken) :
    ops.length % 2 ≠ 1 ∧ readParamItems declared ops = .ok qs ↔
      Pairs declared ops qs ∧ ∀ q ∈ qs, q.IsUnbroken := by
  constructor
  · rintro ⟨heven, h⟩
    fun_induction readParamItems declared ops generalizing qs with
    | case1 token value rest reasons hparse => cases h
    | case2 token value rest q hparse ih =>
      simp only [List.forall_mem_cons] at hwhole
      rcases hrest : readParamItems declared rest with e | qs'
      · rw [hrest] at h
        cases h
      · rw [hrest] at h
        obtain rfl : q :: qs' = qs := Except.ok.inj h
        simp only [List.length_cons] at heven
        obtain ⟨hpairs, hunbroken⟩ := ih hwhole.2.2 (by omega) hrest
        obtain ⟨htoken, rfl, htype, hvalues⟩ := (parse_toValue hwhole.2.1).1 hparse
        exact ⟨.cons q hwhole.2.1 htype hvalues hpairs,
          List.forall_mem_cons.2 ⟨(exists_tokenOf.1 htoken).1, hunbroken⟩⟩
    | case3 found value rest hfound => cases h
    | case4 ops hnone hfew =>
      cases h
      rcases ops with _ | ⟨op, _ | ⟨op', ops⟩⟩
      · exact ⟨.nil, List.forall_mem_nil _⟩
      · exact absurd rfl heven
      · exact (hfew op op' ops rfl).elim
  · rintro ⟨h, hunbroken⟩
    induction h with
    | nil => exact ⟨by decide, rfl⟩
    | @cons q op ops qs hop htype hvalues _ ih =>
      simp only [List.forall_mem_cons] at hwhole hunbroken
      obtain ⟨heven, hread⟩ := ih hwhole.2.2 hunbroken.2
      have hparse := (parse_toValue hop).2
        ⟨exists_tokenOf.2 ⟨hunbroken.1, q.named⟩, rfl, htype, hvalues⟩
      constructor
      · simp only [List.length_cons]
        omega
      · simp only [readParamItems, hparse, hread]
        rfl

/-! ### Reading calls -/

section Calls

variable {declared : Text → Text} {p : Procedure} {ops : List Operand} {c : Command}

/-- What is read is a call that the operands spell. -/
theorem spellsCall_of_readCall (hwhole : ∀ op ∈ ops, op ≠ .broken) (hdouble : HaveDoubles ops)
    (h : readCall declared p ops = .ok c) :
    SpellsCall declared p ops c ∧ ∀ q ∈ c.paramItems, q.IsUnbroken := by
  unfold readCall at h
  obtain ⟨⟨args, rest⟩, hargs, h⟩ := bind_eq_ok.1 h
  obtain ⟨front, rfl, hpositional⟩ := (readPositional_eq_ok hdouble).1 hargs
  simp only at h
  split at h
  · obtain ⟨ps, hps, ⟨⟩⟩ := bind_eq_ok.1 h
    obtain ⟨hpairs, hunbroken⟩ := (readParamItems_eq_ok fun op hop =>
      hwhole op (List.mem_append_right _ hop)).1 (readParams_eq_ok.1 hps)
    exact ⟨⟨rfl, front, rest, rfl, hpositional, .some ‹_› hpairs⟩, hunbroken⟩
  · rename_i htakes
    split at h
    · cases h
      obtain rfl : rest = [] := List.isEmpty_iff.1 ‹_›
      exact ⟨⟨rfl, front, [], rfl, hpositional, .none (Bool.eq_false_of_not_eq_true htakes)⟩,
        List.forall_mem_nil _⟩
    · cases h

/-- A call that the operands spell is what is read. -/
theorem readCall_of_spellsCall (hwhole : ∀ op ∈ ops, op ≠ .broken) (hdouble : HaveDoubles ops)
    (h : SpellsCall declared p ops c) (hunbroken : ∀ q ∈ c.paramItems, q.IsUnbroken) :
    readCall declared p ops = .ok c := by
  obtain ⟨proc, args, params⟩ := c
  obtain ⟨rfl, front, back, rfl, hpositional, htail⟩ := h
  refine bind_eq_ok.2 ⟨_, (readPositional_eq_ok hdouble).2 ⟨front, rfl, hpositional⟩, ?_⟩
  rcases htail with htakes | ⟨htakes, hpairs⟩
  · simp only [htakes]
    rfl
  · simp only [htakes, if_true]
    have hread := (readParamItems_eq_ok fun op hop =>
      hwhole op (List.mem_append_right _ hop)).2 ⟨hpairs, hunbroken⟩
    exact bind_eq_ok.2 ⟨_, readParams_eq_ok.2 hread, rfl⟩

/-- Nothing is refused for its size. -/
theorem readCall_ne_tooLarge (hdouble : HaveDoubles ops) :
    readCall declared p ops ≠ .error .tooLarge := by
  intro h
  obtain ⟨z, htakes, hz⟩ := takesDouble_of_readCall h
  obtain ⟨op, hop, hmem⟩ := htakes.mem_scalars
  have hsome : (Binary64.ofInt? z).isSome = true := hdouble op hop _ hmem
  rw [hz] at hsome
  exact Bool.false_ne_true hsome

/-- **Requests are read by their grammar.** Operands are read as a call if they spell it, its
tokens being texts of characters alone, and whatever else they are is a misfit. -/
theorem readCall_eq_ok (hwhole : ∀ op ∈ ops, op ≠ .broken) (hdouble : HaveDoubles ops) :
    (∀ c, readCall declared p ops = .ok c ↔
        SpellsCall declared p ops c ∧ ∀ q ∈ c.paramItems, q.IsUnbroken) ∧
      ((∃ m, readCall declared p ops = .error (.misfit m)) ↔
        ¬ ∃ c, SpellsCall declared p ops c ∧ ∀ q ∈ c.paramItems, q.IsUnbroken) := by
  refine ⟨fun c => ⟨spellsCall_of_readCall hwhole hdouble,
    fun h => readCall_of_spellsCall hwhole hdouble h.1 h.2⟩, ?_⟩
  constructor
  · rintro ⟨m, hm⟩ ⟨c, hspells, hunbroken⟩
    rw [readCall_of_spellsCall hwhole hdouble hspells hunbroken] at hm
    cases hm
  · intro hnone
    rcases hread : readCall declared p ops with (m | _) | c
    · exact ⟨m, rfl⟩
    · exact absurd hread (readCall_ne_tooLarge hdouble)
    · exact absurd ⟨c, spellsCall_of_readCall hwhole hdouble hread⟩ hnone

end Calls

/-- A procedure with two points and a number. -/
def hyperboloid : Procedure :=
  ⟨"Hyperboloid", [("point1", .point), ("point2", .point), ("thetamax", .float)], true⟩

/-- A point of bare numbers, a point in an array, a number alone in an array, and two parameters,
of which one has a type in its token. -/
def hyperboloidOperands : List Operand :=
  [.scalar (.number (.int 1)), .scalar (.number (.int 0)), .scalar (.number (.int (-2))),
    .array [.number (.int 0), .number (.int 1), .number (.int 0)], .array [.number (.int 360)],
    .scalar (.text "uniform float Ks"), .array [.number (.int 1), .text "x"],
    .scalar (.text "P"), .scalar (.text "P")]

theorem readCall_eq_ok_hyperboloid :
    Procedure.find? "Hyperboloid" = some hyperboloid ∧
      ((∀ op ∈ hyperboloidOperands, op ≠ .broken) ∧
        HaveDoubles hyperboloidOperands) ∧
      ∃ c, SpellsCall Declarations.standard.typeOf hyperboloid hyperboloidOperands c ∧
        ∀ q ∈ c.paramItems, q.IsUnbroken := by
  have hwhole : ∀ op ∈ hyperboloidOperands, op ≠ .broken := by decide
  have hdouble : HaveDoubles hyperboloidOperands := by
    decide +kernel
  have hread : ∀ c, readCall Declarations.standard.typeOf hyperboloid hyperboloidOperands = .ok c ↔
      SpellsCall Declarations.standard.typeOf hyperboloid hyperboloidOperands c ∧
        ∀ q ∈ c.paramItems, q.IsUnbroken := (readCall_eq_ok hwhole hdouble).1
  have hok : (readCall Declarations.standard.typeOf hyperboloid hyperboloidOperands).isOk
      = true := by decide +kernel
  rcases hc : readCall Declarations.standard.typeOf hyperboloid hyperboloidOperands with m | c
  · rw [hc] at hok
    cases hok
  · exact ⟨by decide, ⟨hwhole, hdouble⟩, c, (hread c).1 hc⟩

/-- A procedure with four numbers. -/
def sphere : Procedure :=
  ⟨"Sphere", [("radius", .float), ("zmin", .float), ("zmax", .float), ("thetamax", .float)], true⟩

/-- Four numbers, and a parameter whose name is half a surrogate pair. -/
def halfNamed : List Operand :=
  [.scalar (.number (.int 1)), .scalar (.number (.int 1)), .scalar (.number (.int 1)),
    .scalar (.number (.int 1)), .scalar (.text [.surrogate 0]), .scalar (.number (.int 2))]

theorem readCall_eq_ok_surrogate :
    Procedure.find? "Sphere" = some sphere ∧
      ((∀ op ∈ halfNamed, op ≠ .broken) ∧
        HaveDoubles halfNamed) ∧
      (∃ c, SpellsCall Declarations.standard.typeOf sphere halfNamed c) ∧
      ¬ ∃ c, readCall Declarations.standard.typeOf sphere halfNamed = .ok c := by
  refine ⟨by decide, ⟨by decide, by decide +kernel⟩, ?_, ?_⟩
  · have hone : ∀ arg, isUnwritten "Sphere" arg = false := fun arg => by simp [isUnwritten]
    have hsegment : Segment "Sphere" .float [.scalar (.number (.int 1))]
        (.float (Number.int 1).nearest) := .one (.bare _) (.scalar (.float _))
    let q : Param := ⟨[.surrogate 0], Declarations.standard.typeOf [.surrogate 0],
      [.number (.int 2)], by decide⟩
    have hfront := Segments.cons (hone "radius") hsegment (.cons (hone "zmin") hsegment
      (.cons (hone "zmax") hsegment (.cons (hone "thetamax") hsegment .nil)))
    have hvalue : Operand.scalar (.number (.int 2)) ≠ .broken := Operand.noConfusion
    exact ⟨⟨"Sphere", _, some ⟨[q], by decide⟩⟩, rfl, halfNamed.take 4, halfNamed.drop 4, rfl,
      .arguments (by decide) hfront, .some rfl (.cons q hvalue rfl rfl .nil)⟩
  · rintro ⟨c, hc⟩
    have hok : (readCall Declarations.standard.typeOf sphere halfNamed).isOk = false := by
      decide +kernel
    rw [hc] at hok
    cases hok

end Rib

end SceneReplay
