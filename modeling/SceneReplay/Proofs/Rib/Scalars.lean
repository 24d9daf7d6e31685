import SceneReplay.Proofs.Rib.Called

/-!
# The scalars of a call

A call is made of scalars: those in its arguments, however deep, and the tokens and values of
its parameters (`SceneReplay.Command.scalars`). Reading a request invents none of them. Each is
a scalar of one of the operands, or one of their numbers in another form: as a double, as an
integer, or as the text that it shows as (`SceneReplay.Scalar.Becomes`).

So what holds of all tokens of a text, and is kept by these three conversions, holds of all
that the text calls for. This is how one sees from a text what will be written.
-/

namespace SceneReplay

/-! ### Scalars of values -/

mutual

/-- The scalars in a value, however deep. -/
def Value.scalars : Value → List Scalar
  | .scalar s => [s]
  | .list items => Value.scalarsIn items
  | .tuple items => Value.scalarsIn items
  | .record _ fields => Value.scalarsIn fields
  | _ => []

/-- The scalars in some values, one value after the other. -/
def Value.scalarsIn : List Value → List Scalar
  | [] => []
  | v :: vs => v.scalars ++ Value.scalarsIn vs

end

namespace Value

theorem mem_scalarsIn {vs : List Value} {s : Scalar} :
    s ∈ scalarsIn vs ↔ ∃ v ∈ vs, s ∈ v.scalars := by
  induction vs with
  | nil => simp [scalarsIn]
  | cons v vs ih => simp [scalarsIn, ih]

mutual

/-- Freezing a value keeps its scalars. -/
theorem scalars_freeze : (v : Value) → v.freeze.scalars = v.scalars
  | .list items => by simp [freeze, scalars, scalarsIn_freezeAll items]
  | .tuple items => by simp [freeze, scalars, scalarsIn_freezeAll items]
  | .null | .flag _ | .scalar _ | .record _ _ | .callback _ _ | .object _ _ => by simp [freeze]

theorem scalarsIn_freezeAll : (vs : List Value) → scalarsIn (freezeAll vs) = scalarsIn vs
  | [] => rfl
  | v :: vs => by
    rw [freezeAll_cons, scalarsIn, scalarsIn, scalars_freeze v, scalarsIn_freezeAll vs]

end

mutual

theorem carriesInfinity_eq_any : (v : Value) → v.carriesInfinity = v.scalars.any Scalar.isInfinite
  | .scalar s => by simp [carriesInfinity, scalars]
  | .list items => by rw [carriesInfinity, scalars, anyInfinity_eq_any items]
  | .tuple items => by rw [carriesInfinity, scalars, anyInfinity_eq_any items]
  | .record _ fields => by rw [carriesInfinity, scalars, anyInfinity_eq_any fields]
  | .null | .flag _ | .callback _ _ | .object _ _ => rfl

theorem anyInfinity_eq_any :
    (vs : List Value) → anyInfinity vs = (scalarsIn vs).any Scalar.isInfinite
  | [] => rfl
  | v :: vs => by
    rw [anyInfinity, scalarsIn, List.any_append, carriesInfinity_eq_any v, anyInfinity_eq_any vs]

end

end Value

/-- The token of a parameter, and its values. -/
def Param.scalars (p : Param) : List Scalar := .text p.token :: p.values

namespace Command

/-- The scalars of a command: those of its arguments, and those of its parameters. -/
def scalars (c : Command) : List Scalar :=
  Value.scalarsIn c.args ++ c.paramItems.flatMap Param.scalars

theorem scalars_frozen (c : Command) : c.frozen.scalars = c.scalars := by
  have hparams : c.frozen.paramItems = c.paramItems := rfl
  have hargs : c.frozen.args = Value.freezeAll c.args := rfl
  rw [scalars, hparams, hargs, Value.scalarsIn_freezeAll, scalars]

/-- A command whose scalars are finite carries no infinite double. -/
theorem carriesInfinity_of_scalars {c : Command} (h : ∀ s ∈ c.scalars, s.isInfinite = false) :
    c.carriesInfinity = false := by
  simp only [scalars, List.forall_mem_append, List.forall_mem_flatMap, Param.scalars] at h
  rw [Rib.carriesInfinity_eq, Value.anyInfinity_eq_any, Bool.or_eq_false_iff]
  constructor
  · simpa using h.1
  · rw [List.any_eq_false]
    intro p hp
    simpa using (List.forall_mem_cons.1 (h.2 p hp)).2

end Command

/-! ### What a scalar is read as -/

/-- **The forms in which a scalar of a token is found in a call**: as it is, or, if it is a
number, as a double, as an integer, or as the text that it shows as. -/
inductive Scalar.Becomes : Scalar → Scalar → Prop
  /-- As it is. -/
  | same (s : Scalar) : Becomes s s
  /-- As a double. -/
  | double {n : Number} {x : Binary64} (h : n.toBinary64? = some x) :
      Becomes (.number n) (.number (.float x))
  /-- As an integer. -/
  | whole {n : Number} {k : Int} (h : n.toWhole? = some k) :
      Becomes (.number n) (.number (.int k))
  /-- As the text that it shows as. -/
  | shown (n : Number) : Becomes (.number n) (.text n.text)

/-- What is read of finite scalars is finite: an integer too large for a double is refused. -/
theorem Scalar.Becomes.finite {s s' : Scalar} (h : s.Becomes s') (hs : s.isInfinite = false) :
    s'.isInfinite = false := by
  cases h with
  | same => exact hs
  | @double n x hx =>
    rcases n with z | y
    · obtain ⟨negative, rank, rfl⟩ := Binary64.exists_of_ofInt? hx
      rfl
    · obtain rfl : y = x := Option.some.inj hx
      exact hs
  | whole => rfl
  | shown => rfl

namespace Rib

/-- A scalar of an operand, in one of its forms. -/
def ComesFrom (ops : List Operand) (s : Scalar) : Prop :=
  ∃ op ∈ ops, ∃ s' ∈ op.scalars, s'.Becomes s

theorem ComesFrom.of_subset {ops ops' : List Operand} {s : Scalar} (h : ComesFrom ops s)
    (hsubset : ops ⊆ ops') : ComesFrom ops' s := by
  obtain ⟨op, hop, hs⟩ := h
  exact ⟨op, hsubset hop, hs⟩

section Arguments

variable {proc arg : String} {v : Value} {s : Scalar} {ops rest : List Operand}

theorem becomes_of_readDouble {n : Number} (h : readDouble n = .ok v) :
    ∀ s' ∈ v.scalars, Scalar.Becomes (.number n) s' := by
  unfold readDouble at h
  split at h
  · rename_i x hx
    cases h
    exact List.forall_mem_singleton.2 (.double hx)
  · cases h

theorem becomes_of_readScalar {kind : ScalarKind} (h : readScalar arg kind s = .ok v) :
    ∀ s' ∈ v.scalars, s.Becomes s' := by
  rcases s with n | t
  · cases kind with
    | int =>
      simp only [readScalar] at h
      split at h
      · rename_i k hk
        cases h
        exact List.forall_mem_singleton.2 (.whole hk)
      · cases h
    | float => exact becomes_of_readDouble h
    | flag =>
      cases h
      exact List.forall_mem_nil _
    | token => cases h
    | string => cases h
  · cases kind with
    | token | string =>
      cases h
      exact List.forall_mem_singleton.2 (.same _)
    | int | float | flag => cases h

theorem becomes_of_readOne {kind : ScalarKind} (h : readOne proc arg kind s = .ok v) :
    ∀ s' ∈ v.scalars, s.Becomes s' := by
  unfold readOne at h
  split at h
  · split at h <;> cases h
    exact List.forall_mem_singleton.2 (.shown _)
  · split at h <;> cases h
    exact List.forall_mem_singleton.2 (.shown _)
  · exact becomes_of_readScalar h

theorem becomes_of_readNumbers {count : Nat} {numbers? : Option (List Number)}
    (h : readNumbers arg count numbers? = .ok v) :
    ∀ s' ∈ v.scalars, ∃ ns, numbers? = some ns ∧ ∃ n ∈ ns, Scalar.Becomes (.number n) s' := by
  unfold readNumbers at h
  split at h
  · rename_i ns
    split at h
    · rcases hvs : ns.mapM readDouble with e | vs
      · rw [hvs] at h
        cases h
      · rw [hvs] at h
        cases h
        intro s' hs'
        obtain ⟨w, hw, hs'⟩ := Value.mem_scalarsIn.1 hs'
        obtain ⟨n, hn, hread⟩ := (exists_of_mapM hvs).2 w hw
        exact ⟨ns, rfl, n, hn, becomes_of_readDouble hread s' hs'⟩
    · cases h
  · cases h

theorem comesFrom_of_readFixed {count : Nat} (h : readFixed arg count ops = .ok (v, rest)) :
    ∀ s' ∈ v.scalars, ComesFrom ops s' := by
  unfold readFixed at h
  split at h
  · cases h
  · obtain ⟨w, hw, h⟩ := bind_eq_ok.1 h
    cases h
    intro s' hs'
    obtain ⟨ns, hns, n, hn, hbecomes⟩ := becomes_of_readNumbers hw s' hs'
    exact ⟨_, List.mem_cons_self, _, number_mem_of_itemNumbers? hns n hn, hbecomes⟩
  · obtain ⟨w, hw, h⟩ := bind_eq_ok.1 h
    cases h
    intro s' hs'
    obtain ⟨ns, hns, n, hn, hbecomes⟩ := becomes_of_readNumbers hw s' hs'
    exact ⟨_, List.mem_of_mem_take (number_mem_of_bareNumbers? hns n hn), _,
      List.mem_cons_self, hbecomes⟩

/-- **What an argument is read as** comes from its operands. -/
theorem comesFrom_of_readArgument {kind : ArgKind}
    (h : readArgument proc arg kind ops = .ok (v, rest)) : ∀ s' ∈ v.scalars, ComesFrom ops s' := by
  -- A single value is that of the first operand.
  have hsingle : ∀ {op : Operand} {ops : List Operand} {s : Scalar}, single arg op = .ok s →
      (∀ s' ∈ v.scalars, s.Becomes s') → ∀ s' ∈ v.scalars, ComesFrom (op :: ops) s' :=
    fun hs hv s' hs' => ⟨_, List.mem_cons_self, _, mem_scalars_of_single hs, hv s' hs'⟩
  unfold readArgument at h
  split at h
  · split at h
    · cases h
      exact List.forall_mem_singleton.2
        ⟨_, List.mem_cons_self, _, List.mem_cons_self, .same _⟩
    · exact comesFrom_of_readFixed h
  · split at h
    · cases h
    · split at h
      · obtain ⟨vs, hvs, h⟩ := bind_eq_ok.1 h
        cases h
        intro s' hs'
        obtain ⟨w, hw, hs'⟩ := Value.mem_scalarsIn.1 hs'
        obtain ⟨s, hs, hread⟩ := (exists_of_mapM hvs).2 w hw
        exact ⟨_, List.mem_cons_self, s, hs, becomes_of_readScalar hread s' hs'⟩
      · cases h
      · obtain ⟨s, hs, h⟩ := bind_eq_ok.1 h
        obtain ⟨w, hw, h⟩ := bind_eq_ok.1 h
        cases h
        exact hsingle hs (becomes_of_readOne hw)
      · obtain ⟨s, hs, h⟩ := bind_eq_ok.1 h
        obtain ⟨w, hw, h⟩ := bind_eq_ok.1 h
        cases h
        exact hsingle hs (becomes_of_readScalar hw)

theorem comesFrom_of_readArguments {args : List (String × ArgKind)} {vs : List Value}
    (h : readArguments proc args ops = .ok (vs, rest)) :
    ∀ s' ∈ Value.scalarsIn vs, ComesFrom ops s' := by
  induction args generalizing vs ops with
  | nil =>
    cases h
    nofun
  | cons a args ih =>
    rw [readArguments_cons, bind_eq_ok] at h
    obtain ⟨⟨w, ops'⟩, hw, h⟩ := h
    obtain ⟨⟨ws, rest'⟩, hws, h⟩ := bind_eq_ok.1 h
    cases h
    rw [Value.scalarsIn, List.forall_mem_append]
    split at hw
    · cases hw
      exact ⟨nofun, ih hws⟩
    · exact ⟨comesFrom_of_readArgument hw,
        fun s' hs' => (ih hws s' hs').of_subset (subset_of_readArgument hw)⟩

theorem comesFrom_of_readProcedural {args : List Value}
    (h : readProcedural ops = .ok (args, rest)) :
    ∀ s' ∈ Value.scalarsIn args, ComesFrom ops s' := by
  rcases ops with _ | ⟨name, _ | ⟨data, _ | ⟨bound, rest'⟩⟩⟩
  · cases h
  · cases h
  · cases h
  · rw [readProcedural_eq, bind_eq_ok] at h
    obtain ⟨name', hname, h⟩ := h
    obtain ⟨data', hdata, h⟩ := bind_eq_ok.1 h
    obtain ⟨⟨box, left⟩, hbox, h⟩ := bind_eq_ok.1 h
    cases h
    have hdata' : ∀ s' ∈ data'.scalars, ComesFrom [data] s' := by
      unfold readProceduralData at hdata
      split at hdata
      · split at hdata
        · rename_i items _ texts htexts
          cases hdata
          intro s' hs'
          obtain ⟨w, hw, hs'⟩ := Value.mem_scalarsIn.1 hs'
          obtain ⟨s, hs, hsome⟩ := mem_of_mapM_some htexts w hw
          rcases s with n | t
          · cases hsome
          · cases hsome
            obtain rfl := List.mem_singleton.1 hs'
            exact ⟨_, List.mem_cons_self, _, hs, .same _⟩
        · cases hdata
      · cases hdata
    have hname' : ∀ s' ∈ name'.scalars, ComesFrom [name] s' := by
      unfold readProceduralName at hname
      split at hname
      · cases hname
        exact List.forall_mem_singleton.2
          ⟨_, List.mem_cons_self, _, List.mem_cons_self, .same _⟩
      · cases hname
    intro s' hs'
    simp only [Value.scalarsIn, Value.scalars, List.append_nil, List.mem_append] at hs'
    rcases hs' with hs' | hs' | hs'
    · exact (hdata' s' hs').of_subset (by simp)
    · exact (comesFrom_of_readFixed hbox s' hs').of_subset (by simp)
    · exact (hname' s' hs').of_subset (by simp)

theorem comesFrom_of_readPositional {p : Procedure} {args : List Value}
    (h : readPositional p ops = .ok (args, rest)) :
    ∀ s' ∈ Value.scalarsIn args, ComesFrom ops s' := by
  unfold readPositional at h
  split at h
  · exact comesFrom_of_readProcedural h
  · exact comesFrom_of_readArguments h

end Arguments

/-! ### What a request is read as -/

theorem comesFrom_of_readParamItems {declared : Text → Text} {ops : List Operand}
    {items : List Param} (h : readParamItems declared ops = .ok items)
    (hwhole : ∀ op ∈ ops, op ≠ .broken) : ∀ s ∈ items.flatMap Param.scalars, ComesFrom ops s := by
  fun_induction readParamItems declared ops generalizing items with
  | case1 token value rest reasons hparse => cases h
  | case2 token value rest p hparse ih =>
    simp only [List.forall_mem_cons] at hwhole
    rcases hrest : readParamItems declared rest with e | items'
    · rw [hrest] at h
      cases h
    · rw [hrest] at h
      obtain rfl : p :: items' = items := Except.ok.inj h
      obtain ⟨-, rfl, -, hvalues⟩ := (parse_toValue hwhole.2.1).1 hparse
      rw [List.flatMap_cons, List.forall_mem_append, Param.scalars, List.forall_mem_cons]
      refine ⟨⟨⟨_, List.mem_cons_self, _, List.mem_cons_self, .same _⟩, fun s hs => ?_⟩,
        fun s hs => ?_⟩
      · exact ⟨value, by simp, s, hvalues ▸ hs, .same s⟩
      · exact (ih hrest hwhole.2.2 s hs).of_subset fun op hop => by simp [hop]
  | case3 found value rest hfound => cases h
  | case4 ops hnone hfew =>
    cases h
    exact List.forall_mem_nil _

/-- **What a request is read as** comes from its operands. -/
theorem comesFrom_of_readCall {declared : Text → Text} {p : Procedure} {ops : List Operand}
    {c : Command} (h : readCall declared p ops = .ok c) (hwhole : ∀ op ∈ ops, op ≠ .broken) :
    ∀ s ∈ c.scalars, ComesFrom ops s := by
  unfold readCall at h
  obtain ⟨⟨args, rest⟩, hargs, h⟩ := bind_eq_ok.1 h
  have hpositional := comesFrom_of_readPositional hargs
  have hsubset := subset_of_readPositional hargs
  simp only at h
  rw [Command.scalars, List.forall_mem_append]
  split at h
  · obtain ⟨ps, hps, h⟩ := bind_eq_ok.1 h
    cases h
    obtain ⟨-, hitems⟩ := readParams_eq_ok.1 hps
    have hparams := comesFrom_of_readParamItems hitems fun op hop => hwhole op (hsubset hop)
    exact ⟨hpositional, fun s hs => (hparams s hs).of_subset hsubset⟩
  · split at h
    · cases h
      exact ⟨hpositional, nofun⟩
    · cases h

/-! ### What a text calls for -/

/-- **What holds of the scalars and comments among some tokens**, and of all that scalars
become, holds of the scalars of whatever comes from these tokens. -/
theorem Origin.forall_scalars {P : Scalar → Prop} {ts : List Token} {c : Command}
    (h : Origin ts c) (hbecomes : ∀ s s', s.Becomes s' → P s → P s')
    (hscalars : ∀ t ∈ ts, ∀ s ∈ scalarOf? t.lexeme, P s)
    (hrecords : ∀ t ∈ ts, ∀ r ∈ recordOf? t.lexeme, P (.text r.type) ∧ P (.text r.text)) :
    ∀ s ∈ c.scalars, P s := by
  rcases h with @⟨d, r, p, hr, -, hwhole, hread⟩ | @⟨u, r, hu, hr, rfl⟩
  · intro s hs
    have hbody := (split_subset ts).2 r hr
    obtain ⟨op, hop, s', hs', hbecome⟩ :=
      comesFrom_of_readCall hread (ne_broken_of_firstBroken? hwhole) s hs
    obtain ⟨op', hop', rfl⟩ := List.mem_map.1 hop
    have hP := forall_scalars_operands r.body (fun t ht => hscalars t (hbody ht)) op' hop' s' hs'
    exact hbecomes s' s hbecome hP
  · obtain ⟨htype, htext⟩ := hrecords u hu r hr
    exact List.forall_mem_cons.2 ⟨htype, List.forall_mem_singleton.2 htext⟩

/-- **A text without an infinite double calls for none.** -/
theorem finite_of_calls {t : Text}
    (h : ∀ u ∈ tokensOf (lex 1 t), ∀ s ∈ scalarOf? u.lexeme, s.isInfinite = false) :
    ∀ c ∈ calls t, c.carriesInfinity = false := fun c hc =>
  Command.carriesInfinity_of_scalars <|
    (origin_of_events c hc).forall_scalars (fun _ _ hbecomes => hbecomes.finite) h
      fun _ _ _ _ => ⟨rfl, rfl⟩

end Rib

end SceneReplay
