import SceneReplay.Proofs.Rib.Called
import SceneReplay.Proofs.Rib.LineLocal

/-!
# What stops the reading

Whatever is wrong with a text is reported, and reading goes on. Only integers can stop it, and
there are two ways (`SceneReplay.Rib.read_ends`). A literal with too many digits stops it before
anything is called. A literal that is too large for a double stops it where a double is wanted,
and what was called until then are the requests before the one that it stands in, and their
comments.

The second way is found by going down the readers of operands: of all that is refused, only a
number that is read as a double is refused for its size (`SceneReplay.Rib.takesDouble_of_readCall`).
The scalars of operands are scalars of the request's tokens, so it is a literal.
-/

namespace SceneReplay.Rib

/-! ### Numbers that are taken as doubles -/

/-- An integer has no double near it. -/
def TooLarge (z : Int) : Prop := Binary64.ofInt? z = none

instance (z : Int) : Decidable (TooLarge z) :=
  decidable_of_iff ((Binary64.ofInt? z).isNone = true) Option.isNone_iff_eq_none

/-- **A number that an argument takes as a double** off the front of some operands. -/
inductive TakesDouble : ArgKind → List Operand → Number → Prop
  /-- A single double. -/
  | single {op : Operand} {rest : List Operand} {n : Number} (h : op.scalars = [.number n]) :
      TakesDouble .float (op :: rest) n
  /-- One of a list. -/
  | item {items : List Scalar} {rest : List Operand} {n : Number} (h : .number n ∈ items) :
      TakesDouble .floats (.array items :: rest) n
  /-- One of a row in an array. -/
  | row {kind : ArgKind} {items : List Scalar} {rest : List Operand} {ns : List Number}
      {n : Number} (hnumbers : itemNumbers? items = some ns)
      (hsize : kind.fixedSize? = some ns.length) (h : n ∈ ns) :
      TakesDouble kind (.array items :: rest) n
  /-- One of a row of bare numbers. -/
  | bare {kind : ArgKind} {count : Nat} {ops : List Operand} {ns : List Number} {n : Number}
      (hnumbers : bareNumbers? (ops.take count) = some ns)
      (hsize : kind.fixedSize? = some ns.length) (h : n ∈ ns) : TakesDouble kind ops n

section Arguments

variable {proc arg : String} {ops : List Operand}

theorem tooLarge_of_readDouble {n : Number} (h : readDouble n = .error .tooLarge) :
    ∃ z, n = .int z ∧ TooLarge z := by
  unfold readDouble at h
  split at h
  · cases h
  · rename_i hnone
    rcases n with z | x
    · exact ⟨z, rfl, hnone⟩
    · cases hnone

theorem tooLarge_of_readScalar {kind : ScalarKind} {s : Scalar}
    (h : readScalar arg kind s = .error .tooLarge) :
    kind = .float ∧ ∃ z, s = .number (.int z) ∧ TooLarge z := by
  rcases s with n | t
  · cases kind with
    | float =>
      obtain ⟨z, rfl, hz⟩ := tooLarge_of_readDouble h
      exact ⟨rfl, z, rfl, hz⟩
    | int =>
      simp only [readScalar] at h
      split at h <;> cases h
    | flag => cases h
    | token => cases h
    | string => cases h
  · cases kind <;> cases h

theorem tooLarge_of_readOne {kind : ScalarKind} {s : Scalar}
    (h : readOne proc arg kind s = .error .tooLarge) :
    kind = .float ∧ ∃ z, s = .number (.int z) ∧ TooLarge z := by
  unfold readOne at h
  split at h
  · split at h <;> cases h
  · split at h <;> cases h
  · exact tooLarge_of_readScalar h

theorem tooLarge_of_readNumbers {count : Nat} {numbers? : Option (List Number)}
    (h : readNumbers arg count numbers? = .error .tooLarge) :
    ∃ ns z, numbers? = some ns ∧ ns.length = count ∧ .int z ∈ ns ∧ TooLarge z := by
  unfold readNumbers at h
  split at h
  · rename_i ns
    split at h
    · rename_i hcount
      rcases hread : ns.mapM readDouble with e | vs
      · rw [hread] at h
        cases h
        obtain ⟨n, hn, hlarge⟩ := exists_of_mapM_error hread
        obtain ⟨z, rfl, hz⟩ := tooLarge_of_readDouble hlarge
        exact ⟨ns, z, rfl, hcount, hn, hz⟩
      · rw [hread] at h
        cases h
    · cases h
  · cases h

theorem takesDouble_of_readFixed {kind : ArgKind} {count : Nat}
    (hsize : kind.fixedSize? = some count) (h : readFixed arg count ops = .error .tooLarge) :
    ∃ z, TakesDouble kind ops (.int z) ∧ TooLarge z := by
  unfold readFixed at h
  split at h
  · cases h
  · rcases bind_eq_error.1 h with h | ⟨v, -, ⟨⟩⟩
    obtain ⟨ns, z, hns, rfl, hmem, hz⟩ := tooLarge_of_readNumbers h
    exact ⟨z, .row hns hsize hmem, hz⟩
  · rcases bind_eq_error.1 h with h | ⟨v, -, ⟨⟩⟩
    obtain ⟨ns, z, hns, hcount, hmem, hz⟩ := tooLarge_of_readNumbers h
    exact ⟨z, .bare hns (hcount ▸ hsize) hmem, hz⟩

theorem single_ne_tooLarge {op : Operand} : single arg op ≠ .error .tooLarge := by
  intro h
  unfold single at h
  split at h <;> cases h

/-- **What one argument is refused for its size for** is a number that it takes as a double. -/
theorem takesDouble_of_readArgument {kind : ArgKind}
    (h : readArgument proc arg kind ops = .error .tooLarge) :
    ∃ z, TakesDouble kind ops (.int z) ∧ TooLarge z := by
  unfold readArgument at h
  split at h
  · rename_i count hsize
    split at h
    · cases h
    · exact takesDouble_of_readFixed hsize h
  · split at h
    · cases h
    · rename_i op rest
      split at h
      · rename_i kind items
        rcases bind_eq_error.1 h with h | ⟨vs, -, ⟨⟩⟩
        obtain ⟨s, hs, hread⟩ := exists_of_mapM_error h
        obtain ⟨rfl, z, rfl, hz⟩ := tooLarge_of_readScalar hread
        exact ⟨z, .item hs, hz⟩
      · cases h
      · rename_i kind
        rcases bind_eq_error.1 h with h | ⟨s, hs, h⟩
        · exact absurd h single_ne_tooLarge
        · rcases bind_eq_error.1 h with h | ⟨v, -, ⟨⟩⟩
          obtain ⟨rfl, z, rfl, hz⟩ := tooLarge_of_readOne h
          exact ⟨z, .single (scalars_of_single hs), hz⟩
      · rcases bind_eq_error.1 h with h | ⟨s, hs, h⟩
        · exact absurd h single_ne_tooLarge
        · -- A text was wanted.
          rcases bind_eq_error.1 h with h | ⟨v, -, ⟨⟩⟩
          obtain ⟨⟨⟩, -⟩ := tooLarge_of_readScalar h

theorem takesDouble_of_readArguments {args : List (String × ArgKind)}
    (h : readArguments proc args ops = .error .tooLarge) :
    ∃ before arg kind after vs rest z, args = before ++ (arg, kind) :: after ∧
      readArguments proc before ops = .ok (vs, rest) ∧ TakesDouble kind rest (.int z) ∧
      TooLarge z := by
  induction args generalizing ops with
  | nil => cases h
  | cons a args ih =>
    obtain ⟨arg, kind⟩ := a
    rw [readArguments_cons, bind_eq_error] at h
    rcases h with h | ⟨⟨v, ops'⟩, hv, h⟩
    · split at h
      · cases h
      · obtain ⟨z, htakes, hz⟩ := takesDouble_of_readArgument h
        exact ⟨[], arg, kind, args, [], ops, z, rfl, rfl, htakes, hz⟩
    · rcases bind_eq_error.1 h with h | ⟨⟨vs, rest⟩, -, ⟨⟩⟩
      obtain ⟨before, arg', kind', after, vs, rest, z, rfl, hbefore, htakes, hz⟩ := ih h
      refine ⟨(arg, kind) :: before, arg', kind', after, v :: vs, rest, z, rfl, ?_, htakes, hz⟩
      rw [readArguments_cons, hv]
      exact bind_eq_ok.2 ⟨_, rfl, bind_eq_ok.2 ⟨_, hbefore, rfl⟩⟩

end Arguments

/-! ### Requests that stop the reading -/

/-- **A number that a call takes as a double**: in a positional argument, after those before it
were read, or in the bound of a procedural primitive. -/
inductive CallTakesDouble (p : Procedure) (ops : List Operand) (n : Number) : Prop
  | argument {before after : List (String × ArgKind)} {arg : String} {kind : ArgKind}
      {vs : List Value} {rest : List Operand} (hname : p.name ≠ "Procedural")
      (hargs : p.args = before ++ (arg, kind) :: after)
      (hbefore : readArguments p.name before ops = .ok (vs, rest))
      (htakes : TakesDouble kind rest n)
  | bound {name data bound : Operand} {rest : List Operand} (hname : p.name = "Procedural")
      (hops : ops = name :: data :: bound :: rest) (htakes : TakesDouble .bound [bound] n)

theorem takesDouble_of_readProcedural {ops : List Operand}
    (h : readProcedural ops = .error .tooLarge) :
    ∃ name data bound rest z, ops = name :: data :: bound :: rest ∧
      TakesDouble .bound [bound] (.int z) ∧ TooLarge z := by
  rcases ops with _ | ⟨name, _ | ⟨data, _ | ⟨bound, rest⟩⟩⟩
  · cases h
  · cases h
  · cases h
  · rw [readProcedural_eq, bind_eq_error] at h
    rcases h with h | ⟨name', -, h⟩
    · unfold readProceduralName at h
      split at h <;> cases h
    · rcases bind_eq_error.1 h with h | ⟨data', -, h⟩
      · unfold readProceduralData at h
        split at h
        · split at h <;> cases h
        · cases h
      · rcases bind_eq_error.1 h with h | ⟨⟨box, left⟩, -, ⟨⟩⟩
        have hsize : ArgKind.bound.fixedSize? = some 6 := rfl
        obtain ⟨z, htakes, hz⟩ := takesDouble_of_readFixed hsize h
        exact ⟨name, data, bound, rest, z, rfl, htakes, hz⟩

/-- Parameters are taken as they are. -/
theorem readParams_ne_tooLarge {declared : Text → Text} {ops : List Operand} :
    readParams declared ops ≠ .error .tooLarge := by
  have hitems : readParamItems declared ops ≠ .error .tooLarge := by
    fun_induction readParamItems declared ops with
    | case1 | case3 | case4 => rintro ⟨⟩
    | case2 token value rest p hparse ih =>
      rcases hrest : readParamItems declared rest with (m | _) | items
      · rintro ⟨⟩
      · exact absurd hrest ih
      · rintro ⟨⟩
  intro h
  unfold readParams at h
  split at h
  · cases h
  · rcases bind_eq_error.1 h with h | ⟨items, -, h⟩
    · exact hitems h
    · split at h <;> cases h

/-- **What a request is refused for its size for** is a number that its call takes as a
double. -/
theorem takesDouble_of_readCall {declared : Text → Text} {p : Procedure} {ops : List Operand}
    (h : readCall declared p ops = .error .tooLarge) :
    ∃ z, CallTakesDouble p ops (.int z) ∧ TooLarge z := by
  unfold readCall at h
  rcases bind_eq_error.1 h with h | ⟨⟨args, rest⟩, -, h⟩
  · unfold readPositional at h
    split at h
    · rename_i hname
      obtain ⟨name, data, bound, rest, z, rfl, htakes, hz⟩ := takesDouble_of_readProcedural h
      exact ⟨z, .bound hname rfl htakes, hz⟩
    · rename_i hname
      obtain ⟨before, arg, kind, after, vs, rest, z, hargs, hbefore, htakes, hz⟩ :=
        takesDouble_of_readArguments h
      exact ⟨z, .argument hname hargs hbefore htakes, hz⟩
  · simp only at h
    split at h
    · rcases bind_eq_error.1 h with h | ⟨ps, -, ⟨⟩⟩
      exact absurd h readParams_ne_tooLarge
    · split at h <;> cases h

theorem TakesDouble.mem_scalars {kind : ArgKind} {ops : List Operand} {n : Number}
    (h : TakesDouble kind ops n) : ∃ op ∈ ops, .number n ∈ op.scalars := by
  rcases h with h | h | ⟨hnumbers, -, h⟩ | ⟨hnumbers, -, h⟩
  · exact ⟨_, List.mem_cons_self, h ▸ List.mem_cons_self⟩
  · exact ⟨_, List.mem_cons_self, h⟩
  · exact ⟨_, List.mem_cons_self, number_mem_of_itemNumbers? hnumbers _ h⟩
  · exact ⟨_, List.mem_of_mem_take (number_mem_of_bareNumbers? hnumbers _ h), List.mem_cons_self⟩

theorem CallTakesDouble.mem_scalars {p : Procedure} {ops : List Operand} {n : Number}
    (h : CallTakesDouble p ops n) : ∃ op ∈ ops, .number n ∈ op.scalars := by
  rcases h with ⟨-, -, hbefore, htakes⟩ | ⟨-, rfl, htakes⟩
  · obtain ⟨op, hop, hn⟩ := htakes.mem_scalars
    exact ⟨op, subset_of_readArguments hbefore hop, hn⟩
  · obtain ⟨op, hop, hn⟩ := htakes.mem_scalars
    obtain rfl := List.mem_singleton.1 hop
    exact ⟨op, by simp, hn⟩

/-- **A literal that stops the reading at a request**: it stands in its body and is taken as a
double, but is too large for one. -/
structure StopsAt (r : Request) (z : Int) : Prop where
  /-- It is a literal. -/
  literal : ∃ line, ⟨.number (.int z), line⟩ ∈ r.body
  /-- It is taken as a double. -/
  taken : ∃ p, Procedure.find? r.name = some p ∧
    CallTakesDouble p ((operands r.body).map Prod.fst) (.int z)
  /-- There is none near it. -/
  tooLarge : TooLarge z

/-- A number among the scalars of operands is a literal. -/
theorem exists_literal {ts : List Token} {n : Number}
    (h : ∃ op ∈ (operands ts).map Prod.fst, .number n ∈ op.scalars) :
    ∃ line, ⟨.number n, line⟩ ∈ ts := by
  obtain ⟨op', hop', hn⟩ := h
  obtain ⟨op, hop, rfl⟩ := List.mem_map.1 hop'
  have hscalars := forall_scalars_operands (P := fun s => ∃ t ∈ ts, scalarOf? t.lexeme = some s)
    ts (fun t ht s hs => ⟨t, ht, hs⟩) op hop
  obtain ⟨⟨l, line⟩, ht, hs⟩ := hscalars _ hn
  cases l with
  | number m =>
    cases hs
    exact ⟨line, ht⟩
  | text t => cases hs
  | _ => cases hs

/-- **A request leads to a fault** only for such a literal, and to nothing else then. -/
theorem stopsAt_of_requestEvents {d : Declarations} {r : Request} {f : Fault}
    (h : .fault f ∈ requestEvents d r) :
    requestEvents d r = [.fault .integerTooLarge] ∧ ∃ z, StopsAt r z := by
  rcases requestEvents_cases d r with hevents | ⟨report, hevents⟩ | ⟨p, hp, hread, hevents⟩ |
    ⟨p, c, -, -, -, hevents⟩
  · rw [hevents] at h
    cases h
  · rw [hevents] at h
    rcases h with _ | ⟨_, ⟨⟩⟩
  · obtain ⟨z, htakes, hz⟩ := takesDouble_of_readCall hread
    exact ⟨hevents, z, exists_literal htakes.mem_scalars, ⟨p, hp, htakes⟩, hz⟩
  · rw [hevents, callEvents] at h
    split at h
    · rcases h with _ | ⟨_, _ | ⟨_, ⟨⟩⟩⟩
    · rcases h with _ | ⟨_, ⟨⟩⟩

/-- **The first fault** among the events of requests. -/
theorem exists_of_fault_mem {d : Declarations} {rs : List Request} {f : Fault}
    (h : .fault f ∈ requestsEvents d rs) :
    ∃ before r after z rest, rs = before ++ r :: after ∧ StopsAt r z ∧
      (∀ f, .fault f ∉ requestsEvents d before) ∧
      requestsEvents d rs = requestsEvents d before ++ .fault .integerTooLarge :: rest := by
  have hcomments : ∀ (f : Fault) (ts : List Token), .fault f ∉ commentEvents ts := by
    intro f ts hf
    obtain ⟨r, -, ⟨⟩⟩ := List.mem_map.1 hf
  induction rs generalizing d with
  | nil => cases h
  | cons r rs ih =>
    by_cases hr : ∃ f, .fault f ∈ requestEvents d r
    · obtain ⟨f, hf⟩ := hr
      obtain ⟨hevents, z, hz⟩ := stopsAt_of_requestEvents hf
      refine ⟨[], r, rs, z, commentEvents r.body
        ++ requestsEvents (declaredBy d (requestEvents d r)) rs, rfl, hz, nofun, ?_⟩
      change requestEvents d r ++ _ = _
      rw [hevents]
      rfl
    · rw [not_exists] at hr
      rw [requestsEvents, List.mem_append, List.mem_append] at h
      have hrest := (h.resolve_left (hr f)).resolve_left (hcomments f _)
      obtain ⟨before, r', after, z, rest, rfl, hz, hbefore, hevents⟩ := ih hrest
      refine ⟨r :: before, r', after, z, rest, rfl, hz, fun f hf => ?_, ?_⟩
      · rw [requestsEvents, List.mem_append, List.mem_append] at hf
        exact hbefore f ((hf.resolve_left (hr f)).resolve_left (hcomments f _))
      · rw [requestsEvents, hevents, requestsEvents, List.append_assoc, List.append_assoc]

/-! ### Literals with too many digits -/

/-- **A literal with too many digits**, at a place of the text that reading gets to. -/
structure IsOversized (t literal : Text) (digits : Nat) : Prop where
  /-- The place is one of the text. -/
  suffix : literal <:+ t
  /-- Reading gets there, and no further. -/
  reached : ∃ line, .trouble (.tooManyDigits digits) line literal.length ∈ lex 1 t
  /-- An integer begins there that has so many digits. -/
  integer : ∃ m rest, Numeral.scan? literal = some (m, rest) ∧ m.fraction = none ∧
    m.exponent = none ∧ m.whole.length = digits
  /-- These are more than are read. -/
  tooMany : digitLimit < digits

theorem integer_of_value_error {m : Numeral} {digits : Nat}
    (h : m.value = .error digits) :
    m.fraction = none ∧ m.exponent = none ∧ m.whole.length = digits ∧ digitLimit < digits := by
  unfold Numeral.value at h
  split at h
  · rename_i hfraction hexponent
    split at h
    · rename_i hlimit
      cases h
      exact ⟨hfraction, hexponent, rfl, hlimit⟩
    · cases h
  · cases h

/-- Only an integer has too many digits. -/
theorem scan?_of_tooManyDigits {c : CodePoint} {cs rest : Text} {digits : Nat}
    (h : scan c cs = (.trouble (.tooManyDigits digits), rest)) :
    ∃ m rest, Numeral.scan? (c :: cs) = some (m, rest) ∧ m.value = .error digits := by
  unfold scan at h
  split at h
  · cases h
  · split at h
    · cases h
    · split at h
      · unfold scanComment at h
        split at h <;> cases h
      · split at h
        · unfold scanQuoted at h
          split at h <;> cases h
        · unfold scanWord at h
          split at h
          · rename_i m rest' hm
            unfold numeralPiece at h
            split at h
            · cases h
            · rename_i hvalue
              cases h
              exact ⟨m, _, hm, hvalue⟩
          · split at h
            · cases h
            · split at h
              · cases h
              · split at h <;> cases h

/-- **A literal with too many digits** is what stops the reading of the text itself. -/
theorem exists_oversized {t : Text} {line : Int} {digits remaining : Nat}
    (h : .trouble (.tooManyDigits digits) line remaining ∈ lex 1 t) :
    ∃ literal, IsOversized t literal digits := by
  obtain ⟨c, ds, hsuffix, ⟨⟩ | hpiece⟩ := exists_of_mem_lex h
  have htrouble : scan c ds = (.trouble (.tooManyDigits digits), (scan c ds).2) :=
    Prod.ext hpiece rfl
  obtain ⟨m, rest, hscan, hvalue⟩ := scan?_of_tooManyDigits htrouble
  obtain ⟨hfraction, hexponent, hlength, htooMany⟩ := integer_of_value_error hvalue
  exact ⟨c :: ds, hsuffix, ⟨line, h⟩, ⟨m, rest, hscan, hfraction, hexponent, hlength⟩, htooMany⟩

/-! ### How reading ends -/

/-- The first fault among some events, if there is one. -/
theorem exists_first_fault {evs : List Event} (h : ∃ f, .fault f ∈ evs) :
    ∃ before f after, evs = before ++ .fault f :: after ∧ ∀ f, .fault f ∉ before := by
  induction evs with
  | nil =>
    obtain ⟨f, ⟨⟩⟩ := h
  | cons e evs ih =>
    by_cases he : ∃ f, e = .fault f
    · obtain ⟨f, rfl⟩ := he
      exact ⟨[], f, evs, rfl, nofun⟩
    · obtain ⟨f, hf⟩ := h
      have hrest := (List.mem_cons.1 hf).resolve_left fun heq => he ⟨f, heq.symm⟩
      obtain ⟨before, f', after, rfl, hbefore⟩ := ih ⟨f, hrest⟩
      refine ⟨e :: before, f', after, rfl, fun f'' hf'' => ?_⟩
      rcases List.mem_cons.1 hf'' with heq | hf''
      · exact he ⟨f'', heq.symm⟩
      · exact hbefore f'' hf''

/-- **A text is read up to the first fault** among its events. -/
theorem read_of_fault {d : Declarations} {t : Text} {before after : List Event} {f : Fault}
    (hevents : events d t = before ++ .fault f :: after) (hbefore : ∀ f, .fault f ∉ before)
    (s : Collector) (log : Log) :
    (read ⟨[], s, log⟩ 0 d t).fault = some f ∧
      (read ⟨[], s, log⟩ 0 d t).chain.sink.toList
        = s.toList ++ (before.filterMap Event.command?).map Command.frozen := by
  have hreissue : ∀ c ∈ before.filterMap Event.command?, c.reissue = .ok c.frozen := by
    intro c hc
    refine (isCalled_of_events (d := d) (t := t) c ?_).isWellFormed.reissue_eq
    rw [hevents, List.filterMap_append]
    exact List.mem_append_left _ hc
  have hnone : (play 0 before ⟨[], s, log⟩ d 0).fault = none :=
    fault_play_collector hreissue hbefore
  rw [read, hevents, play_append hnone, play_toEnd hreissue hnone]
  exact ⟨rfl, toList_deliver s _⟩

/-- The events of a text before a request: the comments that lead it, and what the requests
before lead to, with the comments inside them. -/
def eventsBefore (d : Declarations) (t : Text) (before : List Request) : List Event :=
  (split (tokensOf (lex 1 t))).1.map leadEvent ++ requestsEvents d before

/-- **How the reading of a text into a collector ends**, which has kept the given commands
before. -/
inductive ReadingEnds (d : Declarations) (kept : List Command) (t : Text) (p : Played Collector) :
    Prop
  /-- With the text. -/
  | complete (hfault : p.fault = none)
  /-- With a literal of too many digits. Nothing was called. -/
  | oversized {literal : Text} {digits : Nat} (hfault : p.fault = some (.tooManyDigits digits))
      (hliteral : IsOversized t literal digits) (hkept : p.chain.sink.toList = kept)
  /-- With a literal that is too large for a double. Just what comes before its request was
  called. -/
  | tooLarge {before after : List Request} {r : Request} {z : Int}
      (hfault : p.fault = some .integerTooLarge)
      (hrequest : (split (tokensOf (lex 1 t))).2 = before ++ r :: after) (hliteral : StopsAt r z)
      (hbefore : ∀ f, .fault f ∉ eventsBefore d t before)
      (hkept : p.chain.sink.toList
        = kept ++ ((eventsBefore d t before).filterMap Event.command?).map Command.frozen)

/-- The integer literals of a text. -/
def integerLiterals (t : Text) : List Int :=
  (tokensOf (lex 1 t)).filterMap fun u =>
    match u.lexeme with
    | .number (.int z) => some z
    | _ => none

theorem mem_integerLiterals_of_stopsAt {t : Text} {before after : List Request} {r : Request}
    {z : Int} (hrequest : (split (tokensOf (lex 1 t))).2 = before ++ r :: after)
    (h : StopsAt r z) : z ∈ integerLiterals t := by
  obtain ⟨line, hz⟩ := h.literal
  have hr : r ∈ (split (tokensOf (lex 1 t))).2 := hrequest ▸ by simp
  exact List.mem_filterMap.2 ⟨_, (split_subset _).2 r hr hz, rfl⟩

theorem fault_not_mem_lead (ts : List Token) (f : Fault) : .fault f ∉ ts.map leadEvent := by
  intro hf
  obtain ⟨u, -, hu⟩ := List.mem_map.1 hf
  unfold leadEvent at hu
  split at hu <;> cases hu

/-- A fault among the troubles of a text is a literal with too many digits. -/
theorem readingEnds_of_troubles {d : Declarations} {t : Text}
    (h : ∃ f, .fault f ∈ troubleEvents (lex 1 t)) (s : Collector) (log : Log) :
    ReadingEnds d s.toList t (read ⟨[], s, log⟩ 0 d t) := by
  obtain ⟨before, f, after, htroubles, hbefore⟩ := exists_first_fault h
  have hevents : events d t
      = before ++ .fault f :: (after ++ tokenEvents d (tokensOf (lex 1 t))) := by
    rw [events, htroubles, List.append_assoc, List.cons_append]
  obtain ⟨hfault, hkept⟩ := read_of_fault hevents hbefore s log
  -- No trouble calls for anything.
  have hcommands : before.filterMap Event.command? = [] := by
    have hnone := command_troubleEvents (lex 1 t)
    rw [htroubles, List.filterMap_append] at hnone
    exact (List.append_eq_nil_iff.1 hnone).1
  have hmem : .fault f ∈ troubleEvents (lex 1 t) := htroubles ▸ by simp
  obtain ⟨step, hstep, hsome⟩ := List.mem_filterMap.1 hmem
  rcases step with u | ⟨_ | _ | digits, line, remaining⟩ <;> cases hsome
  obtain ⟨literal, hliteral⟩ := exists_oversized hstep
  refine .oversized hfault hliteral ?_
  rw [hkept, hcommands]
  exact List.append_nil _

/-- Without such a literal, a fault is one of a request. -/
theorem readingEnds_of_requests {d : Declarations} {t : Text}
    (htroubles : ∀ f, .fault f ∉ troubleEvents (lex 1 t)) {f : Fault}
    (h : .fault f ∈ requestsEvents d (split (tokensOf (lex 1 t))).2) (s : Collector) (log : Log) :
    ReadingEnds d s.toList t (read ⟨[], s, log⟩ 0 d t) := by
  obtain ⟨before, r, after, z, rest, hrequest, hliteral, hrequests, hrest⟩ :=
    exists_of_fault_mem h
  have hevents : events d t = troubleEvents (lex 1 t) ++ eventsBefore d t before
      ++ .fault .integerTooLarge :: rest := by
    simp only [events, tokenEvents, hrest, eventsBefore, List.append_assoc]
  have hbefore : ∀ f, .fault f ∉ eventsBefore d t before := by
    intro f hf
    rcases List.mem_append.1 hf with hf | hf
    · exact fault_not_mem_lead _ f hf
    · exact hrequests f hf
  have hnone : ∀ f, .fault f ∉ troubleEvents (lex 1 t) ++ eventsBefore d t before := by
    intro f hf
    rcases List.mem_append.1 hf with hf | hf
    · exact htroubles f hf
    · exact hbefore f hf
  obtain ⟨hfault, hkept⟩ := read_of_fault hevents hnone s log
  refine .tooLarge hfault hrequest hliteral hbefore ?_
  rw [hkept, List.filterMap_append, command_troubleEvents, List.nil_append]

/-- **Nothing but an integer stops the reading.** Into a collector a text is read to its end,
unless it has an integer literal of too many digits, and then nothing is called, or one that is
taken as a double and is too large for it, and then just what comes before the request is
called. -/
theorem read_ends (d : Declarations) (s : Collector) (log : Log) (t : Text) :
    ReadingEnds d s.toList t (read ⟨[], s, log⟩ 0 d t) ∧
      ((∀ literal digits, ¬ IsOversized t literal digits) →
        (∀ z ∈ integerLiterals t, ¬ TooLarge z) →
          (read ⟨[], s, log⟩ 0 d t).fault = none) := by
  have hends : ReadingEnds d s.toList t (read ⟨[], s, log⟩ 0 d t) := by
    by_cases htroubles : ∃ f, .fault f ∈ troubleEvents (lex 1 t)
    · exact readingEnds_of_troubles htroubles s log
    · rw [not_exists] at htroubles
      by_cases hrequests : ∃ f, .fault f ∈ requestsEvents d (split (tokensOf (lex 1 t))).2
      · obtain ⟨f, hf⟩ := hrequests
        exact readingEnds_of_requests htroubles hf s log
      · rw [not_exists] at hrequests
        refine .complete (fault_play_collector
          (fun c hc => (isCalled_of_events c hc).isWellFormed.reissue_eq) fun f hf => ?_)
        rcases List.mem_append.1 hf with hf | hf
        · exact htroubles f hf
        · rcases List.mem_append.1 hf with hf | hf
          · exact fault_not_mem_lead _ f hf
          · exact hrequests f hf
  refine ⟨hends, fun hoversized hlarge => ?_⟩
  rcases hends with hfault | ⟨-, hliteral, -⟩ | ⟨-, hrequest, hliteral, -, -⟩
  · exact hfault
  · exact absurd hliteral (hoversized _ _)
  · exact absurd hliteral.tooLarge (hlarge _ (mem_integerLiterals_of_stopsAt hrequest hliteral))

/-- A call with a comment, and a request with an integer of 310 digits for a double. -/
def hugeShutter : Text :=
  Text.ofString "WorldBegin # c\nShutter 0 1" ++ List.replicate 309 (.char '0')
    ++ Text.ofString "\nWorldEnd\n"

/-- The same with a small integer. -/
def smallShutter : Text := "WorldBegin # c\nShutter 0 1\nWorldEnd\n"

theorem read_ends_shutters :
    (ReadingEnds .standard [] hugeShutter (collected hugeShutter) ∧
      (collected hugeShutter).fault.map Fault.message = some "int too large to convert to float" ∧
      (collected hugeShutter).chain.sink.toList.length = 2) ∧
    (collected smallShutter).fault = none := by
  refine ⟨⟨(read_ends .standard .empty .empty hugeShutter).1, by decide +kernel,
    by decide +kernel⟩, (read_ends .standard .empty .empty smallShutter).2 ?_ ?_⟩
  · -- Reading meets no trouble at all.
    rintro literal digits ⟨-, ⟨line, hline⟩, -, -⟩
    have hlex : (lex 1 smallShutter).all (fun step => step matches .token _) = true := by
      decide +kernel
    exact absurd (List.all_eq_true.1 hlex _ hline) nofun
  · have hfits : ∀ z ∈ integerLiterals smallShutter, (Binary64.ofInt? z).isSome = true := by
      decide +kernel
    intro z hz hlarge
    rw [TooLarge] at hlarge
    exact absurd (hfits z hz) (by rw [hlarge]; nofun)

end SceneReplay.Rib
