import SceneReplay.Fault
import SceneReplay.Param
import SceneReplay.Procedure.Table

/-!
# Commands

A command is one call of a procedure, taken down: the procedure's name, the
positional arguments and, for a procedure that accepts them, the named
parameters.

A command made by `SceneReplay.Command.create` is *in order*
(`SceneReplay.Command.InOrder`): its procedure exists, it has the right number of
arguments, these are frozen, and it has a parameter list exactly if the procedure
accepts one. Issuing such a command again makes the very same command
(`SceneReplay.Command.reissue_of_inOrder`), which is why a recording can be
replayed any number of times. Commands can also be put together by hand and need
not be in order; they are checked when they are issued.
-/

namespace SceneReplay

/-- One call of a procedure. -/
structure Command where
  /-- The name of the procedure. -/
  proc : String
  /-- The positional arguments, in order. -/
  args : List Value
  /-- The named parameters, for a procedure that accepts them. -/
  params : Option ParamList

namespace Command

/-- Takes down a call of a procedure. The number of arguments must be right, and
a procedure that accepts no parameters must be given none, or an empty list. -/
def create (p : Procedure) (args : List Value) (params : Option ParamList) :
    Except Fault Command :=
  if args.length ≠ p.arity then .error (.wrongArity p args.length)
  else if p.takesParams then
    .ok ⟨p.name, Value.freezeAll args, some (params.getD ParamList.empty)⟩
  else if (params.map (·.items.isEmpty)).getD true then
    .ok ⟨p.name, Value.freezeAll args, none⟩
  else .error (.paramsNotAccepted p)

/-- Takes down a call of the procedure of the given name. -/
def createNamed (name : String) (args : List Value) (params : Option ParamList) :
    Except Fault Command :=
  match Procedure.find? name with
  | none => .error (.unknownProcedure name)
  | some p => create p args params

/-- The parameters that are handed to a procedure: those given, if it accepts
any. -/
def handedOn (p : Procedure) (params : Option ParamList) : Option ParamList :=
  if p.takesParams then params else none

/-- Issues a command: what the receiver takes down. Parameters are left behind if
the procedure accepts none. -/
def reissue (c : Command) : Except Fault Command :=
  match Procedure.find? c.proc with
  | none => .error (.unknownProcedure c.proc)
  | some p => create p c.args (handedOn p c.params)

/-- Calls a procedure by its name: what the receiver takes down. -/
def ofCall (name : String) (args : List Value) (params : Option ParamList) :
    Except Fault Command :=
  match Procedure.find? name with
  | none => .error (.noEntryPoint name)
  | some p => create p args (handedOn p params)

/-- Whether two commands call the same procedure with equal arguments and equal
parameters. -/
def same (c d : Command) : Bool :=
  c.proc == d.proc && Value.sameAll c.args d.args &&
    match c.params, d.params with
    | none, none => true
    | some ps, some qs => ps.same qs
    | _, _ => false

/-! ### Commands in order -/

/-- A command as a renderer takes it down: of an existing procedure, with as many
arguments as that has, all frozen, and with a parameter list exactly if the
procedure accepts one. -/
structure InOrder (c : Command) : Prop where
  /-- The procedure exists, has that many arguments, and accepts parameters
  exactly if there is a parameter list. -/
  fits : ∃ p, Procedure.find? c.proc = some p ∧ c.args.length = p.arity ∧
    c.params.isSome = p.takesParams
  /-- Freezing the arguments changes nothing. -/
  frozen : Value.freezeAll c.args = c.args

/-- Issuing a command that is in order makes the very same command. -/
theorem reissue_of_inOrder {c : Command} (h : c.InOrder) : c.reissue = .ok c := by
  obtain ⟨⟨p, hp, hlen, hparams⟩, hfrozen⟩ := h
  have hname := Procedure.name_of_find? hp
  obtain ⟨proc, args, params⟩ := c
  simp only at hp hlen hparams hfrozen hname
  cases hps : p.takesParams <;> cases params <;>
    simp_all [reissue, create, handedOn]

/-- What is created for a procedure of the table is in order. -/
theorem inOrder_of_create {p : Procedure} {args : List Value} {params : Option ParamList}
    {c : Command} (hp : Procedure.find? p.name = some p)
    (h : create p args params = .ok c) : c.InOrder := by
  unfold create at h
  split at h
  · simp at h
  · rename_i hlen
    split at h
    · rename_i hps
      cases h
      exact ⟨⟨p, hp, by simpa using hlen, by simp [hps]⟩, by simp⟩
    · rename_i hps
      split at h
      · cases h
        exact ⟨⟨p, hp, by simpa using hlen, by simp [hps]⟩, by simp⟩
      · simp at h

/-- Whatever is taken down when a command is issued is in order. -/
theorem inOrder_of_reissue {c d : Command} (h : c.reissue = .ok d) : d.InOrder := by
  unfold reissue at h
  split at h
  · simp at h
  · rename_i p hp
    exact inOrder_of_create (by rw [Procedure.name_of_find? hp]; exact hp) h

/-- Whatever is taken down when a procedure is called is in order. -/
theorem inOrder_of_ofCall {name : String} {args : List Value} {params : Option ParamList}
    {d : Command} (h : ofCall name args params = .ok d) : d.InOrder := by
  unfold ofCall at h
  split at h
  · simp at h
  · rename_i p hp
    exact inOrder_of_create (by rw [Procedure.name_of_find? hp]; exact hp) h

/-! ### Commands in reports -/

/-- The arguments of a command in the terms that answers are written in. -/
def simpleArgs (c : Command) : List Value := Value.simplifyAll c.args

end Command

end SceneReplay
