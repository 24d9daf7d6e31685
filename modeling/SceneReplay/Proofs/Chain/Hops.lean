import SceneReplay.Proofs.Chain.Trace

/-!
# From hop to hop

A stage that passes a command calls the same procedure of the next stage, which takes the call
down once more: it checks the arguments, freezes them and puts the parameters in order, as for
any call. `SceneReplay.Chain.stepByHops` follows a call along the row of stages in this way, and
`SceneReplay.Chain.step` does not: it hands on the command that was taken down at the head.

There is no difference (`SceneReplay.Chain.stepByHops_eq`). What was taken down once is in order,
so it is taken down as it is by everyone after that, and nobody on the way refuses it.

Whatever comes to the head of a chain was called there, or was recorded in a stream that is
closed by then (`SceneReplay.Chain.CallsTraced.source`).
-/

namespace SceneReplay.Chain

/-! ### Taken down at every hop -/

/-- Calls the first one of a row of stages: what stages there are afterwards, the last reaction,
how many stages passed the call, and how the last receiver took it down. Behind the last stage
comes the sink, which takes it down as well. -/
def walkByHops : List Stage → Command → List Stage × Reaction × Nat × Command
  | [], c =>
    match c.reissue with
    | .error f => ([], .fault f, 0, c)
    | .ok d => ([], .pass, 0, d)
  | s :: ss, c =>
    match c.reissue with
    | .error f => (s :: ss, .fault f, 0, c)
    | .ok d =>
      match s.receive d with
      | (s, .pass) =>
        let (ss, reaction, passed, e) := walkByHops ss d
        (s :: ss, reaction, passed + 1, e)
      | (s, reaction) => (s :: ss, reaction, 0, d)

/-- A call that misuses its procedure changes nothing. -/
theorem walkByHops_of_misused {c : Command} {f : Fault} (h : c.reissue = .error f)
    (ss : List Stage) : walkByHops ss c = (ss, .fault f, 0, c) := by
  cases ss <;> simp [walkByHops, h]

/-- **All receivers take the same command down**: what the first one made of the call. -/
theorem walkByHops_of_reissue {c d : Command} (h : c.reissue = .ok d) (ss : List Stage) :
    walkByHops ss c = ((walk ss d).1, (walk ss d).2.1, (walk ss d).2.2, d) := by
  induction ss generalizing c with
  | nil => simp [walkByHops, walk, h]
  | cons s ss ih =>
    have hagain : d.reissue = .ok d := Command.reissue_of_inOrder (Command.inOrder_of_reissue h)
    rcases hs : s.receive d with ⟨s', reaction⟩
    by_cases hpass : reaction = .pass
    · subst hpass
      simp [walkByHops, h, hs, ih hagain, walk_cons_of_pass hs]
    · rw [walk_cons_of_ne_pass hs hpass]
      cases reaction <;> simp_all [walkByHops]

variable {σ : Type} [Sink σ]

/-- Calls a procedure at the head: what the chain is after the call went along the row, and what
is left to do. -/
def stepByHops (ch : Chain σ) (c : Command) : Chain σ × Outcome :=
  let (stages, reaction, passed, d) := walkByHops ch.stages c
  let ch := { ch with stages := stages }
  match reaction with
  | .pass =>
    let (sink, fault?) := Sink.accept ch.sink d
    ({ ch with sink := sink }, match fault? with
      | none => .done
      | some f => .fault f)
  | .hold => (ch, .done)
  | .report r => (ch.addReport r, .done)
  | .replay content => (ch, .replay passed content)
  | .fault f => (ch, .fault f)

/-- **Hop by hop a call does what it does when it is taken down once.** -/
theorem stepByHops_eq (ch : Chain σ) (c : Command) :
    ch.stepByHops c = match c.reissue with
      | .error f => (ch, .fault f)
      | .ok d => ch.step 0 d := by
  cases hc : c.reissue with
  | error f => simp [stepByHops, walkByHops_of_misused hc]
  | ok d =>
    rcases hw : walk ch.stages d with ⟨ss, reaction, passed⟩
    rcases haccept : Sink.accept ch.sink d with ⟨sink, _ | fault⟩ <;>
      cases reaction <;> simp [stepByHops, walkByHops_of_reissue hc, step, hw, haccept]

/-! ### Where commands come from -/

/-- The command is recorded in a closed stream of one of the filters. -/
def Recorded (ch : Chain σ) (c : Command) : Prop :=
  ∃ (k : Nat) (f : ArchiveFilter) (kind : StreamKind), ch.stages[k]? = some (.archive f) ∧
    ∃ s ∈ (f.registry kind).streams, s.closed = true ∧ c ∈ s.commands

/-- **What is replayed is recorded**, as long as the replay lasts. -/
theorem recorded_of_replay {ch ch₁ st : Chain σ} {d : Command} {k : Nat} {content : List Command}
    (hstep : ch.step 0 d = (ch₁, .replay k content)) (hfits : ∀ s ∈ ch.stages, s.Fits)
    (hst : Passes content (ch₁.enterReplay k) st) : ∀ c ∈ content, st.Recorded c := by
  intro c hc
  obtain ⟨f, kind, i, s, -, -, hclosed, rfl, hstays⟩ := exists_closed_of_replay hstep hfits
  obtain ⟨g, hg, hgi⟩ := hstays st hst
  exact ⟨k, g, kind, hg, s, List.mem_of_getElem? hgi, hclosed, hc⟩

/-- What comes to the head inside a replay is recorded, if it is replayed there or recorded
anyway. -/
theorem Traced.recorded_of_replay {ch ch₁ ch₂ : Chain σ} {d : Command} {k : Nat}
    {content : List Command} {r : Option Fault} {tr : List (Arrival σ)}
    (h : Traced content (ch₁.enterReplay k) tr ch₂ r)
    (hstep : ch.step 0 d = (ch₁, .replay k content))
    (hfits : ∀ s ∈ ch.stages, s.Fits) (hrecorded : ∀ s ∈ ch.stages, s.Recorded Command.InOrder)
    (hsource : ∀ a ∈ tr, (∃ c ∈ content, c.reissue = .ok a.command) ∨ a.chain.Recorded a.command) :
    ∀ a ∈ tr, a.chain.Recorded a.command := by
  intro a ha
  rcases hsource a ha with ⟨c, hc, hac⟩ | hin
  · obtain rfl : c = a.command :=
      Except.ok.inj ((reissue_of_replay hstep hrecorded c hc).symm.trans hac)
    exact Chain.recorded_of_replay hstep hfits (h.passes a ha).1 _ hc
  · exact hin

/-- **What comes to the head was called there or is recorded**: it is what one of the calls was
taken down as, or it is in a closed stream of a filter at that moment. -/
theorem Traced.source {cs : List Command} {ch ch' : Chain σ} {r : Option Fault}
    {tr : List (Arrival σ)} (h : Traced cs ch tr ch' r) (hfits : ∀ s ∈ ch.stages, s.Fits)
    (hrecorded : ∀ s ∈ ch.stages, s.Recorded Command.InOrder) :
    ∀ a ∈ tr, (∃ c ∈ cs, c.reissue = .ok a.command) ∨ a.chain.Recorded a.command := by
  induction h with
  | nil | misused => nofun
  | @answered c d cs ch ch₁ ch₂ r tr hc hs _ ih =>
    have hmoment : Passes (c :: cs) ch (ch.step 0 d).1 := .stepped hc
    rw [hs] at hmoment
    have hlater := ih (hmoment.fits hfits) (hmoment.recordedInOrder hrecorded)
    refine List.forall_mem_cons.2 ⟨.inl ⟨c, List.mem_cons_self, hc⟩, fun a ha => ?_⟩
    exact (hlater a ha).imp_left fun ⟨e, he, hae⟩ => ⟨e, List.mem_cons_of_mem c he, hae⟩
  | @stopped c d cs ch ch₁ f hc hs =>
    exact List.forall_mem_singleton.2 (.inl ⟨c, List.mem_cons_self, hc⟩)
  | @replayed c d cs content ch ch₁ ch₂ ch₃ k r tr tr' hc hs hreplay _ ihreplay ihrest =>
    have hentered : Passes (c :: cs) ch (ch₁.enterReplay k) := .inside hc hs (.here _ _)
    have hinside := hreplay.recorded_of_replay hs hfits hrecorded
      (ihreplay (hentered.fits hfits) (hentered.recordedInOrder hrecorded))
    have hleft : Passes (c :: cs) ch (ch₂.leaveReplay k) := .left hc hs hreplay.issues
    have hlater := ihrest (hleft.fits hfits) (hleft.recordedInOrder hrecorded)
    refine List.forall_mem_cons.2 ⟨.inl ⟨c, List.mem_cons_self, hc⟩, fun a ha => ?_⟩
    rcases List.mem_append.1 ha with ha | ha
    · exact .inr (hinside a ha)
    · exact (hlater a ha).imp_left fun ⟨e, he, hae⟩ => ⟨e, List.mem_cons_of_mem c he, hae⟩
  | @interrupted c d cs content ch ch₁ ch₂ k f tr hc hs hreplay ihreplay =>
    have hentered : Passes (c :: cs) ch (ch₁.enterReplay k) := .inside hc hs (.here _ _)
    have hinside := hreplay.recorded_of_replay hs hfits hrecorded
      (ihreplay (hentered.fits hfits) (hentered.recordedInOrder hrecorded))
    refine List.forall_mem_cons.2 ⟨.inl ⟨c, List.mem_cons_self, hc⟩, fun a ha => ?_⟩
    exact .inr (hinside a ha)

/-- The same for calls one after the other. -/
theorem CallsTraced.source {cs : List Command} {ch ch' : Chain σ} {tr : List (Arrival σ)}
    (h : CallsTraced cs ch tr ch') (hch : ch.Reachable) :
    ∀ a ∈ tr, (∃ c ∈ cs, c.reissue = .ok a.command) ∨ a.chain.Recorded a.command := by
  induction h with
  | nil => nofun
  | @cons c cs ch ch₁ ch₂ r tr tr' hc _ ih =>
    obtain rfl : (ch.issue 0 c).1 = ch₁ := congrArg Prod.fst (issues_iff.1 hc.issues)
    refine List.forall_mem_append.2 ⟨fun a ha => ?_, fun a ha => ?_⟩
    · refine (hc.source hch.fits hch.recordedInOrder a ha).imp_left fun ⟨e, he, hae⟩ => ?_
      exact ⟨e, List.mem_cons.2 (.inl (List.mem_singleton.1 he)), hae⟩
    · exact (ih (hch.issue c) a ha).imp_left fun ⟨e, he, hae⟩ => ⟨e, List.mem_cons_of_mem c he, hae⟩

end SceneReplay.Chain
