import SceneReplay.Proofs.Chain.Mirror
import SceneReplay.Proofs.Chain.Trace

/-!
# Chains in step

Two chains with different histories may still go on alike. They do if their stages pair up
and the filters of each pair are in a relation that answers keep
(`SceneReplay.ArchiveFilter.KeepsStep`): related filters answer the same command by the same
reaction and are related afterwards. Nothing is asked of taps, which may have seen other
commands, nor of what was delivered and reported before.

Then every course of calls at the head of one chain is a course of the same calls at the head
of the other, replay by replay, and the collectors and the logs get the same in addition
(`SceneReplay.Chain.Issues.inStep`). It is enough that the relation is kept for the commands
that can come, as long as what is replayed is among them. Where a relation is kept for some
commands at some moments only, it is enough that these are the commands of a trace and the
moments at which they come (`SceneReplay.Chain.Traced.inStep`).
-/

namespace SceneReplay

/-! ### Stages in pairs -/

/-- Two stages of the same kind, with a relation between their filters. -/
inductive Stage.Related (R : ArchiveFilter → ArchiveFilter → Prop) : Stage → Stage → Prop
  /-- Relays are all alike. -/
  | relay : Related R .relay .relay
  /-- Taps may have seen other commands. -/
  | tap (seen other : Array Command) : Related R (.tap seen) (.tap other)
  /-- The filters are related. -/
  | archive {f g : ArchiveFilter} (h : R f g) : Related R (.archive f) (.archive g)

/-- **A relation that keeps filters in step**, as far as commands with the property `P` go. -/
structure ArchiveFilter.KeepsStep (P : Command → Prop) (R : ArchiveFilter → ArchiveFilter → Prop) :
    Prop where
  /-- Related filters answer alike and stay related. -/
  receive : ∀ {f g c}, R f g → P c →
    R (f.receive c).1 (g.receive c).1 ∧ (g.receive c).2 = (f.receive c).2
  /-- What a filter replays has the property. -/
  replayed : ∀ {f g c content}, R f g → (f.receive c).2 = .replay content → ∀ d ∈ content, P d
  /-- A call with the property is taken down as one. -/
  takenDown : ∀ {c d : Command}, P c → c.reissue = .ok d → P d
  /-- A replay may begin in both. -/
  enter : ∀ {f g}, R f g → R { f with depth := f.depth + 1 } { g with depth := g.depth + 1 }
  /-- A replay may end in both. -/
  leave : ∀ {f g}, R f g → R { f with depth := f.depth - 1 } { g with depth := g.depth - 1 }

/-- **A relation that replays keep**: it does not matter how many are in progress, if it is as
many in both filters. -/
structure ArchiveFilter.KeepsReplays (R : ArchiveFilter → ArchiveFilter → Prop) : Prop where
  /-- A replay may begin in both. -/
  enter : ∀ {f g}, R f g → R { f with depth := f.depth + 1 } { g with depth := g.depth + 1 }
  /-- A replay may end in both. -/
  leave : ∀ {f g}, R f g → R { f with depth := f.depth - 1 } { g with depth := g.depth - 1 }

theorem Stage.Related.mono {R R' : ArchiveFilter → ArchiveFilter → Prop} {s t : Stage}
    (h : s.Related R t) (hR : ∀ f g, R f g → R' f g) : s.Related R' t := by
  cases h with
  | relay => exact .relay
  | tap seen other => exact .tap seen other
  | archive h => exact .archive (hR _ _ h)

/-- **Related filters of a row answer a command alike**, and are related afterwards. -/
def AnswerAlike (R : ArchiveFilter → ArchiveFilter → Prop) (ss : List Stage) (c : Command) :
    Prop :=
  ∀ f g, .archive f ∈ ss → R f g →
    R (f.receive c).1 (g.receive c).1 ∧ (g.receive c).2 = (f.receive c).2

section Stages

variable {P : Command → Prop} {R : ArchiveFilter → ArchiveFilter → Prop} {s t : Stage}

theorem ArchiveFilter.KeepsStep.keepsReplays (hR : ArchiveFilter.KeepsStep P R) :
    ArchiveFilter.KeepsReplays R :=
  ⟨hR.enter, hR.leave⟩

theorem ArchiveFilter.KeepsStep.answerAlike (hR : ArchiveFilter.KeepsStep P R) (ss : List Stage)
    {c : Command} (hc : P c) : AnswerAlike R ss c :=
  fun _ _ _ hfg => hR.receive hfg hc

theorem Stage.Related.receive (h : s.Related R t) {c : Command} (hc : AnswerAlike R [s] c) :
    (s.receive c).1.Related R (t.receive c).1 ∧ (t.receive c).2 = (s.receive c).2 := by
  cases h with
  | relay => exact ⟨.relay, rfl⟩
  | tap seen other => exact ⟨.tap _ _, rfl⟩
  | archive h =>
    obtain ⟨hstate, hreaction⟩ := hc _ _ List.mem_cons_self h
    exact ⟨.archive hstate, hreaction⟩

theorem Stage.Related.enterReplay (hR : ArchiveFilter.KeepsReplays R) (h : s.Related R t) :
    s.enterReplay.Related R t.enterReplay := by
  cases h with
  | relay => exact .relay
  | tap seen other => exact .tap seen other
  | archive h => exact .archive (hR.enter h)

theorem Stage.Related.leaveReplay (hR : ArchiveFilter.KeepsReplays R) (h : s.Related R t) :
    s.leaveReplay.Related R t.leaveReplay := by
  cases h with
  | relay => exact .relay
  | tap seen other => exact .tap seen other
  | archive h => exact .archive (hR.leave h)

end Stages

namespace Chain

/-- **Since two moments the same was delivered and reported**: what the collector and the log
of one chain got between `before` and `after`, those of the other got between `before'` and
`after'`. -/
def SameOutput (before after before' after' : Chain Collector) : Prop :=
  ∃ (sent : List Command) (reported : List Report),
    after.sink.toList = before.sink.toList ++ sent ∧
    after'.sink.toList = before'.sink.toList ++ sent ∧
    after.log.toList = before.log.toList ++ reported ∧
    after'.log.toList = before'.log.toList ++ reported

theorem SameOutput.refl (ch other : Chain Collector) : SameOutput ch ch other other :=
  ⟨[], [], by simp, by simp, by simp, by simp⟩

/-- Chains that had the same output, and have had the same since, have the same. -/
theorem SameOutput.eq {ch ch' other other' : Chain Collector} (h : SameOutput ch ch' other other')
    (hsink : ch.sink = other.sink) (hlog : ch.log = other.log) :
    ch'.sink = other'.sink ∧ ch'.log = other'.log := by
  obtain ⟨sent, reported, hsent, hsent', hreported, hreported'⟩ := h
  have hsinks : ch'.sink.toList = other'.sink.toList := by rw [hsent, hsent', hsink]
  have hlogs : ch'.log.toList = other'.log.toList := by rw [hreported, hreported', hlog]
  exact ⟨congrArg Collector.mk (Array.toList_inj.1 hsinks),
    congrArg Log.mk (Array.toList_inj.1 hlogs)⟩

/-- **Two chains in step**, with what they got since two earlier moments. -/
structure InStep (R : ArchiveFilter → ArchiveFilter → Prop)
    (before before' ch other : Chain Collector) : Prop where
  /-- The stages pair up. -/
  stages : List.Forall₂ (Stage.Related R) ch.stages other.stages
  /-- The same was delivered and reported. -/
  output : SameOutput before ch before' other

theorem InStep.refl {R : ArchiveFilter → ArchiveFilter → Prop} {ch other : Chain Collector}
    (h : List.Forall₂ (Stage.Related R) ch.stages other.stages) : InStep R ch other ch other :=
  ⟨h, .refl ch other⟩

variable {P : Command → Prop} {R : ArchiveFilter → ArchiveFilter → Prop}

/-- **Rows in pairs** take a command equally far. -/
theorem walk_related {ss ts : List Stage} (h : List.Forall₂ (Stage.Related R) ss ts) {c : Command}
    (hc : AnswerAlike R ss c) :
    List.Forall₂ (Stage.Related R) (walk ss c).1 (walk ts c).1 ∧
      (walk ts c).2 = (walk ss c).2 := by
  induction h with
  | nil => exact ⟨.nil, rfl⟩
  | @cons s t ss ts hst htail ih =>
    obtain ⟨hstate, hreaction⟩ := hst.receive fun f g hf =>
      hc f g (List.mem_singleton.1 hf ▸ List.mem_cons_self)
    rcases hs : s.receive c with ⟨s', reaction⟩
    rcases ht : t.receive c with ⟨t', reaction'⟩
    rw [hs, ht] at hstate hreaction
    obtain rfl : reaction' = reaction := hreaction
    by_cases hpass : reaction' = .pass
    · subst hpass
      obtain ⟨hrows, hrest⟩ := ih fun f g hf => hc f g (List.mem_cons_of_mem s hf)
      rw [walk_cons_of_pass hs, walk_cons_of_pass ht]
      exact ⟨.cons hstate hrows, by simp only [hrest]⟩
    · rw [walk_cons_of_ne_pass hs hpass, walk_cons_of_ne_pass ht hpass]
      exact ⟨.cons hstate htail, rfl⟩

variable {before before' ch ch₁ other : Chain Collector}

/-- **One command from the head** of two chains in step. -/
theorem InStep.step (h : InStep R before before' ch other) {c : Command}
    (hc : AnswerAlike R ch.stages c) {outcome : Outcome} (hstep : ch.step 0 c = (ch₁, outcome)) :
    ∃ other₁, other.step 0 c = (other₁, outcome) ∧ InStep R before before' ch₁ other₁ := by
  obtain ⟨hrows, hrest⟩ := walk_related h.stages hc
  obtain ⟨sent, reported, hsent, hsent', hreported, hreported'⟩ := h.output
  simp only [Chain.step, List.drop_zero, List.take_zero, List.nil_append] at hstep ⊢
  rcases hw : walk ch.stages c with ⟨ss, reaction, passed⟩
  rcases hw' : walk other.stages c with ⟨ts, reaction', passed'⟩
  rw [hw, hw'] at hrows hrest
  rw [hw] at hstep
  obtain ⟨rfl, rfl⟩ := Prod.mk.inj hrest
  cases reaction' with
  | pass =>
    obtain ⟨rfl, rfl⟩ := Prod.mk.inj hstep
    refine ⟨_, rfl, hrows, sent ++ [c], reported, ?_, ?_, hreported, hreported'⟩
    · exact (ch.sink.toList_add c).trans (by rw [hsent, List.append_assoc])
    · exact (other.sink.toList_add c).trans (by rw [hsent', List.append_assoc])
  | report r =>
    obtain ⟨rfl, rfl⟩ := Prod.mk.inj hstep
    refine ⟨_, rfl, hrows, sent, reported ++ [r], hsent, hsent', ?_, ?_⟩
    · exact (ch.log.toList_add r).trans (by rw [hreported, List.append_assoc])
    · exact (other.log.toList_add r).trans (by rw [hreported', List.append_assoc])
  | _ =>
    obtain ⟨rfl, rfl⟩ := Prod.mk.inj hstep
    exact ⟨_, rfl, hrows, sent, reported, hsent, hsent', hreported, hreported'⟩

theorem InStep.enterReplay (hR : ArchiveFilter.KeepsReplays R)
    (h : InStep R before before' ch other) (k : Nat) :
    InStep R before before' (ch.enterReplay k) (other.enterReplay k) :=
  ⟨forall₂_modify (fun _ _ hst => hst.enterReplay hR) h.stages k, h.output⟩

theorem InStep.leaveReplay (hR : ArchiveFilter.KeepsReplays R)
    (h : InStep R before before' ch other) (k : Nat) :
    InStep R before before' (ch.leaveReplay k) (other.leaveReplay k) :=
  ⟨forall₂_modify (fun _ _ hst => hst.leaveReplay hR) h.stages k, h.output⟩

/-- What a row of filters in pairs replays is taken down with the property. -/
theorem forall_takenDown_of_replay (hR : ArchiveFilter.KeepsStep P R)
    (h : InStep R before before' ch other) {c : Command} {k : Nat} {content : List Command}
    (hstep : ch.step 0 c = (ch₁, .replay k content)) :
    ∀ e ∈ content, ∀ d, e.reissue = .ok d → P d := by
  obtain ⟨hwalk, -, -⟩ := step_replay hstep
  obtain ⟨f, hf, -, hreceive, -⟩ := walk_replay hwalk
  intro e he d hd
  obtain ⟨hk, hf⟩ := List.getElem?_eq_some_iff.1 hf
  have hpair := h.stages.get hk (by rwa [← h.stages.length_eq])
  rw [List.get_eq_getElem, hf] at hpair
  generalize other.stages.get _ = t at hpair
  cases hpair with
  | archive hfg => exact hR.takenDown (hR.replayed hfg hreceive e he) hd

/-- **A course is repeated by a chain in step.** -/
theorem Issues.inStep (hR : ArchiveFilter.KeepsStep P R) {cs : List Command}
    {ch ch' other : Chain Collector} {r : Option Fault} (h : Issues cs ch ch' r)
    (hcs : ∀ c ∈ cs, ∀ d, c.reissue = .ok d → P d) (hch : InStep R before before' ch other) :
    ∃ other', Issues cs other other' r ∧ InStep R before before' ch' other' := by
  induction h generalizing other with
  | nil => exact ⟨other, .nil other, hch⟩
  | misused hc => exact ⟨other, .misused hc, hch⟩
  | answered hc hs _ ih =>
    obtain ⟨hfirst, hlater⟩ := List.forall_mem_cons.1 hcs
    obtain ⟨other₁, hs', hch₁⟩ := hch.step (hR.answerAlike _ (hfirst _ hc)) hs
    obtain ⟨other', hrest', hch'⟩ := ih hlater hch₁
    exact ⟨other', .answered hc hs' hrest', hch'⟩
  | stopped hc hs =>
    obtain ⟨other₁, hs', hch₁⟩ :=
      hch.step (hR.answerAlike _ ((List.forall_mem_cons.1 hcs).1 _ hc)) hs
    exact ⟨other₁, .stopped hc hs', hch₁⟩
  | replayed hc hs _ _ ihreplay ihrest =>
    obtain ⟨hfirst, hlater⟩ := List.forall_mem_cons.1 hcs
    obtain ⟨other₁, hs', hch₁⟩ := hch.step (hR.answerAlike _ (hfirst _ hc)) hs
    obtain ⟨other₂, hreplay', hch₂⟩ :=
      ihreplay (forall_takenDown_of_replay hR hch hs) (hch₁.enterReplay hR.keepsReplays _)
    obtain ⟨other', hrest', hch'⟩ := ihrest hlater (hch₂.leaveReplay hR.keepsReplays _)
    exact ⟨other', .replayed hc hs' hreplay' hrest', hch'⟩
  | interrupted hc hs _ ihreplay =>
    obtain ⟨other₁, hs', hch₁⟩ :=
      hch.step (hR.answerAlike _ ((List.forall_mem_cons.1 hcs).1 _ hc)) hs
    obtain ⟨other₂, hreplay', hch₂⟩ :=
      ihreplay (forall_takenDown_of_replay hR hch hs) (hch₁.enterReplay hR.keepsReplays _)
    exact ⟨_, .interrupted hc hs' hreplay', hch₂.leaveReplay hR.keepsReplays _⟩

/-! ### Traces in step -/

/-- The same command, and it comes equally far. -/
structure Arrival.SameWay (a b : Arrival Collector) : Prop where
  /-- The command is the same. -/
  command : b.command = a.command
  /-- It comes to the same stages. -/
  reaches : ∀ k, b.reaches k = a.reaches k

theorem reaching_of_sameWay {tr tr' : List (Arrival Collector)}
    (h : List.Forall₂ Arrival.SameWay tr tr') (k : Nat) : reaching k tr' = reaching k tr := by
  induction h with
  | nil => rfl
  | cons hab _ ih =>
    rw [reaching_cons, reaching_cons, ih, Arrival.beyond, Arrival.beyond, hab.reaches, hab.command]

/-- A command comes equally far in two chains in step. -/
theorem InStep.sameWay (h : InStep R before before' ch other) {c : Command}
    (hc : AnswerAlike R ch.stages c) : Arrival.SameWay ⟨ch, c⟩ ⟨other, c⟩ := by
  refine ⟨rfl, fun k => ?_⟩
  obtain ⟨-, hfar⟩ := walk_related (List.forall₂_take k h.stages) (c := c) fun f g hf =>
    hc f g (List.mem_of_mem_take hf)
  exact congrArg (·.1.isPass) hfar

/-- **A traced course is repeated by a chain in step**, with the same commands at the head, if
related filters answer each of them alike when it comes. -/
theorem Traced.inStep (hR : ArchiveFilter.KeepsReplays R) {cs : List Command}
    {ch ch' other : Chain Collector} {tr : List (Arrival Collector)} {r : Option Fault}
    (h : Traced cs ch tr ch' r) (htr : ∀ a ∈ tr, AnswerAlike R a.chain.stages a.command)
    (hch : InStep R before before' ch other) :
    ∃ tr' other', Traced cs other tr' other' r ∧ List.Forall₂ Arrival.SameWay tr tr' ∧
      InStep R before before' ch' other' := by
  induction h generalizing other with
  | nil => exact ⟨[], other, .nil other, .nil, hch⟩
  | misused hc => exact ⟨[], other, .misused hc, .nil, hch⟩
  | answered hc hs _ ih =>
    obtain ⟨hfirst, hlater⟩ := List.forall_mem_cons.1 htr
    obtain ⟨other₁, hs', hch₁⟩ := hch.step hfirst hs
    obtain ⟨tr', other', hrest', hway, hch'⟩ := ih hlater hch₁
    exact ⟨_, other', .answered hc hs' hrest', .cons (hch.sameWay hfirst) hway, hch'⟩
  | stopped hc hs =>
    have hfirst := List.forall_mem_singleton.1 htr
    obtain ⟨other₁, hs', hch₁⟩ := hch.step hfirst hs
    exact ⟨_, other₁, .stopped hc hs', .cons (hch.sameWay hfirst) .nil, hch₁⟩
  | replayed hc hs _ _ ihreplay ihrest =>
    obtain ⟨hfirst, hlater⟩ := List.forall_mem_cons.1 htr
    obtain ⟨hinside, hafter⟩ := List.forall_mem_append.1 hlater
    obtain ⟨other₁, hs', hch₁⟩ := hch.step hfirst hs
    obtain ⟨tr₁, other₂, hreplay', hway₁, hch₂⟩ := ihreplay hinside (hch₁.enterReplay hR _)
    obtain ⟨tr₂, other', hrest', hway₂, hch'⟩ := ihrest hafter (hch₂.leaveReplay hR _)
    exact ⟨_, other', .replayed hc hs' hreplay' hrest',
      .cons (hch.sameWay hfirst) (List.rel_append hway₁ hway₂), hch'⟩
  | interrupted hc hs _ ihreplay =>
    obtain ⟨hfirst, hinside⟩ := List.forall_mem_cons.1 htr
    obtain ⟨other₁, hs', hch₁⟩ := hch.step hfirst hs
    obtain ⟨tr', other₂, hreplay', hway, hch₂⟩ := ihreplay hinside (hch₁.enterReplay hR _)
    exact ⟨_, _, .interrupted hc hs' hreplay', .cons (hch.sameWay hfirst) hway,
      hch₂.leaveReplay hR _⟩

/-! ### Calls one after the other -/

/-- **Calls at the head keep chains in step**, whatever comes of each of them. -/
theorem InStep.calls (hR : ArchiveFilter.KeepsStep P R) {cs : List Command}
    {ch other : Chain Collector} (h : InStep R before before' ch other)
    (hcs : ∀ c ∈ cs, ∀ d, c.reissue = .ok d → P d) :
    InStep R before before' (ch.calls cs) (other.calls cs) := by
  induction cs generalizing ch other with
  | nil => exact h
  | cons c cs ih =>
    obtain ⟨hfirst, hlater⟩ := List.forall_mem_cons.1 hcs
    obtain ⟨other', hissues, hch'⟩ :=
      (issues_issueAll ch [c]).inStep hR (List.forall_mem_singleton.2 hfirst) h
    have hother : (other.issue 0 c).1 = other' := congrArg Prod.fst (issues_iff.1 hissues)
    rw [← hother] at hch'
    exact ih hch' hlater

end Chain

end SceneReplay
