import SceneReplay.Proofs.Chain.Observers

/-!
# Stacked filters

Behind an archive filter there is nothing left that a filter deals with by itself, and a
reference to an archive that gets past it is one to an archive that the next filter does not
know either. So an archive filter that is put in anywhere behind another one never leaves the
state in which it was made: whatever comes to it is passed on, and it asks for no replay.

A chain with such a filter (`SceneReplay.Chain.withNewFilter`) therefore goes the way of the
chain without it, command by command and replay by replay; only the stages behind the new one
are one place further from the head. As the replays of both begin at the head, this is kept by
everything that a call can lead to (`SceneReplay.Chain.Issues.withNewFilter`), also where a call
is cut off.
-/

namespace SceneReplay

namespace Chain

/-! ### Two rows, one behind the other -/

/-- A command that goes through the first of two rows goes on in the second. -/
theorem walk_append_of_goesThrough {ss : List Stage} {c : Command}
    (h : goesThrough ss c = true) (ts : List Stage) :
    walk (ss ++ ts) c
      = ((walk ss c).1 ++ (walk ts c).1, (walk ts c).2.1, ss.length + (walk ts c).2.2) := by
  induction ss with
  | nil => simp [walk]
  | cons s ss ih =>
    obtain ⟨hs, hss⟩ : (s.receive c).2.isPass = true ∧ goesThrough ss c = true := by
      simpa [goesThrough_cons] using h
    have hreceive : s.receive c = ((s.receive c).1, .pass) :=
      Prod.ext rfl (Reaction.isPass_iff.1 hs)
    rw [List.cons_append, walk_cons_of_pass hreceive, walk_cons_of_pass hreceive, ih hss]
    simp only [List.cons_append, List.length_cons, Prod.mk.injEq, true_and]
    omega

/-- A command that ends in the first of two rows leaves the second as it is. -/
theorem walk_append_of_not_goesThrough {ss : List Stage} {c : Command}
    (h : goesThrough ss c = false) (ts : List Stage) :
    walk (ss ++ ts) c = ((walk ss c).1 ++ ts, (walk ss c).2) ∧ (walk ss c).2.2 < ss.length := by
  induction ss with
  | nil => simp at h
  | cons s ss ih =>
    rcases hs : s.receive c with ⟨s', reaction⟩
    by_cases hpass : reaction = .pass
    · subst hpass
      have hss : goesThrough ss c = false := by simpa [goesThrough_cons, hs] using h
      obtain ⟨hwalk, hlt⟩ := ih hss
      rw [List.cons_append, walk_cons_of_pass hs, walk_cons_of_pass hs, hwalk]
      exact ⟨rfl, Nat.succ_lt_succ hlt⟩
    · rw [List.cons_append, walk_cons_of_ne_pass hs hpass, walk_cons_of_ne_pass hs hpass]
      exact ⟨rfl, Nat.succ_pos _⟩

theorem length_walk (ss : List Stage) (c : Command) : (walk ss c).1.length = ss.length := by
  simpa using congrArg List.length (map_gauge?_walk ss c)

/-- **What gets past a row with a filter in it** is nothing that a filter deals with itself. -/
theorem notOwn_of_goesThrough {ss : List Stage} (hfilter : true ∈ ss.map Stage.isFilter)
    {c : Command} (h : goesThrough ss c = true) : c.proc ∉ ArchiveFilter.ownProcedures := by
  induction ss with
  | nil => simp at hfilter
  | cons s ss ih =>
    obtain ⟨hs, hss⟩ : (s.receive c).2.isPass = true ∧ goesThrough ss c = true := by
      simpa [goesThrough_cons] using h
    rw [List.map_cons, List.mem_cons] at hfilter
    rcases hfilter with hfirst | hlater
    · cases s with
      | archive f => exact ArchiveFilter.notOwn_of_pass (Reaction.isPass_iff.1 hs)
      | _ => cases hfirst
    · exact ih hlater hss

/-! ### One more filter -/

/-- The place of a stage when one more has been put in behind the first `m`. -/
def placeBeside (m k : Nat) : Nat := if k < m then k else k + 1

/-- **A command goes as far as it would without the new filter**, and leaves that filter as it
is. -/
theorem walk_newFilter {front : List Stage} (hfilter : true ∈ front.map Stage.isFilter)
    (back : List Stage) (limit : Nat) (capture : Bool) (c : Command) :
    walk (front ++ .archive (.fresh limit capture) :: back) c
      = ((walk (front ++ back) c).1.take front.length ++
          .archive (.fresh limit capture) :: (walk (front ++ back) c).1.drop front.length,
        (walk (front ++ back) c).2.1, placeBeside front.length (walk (front ++ back) c).2.2) := by
  have hlength : (walk front c).1.length = front.length := length_walk front c
  cases hthrough : goesThrough front c with
  | true =>
    have hreceive : (Stage.archive (.fresh limit capture)).receive c
        = (.archive (.fresh limit capture), .pass) := by
      rw [Stage.receive, ArchiveFilter.receive_fresh (notOwn_of_goesThrough hfilter hthrough)]
    rw [walk_append_of_goesThrough hthrough, walk_append_of_goesThrough hthrough,
      walk_cons_of_pass hreceive, List.take_left' hlength, List.drop_left' hlength, placeBeside,
      if_neg (by simp), Nat.add_assoc]
  | false =>
    obtain ⟨hwalk, hlt⟩ := walk_append_of_not_goesThrough hthrough back
    obtain ⟨hwalk', -⟩ :=
      walk_append_of_not_goesThrough hthrough (.archive (.fresh limit capture) :: back)
    rw [hwalk, hwalk', List.take_left' hlength, List.drop_left' hlength, placeBeside, if_pos hlt]

/-- A stage of the row is changed where it now is. -/
theorem modify_placeBeside {α : Type} (f : α → α) (a : α) (l : List α) (m : Nat) {k : Nat}
    (hk : k < l.length) :
    (l.take m ++ a :: l.drop m).modify (placeBeside m k) f
      = (l.modify k f).take m ++ a :: (l.modify k f).drop m := by
  induction l generalizing m k with
  | nil => simp at hk
  | cons b l ih =>
    cases m with
    | zero => simp [placeBeside]
    | succ m =>
      cases k with
      | zero => simp [placeBeside]
      | succ k =>
        have hplace : placeBeside (m + 1) (k + 1) = placeBeside m k + 1 := by
          unfold placeBeside
          split_ifs <;> omega
        simp [hplace, ih m (Nat.lt_of_succ_lt_succ hk)]

variable {σ : Type}

/-- The chain with a new archive filter behind the first `m` stages. -/
def withNewFilter (m limit : Nat) (capture : Bool) (ch : Chain σ) : Chain σ :=
  { ch with stages := ch.stages.take m ++ .archive (.fresh limit capture) :: ch.stages.drop m }

/-- Whether some filter is among the first `m` stages. -/
def FilteredBefore (m : Nat) (ch : Chain σ) : Prop :=
  m ≤ ch.stages.length ∧ true ∈ ch.kinds.take m

theorem FilteredBefore.of_kinds {m : Nat} {ch ch' : Chain σ} (h : ch.FilteredBefore m)
    (hkinds : ch'.kinds = ch.kinds) : ch'.FilteredBefore m := by
  have hlength : ch'.stages.length = ch.stages.length := by
    simpa [kinds] using congrArg List.length hkinds
  rwa [FilteredBefore, hlength, hkinds]

variable {m limit : Nat} {capture : Bool}

/-- A stage is changed where it is once the new filter is in. -/
theorem withNewFilter_modify {ch : Chain σ} {k : Nat} (hk : ch.kinds[k]? = some true)
    (f : Stage → Stage) :
    { withNewFilter m limit capture ch with
      stages := (withNewFilter m limit capture ch).stages.modify (placeBeside m k) f }
      = withNewFilter m limit capture { ch with stages := ch.stages.modify k f } := by
  have hlt : k < ch.stages.length := by
    simpa [kinds] using (List.getElem?_eq_some_iff.1 hk).1
  exact congrArg (Chain.mk · ch.sink ch.log) (modify_placeBeside f _ ch.stages m hlt)

variable [Sink σ]

/-- **One command from the head**, with the new filter. -/
theorem step_withNewFilter {ch ch₁ : Chain σ} (hch : ch.FilteredBefore m) {c : Command}
    {outcome : Outcome} (h : ch.step 0 c = (ch₁, outcome)) :
    (withNewFilter m limit capture ch).step 0 c
      = (withNewFilter m limit capture ch₁, outcome.moved (placeBeside m)) := by
  obtain ⟨hm, hfilter⟩ := hch
  have hlength : (ch.stages.take m).length = m := List.length_take_of_le hm
  rw [kinds, ← List.map_take] at hfilter
  have hwalk := walk_newFilter hfilter (ch.stages.drop m) limit capture c
  rw [List.take_append_drop, hlength] at hwalk
  simp only [step, List.drop_zero, List.take_zero, List.nil_append, Nat.zero_add] at h ⊢
  simp only [withNewFilter, hwalk]
  rcases hw : walk ch.stages c with ⟨ss, reaction, passed⟩
  rw [hw] at h
  cases reaction with
  | pass =>
    obtain ⟨rfl, rfl⟩ := Prod.mk.inj h
    cases (Sink.accept ch.sink c).2 <;> rfl
  | _ =>
    obtain ⟨rfl, rfl⟩ := Prod.mk.inj h
    rfl

/-- **A course is one with the new filter**, too. -/
theorem Issues.withNewFilter {cs : List Command} {ch ch' : Chain σ} {r : Option Fault}
    (h : Issues cs ch ch' r) (hch : ch.FilteredBefore m) :
    Issues cs (Chain.withNewFilter m limit capture ch) (Chain.withNewFilter m limit capture ch')
      r := by
  induction h with
  | nil ch => exact .nil _
  | misused hc => exact .misused hc
  | answered hc hs _ ih =>
    exact .answered hc (step_withNewFilter hch hs) (ih (hch.of_kinds (kinds_of_step hs)))
  | stopped hc hs => exact .stopped hc (step_withNewFilter hch hs)
  | @replayed c d cs content ch ch₁ ch₂ ch₃ k r hc hs hreplay _ ihreplay ihrest =>
    have hkinds : ch₁.kinds = ch.kinds := kinds_of_step hs
    have hkinds' : ch₂.kinds = ch.kinds := by rw [hreplay.kinds, kinds_enterReplay, hkinds]
    have hk := kinds_of_replay hs
    have hreplay' := ihreplay (hch.of_kinds ((kinds_enterReplay ch₁ k).trans hkinds))
    have hrest' := ihrest (hch.of_kinds ((kinds_leaveReplay ch₂ k).trans hkinds'))
    rw [enterReplay, ← withNewFilter_modify (hkinds ▸ hk)] at hreplay'
    rw [leaveReplay, ← withNewFilter_modify (hkinds' ▸ hk)] at hrest'
    exact .replayed hc (step_withNewFilter hch hs) hreplay' hrest'
  | @interrupted c d cs content ch ch₁ ch₂ k f hc hs hreplay ihreplay =>
    have hkinds : ch₁.kinds = ch.kinds := kinds_of_step hs
    have hkinds' : ch₂.kinds = ch.kinds := by rw [hreplay.kinds, kinds_enterReplay, hkinds]
    have hk := kinds_of_replay hs
    have hreplay' := ihreplay (hch.of_kinds ((kinds_enterReplay ch₁ k).trans hkinds))
    rw [enterReplay, ← withNewFilter_modify (hkinds ▸ hk)] at hreplay'
    rw [leaveReplay, ← withNewFilter_modify (hkinds' ▸ hk)]
    exact .interrupted hc (step_withNewFilter hch hs) hreplay'

theorem issue_withNewFilter {ch : Chain σ} (hch : ch.FilteredBefore m) (c : Command) :
    (withNewFilter m limit capture ch).issue 0 c
      = (withNewFilter m limit capture (ch.issue 0 c).1, (ch.issue 0 c).2) :=
  issues_iff.1 ((issues_issueAll ch [c]).withNewFilter hch)

/-- The filter in front is there after a call, too. -/
theorem FilteredBefore.issue {ch : Chain σ} (hch : ch.FilteredBefore m) (c : Command) :
    (ch.issue 0 c).1.FilteredBefore m :=
  hch.of_kinds (issues_issueAll ch [c]).kinds

theorem FilteredBefore.calls {ch : Chain σ} (hch : ch.FilteredBefore m) (cs : List Command) :
    (ch.calls cs).FilteredBefore m := by
  induction cs generalizing ch with
  | nil => exact hch
  | cons c cs ih => exact ih (hch.issue c)

/-- **Calls are made with the new filter as without it.** -/
theorem calls_withNewFilter {ch : Chain σ} (hch : ch.FilteredBefore m) (cs : List Command) :
    (withNewFilter m limit capture ch).calls cs
      = withNewFilter m limit capture (ch.calls cs) := by
  induction cs generalizing ch with
  | nil => rfl
  | cons c cs ih =>
    have hfirst : ((withNewFilter m limit capture ch).issue 0 c).1
        = withNewFilter m limit capture (ch.issue 0 c).1 := by rw [issue_withNewFilter hch]
    rw [calls, List.foldl_cons, hfirst]
    exact ih (hch.issue c)

/-- **A filter behind a filter has nothing to do.** Let a new archive filter, of any limit and
with any choice about comments, be put into a row of stages behind another archive filter, at
whatever distance and in whatever state that one is. After any calls at the head the sink, the
reports and all other stages are the same as without it, and the new filter is as it was made:
idle, with no recordings, and with no replay in progress. So is the outcome of every further
call. -/
theorem calls_stacked {front : List Stage} (hfilter : ∃ f, .archive f ∈ front)
    (back : List Stage) (sink : σ) (log : Log) (limit : Nat) (capture : Bool)
    (cs : List Command) :
    let new := Stage.archive (.fresh limit capture)
    let single := (Chain.mk (front ++ back) sink log).calls cs
    let stacked := (Chain.mk (front ++ new :: back) sink log).calls cs
    stacked.sink = single.sink ∧ stacked.log = single.log ∧
      stacked.stages
        = single.stages.take front.length ++ new :: single.stages.drop front.length ∧
      ∀ c, (stacked.issue 0 c).2 = (single.issue 0 c).2 := by
  intro new single stacked
  have hch : (Chain.mk (front ++ back) sink log).FilteredBefore front.length := by
    obtain ⟨f, hf⟩ := hfilter
    refine ⟨by simp, ?_⟩
    rw [kinds, List.map_append, List.take_left' (by simp)]
    exact List.mem_map_of_mem hf
  have hstart : withNewFilter front.length limit capture (Chain.mk (front ++ back) sink log)
      = ⟨front ++ new :: back, sink, log⟩ := by
    simp [withNewFilter, new]
  have hstacked : stacked = withNewFilter front.length limit capture single := by
    rw [← calls_withNewFilter hch, hstart]
  rw [hstacked]
  exact ⟨rfl, rfl, rfl, fun c => by rw [issue_withNewFilter (hch.calls cs)]⟩

/-- Behind a filter that replays an archive inside itself until its limit cuts it off stands one
that would cut it off earlier, and keeps no comments. Only the first of them makes a report. -/
theorem calls_stacked_strayReading :
    ∃ single stacked : Chain Collector,
      single = (collecting [.archive (.fresh 2 true)]).calls strayReading ∧
      stacked
        = (collecting [.archive (.fresh 2 true), .archive (.fresh 1 false)]).calls strayReading ∧
      stacked.sink = single.sink ∧ stacked.log = single.log ∧
      stacked.stages[1]? = some (.archive (.fresh 1 false)) ∧
      stacked.sink.commands = #[strayReference, strayReference] ∧
      stacked.log.toList.length = 1 := by
  have hfilter : ∃ f, Stage.archive f ∈ [.archive (.fresh 2 true)] :=
    ⟨_, List.mem_singleton_self _⟩
  obtain ⟨hsink, hlog, hstages, -⟩ :=
    calls_stacked hfilter [] Collector.empty Log.empty 1 false strayReading
  exact ⟨_, _, rfl, rfl, hsink, hlog, congrArg (fun ss => ss[1]?) hstages, by rfl, by rfl⟩

end Chain

end SceneReplay
