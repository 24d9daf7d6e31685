import SceneReplay.Proofs.Archive.Definitions
import SceneReplay.Proofs.Archive.Output
import SceneReplay.Proofs.Chain.Collected
import SceneReplay.Proofs.Chain.Hops

/-!
# Observers

Relays and taps pass every command, and nothing that they do comes back to the chain. Taking
them out of the row of stages (`SceneReplay.Chain.unobserved`) therefore commutes with all that
calls can lead to (`SceneReplay.Chain.calls_unobserved`): a command goes as far as before, past
fewer stages, and the place of the filter that asks for a replay is counted in filters only.
Chains that differ in observers alone have the same sink, the same reports and the same filters
after any calls, as there is one row of filters behind both.

What a tap sees depends on the side of the filter on which it is placed. Before it, that is all
that comes to the head, and behind it, all that the sink takes
(`SceneReplay.Chain.calls_withObservers`).
-/

namespace SceneReplay

/-! ### Filters and observers -/

namespace Stage

/-- Whether the stage is an archive filter. If not, it observes at most. -/
def isFilter (s : Stage) : Bool := s.archiveFilter?.isSome

@[simp] theorem isFilter_receive (s : Stage) (c : Command) :
    (s.receive c).1.isFilter = s.isFilter := by
  cases s <;> rfl

@[simp] theorem isFilter_enterReplay (s : Stage) : s.enterReplay.isFilter = s.isFilter := by
  cases s <;> rfl

@[simp] theorem isFilter_leaveReplay (s : Stage) : s.leaveReplay.isFilter = s.isFilter := by
  cases s <;> rfl

/-- An observer passes every command. -/
theorem receive_of_isFilter_eq_false {s : Stage} (h : s.isFilter = false) (c : Command) :
    (s.receive c).2 = .pass :=
  congrArg Prod.snd (receive_of_no_filter (by simpa [isFilter] using h) c).1

end Stage

namespace Chain

/-- **A command goes through the filters of a row** as it goes through the row. -/
theorem walk_filter (ss : List Stage) (c : Command) :
    walk (ss.filter Stage.isFilter) c
      = ((walk ss c).1.filter Stage.isFilter, (walk ss c).2.1,
        (ss.take (walk ss c).2.2).countP Stage.isFilter) := by
  induction ss with
  | nil => rfl
  | cons s ss ih =>
    rcases hs : s.receive c with ⟨s', reaction⟩
    have hkind : s'.isFilter = s.isFilter := by simpa [hs] using s.isFilter_receive c
    by_cases hpass : reaction = .pass
    · subst hpass
      rw [walk_cons_of_pass hs]
      cases hfilter : s.isFilter with
      | true => simp [hfilter, hkind, walk_cons_of_pass hs, ih]
      | false => simp [hfilter, hkind, ih]
    · rw [walk_cons_of_ne_pass hs hpass]
      have hfilter : s.isFilter = true := by
        by_contra hobserver
        have := Stage.receive_of_isFilter_eq_false (Bool.eq_false_iff.2 hobserver) c
        exact hpass (by simpa [hs] using this)
      simp [hfilter, hkind, walk_cons_of_ne_pass hs hpass]

/-- Observers pass every command. -/
theorem goesThrough_of_observers {ss : List Stage} (h : ∀ s ∈ ss, s.isFilter = false)
    (c : Command) : goesThrough ss c = true := by
  induction ss with
  | nil => rfl
  | cons s ss ih =>
    obtain ⟨hs, hss⟩ := List.forall_mem_cons.1 h
    rw [goesThrough_cons, Stage.receive_of_isFilter_eq_false hs, ih hss]
    rfl

theorem goesThrough_append (ss ts : List Stage) (c : Command) :
    goesThrough (ss ++ ts) c = (goesThrough ss c && goesThrough ts c) := by
  induction ss with
  | nil => simp
  | cons s ss ih => rw [List.cons_append, goesThrough_cons, goesThrough_cons, ih, Bool.and_assoc]

variable {σ : Type}

/-- Which stages of the chain are filters. -/
def kinds (ch : Chain σ) : List Bool := ch.stages.map Stage.isFilter

theorem kinds_of_archive {ch : Chain σ} {k : Nat} {f : ArchiveFilter}
    (hk : ch.stages[k]? = some (.archive f)) : ch.kinds[k]? = some true := by
  simp [kinds, hk, Stage.isFilter, Stage.archiveFilter?]

/-- How many filters there are before a place. -/
def filtersBefore (ch : Chain σ) (k : Nat) : Nat := (ch.kinds.take k).countP id

theorem countP_take_stages (ch : Chain σ) (k : Nat) :
    (ch.stages.take k).countP Stage.isFilter = ch.filtersBefore k := by
  rw [filtersBefore, kinds, ← List.map_take, List.countP_map]
  rfl

theorem kinds_enterReplay (ch : Chain σ) (k : Nat) : (ch.enterReplay k).kinds = ch.kinds := by
  have h := map_modify (g := id) Stage.isFilter_enterReplay ch.stages k
  rwa [List.modify_id] at h

theorem kinds_leaveReplay (ch : Chain σ) (k : Nat) : (ch.leaveReplay k).kinds = ch.kinds := by
  have h := map_modify (g := id) Stage.isFilter_leaveReplay ch.stages k
  rwa [List.modify_id] at h

/-- **The chain without its observers.** -/
def unobserved (ch : Chain σ) : Chain σ := { ch with stages := ch.stages.filter Stage.isFilter }

/-- Without the observers, the filters are left. -/
theorem stages_unobserved (ch : Chain σ) :
    ch.unobserved.stages = ch.archiveFilters.map Stage.archive := by
  have h : ∀ ss : List Stage, ss.filter Stage.isFilter
      = (ss.filterMap Stage.archiveFilter?).map Stage.archive := by
    intro ss
    induction ss with
    | nil => rfl
    | cons s ss ih =>
      cases s with
      | archive f => exact congrArg (Stage.archive f :: ·) ih
      | _ => exact ih
  exact h ch.stages

theorem archiveFilters_unobserved (ch : Chain σ) :
    ch.unobserved.archiveFilters = ch.archiveFilters := by
  rw [archiveFilters, stages_unobserved, List.filterMap_map]
  exact List.filterMap_some

/-- A change of a filter, made in the row of filters. -/
theorem filter_modify {m : Stage → Stage} (hm : ∀ s, (m s).isFilter = s.isFilter) {ss : List Stage}
    {k : Nat} (hk : (ss.map Stage.isFilter)[k]? = some true) :
    (ss.modify k m).filter Stage.isFilter
      = (ss.filter Stage.isFilter).modify ((ss.take k).countP Stage.isFilter) m := by
  induction ss generalizing k with
  | nil => simp at hk
  | cons s ss ih =>
    cases k with
    | zero =>
      have hs : s.isFilter = true := by simpa using hk
      simp [hs, hm]
    | succ k =>
      have hrest := ih (k := k) (by simpa using hk)
      cases hs : s.isFilter <;> simp [hs, hrest]

theorem unobserved_enterReplay {ch : Chain σ} {k : Nat} (hk : ch.kinds[k]? = some true) :
    (ch.enterReplay k).unobserved = ch.unobserved.enterReplay (ch.filtersBefore k) := by
  rw [← countP_take_stages]
  exact congrArg (Chain.mk · ch.sink ch.log) (filter_modify Stage.isFilter_enterReplay hk)

theorem unobserved_leaveReplay {ch : Chain σ} {k : Nat} (hk : ch.kinds[k]? = some true) :
    (ch.leaveReplay k).unobserved = ch.unobserved.leaveReplay (ch.filtersBefore k) := by
  rw [← countP_take_stages]
  exact congrArg (Chain.mk · ch.sink ch.log) (filter_modify Stage.isFilter_leaveReplay hk)

/-! ### Calls without observers -/

/-- The same outcome, where the asking stage is at another place. -/
def Outcome.moved (place : Nat → Nat) : Outcome → Outcome
  | .replay k content => .replay (place k) content
  | o => o

variable [Sink σ]

theorem kinds_step (ch : Chain σ) (c : Command) : (ch.step 0 c).1.kinds = ch.kinds := by
  rw [kinds, stages_step]
  exact map_walk Stage.isFilter_receive ch.stages c

theorem kinds_of_step {ch ch₁ : Chain σ} {c : Command} {outcome : Outcome}
    (h : ch.step 0 c = (ch₁, outcome)) : ch₁.kinds = ch.kinds := by
  have hkinds := kinds_step ch c
  rwa [h] at hkinds

theorem Issues.kinds {cs : List Command} {ch ch' : Chain σ} {r : Option Fault}
    (h : Issues cs ch ch' r) : ch'.kinds = ch.kinds :=
  h.preserves (P := fun st => st.kinds = ch.kinds) (fun st d _ hst => (kinds_step st d).trans hst)
    (fun st k hst => (kinds_enterReplay st k).trans hst)
    (fun st k hst => (kinds_leaveReplay st k).trans hst) rfl

/-- **One command from the head**, without the observers. -/
theorem step_unobserved {ch ch₁ : Chain σ} {c : Command} {outcome : Outcome}
    (h : ch.step 0 c = (ch₁, outcome)) :
    ch.unobserved.step 0 c = (ch₁.unobserved, outcome.moved ch.filtersBefore) := by
  simp only [step, List.drop_zero, List.take_zero, List.nil_append, Nat.zero_add] at h ⊢
  simp only [unobserved, walk_filter, countP_take_stages]
  rcases hw : walk ch.stages c with ⟨ss, reaction, passed⟩
  rw [hw] at h
  cases reaction with
  | pass =>
    obtain ⟨rfl, rfl⟩ := Prod.mk.inj h
    cases (Sink.accept ch.sink c).2 <;> rfl
  | _ =>
    obtain ⟨rfl, rfl⟩ := Prod.mk.inj h
    rfl

/-- The place of the stage that asks for a replay is that of a filter. -/
theorem kinds_of_replay {ch ch₁ : Chain σ} {c : Command} {k : Nat} {content : List Command}
    (h : ch.step 0 c = (ch₁, .replay k content)) : ch.kinds[k]? = some true := by
  obtain ⟨hwalk, -, -⟩ := step_replay h
  obtain ⟨f, hk, -⟩ := walk_replay hwalk
  exact kinds_of_archive hk

/-- **A course is one without the observers**, too. -/
theorem Issues.unobserved {cs : List Command} {ch ch' : Chain σ} {r : Option Fault}
    (h : Issues cs ch ch' r) : Issues cs ch.unobserved ch'.unobserved r := by
  induction h with
  | nil ch => exact .nil _
  | misused hc => exact .misused hc
  | answered hc hs _ ih => exact .answered hc (step_unobserved hs) ih
  | stopped hc hs => exact .stopped hc (step_unobserved hs)
  | @replayed c d cs content ch ch₁ ch₂ ch₃ k r hc hs hreplay _ ihreplay ihrest =>
    have hkinds : ch₁.kinds = ch.kinds := kinds_of_step hs
    have hkinds' : ch₂.kinds = ch.kinds := by rw [hreplay.kinds, kinds_enterReplay, hkinds]
    have hk := kinds_of_replay hs
    rw [unobserved_enterReplay (hkinds ▸ hk), filtersBefore, hkinds] at ihreplay
    rw [unobserved_leaveReplay (hkinds' ▸ hk), filtersBefore, hkinds'] at ihrest
    exact .replayed hc (step_unobserved hs) ihreplay ihrest
  | @interrupted c d cs content ch ch₁ ch₂ k f hc hs hreplay ihreplay =>
    have hkinds : ch₁.kinds = ch.kinds := kinds_of_step hs
    have hkinds' : ch₂.kinds = ch.kinds := by rw [hreplay.kinds, kinds_enterReplay, hkinds]
    have hk := kinds_of_replay hs
    rw [unobserved_enterReplay (hkinds ▸ hk), filtersBefore, hkinds] at ihreplay
    rw [unobserved_leaveReplay (hkinds' ▸ hk), filtersBefore, hkinds']
    exact .interrupted hc (step_unobserved hs) ihreplay

theorem issue_unobserved (ch : Chain σ) (c : Command) :
    ch.unobserved.issue 0 c = ((ch.issue 0 c).1.unobserved, (ch.issue 0 c).2) :=
  issues_iff.1 (issues_issueAll ch [c]).unobserved

/-- **Calls are made without the observers as with them.** -/
theorem calls_unobserved (ch : Chain σ) (cs : List Command) :
    (ch.calls cs).unobserved = ch.unobserved.calls cs := by
  induction cs generalizing ch with
  | nil => rfl
  | cons c cs ih =>
    have hfirst : (ch.unobserved.issue 0 c).1 = (ch.issue 0 c).1.unobserved := by
      rw [issue_unobserved]
    rw [calls, calls, List.foldl_cons, List.foldl_cons, hfirst]
    exact ih _

/-! ### What taps see -/

/-- At all moments of calls the stages are of the same kinds. -/
theorem CallsTraced.kinds {cs : List Command} {ch ch' : Chain σ} {tr : List (Arrival σ)}
    (h : CallsTraced cs ch tr ch') : ∀ st ∈ moments tr ch', st.kinds = ch.kinds := by
  have hkept := h.pairwise (R := fun st st' => st'.kinds = st.kinds) (fun _ => rfl)
    (fun _ _ _ h h' => h'.trans h) kinds_step kinds_enterReplay kinds_leaveReplay
  exact (List.pairwise_cons.1 hkept).1

omit [Sink σ] in
/-- The place of the one filter of a chain. -/
theorem exists_place_of_one_filter {ch : Chain σ} {f : ArchiveFilter}
    (h : ch.archiveFilters = [f]) : ∃ m : Nat, ∀ i : Nat, ch.kinds[i]? = some true → i = m := by
  obtain ⟨front, back, hstages, hfront, hback⟩ := exists_front_of_archiveFilters h
  refine ⟨front.length, fun i hi => ?_⟩
  obtain ⟨s, hs, hfilter⟩ : ∃ s, ch.stages[i]? = some s ∧ s.isFilter = true := by
    simpa [Chain.kinds] using hi
  have hsome : s.archiveFilter? ≠ none := Option.isSome_iff_ne_none.1 hfilter
  rw [hstages] at hs
  rcases Nat.lt_trichotomy i front.length with hlt | heq | hgt
  · rw [List.getElem?_append_left hlt] at hs
    exact absurd (hfront s (List.mem_of_getElem? hs)) hsome
  · exact heq
  · obtain ⟨j, rfl⟩ := Nat.exists_eq_add_of_lt hgt
    have hback : ∀ t ∈ back, t.archiveFilter? = none := List.filterMap_eq_nil_iff.1 hback
    rw [List.getElem?_append_right (by omega),
      show front.length + j + 1 - front.length = j + 1 by omega, List.getElem?_cons_succ] at hs
    exact absurd (hback s (List.mem_of_getElem? hs)) hsome

section OneFilter

variable {st : Chain σ} {m k : Nat} (hplace : ∀ i : Nat, st.kinds[i]? = some true → i = m)

include hplace

omit [Sink σ] in
/-- **Whatever comes to the head comes to the filter.** -/
theorem reaches_of_le (hk : k ≤ m) (c : Command) : Arrival.reaches k ⟨st, c⟩ = true := by
  refine goesThrough_of_observers (fun s hs => ?_) c
  obtain ⟨i, hi⟩ := List.getElem?_of_mem hs
  have hlt : i < k := by
    by_contra hge
    rw [List.getElem?_take, if_neg hge] at hi
    cases hi
  rw [List.getElem?_take_of_lt hlt] at hi
  by_contra hfilter
  have := hplace i (by simpa [Chain.kinds, hi] using hfilter)
  omega

omit [Sink σ] in
/-- **Whatever gets past the filter comes to the end.** -/
theorem reaches_of_lt (hk : m < k) (c : Command) :
    Arrival.reaches k ⟨st, c⟩ = Arrival.reaches st.stages.length ⟨st, c⟩ := by
  have hbehind : goesThrough (st.stages.drop k) c = true := by
    refine goesThrough_of_observers (fun s hs => ?_) c
    obtain ⟨i, hi⟩ := List.getElem?_of_mem hs
    rw [List.getElem?_drop] at hi
    by_contra hfilter
    have := hplace (k + i) (by simpa [Chain.kinds, hi] using hfilter)
    omega
  have hrow := goesThrough_append (st.stages.take k) (st.stages.drop k) c
  rw [List.take_append_drop, hbehind, Bool.and_true] at hrow
  rw [Arrival.reaches, Arrival.reaches, List.take_length, hrow]

end OneFilter

section Reaching

variable {cs : List Command} {ch ch' : Chain σ} {tr : List (Arrival σ)} {m k : Nat}

/-- **Before the filter there is all that comes to the head.** -/
theorem CallsTraced.reaching_of_le (h : CallsTraced cs ch tr ch')
    (hplace : ∀ i : Nat, ch.kinds[i]? = some true → i = m) (hk : k ≤ m) :
    reaching k tr = tr.map Arrival.command := by
  have hall : tr.filter (Arrival.reaches k) = tr := by
    refine List.filter_eq_self.2 fun a ha => reaches_of_le (fun i hi => hplace i ?_) hk a.command
    rwa [h.kinds _ (List.mem_append_left _ (List.mem_map_of_mem ha))] at hi
  rw [reaching, hall]

/-- **Behind the filter there is what the sink takes.** -/
theorem CallsTraced.reaching_of_lt (h : CallsTraced cs ch tr ch')
    (hplace : ∀ i : Nat, ch.kinds[i]? = some true → i = m) (hk : m < k) :
    reaching k tr = reaching ch.stages.length tr := by
  refine congrArg (List.map Arrival.command) (List.filter_congr fun a ha => ?_)
  have hkinds := h.kinds _ (List.mem_append_left _ (List.mem_map_of_mem ha))
  have hlength : a.chain.stages.length = ch.stages.length := by
    simpa [Chain.kinds] using congrArg List.length hkinds
  rw [← hlength]
  exact reaches_of_lt (fun i hi => hplace i (hkinds ▸ hi)) hk a.command

/-- **A tap before the filter** sees all that comes to the head. -/
theorem CallsTraced.tap_of_lt (h : CallsTraced cs ch tr ch')
    (hplace : ∀ i : Nat, ch.kinds[i]? = some true → i = m) {seen : Array Command}
    (htap : ch.stages[k]? = some (.tap seen)) (hk : k < m) :
    ch'.stages[k]? = some (.tap (seen ++ (tr.map Arrival.command).toArray)) := by
  rw [h.tap htap, h.reaching_of_le hplace (Nat.le_of_lt hk)]

end Reaching

/-- **A tap behind the filter** sees what a collector takes. -/
theorem CallsTraced.tap_of_gt {cs : List Command} {ss : List Stage} {log : Log}
    {ch' : Chain Collector} {tr : List (Arrival Collector)} {m k : Nat}
    (h : CallsTraced cs ⟨ss, .empty, log⟩ tr ch')
    (hplace : ∀ i : Nat, (ss.map Stage.isFilter)[i]? = some true → i = m)
    (htap : ss[k]? = some (.tap #[])) (hk : m < k) :
    ch'.stages[k]? = some (.tap ch'.sink.commands) := by
  have htaken : ch'.sink.toList = reaching ss.length tr := by
    rw [h.sink, toList_deliver]
    rfl
  rw [h.tap htap, h.reaching_of_lt hplace hk, Array.empty_append]
  exact congrArg (fun l => some (Stage.tap l.toArray)) htaken.symm

/-! ### Rows with observers -/

/-- **The row `ts` is the row `ss` with new observers in it**, any number of them at any
places. -/
inductive WithObservers : List Stage → List Stage → Prop
  /-- No stages. -/
  | nil : WithObservers [] []
  /-- A stage of the row. -/
  | keep (s : Stage) {ss ts : List Stage} (h : WithObservers ss ts) :
      WithObservers (s :: ss) (s :: ts)
  /-- A stage that passes everything. -/
  | relay {ss ts : List Stage} (h : WithObservers ss ts) : WithObservers ss (.relay :: ts)
  /-- A tap. -/
  | tap {ss ts : List Stage} (h : WithObservers ss ts) : WithObservers ss (.tap #[] :: ts)

namespace WithObservers

variable {ss ts : List Stage}

/-- The filters are those of the row. -/
theorem filter_eq (h : WithObservers ss ts) :
    ts.filter Stage.isFilter = ss.filter Stage.isFilter := by
  induction h with
  | nil => rfl
  | keep s _ ih => cases hs : s.isFilter <;> simp [hs, ih]
  | relay _ ih => exact ih
  | tap _ ih => exact ih

theorem isNew (h : WithObservers ss ts) (hss : ∀ s ∈ ss, s.IsNew) : ∀ s ∈ ts, s.IsNew := by
  induction h with
  | nil => exact hss
  | keep s _ ih =>
    obtain ⟨hs, hss⟩ := List.forall_mem_cons.1 hss
    exact List.forall_mem_cons.2 ⟨hs, ih hss⟩
  | relay _ ih => exact List.forall_mem_cons.2 ⟨trivial, ih hss⟩
  | tap _ ih => exact List.forall_mem_cons.2 ⟨rfl, ih hss⟩

end WithObservers

/-- A row of stages in front of a new collector. -/
def collecting (ss : List Stage) : Chain Collector := ⟨ss, .empty, .empty⟩

theorem reachable_collecting {ss : List Stage} (h : ∀ s ∈ ss, s.IsNew) :
    (collecting ss).Reachable := by
  induction ss with
  | nil => exact .ofSink _
  | cons s ss ih =>
    obtain ⟨hs, hss⟩ := List.forall_mem_cons.1 h
    exact .addStage hs (ih hss)

/-- **Observers are transparent.** Let observers be put into a row of new stages with one archive
filter, in front of a new collector, and let any calls be made at the head. Then the collector,
the reports and the filter are the same as without them, and so is the outcome of any further
call. What comes to the head on the way is told by the trace of the calls: a tap before the
filter has seen exactly that, and a tap behind it exactly what the collector has. Each command of
the trace was called, or is recorded in a closed stream at that moment; and though everyone on
its way takes it down anew, all of them get this very command. -/
theorem calls_withObservers {ss ts : List Stage} (h : WithObservers ss ts)
    (hnew : ∀ s ∈ ss, s.IsNew) {f : ArchiveFilter} (hf : ss.filterMap Stage.archiveFilter? = [f])
    (cs : List Command) :
    let bare := (collecting ss).calls cs
    let observed := (collecting ts).calls cs
    (observed.sink = bare.sink ∧ observed.log = bare.log ∧
      observed.archiveFilters = bare.archiveFilters ∧
      ∀ c, (observed.issue 0 c).2 = (bare.issue 0 c).2) ∧
    (∃ tr, CallsTraced cs (collecting ts) tr observed) ∧
    ∀ tr ch', CallsTraced cs (collecting ts) tr ch' →
      (∀ (j k : Nat) (g : ArchiveFilter) (seen : Array Command),
        ts[j]? = some (.archive g) → ts[k]? = some (.tap seen) →
          (k < j → observed.stages[k]? = some (.tap (tr.map Arrival.command).toArray)) ∧
          (j < k → observed.stages[k]? = some (.tap observed.sink.commands))) ∧
      ∀ a ∈ tr, ((∃ c ∈ cs, c.reissue = .ok a.command) ∨ a.chain.Recorded a.command) ∧
        a.command.reissue = .ok a.command ∧
        a.chain.stepByHops a.command = a.chain.step 0 a.command := by
  intro bare observed
  have hrow : (collecting ts).unobserved = (collecting ss).unobserved :=
    congrArg collecting h.filter_eq
  have hsame : observed.unobserved = bare.unobserved := by
    rw [calls_unobserved, calls_unobserved, hrow]
  have hsink : observed.sink = bare.sink := (congrArg Chain.sink hsame :)
  have hlog : observed.log = bare.log := (congrArg Chain.log hsame :)
  have hfilters : observed.archiveFilters = bare.archiveFilters := by
    rw [← archiveFilters_unobserved, hsame, archiveFilters_unobserved]
  have hissue : ∀ c, (observed.issue 0 c).2 = (bare.issue 0 c).2 := by
    intro c
    have hobserved := congrArg Prod.snd (issue_unobserved observed c)
    rw [hsame, issue_unobserved] at hobserved
    exact hobserved.symm
  -- The one filter of the row has a place, and every tap is before it or behind it.
  obtain ⟨m, hplace⟩ : ∃ m : Nat, ∀ i : Nat, (collecting ts).kinds[i]? = some true → i = m := by
    refine exists_place_of_one_filter (f := f) ?_
    rw [← archiveFilters_unobserved, hrow, archiveFilters_unobserved]
    exact hf
  have hts : ∀ s ∈ ts, s.IsNew := h.isNew hnew
  refine ⟨⟨hsink, hlog, hfilters, hissue⟩, exists_callsTraced _ _, fun tr ch' htr => ?_⟩
  obtain rfl : observed = ch' := htr.calls_eq
  refine ⟨fun j k g seen hj hk => ?_, fun a ha => ?_⟩
  · obtain rfl : seen = #[] := hts _ (List.mem_of_getElem? hk)
    obtain rfl : j = m := hplace j (kinds_of_archive hj)
    refine ⟨fun hbefore => ?_, fun hbehind => ?_⟩
    · simpa using htr.tap_of_lt hplace hk hbefore
    · exact htr.tap_of_gt hplace hk hbehind
  · have hagain : a.command.reissue = .ok a.command :=
      Command.reissue_of_inOrder (htr.inOrder a ha)
    exact ⟨htr.source (reachable_collecting hts) a ha, hagain, by rw [stepByHops_eq, hagain]⟩

/-- A tap before the filter and one behind it, with a relay between, while an archive refers to
itself and to an undefined one. -/
theorem calls_withObservers_strayReading :
    ∃ (ss ts : List Stage) (tr : List (Arrival Collector)), WithObservers ss ts ∧
      ss = [.archive (.fresh 2 true)] ∧ ts.length = 4 ∧
      ((collecting ts).calls strayReading).sink = ((collecting ss).calls strayReading).sink ∧
      ((collecting ts).calls strayReading).sink.commands = #[strayReference, strayReference] ∧
      ((collecting ts).calls strayReading).stages[0]?
        = some (.tap (tr.map Arrival.command).toArray) ∧ tr.length = 9 ∧
      ((collecting ts).calls strayReading).stages[3]?
        = some (.tap ((collecting ts).calls strayReading).sink.commands) := by
  let ss : List Stage := [.archive (.fresh 2 true)]
  let ts : List Stage := [.tap #[], .relay, .archive (.fresh 2 true), .tap #[]]
  have h : WithObservers ss ts := .tap (.relay (.keep _ (.tap .nil)))
  have hnew : ∀ s ∈ ss, s.IsNew :=
    List.forall_mem_singleton.2 ⟨2, true, by decide, by decide, rfl⟩
  obtain ⟨⟨hsink, -⟩, ⟨tr, htr⟩, hall⟩ := calls_withObservers h hnew rfl strayReading
  obtain ⟨htaps, -⟩ := hall tr _ htr
  have hfirst := (htaps 2 0 _ _ rfl rfl).1 (by decide)
  have hlast := (htaps 2 3 _ _ rfl rfl).2 (by decide)
  have hlength : tr.length = 9 := by
    obtain ⟨seen, hseen, hsize⟩ : ∃ seen,
        ((collecting ts).calls strayReading).stages[0]? = some (.tap seen) ∧ seen.size = 9 :=
      ⟨_, rfl, rfl⟩
    rw [hfirst] at hseen
    cases hseen
    simpa using hsize
  exact ⟨ss, ts, tr, h, rfl, rfl, hsink, rfl, hfirst, hlength, hlast⟩

end Chain

end SceneReplay
