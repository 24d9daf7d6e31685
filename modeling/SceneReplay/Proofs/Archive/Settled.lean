import SceneReplay.Proofs.Archive.InPlace
import SceneReplay.Proofs.Archive.Refused
import SceneReplay.Proofs.Chain.Observers
import SceneReplay.Proofs.Chain.Termination

/-!
# What a replay leaves open

A replay issues what was recorded at the head of the chain, and a filter deals with it as with
any other commands. A recording may hold definitions, and these are carried out. Only the
definitions of its own kind have to be complete in a recording: an archive may begin an object
and not end it, and an object may begin an archive. Whether the filter is idle after a replay is
therefore a matter of what was recorded.

`SceneReplay.Command.Settled` is about rows of commands that open no definition without closing
it. This has to hold of what they refer to as well, and of what is defined in them and referred
to, so the notion depends on a set of names that covers the references. A row either is settled
or, from the first definition on that it does not close, leaves one open
(`SceneReplay.Command.LeavesOpen`).

`SceneReplay.Chain.Reachable.idle_of_reference` is the statement about calls at the head: if
what the names of the set stand for is settled, the filters are idle after the replay of a
settled recording, also after one that the sink broke off, and not idle after the replay of one
that leaves a definition open. The induction is on the headroom of the chain, and for chains of
the same headroom on the row, one definition at a time.
-/

namespace SceneReplay

/-! ### Rows that close what they open -/

/-- **What may come between the beginning of a definition and its end**, and need not be all
of it. -/
def StreamKind.StaysOpen (kind : StreamKind) (body : List Command) : Prop :=
  match kind with
  | .archive => ∀ cs, cs <+: body → Command.tally .archiveEnd cs ≤ Command.tally .archiveBegin cs
  | .object => ∀ c ∈ body, c.role ≠ .objectEnd

namespace Command

variable {R : StreamKind → Value → Prop} {cs ds : List Command}

/-- **A row that closes every definition that it opens**, read by an idle filter. Outside of
definitions it refers to names of `R` only, and what it defines under such a name is settled. -/
inductive Settled (R : StreamKind → Value → Prop) : List Command → Prop
  /-- No commands. -/
  | nil : Settled R []
  /-- A command that opens nothing. -/
  | other {c : Command} {cs : List Command} (hopen : ∀ kind, c.role ≠ StreamKind.opening kind)
      (hrefer : ∀ kind, c.role = StreamKind.reference kind → R kind c.subject)
      (hcs : Settled R cs) : Settled R (c :: cs)
  /-- A complete definition. -/
  | definition {kind : StreamKind} {body ds cs : List Command} {name : Value}
      (hdef : kind.IsDefinition body name ds)
      (hbody : ∀ n, R kind n → name.same n = true → Settled R body)
      (hcs : Settled R cs) : Settled R (ds ++ cs)

/-- **A row that leaves a definition open**: up to there it is settled. -/
inductive LeavesOpen (R : StreamKind → Value → Prop) (kind : StreamKind) : List Command → Prop
  /-- The definition that is left open is the last one. -/
  | intro {cs body : List Command} {first : Command} (hcs : Settled R cs)
      (hfirst : first.role = kind.opening) (hbody : kind.StaysOpen body) :
      LeavesOpen R kind (cs ++ first :: body)

theorem tally_uncommented {r : Role} (h : r ≠ .comment) (cs : List Command) :
    tally r (uncommented cs) = tally r cs := by
  induction cs with
  | nil => rfl
  | cons c cs ih =>
    by_cases hc : c.role = .comment
    · rw [uncommented_cons_of_comment hc, ih, tally_cons, if_neg (hc ▸ h.symm), Nat.add_zero]
    · rw [uncommented_cons_of_ne hc, tally_cons, tally_cons, ih]

end Command

namespace StreamKind

variable {kind : StreamKind} {body ds : List Command} {name : Value}

/-- Comments close nothing. -/
theorem Encloses.uncommented (h : kind.Encloses body) :
    kind.Encloses (Command.uncommented body) := by
  cases kind with
  | archive =>
    refine ⟨fun cs hcs => ?_, ?_⟩
    · obtain ⟨rest, hrest⟩ := hcs
      obtain ⟨es, es', rfl, rfl, -⟩ := List.filter_eq_append_iff.1 hrest.symm
      have hes := h.1 es (List.prefix_append es es')
      rwa [← Command.tally_uncommented Role.noConfusion es,
        ← Command.tally_uncommented (r := .archiveBegin) Role.noConfusion es] at hes
    · rw [Command.tally_uncommented Role.noConfusion, Command.tally_uncommented Role.noConfusion]
      exact h.2
  | object => exact fun c hc => h c (List.mem_filter.1 hc).1

/-- A definition without its comments is one. -/
theorem IsDefinition.uncommented (h : kind.IsDefinition body name ds) :
    kind.IsDefinition (Command.uncommented body) name (Command.uncommented ds) := by
  obtain @⟨first, last, hfirst, hbody, hlast⟩ := h
  have hfirst' : first.role ≠ .comment := by cases kind <;> simp [hfirst, opening]
  have hlast' : last.role ≠ .comment := by cases kind <;> simp [hlast, closing]
  rw [Command.uncommented_cons_of_ne hfirst', Command.uncommented_append,
    Command.uncommented_cons_of_ne hlast']
  exact .intro hfirst hbody.uncommented hlast

end StreamKind

namespace Command

variable {R : StreamKind → Value → Prop} {cs : List Command}

theorem Settled.uncommented (h : Settled R cs) : Settled R (Command.uncommented cs) := by
  induction h with
  | nil => exact .nil
  | @other c cs hopen hrefer _ ih =>
    by_cases hc : c.role = .comment
    · rwa [uncommented_cons_of_comment hc]
    · rw [uncommented_cons_of_ne hc]
      exact .other hopen hrefer ih
  | definition hdef _ _ ihbody ih =>
    rw [uncommented_append]
    exact .definition hdef.uncommented ihbody ih

/-- What is kept of a settled row is settled. -/
theorem Settled.kept (h : Settled R cs) (capture : Bool) : Settled R (kept capture cs) := by
  cases capture with
  | true => exact h
  | false => exact h.uncommented

end Command

/-! ### Filters with settled recordings -/

namespace ArchiveFilter

variable {R : StreamKind → Value → Prop} {f : ArchiveFilter}

/-- **What the names of `R` stand for is settled.** -/
def Supports (R : StreamKind → Value → Prop) (f : ArchiveFilter) : Prop :=
  ∀ kind name s, R kind name → (f.registry kind).find? name = some s →
    Command.Settled R s.commands

theorem Supports.withDepth (h : f.Supports R) (depth : Nat) :
    ({ f with depth := depth } : ArchiveFilter).Supports R := fun kind => by
  cases kind <;> [exact h .archive; exact h .object]

/-- A definition under a name that is not in `R`, or a settled one, does no harm. -/
theorem Supports.define (h : f.Supports R) {kind : StreamKind} {name : Value}
    {cs : List Command} (hcs : ∀ n, R kind n → name.same n = true → Command.Settled R cs) :
    (f.define kind ⟨name, cs, true⟩).Supports R := by
  intro other n s hn hfind
  rcases eq_or_ne other kind with rfl | hne
  · rw [ArchiveFilter.define, registry_replace, Registry.find?, List.find?_append,
      Option.or_eq_some_iff] at hfind
    rcases hfind with hfind | ⟨-, hfind⟩
    · exact h other n s hn hfind
    · obtain ⟨hsame, rfl⟩ : name.same n = true ∧ (⟨name, cs, true⟩ : Stream) = s := by
        simpa [List.find?_singleton] using hfind
      exact hcs n hn hsame
  · rw [ArchiveFilter.define, registry_replace_of_ne _ _ _ _ hne] at hfind
    exact h other n s hn hfind

/-- An idle filter stays as it is, unless a definition is opened. -/
theorem receive_of_not_opening (hidle : f.scope = .idle) {c : Command}
    (hc : ∀ kind, c.role ≠ StreamKind.opening kind) : (f.receive c).1 = f := by
  rcases hreceive : f.receive c with ⟨g, reaction⟩
  have hmove : f.Received c g reaction := by simpa only [hreceive] using f.received c
  cases hmove with
  | passed | dropped | undefined | referred | refused => rfl
  | opened kind _ hrole => exact absurd hrole (hc kind)
  | recorded _ _ _ htarget => exact absurd hidle (scope_ne_idle htarget)
  | closed _ _ htarget => exact absurd hidle (scope_ne_idle htarget)

/-- **A definition that is begun and not ended** leaves an idle filter recording. -/
theorem swallows_unfinished (hidle : f.scope = .idle) {kind : StreamKind} {first : Command}
    (hfirst : first.role = kind.opening) {body : List Command} (hbody : kind.StaysOpen body) :
    ∃ g, f.Swallows (first :: body) g ∧ g.scope ≠ .idle := by
  obtain ⟨hopen, hlast⟩ : (f.openStream kind first.subject).scope.KeepsOpen body ∧
      (f.openStream kind first.subject).scope.advanceAll body ≠ .idle := by
    rw [scope_openStream]
    cases kind with
    | archive =>
      obtain ⟨hopen, hlast⟩ := Scope.keepsOpen_archive (i := (f.registry .archive).streams.length)
        (n := 0) fun cs hcs => Nat.le_add_left_of_le (hbody cs hcs)
      exact ⟨hopen, by rw [hlast]; exact Scope.noConfusion⟩
    | object =>
      obtain ⟨hopen, hlast⟩ :=
        Scope.keepsOpen_object (i := (f.registry .object).streams.length) hbody
      exact ⟨hopen, by rw [hlast]; exact Scope.noConfusion⟩
  exact ⟨_, swallows_opened hidle hfirst hopen, by rwa [scope_replace]⟩

end ArchiveFilter

/-- **A filter is idle, and what the names of `R` stand for there is settled.** -/
def Stage.Calm (R : StreamKind → Value → Prop) : Stage → Prop
  | .archive f => f.scope = .idle ∧ f.Supports R
  | _ => True

namespace Stage

variable {R : StreamKind → Value → Prop} {s : Stage}

theorem calm_of_no_filter (h : s.archiveFilter? = none) : s.Calm R := by
  cases s with
  | archive f => cases h
  | _ => trivial

/-- A stage that is no filter stays none. -/
theorem after_of_no_filter (h : s.archiveFilter? = none) (cs : List Command) :
    (s.after cs).archiveFilter? = none := by
  induction cs generalizing s with
  | nil => exact h
  | cons c cs ih => exact ih (receive_of_no_filter h c).2

theorem Calm.receive (h : s.Calm R) {c : Command}
    (hc : ∀ kind, c.role ≠ StreamKind.opening kind) : (s.receive c).1.Calm R := by
  cases s with
  | archive f =>
    have hsame : ((Stage.archive f).receive c).1 = .archive f :=
      congrArg Stage.archive (ArchiveFilter.receive_of_not_opening h.1 hc)
    rwa [hsame]
  | _ => trivial

theorem Calm.enterReplay (h : s.Calm R) : s.enterReplay.Calm R := by
  cases s with
  | archive f => exact ⟨h.1, h.2.withDepth _⟩
  | _ => trivial

theorem Calm.leaveReplay (h : s.Calm R) : s.leaveReplay.Calm R := by
  cases s with
  | archive f => exact ⟨h.1, h.2.withDepth _⟩
  | _ => trivial

end Stage

namespace Chain

variable {σ : Type} {R : StreamKind → Value → Prop}

/-- **A chain in which every filter is calm**, and there is one. What is recorded is in order. -/
structure Calm (R : StreamKind → Value → Prop) (ch : Chain σ) : Prop where
  /-- The filters are idle, with settled recordings. -/
  stages : ∀ s ∈ ch.stages, s.Calm R
  /-- Commands are recorded as they are taken down. -/
  recorded : ∀ s ∈ ch.stages, s.Recorded Command.InOrder
  /-- Some stage is a filter. -/
  filtered : true ∈ ch.kinds

namespace Calm

variable {ch ch₁ : Chain σ}

theorem exists_front (h : ch.Calm R) :
    ∃ front f back, ch.stages = front ++ .archive f :: back ∧
      ∀ s ∈ front, s.archiveFilter? = none := by
  obtain ⟨s, hs, hfilter⟩ := List.mem_map.1 h.filtered
  obtain ⟨f, hf⟩ := Option.isSome_iff_exists.1 hfilter
  cases hfs : ch.stages.filterMap Stage.archiveFilter? with
  | nil => exact absurd (List.filterMap_eq_nil_iff.1 hfs s hs) (by simp [hf])
  | cons g gs =>
    obtain ⟨front, back, hstages, hfront, -⟩ := exists_front_of_archiveFilters hfs
    exact ⟨front, g, back, hstages, hfront⟩

theorem enterReplay (h : ch.Calm R) (k : Nat) : (ch.enterReplay k).Calm R where
  stages := forall_modify (P := Stage.Calm R) (fun _ hs => hs.enterReplay) h.stages k
  recorded := forall_modify (P := Stage.Recorded Command.InOrder) (fun _ hs => hs.enterReplay)
    h.recorded k
  filtered := by rw [kinds_enterReplay]; exact h.filtered

theorem leaveReplay (h : ch.Calm R) (k : Nat) : (ch.leaveReplay k).Calm R where
  stages := forall_modify (P := Stage.Calm R) (fun _ hs => hs.leaveReplay) h.stages k
  recorded := forall_modify (P := Stage.Recorded Command.InOrder) (fun _ hs => hs.leaveReplay)
    h.recorded k
  filtered := by rw [kinds_leaveReplay]; exact h.filtered

variable [Sink σ]

theorem of_step (h : ch.Calm R) {c : Command} (hc : c.InOrder)
    (hopen : ∀ kind, c.role ≠ StreamKind.opening kind) {outcome : Outcome}
    (hstep : ch.step 0 c = (ch₁, outcome)) : ch₁.Calm R := by
  have hstages : ch₁.stages = (walk ch.stages c).1 := by rw [← stages_step, hstep]
  exact {
    stages := hstages ▸ forall_walk (fun s hs => hs.receive hopen) h.stages
    recorded := hstages ▸ forall_walk (fun s hs => hs.receive hc) h.recorded
    filtered := by rw [kinds_of_step hstep]; exact h.filtered }

/-- **What is replayed is settled**, and is taken down as it is. -/
theorem of_replay (h : ch.Calm R) {c : Command}
    (hrefer : ∀ kind, c.role = StreamKind.reference kind → R kind c.subject) {k : Nat}
    {content : List Command} (hstep : ch.step 0 c = (ch₁, .replay k content)) :
    Command.Settled R content ∧ ∀ d ∈ content, d.reissue = .ok d := by
  refine ⟨?_, reissue_of_replay hstep h.recorded⟩
  obtain ⟨hwalk, -, -⟩ := step_replay hstep
  obtain ⟨f, hk, -, hreceive, -⟩ := walk_replay hwalk
  obtain ⟨-, -, -, kind, s, hrole, hfind, rfl⟩ := (hreceive ▸ f.received c).of_replay
  have hf : (Stage.archive f).Calm R := h.stages _ (List.mem_of_getElem? hk)
  exact hf.2 kind c.subject s (hrefer kind hrole) hfind

/-- **A complete definition** leaves a calm chain calm. -/
theorem of_definition (h : ch.Calm R) {kind : StreamKind} {body ds : List Command} {name : Value}
    (hdef : kind.IsDefinition body name ds)
    (hbody : ∀ n, R kind n → name.same n = true → Command.Settled R body)
    (hds : ∀ d ∈ ds, d.reissue = .ok d) : ∃ ch₁, Issues ds ch ch₁ none ∧ ch₁.Calm R := by
  obtain ⟨stages, sink, log⟩ := ch
  obtain ⟨front, f, back, hstages, hfront⟩ := h.exists_front
  obtain rfl : stages = front ++ .archive f :: back := hstages
  obtain ⟨hf, hback⟩ := List.forall_mem_cons.1 (List.forall_mem_append.1 h.stages).2
  let g := f.define kind ⟨name, Command.kept f.capture body, true⟩
  have hcourse : Issues ds ⟨front ++ .archive f :: back, sink, log⟩
      ⟨front.map (·.after ds) ++ .archive g :: back, sink, log⟩ none :=
    issues_of_swallows (ArchiveFilter.swallows_definition hf.1 hdef) hfront
      (List.forall₂_same.2 hds) sink log
  refine ⟨_, hcourse, ?_, (Passes.of_issues hcourse).recordedInOrder h.recorded, ?_⟩
  · refine List.forall_mem_append.2 ⟨fun s hs => ?_, List.forall_mem_cons.2 ⟨⟨?_, ?_⟩, hback⟩⟩
    · obtain ⟨t, ht, rfl⟩ := List.mem_map.1 hs
      exact Stage.calm_of_no_filter (Stage.after_of_no_filter (hfront t ht) ds)
    · exact (ArchiveFilter.scope_replace _ _ _ _).trans hf.1
    · exact hf.2.define fun n hn hsame => (hbody n hn hsame).kept f.capture
  · rw [hcourse.kinds]
    exact h.filtered

end Calm

/-! ### Replays -/

section Course

variable [Sink σ] {ch ch₁ ch' : Chain σ} {cs ds : List Command} {r : Option Fault}

/-- The part of a course that comes after its first calls. -/
theorem Issues.rest (h : Issues (cs ++ ds) ch ch' r) (hcs : Issues cs ch ch₁ none) :
    Issues ds ch₁ ch' r := by
  have hall := hcs.append (issues_issueAll ch₁ ds)
  obtain ⟨rfl, rfl⟩ := h.unique hall
  exact issues_issueAll ch₁ ds

/-- **A settled row leaves a calm chain calm**, also if it breaks off. -/
theorem Issues.calm (h : Issues cs ch ch' r) (hcs : Command.Settled R cs)
    (hissue : ∀ c ∈ cs, c.reissue = .ok c) (hch : ch.Calm R) : ch'.Calm R := by
  -- Replays have less headroom; what comes behind them, and behind a definition, has as much.
  induction hroom : ch.headroom using Nat.strongRecOn generalizing cs ch ch' r with
  | _ room ihroom =>
  induction hcs generalizing ch with
  | nil =>
    cases h
    exact hch
  | @other c cs hopen hrefer _ ih =>
    obtain ⟨hc, hissue⟩ := List.forall_mem_cons.1 hissue
    have hinOrder : c.InOrder := Command.inOrder_of_reissue hc
    cases h with
    | misused hc' => exact hch
    | answered hc' hstep hrest =>
      cases hc.symm.trans hc'
      exact ih hrest hissue (hch.of_step hinOrder hopen hstep)
        (by rw [headroom_of_step hstep, hroom])
    | stopped hc' hstep =>
      cases hc.symm.trans hc'
      exact hch.of_step hinOrder hopen hstep
    | replayed hc' hstep hreplay hrest =>
      cases hc.symm.trans hc'
      obtain ⟨hcontent, hcontent'⟩ := hch.of_replay hrefer hstep
      have hless := headroom_of_replay hstep
      have hcalm := ihroom _ (by omega) hreplay hcontent hcontent'
        ((hch.of_step hinOrder hopen hstep).enterReplay _) rfl
      exact ih hrest hissue (hcalm.leaveReplay _) (by rw [headroom_resumed hstep hreplay, hroom])
    | interrupted hc' hstep hreplay =>
      cases hc.symm.trans hc'
      obtain ⟨hcontent, hcontent'⟩ := hch.of_replay hrefer hstep
      have hless := headroom_of_replay hstep
      have hcalm := ihroom _ (by omega) hreplay hcontent hcontent'
        ((hch.of_step hinOrder hopen hstep).enterReplay _) rfl
      exact hcalm.leaveReplay _
  | definition hdef hbody _ _ ih =>
    obtain ⟨hds, hissue⟩ := List.forall_mem_append.1 hissue
    obtain ⟨ch₁, hcourse, hcalm⟩ := hch.of_definition hdef hbody hds
    have hkeep : ch₁.headroom = room := by rw [headroom, hcourse.gauges, ← headroom, hroom]
    exact ih (h.rest hcourse) hissue hcalm hkeep

/-- A course that nothing ended early, in two parts. -/
theorem Issues.split (h : Issues (cs ++ ds) ch ch' none) :
    ∃ ch₁, Issues cs ch ch₁ none ∧ Issues ds ch₁ ch' none := by
  induction cs generalizing ch with
  | nil => exact ⟨ch, .nil ch, h⟩
  | cons c cs ih =>
    obtain ⟨ch₁, hc, hrest⟩ := h.uncons
    obtain ⟨ch₂, hcs, hds⟩ := ih hrest
    exact ⟨ch₂, hc.append hcs, hds⟩

/-- **A definition that is left open** leaves a filter recording. -/
theorem Issues.leavesOpen {kind : StreamKind} (h : Issues cs ch ch' none)
    (hcs : Command.LeavesOpen R kind cs) (hissue : ∀ c ∈ cs, c.reissue = .ok c)
    (hch : ch.Calm R) : ∃ f, .archive f ∈ ch'.stages ∧ f.scope ≠ .idle := by
  obtain @⟨cs, body, first, hcs, hfirst, hbody⟩ := hcs
  obtain ⟨hissue, hissue'⟩ := List.forall_mem_append.1 hissue
  obtain ⟨ch₁, hbefore, hopened⟩ := h.split
  obtain ⟨stages, sink, log⟩ := ch₁
  have hcalm := hbefore.calm hcs hissue hch
  obtain ⟨front, f, back, hstages, hfront⟩ := hcalm.exists_front
  obtain rfl : stages = front ++ .archive f :: back := hstages
  have hidle : f.scope = .idle :=
    (List.forall_mem_cons.1 (List.forall_mem_append.1 hcalm.stages).2).1.1
  obtain ⟨g, hswallows, hbusy⟩ := ArchiveFilter.swallows_unfinished hidle hfirst hbody
  have hcourse : Issues (first :: body) ⟨front ++ .archive f :: back, sink, log⟩
      ⟨front.map (·.after (first :: body)) ++ .archive g :: back, sink, log⟩ none :=
    issues_of_swallows hswallows hfront (List.forall₂_same.2 hissue') sink log
  obtain ⟨rfl, -⟩ := hopened.unique hcourse
  exact ⟨g, by simp, hbusy⟩

omit [Sink σ] in
/-- The end of a replay changes no scope. -/
theorem exists_busy_leaveReplay (h : ∃ f, .archive f ∈ ch.stages ∧ f.scope ≠ .idle) (k : Nat) :
    ∃ f, .archive f ∈ (ch.leaveReplay k).stages ∧ f.scope ≠ .idle := by
  obtain ⟨f, hf, hbusy⟩ := h
  obtain ⟨i, hi⟩ := List.getElem?_of_mem hf
  by_cases hk : k = i
  · exact ⟨{ f with depth := f.depth - 1 },
      List.mem_of_getElem? (i := i) (by simp [Chain.leaveReplay, hk, hi, Stage.leaveReplay]), hbusy⟩
  · exact ⟨f, List.mem_of_getElem? (i := i) (by simp [Chain.leaveReplay, hk, hi]), hbusy⟩

theorem Reachable.calm (hch : ch.Reachable)
    (hcalm : ∀ f ∈ ch.archiveFilters, f.scope = .idle ∧ f.Supports R)
    (hsome : ch.archiveFilters ≠ []) : ch.Calm R := by
  refine ⟨fun s hs => ?_, hch.recordedInOrder, ?_⟩
  · cases s with
    | archive f => exact hcalm f (List.mem_filterMap.2 ⟨.archive f, hs, rfl⟩)
    | _ => trivial
  · obtain ⟨f, hf⟩ := List.exists_mem_of_ne_nil _ hsome
    obtain ⟨s, hs, hfilter⟩ := List.mem_filterMap.1 hf
    exact List.mem_map.2 ⟨s, hs, by simp [Stage.isFilter, hfilter]⟩

/-- **When a replay leaves the filters idle.** Let the filters of a reachable chain be idle, and
let what the names of `R` stand for be settled. Let the first filter know the definition that a
call refers to. If what is recorded there is settled, then after the call all filters are at rest
and what the names of `R` stand for is settled as before, also where the sink broke the replay
off. If it leaves a definition open and nothing broke the replay off, then some filter is not
idle after the call. -/
theorem Reachable.idle_of_reference (hch : ch.Reachable)
    (hcalm : ∀ f ∈ ch.archiveFilters, f.scope = .idle ∧ f.Supports R) {f : ArchiveFilter}
    {fs : List ArchiveFilter} (hfilters : ch.archiveFilters = f :: fs) (kind : StreamKind)
    (name callback : Value) (params : Option ParamList) {s : Stream}
    (hfind : (f.registry kind).find? name.freeze = some s) :
    let after := ch.issue 0 (kind.refer name callback params)
    (Command.Settled R s.commands →
      ∀ g ∈ after.1.archiveFilters, g.AtRest ∧ g.Supports R) ∧
    ∀ opened, Command.LeavesOpen R opened s.commands → after.2 = none →
      ∃ g ∈ after.1.archiveFilters, g.scope ≠ .idle := by
  intro after
  have hf : f ∈ ch.archiveFilters := hfilters ▸ List.mem_cons_self
  have hcalm' : ch.Calm R := hch.calm hcalm (by simp [hfilters])
  obtain ⟨d, hd, hrole, hsubject⟩ := kind.reissue_refer name callback params
  have hreceive : f.receive d = (f, .replay s.commands) := by
    rw [ArchiveFilter.receive_reference (hcalm f hf).1 hrole (by rw [hsubject]; exact hfind),
      ArchiveFilter.replay, if_neg (Nat.not_le_of_lt (hch.depth_lt_limit hf))]
  obtain ⟨hreaction, -⟩ := walk_first hfilters hreceive Reaction.noConfusion
  obtain ⟨k, ch₁, hstep, -⟩ := step_of_walk_replay hreaction
  have hopen : ∀ other, d.role ≠ StreamKind.opening other := by
    rintro (_ | _) <;> cases kind <;> simp [hrole, StreamKind.reference, StreamKind.opening]
  have hinside : (ch₁.enterReplay k).Calm R :=
    (hcalm'.of_step (Command.inOrder_of_reissue hd) hopen hstep).enterReplay k
  have hissue : ∀ c ∈ s.commands, c.reissue = .ok c := reissue_of_replay hstep hcalm'.recorded
  have hafter : after = _ := issue_of_replay hd hstep
  rcases hissues : (ch₁.enterReplay k).issueAll 0 s.commands with ⟨ch₂, r⟩
  rw [hissues] at hafter
  have hreplay : Issues s.commands (ch₁.enterReplay k) ch₂ r := issues_iff.2 hissues
  have hfits : ∀ s ∈ after.1.stages, s.Fits := (hch.issue _).fits
  rw [hafter] at hfits ⊢
  refine ⟨fun hsettled g hg => ?_, fun opened hopened hnone => ?_⟩
  · have hend : (ch₂.leaveReplay k).Calm R := (hreplay.calm hsettled hissue hinside).leaveReplay k
    obtain ⟨t, ht, hfilter⟩ := List.mem_filterMap.1 hg
    obtain rfl : t = .archive g := by
      cases t with
      | archive h => exact congrArg Stage.archive (Option.some.inj hfilter)
      | _ => cases hfilter
    obtain ⟨hgidle, hsupports⟩ := hend.stages _ ht
    exact ⟨(hfits _ ht).atRest hgidle, hsupports⟩
  · obtain rfl : r = none := hnone
    obtain ⟨g, hg, hbusy⟩ := exists_busy_leaveReplay (hreplay.leavesOpen hopened hissue hinside) k
    exact ⟨g, List.mem_filterMap.2 ⟨.archive g, hg, rfl⟩, hbusy⟩

end Course

/-- An archive that defines an object, refers to it and then to itself. -/
def selfContained : List Command :=
  [⟨"ArchiveBegin", [.text [.char 'a']], some .empty⟩,
    ⟨"ObjectBegin", [.text [.char 'o']], none⟩, ⟨"WorldBegin", [], none⟩, ⟨"ObjectEnd", [], none⟩,
    ⟨"ObjectInstance", [.text [.char 'o']], none⟩, selfReference, ⟨"ArchiveEnd", [], none⟩]

theorem settled_worldBegin (R : StreamKind → Value → Prop) :
    Command.Settled R [⟨"WorldBegin", [], none⟩] := by
  refine .other (fun kind => ?_) (fun kind hkind => ?_) .nil
  · cases kind <;> exact Role.noConfusion
  · cases kind <;> cases hkind

theorem settled_selfContained :
    Command.Settled (fun _ _ => True) ((selfContained.drop 1).take 5) := by
  have hreference : ∀ {c : Command} {cs : List Command} (kind : StreamKind),
      c.role = kind.reference → Command.Settled (fun _ _ => True) cs →
        Command.Settled (fun _ _ => True) (c :: cs) := by
    intro c cs kind hrole hcs
    refine .other (fun other => ?_) (fun _ _ => trivial) hcs
    rw [hrole]
    cases kind <;> cases other <;> exact Role.noConfusion
  have hbody : StreamKind.object.Encloses [⟨"WorldBegin", [], none⟩] := by decide
  have hdefinition : StreamKind.object.IsDefinition [⟨"WorldBegin", [], none⟩]
      (.text [.char 'o']) ((selfContained.drop 1).take 3) :=
    @StreamKind.IsDefinition.intro _ _ ⟨"ObjectBegin", [.text [.char 'o']], none⟩
      ⟨"ObjectEnd", [], none⟩ rfl hbody rfl
  exact .definition hdefinition (fun _ _ _ => settled_worldBegin _)
    (hreference .object rfl (hreference .archive rfl .nil))

/-- Up to where the object begins, the archive that leaves it open defines and reads an
archive. -/
theorem leavesOpen_unfinished :
    Command.LeavesOpen (fun kind name => kind = .archive ∧ name = .text [.char 'b']) .object
      ((unfinished.drop 1).take 5) := by
  have hbody : StreamKind.archive.Encloses [⟨"WorldBegin", [], none⟩] := by decide
  have hdefinition : StreamKind.archive.IsDefinition [⟨"WorldBegin", [], none⟩]
      (.text [.char 'b']) ((unfinished.drop 1).take 3) :=
    @StreamKind.IsDefinition.intro _ _ ⟨"ArchiveBegin", [.text [.char 'b']], some .empty⟩
      ⟨"ArchiveEnd", [], none⟩ rfl hbody rfl
  refine .intro (.definition hdefinition (fun _ _ _ => settled_worldBegin _)
    (.other (fun kind => ?_) (fun kind hkind => ?_) .nil)) (by rfl) (List.forall_mem_nil _)
  · cases kind <;> exact Role.noConfusion
  · cases kind with
    | archive => exact ⟨rfl, rfl⟩
    | object => cases hkind

/-- The first archive is at rest after its replay, which defines an object twice and ends in a
replay of the archive itself that is cut off. The second one begins an object and does not end
it, so a filter still records after its replay. -/
theorem idle_of_reference_selfContained :
    ∃ (ch other : Chain Collector) (f f' g : ArchiveFilter), ch.Reachable ∧ other.Reachable ∧
      ch.archiveFilters = [f] ∧ other.archiveFilters = [f'] ∧ f.scope = .idle ∧
      f'.scope = .idle ∧
      (f.registry .archive).find? (Value.text [.char 'a']).freeze
        = some ⟨.text [.char 'a'], (selfContained.drop 1).take 5, true⟩ ∧
      (f'.registry .archive).find? (Value.text [.char 'a']).freeze
        = some ⟨.text [.char 'a'], (unfinished.drop 1).take 5, true⟩ ∧
      (ch.issue 0 (StreamKind.archive.refer (.text [.char 'a']) .null none)).1.archiveFilters
        = [g] ∧ g.AtRest ∧ (g.registry .object).streams.length = 2 ∧
      ∃ g' ∈ (other.issue 0
          (StreamKind.archive.refer (.text [.char 'a']) .null none)).1.archiveFilters,
        g'.scope ≠ .idle := by
  let new : Chain Collector := collecting [.archive (.fresh 2 true)]
  have hnew : new.Reachable :=
    reachable_collecting (List.forall_mem_singleton.2 ⟨2, true, by decide, by decide, rfl⟩)
  let s : Stream := ⟨.text [.char 'a'], (selfContained.drop 1).take 5, true⟩
  let t : Stream := ⟨.text [.char 'a'], (unfinished.drop 1).take 5, true⟩
  let f : ArchiveFilter := ⟨2, true, ⟨[s]⟩, .empty, .idle, 0⟩
  let f' : ArchiveFilter := ⟨2, true, ⟨[t]⟩, .empty, .idle, 0⟩
  have hread : new.calls selfContained = collecting [.archive f] := by rfl
  have hread' : new.calls unfinished = collecting [.archive f'] := by rfl
  have hch : (collecting [.archive f]).Reachable := hread ▸ hnew.calls selfContained
  have hother : (collecting [.archive f']).Reachable := hread' ▸ hnew.calls unfinished
  have hf : f.Supports fun _ _ => True := by
    rintro (_ | _) name u - hfind
    · obtain rfl := List.mem_singleton.1 (Registry.mem_of_find? hfind)
      exact settled_selfContained
    · cases hfind
  have hf' : f'.Supports fun kind name => kind = .archive ∧ name = .text [.char 'b'] := by
    rintro (_ | _) name u ⟨hkind, hname⟩ hfind
    · subst hname
      cases hfind
    · cases hkind
  obtain ⟨hrest, -⟩ := hch.idle_of_reference (f := f) (List.forall_mem_singleton.2 ⟨rfl, hf⟩) rfl
    .archive (.text [.char 'a']) .null none (s := s) rfl
  obtain ⟨-, hbusy⟩ := hother.idle_of_reference (f := f') (List.forall_mem_singleton.2 ⟨rfl, hf'⟩)
    rfl .archive (.text [.char 'a']) .null none (s := t) rfl
  let o : Stream := ⟨.text [.char 'o'], [⟨"WorldBegin", [], none⟩], true⟩
  let g : ArchiveFilter := ⟨2, true, ⟨[s]⟩, ⟨[o, o]⟩, .idle, 0⟩
  have hg : ((collecting [.archive f]).issue 0
      (StreamKind.archive.refer (.text [.char 'a']) .null none)).1.archiveFilters = [g] := by rfl
  have htaken : ((collecting [.archive f']).issue 0
      (StreamKind.archive.refer (.text [.char 'a']) .null none)).2 = none := by rfl
  obtain ⟨hatRest, -⟩ := hrest settled_selfContained g (hg ▸ List.mem_singleton_self g)
  exact ⟨_, _, f, f', g, hch, hother, rfl, rfl, rfl, rfl, rfl, rfl, hg, hatRest, rfl,
    hbusy .object leavesOpen_unfinished htaken⟩

/-- An archive that begins an object. -/
def beginning : List Command :=
  [⟨"ArchiveBegin", [.text [.char 'a']], some .empty⟩,
    ⟨"ObjectBegin", [.text [.char 'o']], none⟩, ⟨"ArchiveEnd", [], none⟩]

/-- **A replay need not leave the filter idle**: the filter is idle, the archive is defined, the
call that refers to it returns, and the filter records the object that the archive begins. -/
theorem idle_of_reference_beginning :
    ∃ (ch after : Chain Collector) (f g : ArchiveFilter) (s : Stream), ch.Reachable ∧
      ch = (collecting [.archive (.fresh 32 false)]).calls beginning ∧
      ch.archiveFilters = [f] ∧ f.scope = .idle ∧
      (f.registry .archive).find? (Value.text [.char 'a']).freeze = some s ∧
      ch.issue 0 (StreamKind.archive.refer (.text [.char 'a']) .null none) = (after, none) ∧
      after.archiveFilters = [g] ∧ g.scope = .object 0 ∧
      g.active? = some ⟨.text [.char 'o'], [], false⟩ := by
  let new : Chain Collector := collecting [.archive (.fresh 32 false)]
  have hnew : new.Reachable :=
    reachable_collecting (List.forall_mem_singleton.2 ⟨32, false, by decide, by decide, rfl⟩)
  let s : Stream := ⟨.text [.char 'a'], [⟨"ObjectBegin", [.text [.char 'o']], none⟩], true⟩
  let o : Stream := ⟨.text [.char 'o'], [], false⟩
  let f : ArchiveFilter := ⟨32, false, ⟨[s]⟩, .empty, .idle, 0⟩
  let g : ArchiveFilter := ⟨32, false, ⟨[s]⟩, ⟨[o]⟩, .object 0, 0⟩
  have hread : collecting [.archive f] = new.calls beginning := by rfl
  have hafter : (collecting [.archive f]).issue 0
      (StreamKind.archive.refer (.text [.char 'a']) .null none)
        = (collecting [.archive g], none) := by rfl
  exact ⟨_, _, f, g, s, hread ▸ hnew.calls beginning, hread, rfl, rfl, rfl, hafter, rfl, rfl, rfl⟩

end Chain

end SceneReplay
