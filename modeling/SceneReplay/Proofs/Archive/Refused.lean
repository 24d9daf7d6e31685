import SceneReplay.Proofs.Archive.Definitions
import SceneReplay.Proofs.Archive.Growth

/-!
# Calls that the sink breaks off

A sink may refuse any command that comes to it, and the call that led there ends at once, out
of however many replays. What it leaves is in order nevertheless
(`SceneReplay.Chain.Reachable.issue_fault`): the filter is at rest
(`SceneReplay.ArchiveFilter.AtRest`), no replay is left in progress, and what was recorded
before the call is as it was. The definitions that were completed on the way stay.

The reason is that a filter passes commands only while it is idle. So when a command comes to
the sink, no filter of the chain has a recording open (`SceneReplay.Chain.walk_pass`), and
nothing is called after it that could open one (`SceneReplay.Chain.Issues.of_fault`). Each
replay that is left gives its unit of the count back, as does one that ends of itself
(`SceneReplay.Chain.Issues.gauges`).
-/

namespace SceneReplay

namespace ArchiveFilter

/-- **A filter at rest** records nothing, and all that it has recorded is closed. -/
structure AtRest (f : ArchiveFilter) : Prop where
  /-- The filter is idle. -/
  idle : f.scope = .idle
  /-- No stream is recorded in. -/
  inactive : f.active? = none
  /-- No archive is counted as opened inside another. -/
  nesting : f.scope.nesting = 0
  /-- No object is recorded. -/
  outside : f.isInObject = false
  /-- Every stream is closed. -/
  closed : ∀ kind, ∀ s ∈ (f.registry kind).streams, s.closed = true

/-- An idle filter is at rest. -/
theorem Fits.atRest {f : ArchiveFilter} (h : f.Fits) (hidle : f.scope = .idle) : f.AtRest where
  idle := hidle
  inactive := by simp [active?, hidle]
  nesting := by simp [hidle, Scope.nesting]
  outside := by simp [isInObject, hidle]
  closed := h.allClosed hidle

end ArchiveFilter

/-- Where all streams are closed, those that come later stand behind them. -/
theorem Registry.GrowsTo.isPrefix {r r' : Registry} (h : r.GrowsTo r') (hclosed : r.AllClosed) :
    r.streams <+: r'.streams := by
  refine List.prefix_iff_getElem?.2 fun i hi => ?_
  exact h.get?_of_closed (List.getElem?_eq_getElem hi) (hclosed _ (List.getElem_mem hi))

/-- The procedures that refer to definitions. -/
theorem Command.proc_of_reference {c : Command} {kind : StreamKind}
    (h : c.role = kind.reference) : c.proc = "ReadArchive" ∨ c.proc = "ObjectInstance" := by
  unfold role Role.ofName at h
  split_ifs at h <;> cases kind <;> simp_all [StreamKind.reference]

namespace Chain

variable {σ : Type}

theorem mem_stages_of_archiveFilters {ch : Chain σ} {f : ArchiveFilter}
    (hf : ch.archiveFilters = [f]) : .archive f ∈ ch.stages := by
  obtain ⟨front, back, hstages, -, -⟩ := exists_front_of_archiveFilters hf
  simp [hstages]

theorem eq_of_archiveFilters {ch : Chain σ} {f g : ArchiveFilter} (hf : ch.archiveFilters = [f])
    (hg : .archive g ∈ ch.stages) : g = f := by
  obtain ⟨k, hk⟩ := List.getElem?_of_mem hg
  exact List.mem_singleton.1 (hf ▸ mem_archiveFilters_of_getElem? hk)

variable [Sink σ]

/-- **The one filter of a chain, before and after calls**: its recordings have grown, and its
gauge is the same. -/
theorem Issues.exists_filter {cs : List Command} {ch ch' : Chain σ} {r : Option Fault}
    (h : Issues cs ch ch' r) {f : ArchiveFilter} (hf : ch.archiveFilters = [f]) :
    ∃ g, ch'.archiveFilters = [g] ∧ .archive g ∈ ch'.stages ∧ f.GrowsTo g ∧ g.depth = f.depth := by
  obtain ⟨front, back, hstages, -, -⟩ := exists_front_of_archiveFilters hf
  have hk : ch.stages[front.length]? = some (.archive f) := by simp [hstages]
  obtain ⟨g, hg, hgrows⟩ := (Passes.of_issues h).growsTo _ f hk
  have hgauges : ch'.archiveFilters.map (fun f => (f.limit, f.depth)) = [(f.limit, f.depth)] := by
    rw [← filterMap_gauges, h.gauges, filterMap_gauges, hf]
    rfl
  obtain ⟨g', hg', hgauge⟩ := List.map_eq_singleton_iff.1 hgauges
  obtain rfl : g = g' := List.mem_singleton.1 (hg' ▸ mem_archiveFilters_of_getElem? hg)
  exact ⟨g, hg', List.mem_of_getElem? hg, hgrows, congrArg Prod.snd hgauge⟩

/-- **The one filter of a chain, where a call breaks off**, took the call while it was idle, and
passed it unless the call is a reference. -/
theorem Issues.filter_of_fault {c : Command} {ch ch' : Chain σ} {fault : Fault}
    (h : Issues [c] ch ch' (some fault)) (hc : ∃ d, c.reissue = .ok d)
    (hfits : ∀ s ∈ ch.stages, s.Fits) {f : ArchiveFilter} (hf : ch.archiveFilters = [f]) :
    f.scope = .idle ∧ (ch'.archiveFilters = [f] ∨ ∃ kind, c.role = StreamKind.reference kind) := by
  cases h with
  | misused hmisused =>
    obtain ⟨d, hd⟩ := hc
    rw [hd] at hmisused
    cases hmisused
  | answered _ _ hrest => cases hrest
  | replayed _ _ _ hrest => cases hrest
  | stopped _ hs =>
    obtain ⟨hrow, hidle⟩ := walk_pass (step_fault hfits hs).1
    rw [← stages_step, hs] at hrow hidle
    have hfilters : ch'.archiveFilters = [f] := hrow.trans hf
    exact ⟨hidle _ (mem_stages_of_archiveFilters hfilters) f rfl, .inl hfilters⟩
  | interrupted hd hs _ =>
    obtain ⟨hwalk, -, -⟩ := step_replay hs
    obtain ⟨g, hk, -, hreceive, -⟩ := walk_replay hwalk
    obtain rfl : g = f := List.mem_singleton.1 (hf ▸ mem_archiveFilters_of_getElem? hk)
    obtain ⟨-, hidle, -, kind, s, hrole, -⟩ := (hreceive ▸ g.received _).of_replay
    rw [Command.role_of_reissue hd] at hrole
    exact ⟨hidle, .inr ⟨kind, hrole⟩⟩

/-- **A call that breaks off leaves the filter at rest.** Let a call with the right number of
arguments be made at the head of a reachable chain that has one archive filter, and let it fail.
Then the sink has refused a command. Afterwards the filter is at rest, as many replays are in
progress as before the call, and the streams that were there are there unchanged, in front of
those that were defined on the way. If the call was no reference, the filter is the same. -/
theorem Reachable.issue_fault {ch : Chain σ} (hch : ch.Reachable) {f : ArchiveFilter}
    (hf : ch.archiveFilters = [f]) {c : Command} {p : Procedure}
    (hp : Procedure.find? c.proc = some p) (harity : c.args.length = p.arity) {fault : Fault}
    (hfault : (ch.issue 0 c).2 = some fault) :
    (∃ (s : σ) (e : Command), (Sink.accept s e).2 = some fault) ∧
      ∃ g, (ch.issue 0 c).1.archiveFilters = [g] ∧ g.AtRest ∧ g.depth = f.depth ∧
        (∀ kind, (f.registry kind).streams <+: (g.registry kind).streams) ∧
        (c.proc ≠ "ReadArchive" → c.proc ≠ "ObjectInstance" → g = f) := by
  have hcourse : Issues [c] ch (ch.issue 0 c).1 (some fault) := hfault ▸ issues_issueAll ch [c]
  have hc := Command.reissue_of_arity hp harity
  obtain ⟨hrefused, hidle⟩ := hcourse.of_fault (List.forall_mem_singleton.2 hc) hch.fits
    hch.recordedInOrder
  obtain ⟨hfidle, hsame⟩ := hcourse.filter_of_fault hc hch.fits hf
  obtain ⟨g, hg, hmem, hgrows, hdepth⟩ := hcourse.exists_filter hf
  have hffits : f.Fits := hch.fits _ (mem_stages_of_archiveFilters hf)
  have hgfits : g.Fits := (Passes.of_issues hcourse).fits hch.fits _ hmem
  refine ⟨hrefused, g, hg, hgfits.atRest (hidle _ hmem g rfl), hdepth,
    fun kind => (hgrows kind).isPrefix (hffits.allClosed hfidle kind), fun hread hinstance => ?_⟩
  rcases hsame with hsame | ⟨kind, hrole⟩
  · simpa [hg] using hsame
  · exact (Command.proc_of_reference hrole).elim (absurd · hread) (absurd · hinstance)

/-- Two replays deep the sink refuses a command, after an object was defined. The filter is at
rest again, and the archives are as before. If the command is called at the head, the filter is
the same. -/
theorem issue_fault_refusing :
    ∃ (ch : Chain Endpoint) (f g : ArchiveFilter), ch.Reachable ∧ ch.archiveFilters = [f] ∧
      (ch.issue 0 outerReference).2 = some .notImplemented ∧
      (ch.issue 0 outerReference).1.archiveFilters = [g] ∧ g.AtRest ∧ g.depth = f.depth ∧
      f.archives.streams <+: g.archives.streams ∧ f.objects.streams = [] ∧
      g.objects.streams = [drawn] ∧
      (ch.issue 0 ⟨"WorldBegin", [], none⟩).2 = some .notImplemented ∧
      (ch.issue 0 ⟨"WorldBegin", [], none⟩).1.archiveFilters = [f] := by
  obtain ⟨-, g, hg, hrest, hdepth, hkept, -⟩ :=
    reachable_refusing.issue_fault rfl (c := outerReference) rfl rfl issue_refusing.1
  obtain rfl : g = twoArchives [drawn] := by simpa [issue_refusing.2] using hg.symm
  have hdirect : (refusing.issue 0 ⟨"WorldBegin", [], none⟩).2 = some .notImplemented := rfl
  obtain ⟨-, g, hg', -, -, -, hsame⟩ := reachable_refusing.issue_fault rfl rfl rfl hdirect
  obtain rfl : g = twoArchives [] := hsame (by decide) (by decide)
  exact ⟨refusing, twoArchives [], _, reachable_refusing, rfl, issue_refusing.1, hg, hrest, hdepth,
    hkept .archive, rfl, rfl, hdirect, hg'⟩

end Chain

end SceneReplay
