import SceneReplay.Expansion
import SceneReplay.Proofs.Archive.Output
import SceneReplay.Proofs.Chain.Collected
import SceneReplay.Proofs.Rib.Called

/-!
# Expanding an expanded scene

An expanded scene holds no definitions, and no references to anything that is defined in it.
Expanding it once more therefore changes nothing: the same file comes out, without a report
and without a definition (`SceneReplay.Rib.expand_expanded`).

What the first expansion writes are commands that the text called for, some of them several
times over, others not at all: whatever comes to the writer was called for, and may get past
an archive filter (`SceneReplay.Rib.called_of_mem_sent`). If each of them has the line of a
call or of a comment, these lines are read back as calls and comments with the same lines
(`SceneReplay.Rib.events_of_lines`), and a new filter passes them one after the other
(`SceneReplay.Rib.expandWith_lines`).

Two things can go wrong on paper. A comment that is recorded by a request may have a line end
in it, and what is after the line end is no comment any more
(`SceneReplay.Rib.expand_expanded_brokenRecord`). And an infinite double is written as a word,
which is read as the name of a request.
-/

namespace SceneReplay

namespace Rib

/-! ### What an expansion writes -/

/-- A chain of one archive filter that has recorded and collected commands as `P` says, and
has collected only such as may get past a filter. -/
structure Expands (P : Command → Prop) (ch : Chain Collector) : Prop where
  /-- There is one stage. -/
  alone : ch.stages.length = 1
  /-- It is a filter that fits its recordings. -/
  fits : ch.FitsAt 0
  /-- What is recorded is as `P` says. -/
  holds : ch.Holds P
  /-- So is what was collected, and it may get past a filter. -/
  collected : ∀ c ∈ ch.sink.toList, P c ∧ c.proc ∉ ArchiveFilter.ownProcedures

section Expands

variable {P : Command → Prop} {ch : Chain Collector}

/-- **A call at the head** sends on commands of this kind. -/
theorem Expands.issue (h : Expands P ch) {c : Command} (hc : ∀ d, c.reissue = .ok d → P d) :
    Expands P (ch.issue 0 c).1 := by
  obtain ⟨tr, htr⟩ := Chain.issues_iff_exists_traced.1 (Chain.issues_issueAll ch [c])
  obtain ⟨hcommands, hholds⟩ := htr.holds (List.forall_mem_singleton.2 hc) h.holds
  have hsink : (ch.issue 0 c).1.sink = deliver ch.sink (Chain.reaching 1 tr) := h.alone ▸ htr.sink
  refine ⟨?_, h.fits.of_passes (.of_issues htr.issues), hholds, ?_⟩
  · rw [← h.alone]
    exact Chain.length_stages_of_gauges htr.issues.gauges
  · rw [hsink, toList_deliver, List.forall_mem_append]
    refine ⟨h.collected, fun d hd => ?_⟩
    obtain ⟨a, ha, rfl⟩ := List.mem_map.1 hd
    obtain ⟨ha, hbeyond⟩ := List.mem_filter.1 ha
    obtain ⟨-, g, -, hpasses⟩ :=
      Chain.Arrival.mayPass (h.fits.of_passes (htr.passes a ha).1) hbeyond
    exact ⟨hcommands a ha, hpasses.notOwn⟩

theorem Expands.play {evs : List Event}
    (hevs : ∀ c ∈ evs.filterMap Event.command?, ∀ d, c.reissue = .ok d → P d)
    (h : Expands P ch) (d : Declarations) (n : Nat) :
    Expands P (Rib.play 0 evs ch d n).chain :=
  play_keeps (I := Expands P) (fun _ _ _ h => ⟨h.alone, h.fits, h.holds, h.collected⟩)
    (fun c hc _ h => h.issue (hevs c hc)) h d n

end Expands

/-- Events that are played to their end are played likewise with a collector. -/
theorem play_collected {σ : Type} [Sink σ] {s : σ} {evs : List Event} {ch : Chain σ}
    {other : Chain Collector} (h : Chain.Collected s ch other) {d : Declarations} {n : Nat}
    (hplay : (play 0 evs ch d n).fault = none) :
    Chain.Collected s (play 0 evs ch d n).chain (play 0 evs other d n).chain := by
  -- A call goes the same way in both chains, and the events go on.
  have hcall : ∀ {c : Command} {ch ch₁ : Chain σ} {other : Chain Collector},
      Chain.Collected s ch other → ch.issue 0 c = (ch₁, none) →
        ∃ other₁, other.issue 0 c = (other₁, none) ∧ Chain.Collected s ch₁ other₁ := by
    intro c ch ch₁ other h hissue
    obtain ⟨hnone, hnext⟩ := h.issue (c := c) (congrArg Prod.snd hissue)
    rw [hissue] at hnext
    exact ⟨_, Prod.ext rfl hnone, hnext⟩
  fun_induction play 0 evs ch d n generalizing other
  case case1 => exact h
  case case2 ih => exact ih ⟨h.stages, h.sink, congrArg (Log.add · _) h.log⟩ hplay
  case case3 ih => exact ih h hplay
  case case4 hissue ih | case6 hissue ih =>
    obtain ⟨other₁, hissue', hnext⟩ := hcall h hissue
    rw [play, hissue']
    exact ih hnext hplay
  case case5 | case7 | case8 => cases hplay

/-- What an expansion with the given filter writes, command by command. -/
def sent (f : ArchiveFilter) (t : Text) : List Command :=
  (read ((Chain.ofSink Collector.empty).addStage (.archive f)) 0 Declarations.standard
    t).chain.sink.toList

/-- The scene file of an expansion has the lines of what it sent. -/
theorem rib_of_expandWith {f : ArchiveFilter} {t : Text} {x : Expanded}
    (hx : expandWith f t = .ok x) :
    x.rib = (deliver (Writer.empty Writer.defaultIndent) (sent f t)).text := by
  have hstart : Chain.Collected (Writer.empty Writer.defaultIndent)
      ((Chain.ofSink (Writer.empty Writer.defaultIndent)).addStage (.archive f))
      ((Chain.ofSink Collector.empty).addStage (.archive f)) := ⟨rfl, rfl, rfl⟩
  simp only [expandWith] at hx
  split at hx
  · cases hx
  · rename_i hfault
    cases hx
    exact congrArg Writer.text (play_collected hstart hfault).sink

/-- **What a new filter lets through** was called for, and may get past it. -/
theorem called_of_mem_sent {limit : Nat} {capture : Bool} {t : Text} :
    ∀ c ∈ sent (.fresh limit capture) t,
      (∃ d ∈ calls t, IsCalled d ∧ c = d.frozen) ∧ c.proc ∉ ArchiveFilter.ownProcedures := by
  have hstart : Expands (fun c => ∃ d ∈ calls t, IsCalled d ∧ c = d.frozen)
      ((Chain.ofSink Collector.empty).addStage (.archive (.fresh limit capture))) := by
    refine ⟨rfl, ⟨_, rfl, ArchiveFilter.fits_fresh limit capture⟩, ?_, nofun⟩
    refine List.forall_mem_singleton.2 fun kind s hs => ?_
    cases kind <;> cases hs
  refine (hstart.play (fun c hc d hd => ?_) Declarations.standard 0).collected
  have hcalled := isCalled_of_events c hc
  rw [hcalled.isWellFormed.reissue_eq] at hd
  exact ⟨c, hc, hcalled, (Except.ok.inj hd).symm⟩

/-! ### Reading it again -/

/-- A new filter is transparent to what it need not deal with itself. -/
theorem transparent_fresh {c : Command} (h : c.proc ∉ ArchiveFilter.ownProcedures) (limit : Nat)
    (capture : Bool) : Transparent [.archive (.fresh limit capture)] c := by
  have hreceive : (Stage.archive (.fresh limit capture)).receive c
      = (.archive (.fresh limit capture), .pass) := by
    rw [Stage.receive, ArchiveFilter.receive_fresh h]
  exact Chain.walk_cons_of_pass hreceive []

/-- A writer takes a command that has a line. -/
theorem accept_of_commandText {c : Command} {t : Text} (h : commandText c = .ok t) (w : Writer) :
    (Sink.accept w c).2 = none := by
  change (w.write c).2 = none
  rw [Writer.write, h]

/-- An expansion whose reading is known. -/
theorem expandWith_of_read {f g : ArchiveFilter} {t : Text} {w : Writer} {d : Declarations}
    {n : Nat}
    (h : read ((Chain.ofSink (Writer.empty Writer.defaultIndent)).addStage (.archive f)) 0
      Declarations.standard t = ⟨⟨[.archive g], w, .empty⟩, d, n, none⟩) :
    expandWith f t = .ok ⟨w.text, n, [], g.snapshot (some "end of input")⟩ := by
  rw [expandWith]
  simp only [h]
  rfl

/-- **Lines of entries are expanded to themselves.** -/
theorem expandWith_lines {es : List Entry} (hes : ∀ e ∈ es, e.IsSound)
    (hown : ∀ proc ∈ (writtenCommands es).map Command.proc, proc ∉ ArchiveFilter.ownProcedures)
    {rib : Text} (limit : Nat) (capture : Bool)
    (hrib : rib = (deliver (Writer.empty Writer.defaultIndent) (writtenCommands es)).text) :
    ∃ n, expandWith (.fresh limit capture) rib
      = .ok ⟨rib, n, [], ⟨.idle, none, [], [], some "end of input"⟩⟩ := by
  obtain ⟨es', hevents, hlines, hes'⟩ := events_of_lines hes Declarations.standard
  rw [← hrib] at hevents
  obtain ⟨hcommands, hreports, -⟩ := commands_rereadEvents es'
  rw [← hevents] at hcommands hreports
  have hprocs : ∀ e ∈ es', e.rereadCommand.frozen.proc ∉ ArchiveFilter.ownProcedures := by
    intro e he
    rw [map_eq_of_forall₂ (fun _ _ h => h.proc) hlines] at hown
    exact hown _ (List.mem_map_of_mem (List.mem_map_of_mem he))
  have hreissue : ∀ c ∈ (events Declarations.standard rib).filterMap Event.command?,
      c.reissue = .ok c.frozen := by
    rw [hcommands, List.forall_mem_map]
    exact fun e he => (hes' e he).1.reissue_eq
  have hpass : ∀ c ∈ (events Declarations.standard rib).filterMap Event.command?,
      Transparent [.archive (.fresh limit capture)] c.frozen := by
    rw [hcommands, List.forall_mem_map]
    exact fun e he => transparent_fresh (hprocs e he) limit capture
  have haccept : ∀ c ∈ (events Declarations.standard rib).filterMap Event.command?,
      ∀ w : Writer, (Sink.accept w c.frozen).2 = none := by
    rw [hcommands, List.forall_mem_map]
    rintro e he w
    obtain ⟨t, ht⟩ := (hes' e he).2
    exact accept_of_commandText ht w
  have hfault : ∀ f, .fault f ∉ events Declarations.standard rib := by
    rw [hevents]
    exact fault_not_mem_rereadEvents es'
  have hplayed : play 0 (events Declarations.standard rib)
      ⟨[.archive (.fresh limit capture)], Writer.empty Writer.defaultIndent, .empty⟩
      Declarations.standard 0 = _ :=
    play_through hreissue hpass (fault_play hreissue hpass haccept hfault)
  have hwritten : (es'.map Entry.rereadCommand).map Command.frozen
      = es'.map fun e => e.rereadCommand.frozen := by
    rw [List.map_map]
    rfl
  rw [hcommands, hreports, hwritten, ← deliver_of_sameLine hlines] at hplayed
  have hexpanded := expandWith_of_read hplayed
  rw [← hrib] at hexpanded
  exact ⟨_, hexpanded⟩

/-! ### Expanding twice -/

/-- The filter that an environment and options ask for. -/
def filterFor (env : Environment) (options : ExpandOptions) : Except Fault ArchiveFilter := do
  let settings ← (Settings.load env).mapError Fault.invalid
  ArchiveFilter.make settings options.capture options.limit

theorem expand_of_filterFor {env : Environment} {options : ExpandOptions} {f : ArchiveFilter}
    (h : filterFor env options = .ok f) (t : Text) : expand env options t = expandWith f t := by
  obtain ⟨settings, hsettings, hmake⟩ := bind_eq_ok.1 h
  rw [expand, hsettings]
  change (ArchiveFilter.make settings options.capture options.limit >>= fun f => expandWith f t) = _
  rw [hmake]
  rfl

theorem exists_fresh_of_filterFor {env : Environment} {options : ExpandOptions}
    {f : ArchiveFilter} (h : filterFor env options = .ok f) :
    ∃ limit capture, f = .fresh limit capture := by
  obtain ⟨settings, -, hmake⟩ := bind_eq_ok.1 h
  obtain ⟨limit, capture, -, -, hf⟩ := ArchiveFilter.isNew_of_make hmake
  exact ⟨limit, capture, hf⟩

/-- **An expanded scene is expanded to itself.** Let a text be expanded, under any settings,
and let it record nothing but comments and hints. If none of the records that are written has
a line end in it, and no infinite double is written, then the scene file that comes out is
expanded to itself, under these settings and all others, without a report and without a
definition. -/
theorem expand_expanded {env env' : Environment} {options options' : ExpandOptions} {t : Text}
    {x : Expanded} {f g : ArchiveFilter} (hf : filterFor env options = .ok f)
    (hg : filterFor env' options' = .ok g) (hx : expand env options t = .ok x)
    (hkind : ∀ c ∈ calls t, ∀ r ∈ recorded? c, r.1 = "comment" ∨ r.1 = "structure")
    (hline : ∀ c ∈ sent f t, ∀ r ∈ recorded? c, .char '\n' ∉ r.2)
    (hfinite : ∀ c ∈ sent f t, c.carriesInfinity = false) :
    ∃ n, expand env' options' x.rib
      = .ok ⟨x.rib, n, [], ⟨.idle, none, [], [], some "end of input"⟩⟩ := by
  rw [expand_of_filterFor hf] at hx
  rw [expand_of_filterFor hg]
  obtain ⟨limit, capture, rfl⟩ := exists_fresh_of_filterFor hf
  obtain ⟨limit', capture', rfl⟩ := exists_fresh_of_filterFor hg
  -- Each command that was written has the line of an entry.
  have hentries : ∀ c ∈ sent (.fresh limit capture) t,
      ∃ e : Entry, e.IsSound ∧ SameLine e.command.frozen c := by
    intro c hc
    obtain ⟨⟨d, hd, hcalled, rfl⟩, -⟩ := called_of_mem_sent c hc
    exact hcalled.exists_entry (hkind d hd) (hline _ hc) (hfinite _ hc)
  obtain ⟨es, hes, hlines⟩ := exists_entries hentries
  refine expandWith_lines hes ?_ limit' capture' ?_
  · rw [map_eq_of_forall₂ (fun _ _ h => h.proc) hlines, List.forall_mem_map]
    exact fun c hc => (called_of_mem_sent c hc).2
  · rw [rib_of_expandWith hx, deliver_of_sameLine hlines]

/-- A hint, an archive that is referred to twice, a comment by a request, and an archive that
is defined elsewhere. -/
def twiceReading : Text :=
  "##s\nArchiveBegin \"a\"\nSurface \"x\" \"Ks\" 5e-1\nArchiveEnd\nWorldBegin\nReadArchive \"a\"\n" ++
    "ArchiveRecord \"comment\" \"c\"\nReadArchive \"b\"\nReadArchive \"a\"\nWorldEnd\n"

/-- The expansion of `SceneReplay.Rib.twiceReading`. -/
def twiceRead : Text :=
  "##s\nWorldBegin\n  Surface \"x\" \"Ks\" [0.5]\n  #c\n  ReadArchive \"b\"\n" ++
    "  Surface \"x\" \"Ks\" [0.5]\nWorldEnd\n"

theorem expand_expanded_twiceReading :
    ∃ x n, expand [] ⟨none, none⟩ twiceReading = .ok x ∧ x.rib = twiceRead ∧
      expand [("RISTREAM_CAPTURE_RECORDS", "1")] ⟨none, some 3⟩ x.rib
        = .ok ⟨x.rib, n, [], ⟨.idle, none, [], [], some "end of input"⟩⟩ := by
  have hrib : (expand [] ⟨none, none⟩ twiceReading).toOption.map Expanded.rib
      = some twiceRead := by decide +kernel
  have hf : filterFor [] ⟨none, none⟩ = .ok (.fresh 64 false) := rfl
  have hg : filterFor [("RISTREAM_CAPTURE_RECORDS", "1")] ⟨none, some 3⟩
      = .ok (.fresh 3 true) := rfl
  rcases hx : expand [] ⟨none, none⟩ twiceReading with fault | x
  · rw [hx] at hrib
    cases hrib
  · obtain ⟨n, hagain⟩ := expand_expanded hf hg hx (by decide +kernel) (by decide +kernel)
      (by decide +kernel)
    rw [hx] at hrib
    exact ⟨x, n, rfl, Option.some.inj hrib, hagain⟩

/-- A comment with a line end in it, by a request. -/
def brokenRecord : Text := "ArchiveRecord \"comment\" \"a\\nb\"\n"

/-- **A comment with a line end is not expanded to itself**: its second line is read as the
name of a request that does not exist, and is left out with a report. -/
theorem expand_expanded_brokenRecord :
    (∀ c ∈ calls brokenRecord, ∀ r ∈ recorded? c, r.1 = "comment" ∨ r.1 = "structure") ∧
      (expand [] ⟨none, none⟩ brokenRecord).toOption.map Expanded.rib = some ("#a\nb\n" : Text) ∧
      (expand [] ⟨none, none⟩ "#a\nb\n").toOption.map (fun y => (y.rib, y.reports.length))
        = some (("#a\n" : Text), 1) := by decide +kernel

/-- Neither is an infinite double. -/
example : (expand [] ⟨none, none⟩ "Shutter 0 1e400\n").toOption.map Expanded.rib
      = some ("Shutter 0 inf\n" : Text) ∧
    (expand [] ⟨none, none⟩ "Shutter 0 inf\n").toOption.map
      (fun y => (y.rib, y.reports.length)) = some (([] : Text), 2) := by decide +kernel

end Rib

end SceneReplay
