import SceneReplay.Proofs.Archive.OnePass
import SceneReplay.Proofs.Chain.Mirror

/-!
# A reference stands for its commands

A reference to an archive or an object behaves as if the commands of the definition
were written in its place. `SceneReplay.Chain.replay_in_place` is the exact statement:
as long as the reference leads to no report of nesting, calling the recorded commands
one after the other at the head delivers the same commands, makes the same reports and
leaves the same recordings and scopes as the reference does.

The two runs are not in the same states: during the replay one more replay is in
progress, and the taps in front of the filter have seen the reference. That is exactly
the difference that chains which mirror each other may have
(`SceneReplay.Chain.Issues.mirrored`), so the replay is repeated by the calls at the
head, command by command.
-/

namespace SceneReplay

/-- The call that refers to a definition of the given kind. Objects know no callback
and take no parameters. -/
def StreamKind.refer (kind : StreamKind) (name callback : Value) (params : Option ParamList) :
    Command :=
  match kind with
  | .archive => ⟨"ReadArchive", [name, callback], params⟩
  | .object => ⟨"ObjectInstance", [name], params⟩

/-- What a reference is taken down as. -/
theorem StreamKind.reissue_refer (kind : StreamKind) (name callback : Value)
    (params : Option ParamList) :
    ∃ d, (kind.refer name callback params).reissue = .ok d ∧ d.role = kind.reference ∧
      d.subject = name.freeze := by
  cases kind with
  | archive =>
    refine ⟨⟨"ReadArchive", [name.freeze, callback.freeze], some (params.getD .empty)⟩, ?_, rfl,
      rfl⟩
    have hfind : ∃ p, Procedure.find? "ReadArchive" = some p ∧ p.name = "ReadArchive" ∧
      p.arity = 2 ∧ p.takesParams = true := ⟨_, rfl, rfl, rfl, rfl⟩
    obtain ⟨p, hp, hname, harity, hparams⟩ := hfind
    simp [refer, Command.reissue, hp, Command.create, Command.handedOn, hname, harity, hparams]
  | object =>
    refine ⟨⟨"ObjectInstance", [name.freeze], none⟩, ?_, rfl, rfl⟩
    have hfind : ∃ p, Procedure.find? "ObjectInstance" = some p ∧ p.name = "ObjectInstance" ∧
      p.arity = 1 ∧ p.takesParams = false := ⟨_, rfl, rfl, rfl, rfl⟩
    obtain ⟨p, hp, hname, harity, hparams⟩ := hfind
    simp [refer, Command.reissue, hp, Command.create, Command.handedOn, hname, harity, hparams]

/-! ### A replay mirrors the state before it -/

namespace Stage

theorem Mirrors.enterReplay_left {s t : Stage} (h : s.Mirrors t) : s.enterReplay.Mirrors t := by
  cases h with
  | relay => exact .relay
  | tap seen other => exact .tap seen other
  | archive f limit depth => exact .archive { f with depth := f.depth + 1 } limit depth

theorem Mirrors.leaveReplay_left {s t : Stage} (h : s.Mirrors t) : s.leaveReplay.Mirrors t := by
  cases h with
  | relay => exact .relay
  | tap seen other => exact .tap seen other
  | archive f limit depth => exact .archive { f with depth := f.depth - 1 } limit depth

end Stage

namespace Chain

/-- A command reaches the first filter of a row, whatever comes before it; if that
filter answers it without a change of its own, the row is as it was, up to what taps
saw. -/
theorem walk_first {ss : List Stage} {f : ArchiveFilter} {fs : List ArchiveFilter}
    {c : Command} {reaction : Reaction} (h : ss.filterMap Stage.archiveFilter? = f :: fs)
    (hf : f.receive c = (f, reaction)) (hstop : reaction ≠ .pass) :
    (walk ss c).2.1 = reaction ∧ List.Forall₂ Stage.Mirrors (walk ss c).1 ss := by
  induction ss with
  | nil => cases h
  | cons s ss ih =>
    cases s with
    | relay =>
      rw [walk_cons_of_pass (s := .relay) (c := c) rfl]
      obtain ⟨hreaction, hrows⟩ := ih h
      exact ⟨hreaction, .cons .relay hrows⟩
    | tap seen =>
      rw [walk_cons_of_pass (s := .tap seen) (c := c) rfl]
      obtain ⟨hreaction, hrows⟩ := ih h
      exact ⟨hreaction, .cons (.tap _ _) hrows⟩
    | archive g =>
      obtain ⟨rfl, -⟩ : g = f ∧ ss.filterMap Stage.archiveFilter? = fs := by
        simpa [Stage.archiveFilter?] using h
      have hreceive : (Stage.archive g).receive c = (.archive g, reaction) := by
        simp [Stage.receive, hf]
      rw [walk_cons_of_ne_pass hreceive hstop]
      exact ⟨rfl, List.forall₂_same.2 fun s _ => .refl s⟩

variable {σ : Type}

theorem Mirrors.enterReplay_left {ch other : Chain σ} (h : ch.Mirrors other) (k : Nat) :
    (ch.enterReplay k).Mirrors other :=
  ⟨forall₂_modify_left (fun _ _ => Stage.Mirrors.enterReplay_left) h.stages k, h.sink, h.log⟩

theorem Mirrors.leaveReplay_left {ch other : Chain σ} (h : ch.Mirrors other) (k : Nat) :
    (ch.leaveReplay k).Mirrors other :=
  ⟨forall₂_modify_left (fun _ _ => Stage.Mirrors.leaveReplay_left) h.stages k, h.sink, h.log⟩

/-- A replay that begins in the first chain only takes room from that one. -/
theorem Roomier.enterReplay_left {ch other : Chain σ} (h : ch.Roomier other) (k : Nat) :
    (ch.enterReplay k).Roomier other := by
  rw [Roomier, gauges_enterReplay]
  refine forall₂_modify_left (fun gauge gauge' hroom => ?_) h k
  rintro g g' hg hg'
  obtain ⟨a, ha, rfl⟩ := Option.map_eq_some_iff.1 hg
  have := hroom a g' ha hg'
  simp only
  omega

/-- Chains that mirror each other and have the same gauges have the same filters. -/
theorem Mirrors.archiveFilters {ch other : Chain σ} (h : ch.Mirrors other)
    (hgauges : other.gauges = ch.gauges) : other.archiveFilters = ch.archiveFilters := by
  have hstages := h.stages
  unfold gauges at hgauges
  unfold Chain.archiveFilters
  generalize ch.stages = ss at hstages hgauges
  generalize other.stages = ts at hstages hgauges
  induction hstages with
  | nil => rfl
  | @cons s t ss ts hst _ ih =>
    rw [List.map_cons, List.map_cons, List.cons.injEq] at hgauges
    obtain ⟨hgauge, htail⟩ := hgauges
    have hsame : t.archiveFilter? = s.archiveFilter? := by
      cases hst with
      | relay | tap => rfl
      | archive f limit depth =>
        obtain ⟨rfl, rfl⟩ : limit = f.limit ∧ depth = f.depth := by
          simpa [Stage.gauge?, Stage.archiveFilter?, ArchiveFilter.withGauge] using hgauge
        rfl
    simp only [List.filterMap_cons, hsame, ih htail]

section Course

variable [Sink σ]

/-- A row of stages that asks for a replay. -/
theorem step_of_walk_replay {ch : Chain σ} {c : Command} {content : List Command}
    (h : (walk ch.stages c).2.1 = .replay content) :
    ∃ k ch₁, ch.step 0 c = (ch₁, .replay k content) ∧ ch₁.stages = (walk ch.stages c).1 ∧
      ch₁.sink = ch.sink ∧ ch₁.log = ch.log := by
  rcases hw : walk ch.stages c with ⟨ss, reaction, passed⟩
  rw [hw] at h
  simp only at h
  subst h
  exact ⟨passed, ⟨ss, ch.sink, ch.log⟩, by simp [step, hw], rfl, rfl, rfl⟩

/-- A course has all reports that its first step made. -/
theorem Issues.nestings_step_le {c d : Command} {cs : List Command} {ch ch' : Chain σ}
    {r : Option Fault} (h : Issues (c :: cs) ch ch' r) (hd : c.reissue = .ok d) :
    (ch.step 0 d).1.nestings ≤ ch'.nestings := by
  cases h with
  | misused hc =>
    rw [hd] at hc
    cases hc
  | answered hc hs hrest =>
    cases hd.symm.trans hc
    rw [hs]
    exact hrest.nestings_le
  | stopped hc hs =>
    cases hd.symm.trans hc
    exact Nat.le_of_eq (by rw [hs])
  | replayed hc hs hreplay hrest =>
    cases hd.symm.trans hc
    rw [hs]
    exact Nat.le_trans hreplay.nestings_le hrest.nestings_le
  | interrupted hc hs hreplay =>
    cases hd.symm.trans hc
    rw [hs]
    exact hreplay.nestings_le

end Course

/-! ### The law -/

/-- **A reference behaves as if its definition were written in its place.** Let the first
archive filter of a reachable chain be idle, and let a reference to one of its
definitions lead to no report of nesting. Then calling the recorded commands one after
the other at the head delivers the same commands, makes the same reports, and leaves all
filters the same; neither the reference nor any of these calls fails. -/
theorem replay_in_place {ch : Chain Collector} (hch : ch.Reachable) {f : ArchiveFilter}
    {fs : List ArchiveFilter} (hfilters : ch.archiveFilters = f :: fs) (hidle : f.scope = .idle)
    (kind : StreamKind) (name callback : Value) (params : Option ParamList) {s : Stream}
    (hfind : (f.registry kind).find? name.freeze = some s)
    (hdeep : (ch.issue 0 (kind.refer name callback params)).1.nestings = ch.nestings) :
    let replayed := ch.issue 0 (kind.refer name callback params)
    let written := ch.calls s.commands
    written.sink = replayed.1.sink ∧ written.log = replayed.1.log ∧
      written.archiveFilters = replayed.1.archiveFilters ∧
      replayed.2 = none ∧ ch.issueAll 0 s.commands = (written, none) := by
  obtain ⟨d, hd, hrole, hsubject⟩ := kind.reissue_refer name callback params
  have hreceive : f.receive d = (f, f.replay kind s) :=
    ArchiveFilter.receive_reference hidle hrole (by rw [hsubject]; exact hfind)
  have hstop : f.replay kind s ≠ .pass := by
    unfold ArchiveFilter.replay
    split <;> nofun
  obtain ⟨hreaction, hrows⟩ := walk_first hfilters hreceive hstop
  rcases hissue : ch.issue 0 (kind.refer name callback params) with ⟨ch', r⟩
  have hcourse : Issues [kind.refer name callback params] ch ch' r := issues_iff.2 hissue
  rw [hissue] at hdeep
  -- The calls use their procedures rightly, so nothing fails.
  obtain rfl : r = none := by
    refine hcourse.not_fault (fun _ _ => rfl) (fun c hc => ?_) hch.fits hch.recordedInOrder
    rw [List.mem_singleton] at hc
    subst hc
    exact ⟨d, hd⟩
  -- The filter asks for the replay: its other answer would be a report of nesting.
  have hlimit : ¬ f.limit ≤ f.depth := by
    intro hlimit
    have htoo : (walk ch.stages d).2.1.IsTooDeep := by
      rw [hreaction, ArchiveFilter.replay, if_pos hlimit]
      rfl
    have hmore := (nestings_step ch d).2 htoo
    have hall := hcourse.nestings_step_le hd
    have hdeep : ch'.nestings = ch.nestings := hdeep
    omega
  rw [ArchiveFilter.replay, if_neg hlimit] at hreaction
  obtain ⟨k, ch₁, hstep, hstages, hsink, hlog⟩ := step_of_walk_replay hreaction
  obtain ⟨ch₂, hreplay, rfl⟩ : ∃ ch₂,
      Issues s.commands (ch₁.enterReplay k) ch₂ none ∧ ch' = ch₂.leaveReplay k := by
    cases hcourse with
    | answered hc hs hrest =>
      cases hd.symm.trans hc
      cases hstep.symm.trans hs
    | replayed hc hs hreplay hrest =>
      cases hd.symm.trans hc
      cases hstep.symm.trans hs
      cases hrest
      exact ⟨_, hreplay, rfl⟩
  -- The chain during the replay mirrors the chain before the reference.
  have hgauges : ch₁.gauges = ch.gauges := by rw [gauges, hstages, map_gauge?_walk, gauges]
  have hmirror : ch₁.Mirrors ch := ⟨hstages ▸ hrows, hsink.symm, hlog.symm⟩
  have hroom : (ch₁.enterReplay k).Roomier ch :=
    ((Roomier.refl ch₁).enterReplay_left k).of_gauges rfl hgauges.symm
  have hdeep' : ch₂.nestings ≤ (ch₁.enterReplay k).nestings := by
    change ch₂.log.count (some .nesting) ≤ ch₁.log.count (some .nesting)
    rw [hlog]
    exact Nat.le_of_eq hdeep
  obtain ⟨written, hwritten, hmirror'⟩ :=
    hreplay.mirrored (hmirror.enterReplay_left k) hroom hdeep'
  have hgauges' : written.gauges = (ch₂.leaveReplay k).gauges := by
    rw [hwritten.gauges, gauges_leaveReplay_of_enterReplay hreplay.gauges, hgauges]
  have hcalls : ch.calls s.commands = written := calls_of_issues hwritten
  simp only [hcalls]
  exact ⟨hmirror'.sink, hmirror'.log,
    (hmirror'.leaveReplay_left k).archiveFilters hgauges', trivial, issues_iff.1 hwritten⟩

/-- An archive that defines another archive, refers to it, and begins an object that it
does not end. -/
def unfinished : List Command :=
  [⟨"ArchiveBegin", [.text [.char 'a']], some .empty⟩,
    ⟨"ArchiveBegin", [.text [.char 'b']], some .empty⟩, ⟨"WorldBegin", [], none⟩,
    ⟨"ArchiveEnd", [], none⟩, ⟨"ReadArchive", [.text [.char 'b'], .null], some .empty⟩,
    ⟨"ObjectBegin", [.text [.char 'o']], none⟩, ⟨"ArchiveEnd", [], none⟩]

/-- Both the reference to that archive and its commands in its place deliver one command
and leave the object open. -/
theorem replay_in_place_unfinished :
    ∃ (ch : Chain Collector) (f : ArchiveFilter) (s : Stream), ch.Reachable ∧
      ch.archiveFilters = [f] ∧ f.scope = .idle ∧
      (f.registry .archive).find? (Value.text [.char 'a']).freeze = some s ∧
      s.commands.length = 5 ∧
      (ch.issue 0 (StreamKind.archive.refer (.text [.char 'a']) .null none)).1.nestings
        = ch.nestings ∧
      (ch.calls s.commands).sink
        = (ch.issue 0 (StreamKind.archive.refer (.text [.char 'a']) .null none)).1.sink ∧
      (ch.calls s.commands).sink.toList = [⟨"WorldBegin", [], none⟩] ∧
      (ch.calls s.commands).archiveFilters.map ArchiveFilter.scope = [.object 0] := by
  have hnew : (tapped 2 true).Reachable :=
    .addStage rfl (.addStage ⟨2, true, by decide, by decide, rfl⟩ (.ofSink _))
  let s : Stream := ⟨.text [.char 'a'], (unfinished.drop 1).take 5, true⟩
  let f : ArchiveFilter := ⟨2, true, ⟨[s]⟩, .empty, .idle, 0⟩
  let ch : Chain Collector := ⟨[.tap unfinished.toArray, .archive f], .empty, .empty⟩
  have hread : (tapped 2 true).calls unfinished = ch := by rfl
  have hch : ch.Reachable := hread ▸ hnew.calls unfinished
  have hdeep : (ch.issue 0 (StreamKind.archive.refer (.text [.char 'a']) .null none)).1.nestings
      = ch.nestings := by rfl
  have hlaw := replay_in_place hch rfl rfl .archive (.text [.char 'a']) .null none (s := s) rfl
    hdeep
  exact ⟨ch, f, s, hch, rfl, rfl, rfl, rfl, hdeep, hlaw.1, by rfl, by rfl⟩

end Chain

end SceneReplay
