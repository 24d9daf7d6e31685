import SceneReplay.Proofs.Archive.InPlace
import SceneReplay.Proofs.Chain.Termination

/-!
# What a reference unfolds to

As long as no recording defines anything, what a call at the head comes to can be said
without a chain. A reference stands for the commands of its definition, these stand for
those of the definitions that they refer to, and so on, down to a fixed depth;
`SceneReplay.ArchiveFilter.unfolding` is this unfolding, by recursion on the depth that is
left. It only looks names up, always in the same registries, and nothing is counted in it.

`SceneReplay.Chain.Reachable.issue_eq_unfolding` says that the filter, which counts its
replays in a field and re-enters at the head of the chain, does just that, whatever refers
to what: it delivers the commands of the unfolding to its limit, makes its reports, both in
order, and is left as it was.

The induction is on the depth that is left, `limit - depth`. It goes through because a
replay that begins changes the filter in its count alone, which the unfolding does not see
(`SceneReplay.ArchiveFilter.unfolding_withDepth`).
-/

namespace SceneReplay

/-! ### Unfoldings -/

/-- What a command comes to: the commands that are delivered for it, and the reports. -/
structure Unfolding where
  /-- The commands that are delivered, in order. -/
  commands : List Command
  /-- The reports that are made, in order. -/
  reports : List Report

namespace Unfolding

/-- A command is delivered as it is. -/
def deliver (c : Command) : Unfolding := ⟨[c], []⟩

/-- A problem is reported, and nothing is delivered. -/
def complain (r : Report) : Unfolding := ⟨[], [r]⟩

/-- Unfoldings one after the other. -/
def join (us : List Unfolding) : Unfolding :=
  ⟨us.flatMap Unfolding.commands, us.flatMap Unfolding.reports⟩

end Unfolding

/-- Whether a command of the given role opens or closes a definition. -/
def Role.delimits : Role → Bool
  | .archiveBegin | .archiveEnd | .objectBegin | .objectEnd => true
  | _ => false

namespace ArchiveFilter

/-- What a command comes to if `refer` says what a reference to a stream does. -/
def unfoldWith (f : ArchiveFilter) (refer : StreamKind → Stream → Unfolding) (c : Command) :
    Unfolding :=
  match c.role with
  | .archiveReference =>
    match f.archives.find? c.subject with
    | some s => refer .archive s
    | none => .deliver c
  | .objectReference =>
    match f.objects.find? c.subject with
    | some s => refer .object s
    | none => .complain (badHandle c.subject)
  | _ => .deliver c

/-- **The unfolding of a command** with the definitions of a filter, to the given depth. A
reference comes to what the commands of the first stream of its name come to, with one unit
of depth less; where none is left it comes to a report. -/
def unfolding (f : ArchiveFilter) : Nat → Command → Unfolding
  | 0 => f.unfoldWith fun kind s => .complain (tooDeep f.limit kind s.name)
  | k + 1 => f.unfoldWith fun _ s => .join (s.commands.map (f.unfolding k))

theorem unfoldWith_of_find? {f : ArchiveFilter} {refer : StreamKind → Stream → Unfolding}
    {c : Command} {kind : StreamKind} {s : Stream} (hrole : c.role = kind.reference)
    (hfind : (f.registry kind).find? c.subject = some s) : f.unfoldWith refer c = refer kind s := by
  rcases kind with _ | _
  · have hfind : f.archives.find? c.subject = some s := hfind
    simp [unfoldWith, hrole, StreamKind.reference, hfind]
  · have hfind : f.objects.find? c.subject = some s := hfind
    simp [unfoldWith, hrole, StreamKind.reference, hfind]

/-- What is no reference to a known archive is delivered, unless it refers to an object. -/
theorem unfoldWith_of_passed {f : ArchiveFilter} {refer : StreamKind → Stream → Unfolding}
    {c : Command} (hrole : c.role = .uniform ∨ c.role = .comment ∨
      c.role = .archiveReference ∧ f.archives.find? c.subject = none) :
    f.unfoldWith refer c = .deliver c := by
  rcases hrole with hrole | hrole | ⟨hrole, hfind⟩
  · simp [unfoldWith, hrole]
  · simp [unfoldWith, hrole]
  · simp [unfoldWith, hrole, hfind]

theorem unfoldWith_of_undefined {f : ArchiveFilter} {refer : StreamKind → Stream → Unfolding}
    {c : Command} (hrole : c.role = .objectReference) (hfind : f.objects.find? c.subject = none) :
    f.unfoldWith refer c = .complain (badHandle c.subject) := by
  simp [unfoldWith, hrole, hfind]

/-- The unfolding does not depend on the replays in progress. -/
@[simp] theorem unfolding_withDepth (f : ArchiveFilter) (depth k : Nat) :
    ({ f with depth := depth } : ArchiveFilter).unfolding k = f.unfolding k := by
  induction k with
  | zero => rfl
  | succ k ih =>
    rw [unfolding, unfolding, ih]
    rfl

end ArchiveFilter

/-! ### The filter unfolds -/

namespace Chain

/-- A call has the course of the command that it is taken down as. -/
theorem Issues.of_reissue {σ : Type} [Sink σ] {c d : Command} {cs : List Command}
    {ch ch' : Chain σ} {r : Option Fault} (hd : c.reissue = .ok d)
    (h : Issues (d :: cs) ch ch' r) : Issues (c :: cs) ch ch' r := by
  have hagain : d.reissue = .ok d := Command.reissue_of_inOrder (Command.inOrder_of_reissue hd)
  rcases h with _ | hc | ⟨hc, hstep, hrest⟩ | ⟨hc, hstep⟩ | ⟨hc, hstep, hreplay, hrest⟩ |
    ⟨hc, hstep, hreplay⟩
  · rw [hagain] at hc
    cases hc
  · cases hagain.symm.trans hc
    exact .answered hd hstep hrest
  · cases hagain.symm.trans hc
    exact .stopped hd hstep
  · cases hagain.symm.trans hc
    exact .replayed hd hstep hreplay hrest
  · cases hagain.symm.trans hc
    exact .interrupted hd hstep hreplay

/-- An archive filter with a collector behind it. -/
def alone (f : ArchiveFilter) (sink : Collector) (log : Log) : Chain Collector :=
  ⟨[.archive f], sink, log⟩

/-- What an answer of the filter makes of a chain in which it is alone. -/
theorem step_alone {f g : ArchiveFilter} {c : Command} {reaction : Reaction} (sink : Collector)
    (log : Log) (h : f.receive c = (g, reaction)) :
    (alone f sink log).step 0 c = match reaction with
      | .pass => (alone g (sink.add c) log, .done)
      | .hold => (alone g sink log, .done)
      | .report r => (alone g sink (log.add r), .done)
      | .replay content => (alone g sink log, .replay 0 content)
      | .fault fault => (alone g sink log, .fault fault) := by
  have hstage : (Stage.archive f).receive c = (.archive g, reaction) := by simp [Stage.receive, h]
  rcases reaction with _ | _ | r | content | fault <;>
    simp [alone, step, walk, hstage, Sink.accept, addReport]

/-- **What calls come to**: at the head of a chain in which a filter is alone, they deliver
the commands of an unfolding, make its reports, and leave the filter as it was. -/
def ComesTo (f : ArchiveFilter) (cs : List Command) (u : Unfolding) : Prop :=
  ∀ (sink : Collector) (log : Log), ∃ sink' log',
    Issues cs (alone f sink log) (alone f sink' log') none ∧
      sink'.toList = sink.toList ++ u.commands ∧ log'.toList = log.toList ++ u.reports

theorem comesTo_nil (f : ArchiveFilter) : ComesTo f [] (.join []) :=
  fun sink log => ⟨sink, log, .nil _, (List.append_nil _).symm, (List.append_nil _).symm⟩

/-- Calls one after the other come to the unfoldings one after the other. -/
theorem ComesTo.cons {f : ArchiveFilter} {c : Command} {cs : List Command} {u : Unfolding}
    {us : List Unfolding} (h : ComesTo f [c] u) (hcs : ComesTo f cs (.join us)) :
    ComesTo f (c :: cs) (.join (u :: us)) := by
  intro sink log
  obtain ⟨sink₁, log₁, hfirst, hsink₁, hlog₁⟩ := h sink log
  obtain ⟨sink₂, log₂, hrest, hsink₂, hlog₂⟩ := hcs sink₁ log₁
  refine ⟨sink₂, log₂, hfirst.append hrest, ?_, ?_⟩
  · rw [hsink₂, hsink₁, List.append_assoc]
    rfl
  · rw [hlog₂, hlog₁, List.append_assoc]
    rfl

/-- A reference comes to what the commands of its stream come to, while one more replay is
in progress. -/
theorem ComesTo.of_replay {f : ArchiveFilter} {c : Command} {content : List Command}
    {u : Unfolding} (hc : c.InOrder) (hreceive : f.receive c = (f, .replay content))
    (h : ComesTo { f with depth := f.depth + 1 } content u) : ComesTo f [c] u := by
  intro sink log
  obtain ⟨sink', log', hreplay, hsink, hlog⟩ := h sink log
  have hcourse : Issues [c] (alone f sink log)
      ((alone { f with depth := f.depth + 1 } sink' log').leaveReplay 0) none :=
    .replayed (Command.reissue_of_inOrder hc) (step_alone sink log hreceive) hreplay (.nil _)
  exact ⟨sink', log', hcourse, hsink, hlog⟩

/-- **One command comes to what it unfolds to**, if its replay does, should it lead to
one. -/
theorem comesTo_unfoldWith {f : ArchiveFilter} (hidle : f.scope = .idle)
    {refer : StreamKind → Stream → Unfolding}
    (hrefer : ∀ kind, ∀ s ∈ (f.registry kind).streams,
      (∃ r, f.replay kind s = .report r ∧ refer kind s = .complain r) ∨
        f.replay kind s = .replay s.commands ∧
          ComesTo { f with depth := f.depth + 1 } s.commands (refer kind s))
    {c : Command} (hc : c.InOrder) (hflat : c.role.delimits = false) :
    ComesTo f [c] (f.unfoldWith refer c) := by
  have hissue : c.reissue = .ok c := Command.reissue_of_inOrder hc
  -- A report ends the command, and nothing is delivered.
  have hreport : ∀ r, f.receive c = (f, .report r) → ComesTo f [c] (.complain r) := by
    intro r hr sink log
    exact ⟨sink, log.add r, .answered hissue (step_alone sink log hr) (.nil _),
      (List.append_nil _).symm, log.toList_add r⟩
  rcases hreceive : f.receive c with ⟨g, reaction⟩
  have hmove : f.Received c g reaction := by simpa only [hreceive] using f.received c
  rcases hmove with ⟨-, hrole⟩ | ⟨hdrop⟩ | ⟨kind, -, hrole⟩ | ⟨-, hrole, hfind⟩ |
    ⟨kind, s, -, hrole, hfind⟩ | ⟨kind, index, r, htarget⟩ | ⟨kind, index, fault, htarget⟩ |
    ⟨kind, index, htarget⟩
  · rw [ArchiveFilter.unfoldWith_of_passed hrole]
    intro sink log
    exact ⟨sink.add c, log, .answered hissue (step_alone sink log hreceive) (.nil _),
      sink.toList_add c, (List.append_nil _).symm⟩
  · rcases hdrop with ⟨-, hrole | hrole⟩ | ⟨hbusy, -⟩
    · simp [hrole, Role.delimits] at hflat
    · simp [hrole, Role.delimits] at hflat
    · exact absurd hidle hbusy
  · cases kind <;> simp [hrole, StreamKind.opening, Role.delimits] at hflat
  · rw [ArchiveFilter.unfoldWith_of_undefined hrole hfind]
    exact hreport _ hreceive
  · rw [ArchiveFilter.unfoldWith_of_find? hrole hfind]
    rcases hrefer kind s (Registry.mem_of_find? hfind) with ⟨r, hreplay, hr⟩ | ⟨hreplay, hcomes⟩
    · rw [hr]
      exact hreport r (by rw [hreceive, hreplay])
    · exact hcomes.of_replay hc (by rw [hreceive, hreplay])
  -- An idle filter records in no stream.
  · simp [hidle, Scope.target?] at htarget
  · simp [hidle, Scope.target?] at htarget
  · simp [hidle, Scope.target?] at htarget

/-- Commands that are in order and neither open nor close a definition. -/
def IsFlat (c : Command) : Prop := c.InOrder ∧ c.role.delimits = false

/-- **Commands come to what they unfold to**, to the depth that is left before the limit. -/
theorem comesTo_unfolding {f : ArchiveFilter} (hidle : f.scope = .idle)
    (hrecorded : f.AllRecorded IsFlat) {k : Nat} (hdepth : f.depth + k = f.limit)
    {cs : List Command} (hcs : ∀ c ∈ cs, IsFlat c) :
    ComesTo f cs (.join (cs.map (f.unfolding k))) := by
  -- The row of commands, once the single command is settled.
  have row : ∀ {f : ArchiveFilter} {k : Nat},
      (∀ c, IsFlat c → ComesTo f [c] (f.unfolding k c)) →
        ∀ {cs : List Command}, (∀ c ∈ cs, IsFlat c) →
          ComesTo f cs (.join (cs.map (f.unfolding k))) := by
    intro f k hone cs hcs
    induction cs with
    | nil => exact comesTo_nil f
    | cons c cs ih =>
      rw [List.forall_mem_cons] at hcs
      exact (hone c hcs.1).cons (ih hcs.2)
  induction k generalizing f cs with
  | zero =>
    refine row (fun c hc => comesTo_unfoldWith hidle (fun kind s _ => Or.inl ?_) hc.1 hc.2) hcs
    exact ⟨_, if_pos (Nat.le_of_eq hdepth.symm), rfl⟩
  | succ k ih =>
    refine row (fun c hc => comesTo_unfoldWith hidle (fun kind s hs => Or.inr ?_) hc.1 hc.2) hcs
    refine ⟨if_neg (by omega), ?_⟩
    have hcontent := ih (f := { f with depth := f.depth + 1 }) hidle
      (fun kind => by cases kind <;> [exact hrecorded .archive; exact hrecorded .object])
      (by simp only; omega) (hrecorded kind s hs)
    simpa using hcontent

/-! ### Calls at the head -/

/-- **Calls unfold.** Let an archive filter be alone before a collector in a reachable chain,
idle, with recordings that open and close no definition. A call that opens and closes none
either delivers the commands that it unfolds to, down to the limit, makes the reports of
this unfolding, both in order, and leaves the filter as it was. -/
theorem Reachable.issue_eq_unfolding {ch : Chain Collector} (hch : ch.Reachable)
    {f : ArchiveFilter} (hstages : ch.stages = [.archive f]) (hidle : f.scope = .idle)
    (hflat : f.AllRecorded fun c => c.role.delimits = false) {c d : Command}
    (hd : c.reissue = .ok d) (hc : c.role.delimits = false) :
    ∃ sink log, ch.issue 0 c = (⟨[.archive f], sink, log⟩, none) ∧
      sink.toList = ch.sink.toList ++ (f.unfolding f.limit d).commands ∧
      log.toList = ch.log.toList ++ (f.unfolding f.limit d).reports := by
  have hfirst : ch.stages[0]? = some (.archive f) := by rw [hstages]; rfl
  have hinOrder : f.AllRecorded Command.InOrder :=
    hch.recordedInOrder (.archive f) (List.mem_of_getElem? hfirst)
  have hdepth : f.depth + f.limit = f.limit := by rw [hch.depth_eq_zero hfirst, Nat.zero_add]
  have hd' : IsFlat d := by
    refine ⟨Command.inOrder_of_reissue hd, ?_⟩
    rw [Command.role_of_reissue hd]
    exact hc
  obtain ⟨sink, log, hcourse, hsink, hlog⟩ := comesTo_unfolding hidle
    (fun kind s hs e he => ⟨hinOrder kind s hs e he, hflat kind s hs e he⟩) hdepth
    (List.forall_mem_singleton.2 hd') ch.sink ch.log
  have hch' : alone f ch.sink ch.log = ch := by rw [alone, ← hstages]
  rw [hch'] at hcourse
  refine ⟨sink, log, issues_iff.1 (hcourse.of_reissue hd), ?_, ?_⟩
  · simpa [Unfolding.join] using hsink
  · simpa [Unfolding.join] using hlog

/-- The definition of an archive that refers to itself twice, with a reference to an unknown
object in between. -/
def twiceReading : List Command :=
  [⟨"ArchiveBegin", [.text [.char 'a']], some .empty⟩, selfReference,
    ⟨"ObjectInstance", [.text [.char 'o']], none⟩, selfReference, ⟨"WorldBegin", [], none⟩,
    ⟨"ArchiveEnd", [], none⟩]

/-- To a depth of two, the second reference unfolds in full although the first one was cut
short. -/
theorem issue_eq_unfolding_twiceReading :
    ∃ (ch : Chain Collector) (f : ArchiveFilter) (sink : Collector) (log : Log), ch.Reachable ∧
      ch.stages = [.archive f] ∧ f.limit = 2 ∧ f.scope = .idle ∧
      (f.AllRecorded fun c => c.role.delimits = false) ∧
      ch.issue 0 selfReference = (⟨[.archive f], sink, log⟩, none) ∧
      sink.toList = List.replicate 3 ⟨"WorldBegin", [], none⟩ ∧
      log.toList.map Report.code
        = [.nesting, .badHandle, .nesting, .badHandle, .nesting, .badHandle, .nesting] := by
  let new : Chain Collector := (ofSink Collector.empty).addStage (.archive (.fresh 2 true))
  have hnew : new.Reachable := .addStage ⟨2, true, by decide, by decide, rfl⟩ (.ofSink _)
  let f : ArchiveFilter :=
    ⟨2, true, ⟨[⟨.text [.char 'a'], (twiceReading.drop 1).take 4, true⟩]⟩, .empty, .idle, 0⟩
  have hflat : f.AllRecorded fun c => c.role.delimits = false := by
    rintro (_ | _) s hs
    · obtain rfl := List.mem_singleton.1 hs
      decide
    · cases hs
  obtain ⟨sink, log, hissue, hsink, hlog⟩ :=
    (hnew.calls twiceReading).issue_eq_unfolding (f := f) rfl rfl hflat
      (c := selfReference) (d := selfReference) rfl rfl
  refine ⟨new.calls twiceReading, f, sink, log, hnew.calls _, rfl, rfl, rfl, hflat, hissue, ?_, ?_⟩
  · rw [hsink]
    rfl
  · rw [hlog]
    rfl

end Chain

end SceneReplay
