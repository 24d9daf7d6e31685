import SceneReplay.Proofs.Chain.Trace

/-!
# What an archive filter lets through

Behind an archive filter there are no definitions, and no references to what is defined
inline: those are recorded, dropped or replaced by what they stand for.
`SceneReplay.ArchiveFilter.MayPass` says what is left, in terms of the procedure that is
called and of the recordings that the filter has at that moment, and a filter passes nothing
else (`SceneReplay.ArchiveFilter.mayPass_of_pass`).

`SceneReplay.Chain.Reachable.calls_output` is about calls at the head of a chain, whatever
they are and whatever they lead to, inside replays of any depth. The commands that get past a
filter are told by the trace of the calls, which taps and the sink bear out.
-/

namespace SceneReplay

namespace ArchiveFilter

/-- The procedures that a filter deals with itself, always. -/
def ownProcedures : List String :=
  ["ArchiveBegin", "ArchiveEnd", "ObjectBegin", "ObjectEnd", "ObjectInstance"]

/-- **What may get past a filter** in the given state. -/
structure MayPass (f : ArchiveFilter) (c : Command) : Prop where
  /-- No definition, and no reference to an object. -/
  notOwn : c.proc ∉ ownProcedures
  /-- No reference to an archive that is defined. -/
  unknown : c.proc = "ReadArchive" → ∀ s ∈ f.archives.streams, s.name.same c.subject = false
  /-- Nothing while a recording is open. -/
  closed : ∀ kind, ∀ s ∈ (f.registry kind).streams, s.closed = true

/-- A filter never passes what it deals with itself. -/
theorem notOwn_of_pass {f : ArchiveFilter} {c : Command} (h : (f.receive c).2 = .pass) :
    c.proc ∉ ownProcedures := by
  obtain ⟨-, -, hrole⟩ := (h ▸ f.received c).of_pass
  intro hproc
  simp only [ownProcedures, List.mem_cons, List.not_mem_nil, or_false] at hproc
  rcases hproc with hproc | hproc | hproc | hproc | hproc <;>
    simp [Command.role, hproc, Role.ofName] at hrole

/-- **A filter passes nothing but what may pass.** -/
theorem mayPass_of_pass {f : ArchiveFilter} {c : Command} (hfits : f.Fits)
    (h : (f.receive c).2 = .pass) : f.MayPass c := by
  obtain ⟨-, hidle, hrole⟩ := (h ▸ f.received c).of_pass
  refine ⟨notOwn_of_pass h, fun hproc s hs => ?_, hfits.allClosed hidle⟩
  have hreference : c.role = .archiveReference := by simp [Command.role, hproc, Role.ofName]
  have hfind : f.archives.find? c.subject = none := by simpa [hreference] using hrole
  simpa using List.find?_eq_none.1 hfind s hs

/-- **A new filter passes all that is left**, and stays as it is. -/
theorem receive_fresh {c : Command} (h : c.proc ∉ ownProcedures) (limit : Nat) (capture : Bool) :
    (fresh limit capture).receive c = (fresh limit capture, .pass) := by
  change (fresh limit capture).receiveIdle c = _
  unfold receiveIdle
  have hrole : c.role = .archiveReference ∨ c.role = .comment ∨ c.role = .uniform := by
    simp only [ownProcedures, List.mem_cons, List.not_mem_nil, or_false, not_or] at h
    simp only [Command.role, Role.ofName, h, if_false]
    split_ifs
    · exact Or.inl rfl
    · exact Or.inr (Or.inl rfl)
    · exact Or.inr (Or.inr rfl)
  rcases hrole with hrole | hrole | hrole
  · rw [hrole]
    rfl
  · rw [hrole]
  · rw [hrole]

end ArchiveFilter

namespace Chain

variable {σ : Type} [Sink σ]

/-- The stage behind the first `k` ones is an archive filter that fits its recordings. -/
def FitsAt (k : Nat) (ch : Chain σ) : Prop :=
  ∃ g, ch.stages[k]? = some (.archive g) ∧ g.Fits

theorem FitsAt.step {k : Nat} {ch : Chain σ} (h : ch.FitsAt k) (c : Command) :
    (ch.step 0 c).1.FitsAt k := by
  obtain ⟨g, hg, hfits⟩ := h
  rw [FitsAt, stages_step, getElem?_walk_eq hg]
  cases goesThrough (ch.stages.take k) c
  · exact ⟨g, rfl, hfits⟩
  · exact ⟨_, rfl, hfits.receive (g.received c)⟩

omit [Sink σ] in
/-- The begin and the end of a replay only change what is counted. -/
theorem FitsAt.modify {m : Stage → Stage}
    (hm : ∀ g, ∃ depth, m (.archive g) = .archive { g with depth := depth }) {k : Nat}
    {ch : Chain σ} (h : ch.FitsAt k) (j : Nat) :
    FitsAt k { ch with stages := ch.stages.modify j m } := by
  obtain ⟨g, hg, hfits⟩ := h
  obtain ⟨depth, hdepth⟩ := hm g
  rw [FitsAt, List.getElem?_modify, hg]
  by_cases hj : j = k
  · exact ⟨{ g with depth := depth }, by simp [hj, hdepth], hfits.withDepth depth⟩
  · exact ⟨g, by simp [hj], hfits⟩

theorem FitsAt.of_passes {k : Nat} {cs : List Command} {ch st : Chain σ} (h : ch.FitsAt k)
    (hst : Passes cs ch st) : st.FitsAt k :=
  hst.preserves (P := FitsAt k) (fun _ c _ h => h.step c)
    (fun _ j h => h.modify (fun g => ⟨g.depth + 1, rfl⟩) j)
    (fun _ j h => h.modify (fun g => ⟨g.depth - 1, rfl⟩) j) h

omit [Sink σ] in
/-- **What gets past a filter has come to it, and may pass.** -/
theorem Arrival.mayPass {a : Arrival σ} {k : Nat} (hfits : a.chain.FitsAt k)
    (h : a.reaches (k + 1) = true) :
    a.reaches k = true ∧
      ∃ g, a.chain.stages[k]? = some (.archive g) ∧ g.MayPass a.command := by
  obtain ⟨g, hg, hfits⟩ := hfits
  obtain ⟨hcomes, hpass⟩ : a.reaches k = true ∧ (g.receive a.command).2.isPass = true := by
    simpa [Arrival.reaches, goesThrough_take_succ hg, Stage.receive] using h
  exact ⟨hcomes, g, hg, ArchiveFilter.mayPass_of_pass hfits (Reaction.isPass_iff.1 hpass)⟩

/-- **What calls at the head send past a filter.** Let calls be made at the head of a
reachable chain, one after the other, whatever comes of each of them, with an archive filter
behind the first `k` stages. The calls have a trace. For every trace of them, what comes to
the place of a tap is what the tap has seen in addition, in that order, and what comes to the
end is what the sink took. Whatever gets past the filter has just come to it, with the same
procedure, arguments and parameters, also when it is taken down once more, and it may pass
the filter as it is at that moment. -/
theorem Reachable.calls_output {ch : Chain σ} (hch : ch.Reachable) (cs : List Command)
    {k : Nat} {f : ArchiveFilter} (hk : ch.stages[k]? = some (.archive f)) :
    (∃ tr, CallsTraced cs ch tr (ch.calls cs)) ∧
      ∀ tr ch', CallsTraced cs ch tr ch' → ch' = ch.calls cs ∧
        (∀ (j : Nat) (seen : Array Command), ch.stages[j]? = some (Stage.tap seen) →
          ch'.stages[j]? = some (Stage.tap (seen ++ (reaching j tr).toArray))) ∧
        ch'.sink = deliver ch.sink (reaching ch.stages.length tr) ∧
        ∀ a ∈ tr, a.reaches (k + 1) = true →
          a.reaches k = true ∧ a.command.reissue = .ok a.command ∧
          ∃ g, a.chain.stages[k]? = some (.archive g) ∧ g.MayPass a.command := by
  refine ⟨exists_callsTraced ch cs, fun tr ch' htr => ?_⟩
  refine ⟨htr.calls_eq.symm, fun j seen hj => htr.tap hj, htr.sink, fun a ha hbeyond => ?_⟩
  have hmoment : a.chain ∈ moments tr ch' := List.mem_append_left _ (List.mem_map_of_mem ha)
  obtain ⟨g, hg, -⟩ := (List.pairwise_cons.1 htr.growsTo).1 _ hmoment k f hk
  have hfits : g.Fits :=
    htr.fits hch.fits _ (List.mem_cons_of_mem _ hmoment) _ (List.mem_of_getElem? hg)
  obtain ⟨hcomes, hpasses⟩ := Arrival.mayPass ⟨g, hg, hfits⟩ hbeyond
  exact ⟨hcomes, Command.reissue_of_inOrder (htr.inOrder a ha), hpasses⟩

/-- A reference to an archive that nobody defines. -/
def strayReference : Command := ⟨"ReadArchive", [.text [.char 'b'], .null], some .empty⟩

/-- The definition of an archive that refers to an undefined one and to itself, and a
reference to it. -/
def strayReading : List Command :=
  [⟨"ArchiveBegin", [.text [.char 'a']], some .empty⟩, strayReference, selfReference,
    ⟨"ArchiveEnd", [], none⟩, selfReference]

/-- Between two taps, to a depth of two: only the references to the undefined archive get
past the filter, one for each replay. -/
theorem calls_output_strayReading :
    ∃ (ch : Chain Collector) (tr : List (Arrival Collector)), ch.Reachable ∧
      ch.stages = [.tap #[], .archive (.fresh 2 true), .tap #[]] ∧
      CallsTraced strayReading ch tr (ch.calls strayReading) ∧ (reaching 0 tr).length = 9 ∧
      reaching 2 tr = [strayReference, strayReference] ∧
      (ch.calls strayReading).sink = deliver .empty (reaching 3 tr) ∧
      ∀ a ∈ tr, a.reaches 2 = true →
        ∃ g, a.chain.stages[1]? = some (.archive g) ∧ g.MayPass a.command := by
  let ch : Chain Collector :=
    (((ofSink Collector.empty).addStage (.tap #[])).addStage (.archive (.fresh 2 true))).addStage
      (.tap #[])
  have hch : ch.Reachable :=
    .addStage rfl (.addStage ⟨2, true, by decide, by decide, rfl⟩ (.addStage rfl (.ofSink _)))
  obtain ⟨⟨tr, htr⟩, hall⟩ :=
    hch.calls_output strayReading (k := 1) (f := .fresh 2 true) rfl
  obtain ⟨-, htap, hsink, hpast⟩ := hall tr _ htr
  have hfirst : (ch.calls strayReading).stages[0]? = some (.tap (reaching 0 tr).toArray) := by
    simpa using htap 0 #[] rfl
  have hlast : (ch.calls strayReading).stages[2]? = some (.tap (reaching 2 tr).toArray) := by
    simpa using htap 2 #[] rfl
  -- What the taps have seen in the end is a matter of computation.
  have hseen : (ch.calls strayReading).stages[2]? = some (.tap #[strayReference, strayReference]) :=
    rfl
  refine ⟨ch, tr, hch, rfl, htr, ?_, ?_, hsink, fun a ha hbeyond => (hpast a ha hbeyond).2.2⟩
  · obtain ⟨seen, hseen, hlength⟩ : ∃ seen, (ch.calls strayReading).stages[0]? = some (.tap seen) ∧
        seen.size = 9 := ⟨_, rfl, rfl⟩
    rw [hfirst] at hseen
    cases hseen
    simpa using hlength
  · rw [hlast] at hseen
    simpa using hseen

end Chain

end SceneReplay
