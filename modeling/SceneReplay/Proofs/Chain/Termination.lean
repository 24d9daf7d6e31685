import SceneReplay.Proofs.Archive.Contents

/-!
# Every call at the head returns

A replay issues commands at the head of the chain, and these may ask for replays, of the
same filter or of another one, of streams that are still to be defined when the call
begins. Nothing in the recordings keeps this from going on for ever: archives may refer to
themselves and to each other, across filters.

What makes it end is the room that the limits leave. `SceneReplay.Chain.Awaits` says which
calls a row of calls waits for: those of a replay that it leads to, and those that come
after. A replay takes one unit of the headroom of the chain, all filters taken together;
going on to the next call keeps the headroom, because a replay gives its unit back, and
leaves fewer calls. So the two together, in this order, always decrease
(`SceneReplay.Chain.awaits_wf`), whatever the chain is.

`SceneReplay.Chain.During` follows a call with the replays in progress at each moment. Each
filter counts its own (`SceneReplay.Chain.During.gauge`) and has never more of them than its
limit. `SceneReplay.Chain.Reachable.issue_terminates` collects all this for chains over a
collector.
-/

namespace SceneReplay

namespace Chain

variable {σ : Type} [Sink σ]

/-! ### What a call waits for -/

/-- **What calls wait for**: a row of calls, to be issued at the head of a chain, is over
only when other such rows are. -/
inductive Awaits : List Command × Chain σ → List Command × Chain σ → Prop
  /-- After a command that was dealt with, the calls behind it. -/
  | next {c d : Command} {cs : List Command} {ch ch₁ : Chain σ} (hc : c.reissue = .ok d)
      (hstep : ch.step 0 d = (ch₁, .done)) : Awaits (cs, ch₁) (c :: cs, ch)
  /-- The commands of a replay that the first command leads to. -/
  | replay {c d : Command} {cs content : List Command} {ch ch₁ : Chain σ} {k : Nat}
      (hc : c.reissue = .ok d) (hstep : ch.step 0 d = (ch₁, .replay k content)) :
      Awaits (content, ch₁.enterReplay k) (c :: cs, ch)
  /-- After that replay, the calls behind the command. -/
  | resumed {c d : Command} {cs content : List Command} {ch ch₁ ch₂ : Chain σ} {k : Nat}
      (hc : c.reissue = .ok d) (hstep : ch.step 0 d = (ch₁, .replay k content))
      (hreplay : Issues content (ch₁.enterReplay k) ch₂ none) :
      Awaits (cs, ch₂.leaveReplay k) (c :: cs, ch)

theorem gauges_step (ch : Chain σ) (c : Command) : (ch.step 0 c).1.gauges = ch.gauges :=
  gauges_of_step (Prod.eta _).symm

theorem headroom_of_step {ch ch₁ : Chain σ} {c : Command} {outcome : Outcome}
    (h : ch.step 0 c = (ch₁, outcome)) : ch₁.headroom = ch.headroom := by
  rw [headroom, gauges_of_step h, headroom]

/-- After a replay the headroom is what it was before. -/
theorem headroom_resumed {ch ch₁ ch₂ : Chain σ} {c : Command} {content : List Command} {k : Nat}
    {r : Option Fault} (h : ch.step 0 c = (ch₁, .replay k content))
    (hreplay : Issues content (ch₁.enterReplay k) ch₂ r) :
    (ch₂.leaveReplay k).headroom = ch.headroom := by
  rw [headroom, gauges_leaveReplay_of_enterReplay hreplay.gauges, gauges_of_step h, headroom]

/-- **Calls wait for smaller ones only**: with less headroom, or with as much headroom and
fewer calls to come. -/
theorem lex_of_awaits {a b : List Command × Chain σ} (h : Awaits a b) :
    Prod.Lex (· < ·) (· < ·) (a.2.headroom, a.1.length) (b.2.headroom, b.1.length) := by
  rcases h with ⟨-, hstep⟩ | ⟨-, hstep⟩ | ⟨-, hstep, hreplay⟩
  · rw [headroom_of_step hstep]
    exact Prod.Lex.right _ (Nat.lt_succ_self _)
  · have := headroom_of_replay hstep
    exact Prod.Lex.left _ _ (by simp only; omega)
  · rw [headroom_resumed hstep hreplay]
    exact Prod.Lex.right _ (Nat.lt_succ_self _)

/-- **No calls wait for ever**, whatever the streams of the chain contain. -/
theorem awaits_wf : WellFounded (@Awaits σ _) :=
  Subrelation.wf lex_of_awaits
    (InvImage.wf (fun a : List Command × Chain σ => (a.2.headroom, a.1.length))
      (Prod.lex Nat.lt_wfRel Nat.lt_wfRel).wf)

/-- A run with enough budget is the course of its calls: it is never cut short. -/
theorem runWith_eq_of_issues {cs : List Command} {ch ch' : Chain σ} {r : Option Fault}
    (h : Issues cs ch ch' r) {budget : Nat} (hbudget : ch.budget ≤ budget) :
    runWith (run budget) 0 cs ch = (ch', r.map .fault) := by
  have hroom : ch.headroom < budget + 1 :=
    Nat.lt_succ_of_le (Nat.le_trans ch.headroom_le_budget hbudget)
  obtain ⟨ch₁, r₁, hrun, hcourse⟩ := run_issues (budget + 1) cs ch hroom
  obtain ⟨rfl, rfl⟩ := h.unique hcourse
  exact hrun

/-! ### Replays in progress -/

/-- **The moments of calls, with the replays in progress**: the state that the chain is in,
and the positions of the filters whose replays have begun and not ended, the first one
first. -/
inductive During : List Command → Chain σ → List Nat → Chain σ → Prop
  /-- The state before the first call. -/
  | here (cs : List Command) (ch : Chain σ) : During cs ch [] ch
  /-- The state after the first command went through the stages. -/
  | stepped {c d : Command} {cs : List Command} {ch : Chain σ} (hc : c.reissue = .ok d) :
      During (c :: cs) ch [] (ch.step 0 d).1
  /-- A state inside a replay. -/
  | inside {c d : Command} {cs content : List Command} {ch ch₁ st : Chain σ} {k : Nat}
      {replays : List Nat} (hc : c.reissue = .ok d)
      (hstep : ch.step 0 d = (ch₁, .replay k content))
      (h : During content (ch₁.enterReplay k) replays st) : During (c :: cs) ch (k :: replays) st
  /-- The state right after a replay, also after one that failed. -/
  | left {c d : Command} {cs content : List Command} {ch ch₁ ch₂ : Chain σ} {k : Nat}
      {r : Option Fault} (hc : c.reissue = .ok d)
      (hstep : ch.step 0 d = (ch₁, .replay k content))
      (h : Issues content (ch₁.enterReplay k) ch₂ r) : During (c :: cs) ch [] (ch₂.leaveReplay k)
  /-- A state during the calls after the first one. -/
  | later {c : Command} {cs : List Command} {ch ch₁ st : Chain σ} {replays : List Nat}
      (hc : Issues [c] ch ch₁ none) (h : During cs ch₁ replays st) : During (c :: cs) ch replays st

/-- The moments with the replays in progress are the moments of the calls. -/
theorem passes_iff_during {cs : List Command} {ch st : Chain σ} :
    Passes cs ch st ↔ ∃ replays, During cs ch replays st := by
  constructor
  · intro h
    induction h with
    | here cs ch => exact ⟨_, .here cs ch⟩
    | stepped hc => exact ⟨_, .stepped hc⟩
    | inside hc hstep _ ih =>
      obtain ⟨replays, hduring⟩ := ih
      exact ⟨_, .inside hc hstep hduring⟩
    | left hc hstep hreplay => exact ⟨_, .left hc hstep hreplay⟩
    | later hc _ ih =>
      obtain ⟨replays, hduring⟩ := ih
      exact ⟨_, .later hc hduring⟩
  · rintro ⟨replays, h⟩
    induction h with
    | here cs ch => exact .here cs ch
    | stepped hc => exact .stepped hc
    | inside hc hstep _ ih => exact .inside hc hstep ih
    | left hc hstep hreplay => exact .left hc hstep hreplay
    | later hc _ ih => exact .later hc ih

/-- **Each filter counts its replays in progress**, from the count that it began with. -/
theorem During.gauge {cs : List Command} {ch st : Chain σ} {replays : List Nat}
    (h : During cs ch replays st) (k : Nat) :
    st.gauges[k]? = ch.gauges[k]?.map (Option.map fun g => (g.1, g.2 + replays.count k)) := by
  have hkeep : ∀ gs : List (Option (Nat × Nat)),
      gs[k]? = gs[k]?.map (Option.map fun g => (g.1, g.2 + [].count k)) := by
    intro gs
    rcases gs[k]? with _ | _ | g <;> simp
  induction h with
  | here cs ch => exact hkeep _
  | stepped hc =>
    rw [gauges_step]
    exact hkeep _
  | left hc hstep hreplay =>
    rw [gauges_leaveReplay_of_enterReplay hreplay.gauges, gauges_of_step hstep]
    exact hkeep _
  | later hc _ ih => rw [ih, hc.gauges]
  | @inside c d cs content ch ch₁ st j replays hc hstep _ ih =>
    rw [ih, gauges_enterReplay, gauges_of_step hstep, List.getElem?_modify]
    rcases ch.gauges[k]? with _ | _ | ⟨limit, depth⟩
    · simp
    · by_cases hk : j = k <;> simp [hk]
    · by_cases hk : j = k
      · subst hk
        simp [Nat.add_assoc, Nat.add_comm 1]
      · simp [hk, List.count_cons_of_ne hk]

/-- No filter has more replays in progress than its limit. -/
def WithinLimits (ch : Chain σ) : Prop := ∀ g ∈ ch.gauges, ∀ n ∈ g, n.2 ≤ n.1

/-- A replay that begins keeps the limits: it was asked for below the limit. -/
theorem WithinLimits.enterReplay {ch ch₁ : Chain σ} {c : Command} {k : Nat}
    {content : List Command} (h : ch.WithinLimits)
    (hstep : ch.step 0 c = (ch₁, .replay k content)) : (ch₁.enterReplay k).WithinLimits := by
  obtain ⟨hwalk, -, -⟩ := step_replay hstep
  obtain ⟨f, -, hf, -, hdepth⟩ := walk_replay hwalk
  intro g hg n hn
  obtain ⟨i, hi⟩ := List.getElem?_of_mem hg
  rw [gauges_enterReplay, List.getElem?_modify, gauges_of_step hstep] at hi
  by_cases hk : k = i
  · subst hk
    have hgauge : ch.gauges[k]? = some (some (f.limit, f.depth)) := by
      rw [← gauges_of_step hstep, gauges, List.getElem?_map, hf]
      rfl
    obtain rfl : some (f.limit, f.depth + 1) = g := by simpa [hgauge] using hi
    obtain rfl : (f.limit, f.depth + 1) = n := by simpa using hn
    exact hdepth
  · have hi : ch.gauges[i]? = some g := by simpa [hk] using hi
    exact h g (List.mem_of_getElem? hi) n hn

/-- **At no moment is a limit exceeded.** -/
theorem During.withinLimits {cs : List Command} {ch st : Chain σ} {replays : List Nat}
    (h : During cs ch replays st) (hch : ch.WithinLimits) : st.WithinLimits := by
  induction h with
  | here cs ch => exact hch
  | stepped hc => rwa [WithinLimits, gauges_step]
  | inside hc hstep _ ih => exact ih (hch.enterReplay hstep)
  | left hc hstep hreplay =>
    rwa [WithinLimits, gauges_leaveReplay_of_enterReplay hreplay.gauges, gauges_of_step hstep]
  | later hc _ ih => exact ih (by rwa [WithinLimits, hc.gauges])

/-! ### Between calls -/

/-- **Between calls no replay is in progress**, and the limits are in the allowed range. -/
theorem Reachable.gauge {ch : Chain σ} (h : ch.Reachable) :
    ∀ g ∈ ch.gauges, ∀ n ∈ g, 1 ≤ n.1 ∧ (n.1 : Int) ≤ greatestLimit ∧ n.2 = 0 := by
  induction h with
  | ofSink => rintro g ⟨⟩
  | @addStage ch s hs _ ih =>
    refine List.forall_mem_cons.2 ⟨?_, ih⟩
    intro n hn
    rcases s with _ | seen | f
    · cases hn
    · cases hn
    · obtain ⟨limit, capture, hlow, hhigh, rfl⟩ := hs
      obtain rfl : (limit, 0) = n := Option.mem_some_iff.1 hn
      exact ⟨hlow, hhigh, rfl⟩
  | addReport r _ ih => exact ih
  | @issue ch c _ ih =>
    have hgauges : (ch.issue 0 c).1.gauges = ch.gauges := (issues_issueAll ch [c]).gauges
    rwa [hgauges]

omit [Sink σ] in
theorem gauge_of_archive {ch : Chain σ} {k : Nat} {f : ArchiveFilter}
    (h : ch.stages[k]? = some (.archive f)) : ch.gauges[k]? = some (some (f.limit, f.depth)) := by
  rw [gauges, List.getElem?_map, h]
  rfl

/-- An archive filter of a reachable chain, between calls. -/
theorem Reachable.depth_eq_zero {ch : Chain σ} (h : ch.Reachable) {k : Nat} {f : ArchiveFilter}
    (hk : ch.stages[k]? = some (.archive f)) : f.depth = 0 :=
  (h.gauge _ (List.mem_of_getElem? (gauge_of_archive hk)) (f.limit, f.depth) rfl).2.2

/-- **At the head there is room for a replay** in every filter. -/
theorem Reachable.depth_lt_limit {ch : Chain σ} (h : ch.Reachable) {f : ArchiveFilter}
    (hf : f ∈ ch.archiveFilters) : f.depth < f.limit := by
  obtain ⟨s, hs, hfilter⟩ := List.mem_filterMap.1 hf
  have hgauge := h.gauge _ (List.mem_map_of_mem hs) (f.limit, f.depth)
    (by simp [Stage.gauge?, hfilter])
  simp only at hgauge
  omega

theorem Reachable.withinLimits {ch : Chain σ} (h : ch.Reachable) : ch.WithinLimits := by
  intro g hg n hn
  rw [(h.gauge g hg n hn).2.2]
  exact Nat.zero_le _

/-! ### Chains over a collector -/

/-- **Every call at the head returns.** Let a call be issued at the head of a reachable
chain over a collector, with any stages before it. What it waits for is well-founded. With
any budget that covers the limits it is carried out to the end, with the same result; and
it fails only if it misuses its procedure. Afterwards each filter counts as many replays in
progress as before. At every moment in between, the filters count the replays that are in
progress, and none has more of them than its limit. -/
theorem Reachable.issue_terminates {ch : Chain Collector} (hch : ch.Reachable) (c : Command) :
    Acc Awaits ([c], ch) ∧
      (∀ budget, ch.budget ≤ budget →
        runWith (run budget) 0 [c] ch = ((ch.issue 0 c).1, (ch.issue 0 c).2.map .fault)) ∧
      (∀ d, c.reissue = .ok d → (ch.issue 0 c).2 = none) ∧
      (ch.issue 0 c).1.gauges = ch.gauges ∧
      ∀ replays st, During [c] ch replays st → ∀ k f, st.stages[k]? = some (.archive f) →
        replays.count k = f.depth ∧ f.depth ≤ f.limit := by
  have hcourse : Issues [c] ch (ch.issue 0 c).1 (ch.issue 0 c).2 := issues_issueAll ch [c]
  refine ⟨awaits_wf.apply _, fun budget hbudget => runWith_eq_of_issues hcourse hbudget,
    fun d hd => ?_, hcourse.gauges, fun replays st hst k f hk => ?_⟩
  · refine hcourse.not_fault (fun _ _ => rfl) (fun c' hc' => ?_) hch.fits hch.recordedInOrder
    obtain rfl := List.mem_singleton.1 hc'
    exact ⟨d, hd⟩
  · have hgauge := gauge_of_archive hk
    have hlimit := hst.withinLimits hch.withinLimits _ (List.mem_of_getElem? hgauge) _ rfl
    refine ⟨?_, hlimit⟩
    -- The filter was there before the call, with no replay in progress.
    rw [hst.gauge k] at hgauge
    obtain ⟨g, hg, hmap⟩ := Option.map_eq_some_iff.1 hgauge
    obtain ⟨n, rfl, hn⟩ := Option.map_eq_some_iff.1 hmap
    obtain ⟨-, -, hzero⟩ := hch.gauge _ (List.mem_of_getElem? hg) n rfl
    have hdepth : n.2 + replays.count k = f.depth := congrArg Prod.snd hn
    omega

/-- The definition of an archive that refers to another one. -/
def reading (name other : Char) : List Command :=
  [⟨"ArchiveBegin", [.text [.char name]], some .empty⟩,
    ⟨"ReadArchive", [.text [.char other], .null], some .empty⟩, ⟨"ArchiveEnd", [], none⟩]

/-- Two filters, the second put in front after the first has an archive: it holds an archive
that refers to that of the first one, which refers back. -/
def crossReading : Chain Collector :=
  ((((ofSink .empty).addStage (.archive (.fresh 2 true))).calls (reading 'a' 'b')).addStage
    (.archive (.fresh 3 false))).calls (reading 'b' 'a')

theorem crossReading_reachable : crossReading.Reachable := by
  have hfirst : ((ofSink Collector.empty).addStage (.archive (.fresh 2 true))).Reachable :=
    .addStage ⟨2, true, by decide, by decide, rfl⟩ (.ofSink _)
  have hsecond := (hfirst.calls (reading 'a' 'b')).addStage (s := .archive (.fresh 3 false))
    ⟨3, false, by decide, by decide, rfl⟩
  exact hsecond.calls (reading 'b' 'a')

/-- The two filters replay in turn, until the first one to be asked is at its limit of two. -/
theorem issue_terminates_crossReading :
    (crossReading.issue 0 selfReference).2 = none ∧
      (crossReading.issue 0 selfReference).1.gauges = [some (3, 0), some (2, 0)] ∧
      (crossReading.issue 0 selfReference).1.log.count (some .nesting) = 1 ∧
      ∃ st f, During [selfReference] crossReading [1, 0, 1] st ∧
        st.stages[1]? = some (.archive f) ∧ f.depth = 2 ∧ f.limit = 2 := by
  obtain ⟨-, -, hreturns, hgauges, hduring⟩ :=
    crossReading_reachable.issue_terminates selfReference
  have hother : Command.reissue ⟨"ReadArchive", [.text [.char 'b'], .null], some .empty⟩
      = .ok ⟨"ReadArchive", [.text [.char 'b'], .null], some .empty⟩ := rfl
  have hself : selfReference.reissue = .ok selfReference := rfl
  -- The reference is replayed by the second filter, what it holds by the first, and so on.
  have hst : During [selfReference] crossReading [1, 0, 1] _ :=
    .inside hself rfl (.inside hother rfl (.inside hself rfl (.here _ _)))
  obtain ⟨hcount, -⟩ := hduring _ _ hst 1 _ rfl
  exact ⟨hreturns _ hself, hgauges, rfl, _, _, hst, rfl, hcount.symm, rfl⟩

end Chain

end SceneReplay
