import SceneReplay.Proofs.Chain.Walk

/-!
# The course of calls at the head

`SceneReplay.Chain.run` carries out commands within a budget of nested replays.
The budget is a device of the definition: it never runs out. This file states the
course of commands issued at the head without it, as a relation with one rule for
each thing that can happen (`SceneReplay.Chain.Issues`), and shows that issuing
commands at the head follows this relation and nothing else
(`SceneReplay.Chain.issues_iff`).

The reason is the headroom. A replay begins only at a filter below its limit, so it
takes one unit of headroom, and its end gives that unit back
(`SceneReplay.Chain.Issues.gauges`). With more budget than headroom the budget
therefore lasts (`SceneReplay.Chain.run_issues`), and the budget that a chain gives
itself is the sum of all limits.

Facts about all runs are proved by induction on the relation. The first of them is
`SceneReplay.Chain.Issues.preserves`: what every step from the head keeps, and what
the begin and the end of a replay keep, every run keeps.
-/

namespace SceneReplay

namespace Chain

variable {σ : Type} [Sink σ]

/-- **The course of commands issued at the head**: the chain before, the chain
after, and the fault that ended the course early, if one did. -/
inductive Issues : List Command → Chain σ → Chain σ → Option Fault → Prop
  /-- No command, no change. -/
  | nil (ch : Chain σ) : Issues [] ch ch none
  /-- A call that misuses its procedure reaches no stage. -/
  | misused {c : Command} {cs : List Command} {ch : Chain σ} {f : Fault}
      (hc : c.reissue = .error f) : Issues (c :: cs) ch ch (some f)
  /-- A command is dealt with, and the course goes on. -/
  | answered {c d : Command} {cs : List Command} {ch ch₁ ch₂ : Chain σ} {r : Option Fault}
      (hc : c.reissue = .ok d) (hstep : ch.step 0 d = (ch₁, .done))
      (hrest : Issues cs ch₁ ch₂ r) : Issues (c :: cs) ch ch₂ r
  /-- A stage or the sink refuses a command. -/
  | stopped {c d : Command} {cs : List Command} {ch ch₁ : Chain σ} {f : Fault}
      (hc : c.reissue = .ok d) (hstep : ch.step 0 d = (ch₁, .fault f)) :
      Issues (c :: cs) ch ch₁ (some f)
  /-- A command stands for others, which are issued at the head in its place. -/
  | replayed {c d : Command} {cs content : List Command} {ch ch₁ ch₂ ch₃ : Chain σ} {k : Nat}
      {r : Option Fault} (hc : c.reissue = .ok d)
      (hstep : ch.step 0 d = (ch₁, .replay k content))
      (hreplay : Issues content (ch₁.enterReplay k) ch₂ none)
      (hrest : Issues cs (ch₂.leaveReplay k) ch₃ r) : Issues (c :: cs) ch ch₃ r
  /-- A replay that stops early stops what asked for it. -/
  | interrupted {c d : Command} {cs content : List Command} {ch ch₁ ch₂ : Chain σ} {k : Nat}
      {f : Fault} (hc : c.reissue = .ok d)
      (hstep : ch.step 0 d = (ch₁, .replay k content))
      (hreplay : Issues content (ch₁.enterReplay k) ch₂ (some f)) :
      Issues (c :: cs) ch (ch₂.leaveReplay k) (some f)

/-- **A course is determined by its start.** -/
theorem Issues.unique {cs : List Command} {ch a b : Chain σ} {r s : Option Fault}
    (ha : Issues cs ch a r) (hb : Issues cs ch b s) : a = b ∧ r = s := by
  induction ha generalizing b s with
  | nil =>
    cases hb
    exact ⟨rfl, rfl⟩
  | misused hc =>
    cases hb <;> simp_all
  | answered hc hstep _ ih =>
    cases hb with
    | answered hc' hstep' hrest' =>
      cases hc.symm.trans hc'
      cases hstep.symm.trans hstep'
      exact ih hrest'
    | _ => simp_all
  | stopped hc hstep =>
    cases hb with
    | stopped hc' hstep' =>
      cases hc.symm.trans hc'
      cases hstep.symm.trans hstep'
      exact ⟨rfl, rfl⟩
    | _ => simp_all
  | replayed hc hstep _ _ ihreplay ihrest =>
    cases hb with
    | replayed hc' hstep' hreplay' hrest' =>
      cases hc.symm.trans hc'
      cases hstep.symm.trans hstep'
      obtain ⟨rfl, -⟩ := ihreplay hreplay'
      exact ihrest hrest'
    | interrupted hc' hstep' hreplay' =>
      cases hc.symm.trans hc'
      cases hstep.symm.trans hstep'
      cases (ihreplay hreplay').2
    | _ => simp_all
  | interrupted hc hstep _ ihreplay =>
    cases hb with
    | replayed hc' hstep' hreplay' _ =>
      cases hc.symm.trans hc'
      cases hstep.symm.trans hstep'
      cases (ihreplay hreplay').2
    | interrupted hc' hstep' hreplay' =>
      cases hc.symm.trans hc'
      cases hstep.symm.trans hstep'
      obtain ⟨rfl, hf⟩ := ihreplay hreplay'
      exact ⟨rfl, hf⟩
    | _ => simp_all

/-- **What every step keeps, every course keeps**: so does what the begin and the
end of a replay keep. A step sees commands in order only. -/
theorem Issues.preserves {P : Chain σ → Prop}
    (hstep : ∀ ch d, d.InOrder → P ch → P (ch.step 0 d).1)
    (henter : ∀ ch k, P ch → P (ch.enterReplay k))
    (hleave : ∀ ch k, P ch → P (ch.leaveReplay k))
    {cs : List Command} {ch ch' : Chain σ} {r : Option Fault}
    (h : Issues cs ch ch' r) (hch : P ch) : P ch' := by
  have next : ∀ {c d : Command} {ch ch₁ : Chain σ} {o : Outcome}, c.reissue = .ok d →
      ch.step 0 d = (ch₁, o) → P ch → P ch₁ := by
    intro c d ch ch₁ o hc hs hch
    have := hstep ch d (Command.inOrder_of_reissue hc) hch
    rwa [hs] at this
  induction h with
  | nil | misused => exact hch
  | answered hc hs _ ih => exact ih (next hc hs hch)
  | stopped hc hs => exact next hc hs hch
  | replayed hc hs _ _ ihreplay ihrest =>
    exact ihrest (hleave _ _ (ihreplay (henter _ _ (next hc hs hch))))
  | interrupted hc hs _ ihreplay =>
    exact hleave _ _ (ihreplay (henter _ _ (next hc hs hch)))

/-! ### The gauges during a course -/

/-- **A course leaves every gauge as it was.** -/
theorem Issues.gauges {cs : List Command} {ch ch' : Chain σ} {r : Option Fault}
    (h : Issues cs ch ch' r) : ch'.gauges = ch.gauges := by
  induction h with
  | nil | misused => rfl
  | answered _ hs _ ih => rw [ih, gauges_of_step hs]
  | stopped _ hs => exact gauges_of_step hs
  | replayed _ hs _ _ ihreplay ihrest =>
    rw [ihrest, gauges_leaveReplay_of_enterReplay ihreplay, gauges_of_step hs]
  | interrupted _ hs _ ihreplay =>
    rw [gauges_leaveReplay_of_enterReplay ihreplay, gauges_of_step hs]

/-- A replay begins with one unit less of headroom. -/
theorem headroom_of_replay {ch ch₁ : Chain σ} {c : Command} {k : Nat} {content : List Command}
    (h : ch.step 0 c = (ch₁, .replay k content)) :
    (ch₁.enterReplay k).headroom + 1 = ch.headroom := by
  obtain ⟨hw, -, -⟩ := step_replay h
  obtain ⟨f, -, hf, -, hdepth⟩ := walk_replay hw
  rw [headroom_enterReplay hf hdepth, headroom, gauges_of_step h, headroom]

/-! ### The budget lasts -/

/-- **With more budget than headroom the budget lasts**, and the run follows the
rules of a course. -/
theorem run_issues (budget : Nat) : ∀ (cs : List Command) (ch : Chain σ),
    ch.headroom < budget →
      ∃ ch' r, run budget cs ch = (ch', r.map Stop.fault) ∧ Issues cs ch ch' r := by
  induction budget with
  | zero => exact fun _ _ h => absurd h (Nat.not_lt_zero _)
  | succ budget ihbudget =>
    intro cs
    induction cs with
    | nil => exact fun ch _ => ⟨ch, none, rfl, .nil ch⟩
    | cons c cs ih =>
      intro ch hroom
      cases hc : c.reissue with
      | error f => exact ⟨ch, some f, by simp [run, runWith, hc], .misused hc⟩
      | ok d =>
        rcases hs : ch.step 0 d with ⟨ch₁, o⟩
        have hkeep : ch₁.headroom = ch.headroom := by
          rw [headroom, gauges_of_step hs, headroom]
        cases o with
        | done =>
          obtain ⟨ch', r, hrun, hrest⟩ := ih ch₁ (by omega)
          exact ⟨ch', r, by simpa [run, runWith, hc, hs] using hrun, .answered hc hs hrest⟩
        | fault f => exact ⟨ch₁, some f, by simp [run, runWith, hc, hs], .stopped hc hs⟩
        | replay k content =>
          have hless := headroom_of_replay hs
          obtain ⟨ch₂, r₂, hrun₂, hreplay⟩ := ihbudget content (ch₁.enterReplay k) (by omega)
          cases r₂ with
          | some f =>
            exact ⟨ch₂.leaveReplay k, some f, by simp [run, runWith, hc, hs, hrun₂],
              .interrupted hc hs hreplay⟩
          | none =>
            have hback : (ch₂.leaveReplay k).headroom = ch.headroom := by
              rw [headroom, gauges_leaveReplay_of_enterReplay hreplay.gauges, ← headroom, hkeep]
            obtain ⟨ch', r, hrun, hrest⟩ := ih (ch₂.leaveReplay k) (by omega)
            exact ⟨ch', r, by simpa [run, runWith, hc, hs, hrun₂] using hrun,
              .replayed hc hs hreplay hrest⟩

/-- **Issuing commands at the head is the course of these commands.** -/
theorem issues_iff {cs : List Command} {ch ch' : Chain σ} {r : Option Fault} :
    Issues cs ch ch' r ↔ ch.issueAll 0 cs = (ch', r) := by
  have hroom : ch.headroom < ch.budget + 1 := Nat.lt_succ_of_le ch.headroom_le_budget
  obtain ⟨ch₁, r₁, hrun, hcourse⟩ := run_issues (ch.budget + 1) cs ch hroom
  have hall : ch.issueAll 0 cs = (ch₁, r₁) := by
    have hrun' : runWith (run ch.budget) 0 cs ch = (ch₁, r₁.map .fault) := hrun
    rw [issueAll, hrun']
    cases r₁ <;> rfl
  rw [hall]
  constructor
  · intro h
    obtain ⟨rfl, rfl⟩ := hcourse.unique h
    rfl
  · intro h
    cases h
    exact hcourse

/-- Every sequence of calls has a course. -/
theorem issues_issueAll (ch : Chain σ) (cs : List Command) :
    Issues cs ch (ch.issueAll 0 cs).1 (ch.issueAll 0 cs).2 :=
  issues_iff.2 rfl

/-- **A call that asks for a replay** is over with that replay, whatever it ends with. -/
theorem issue_of_replay {c d : Command} {ch ch₁ : Chain σ} {k : Nat} {content : List Command}
    (hc : c.reissue = .ok d) (hstep : ch.step 0 d = (ch₁, .replay k content)) :
    ch.issue 0 c = (((ch₁.enterReplay k).issueAll 0 content).1.leaveReplay k,
      ((ch₁.enterReplay k).issueAll 0 content).2) := by
  rcases hissues : (ch₁.enterReplay k).issueAll 0 content with ⟨ch₂, r⟩
  have hreplay : Issues content (ch₁.enterReplay k) ch₂ r := issues_iff.2 hissues
  refine issues_iff.1 ?_
  cases r with
  | none => exact .replayed hc hstep hreplay (.nil _)
  | some fault => exact .interrupted hc hstep hreplay

/-! ### Calls one after the other -/

/-- Two courses, one after the other. -/
theorem Issues.append {cs ds : List Command} {ch ch₁ ch₂ : Chain σ} {r : Option Fault}
    (h : Issues cs ch ch₁ none) (h' : Issues ds ch₁ ch₂ r) : Issues (cs ++ ds) ch ch₂ r := by
  generalize hn : (none : Option Fault) = s at h
  induction h with
  | nil => exact h'
  | answered hc hs _ ih => exact .answered hc hs (ih h' hn)
  | replayed hc hs hreplay _ _ ih => exact .replayed hc hs hreplay (ih h' hn)
  | _ => cases hn

/-- A course that nothing ended early takes its calls one by one. -/
theorem Issues.uncons {c : Command} {cs : List Command} {ch ch' : Chain σ}
    (h : Issues (c :: cs) ch ch' none) :
    ∃ ch₁, Issues [c] ch ch₁ none ∧ Issues cs ch₁ ch' none := by
  cases h with
  | answered hc hs hrest => exact ⟨_, .answered hc hs (.nil _), hrest⟩
  | replayed hc hs hreplay hrest => exact ⟨_, .replayed hc hs hreplay (.nil _), hrest⟩

/-- Calls at the head one after the other, whatever comes of each of them. -/
def calls (ch : Chain σ) (cs : List Command) : Chain σ :=
  cs.foldl (fun ch c => (ch.issue 0 c).1) ch

/-- Calls leave every gauge as it was, also those that fail. -/
theorem gauges_calls (ch : Chain σ) (cs : List Command) : (ch.calls cs).gauges = ch.gauges := by
  induction cs generalizing ch with
  | nil => rfl
  | cons c cs ih => exact (ih _).trans (issues_issueAll ch [c]).gauges

/-- Calls of which none fails come to the same together and one by one. -/
theorem calls_of_issues {cs : List Command} {ch ch' : Chain σ} (h : Issues cs ch ch' none) :
    ch.calls cs = ch' := by
  induction cs generalizing ch with
  | nil =>
    cases h
    rfl
  | cons c cs ih =>
    obtain ⟨ch₁, hc, hcs⟩ := h.uncons
    have hone : (ch.issue 0 c).1 = ch₁ := congrArg Prod.fst (issues_iff.1 hc)
    rw [calls, List.foldl_cons, hone]
    exact ih hcs

end Chain

end SceneReplay
