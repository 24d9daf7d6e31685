import SceneReplay.Proofs.Archive.Contents

/-!
# The commands that went through a chain

A course of calls (`SceneReplay.Chain.Issues`) says what becomes of a chain. Its *trace*
(`SceneReplay.Chain.Traced`) says in addition which commands came to the head on the way,
those of replays included, in their order, and which chain each of them met there. Every
course has a trace (`SceneReplay.Chain.issues_iff_exists_traced`), and every chain in it is a
moment of the course (`SceneReplay.Chain.Traced.passes`).

How far a command goes is decided by the chain that it meets, so the trace tells what comes to
any place in the row of stages (`SceneReplay.Chain.reaching`). It is not made up: a tap sees
exactly the commands that come to its place (`SceneReplay.Chain.Traced.tap`), and the sink
takes exactly those that come to the end (`SceneReplay.Chain.Traced.sink`).

The moments of a trace stand in a row (`SceneReplay.Chain.moments`). What every step makes of a
chain, if it may be followed from one step to the next, holds between any two of them
(`SceneReplay.Chain.CallsTraced.pairwise`): of any two moments of calls, the recordings of the
later one have grown from those of the earlier one (`SceneReplay.Chain.CallsTraced.growsTo`).
-/

namespace SceneReplay

/-- Whether the command goes to the next stage. -/
def Reaction.isPass : Reaction → Bool
  | .pass => true
  | _ => false

@[simp] theorem Reaction.isPass_pass : Reaction.pass.isPass = true := rfl

theorem Reaction.isPass_iff {r : Reaction} : r.isPass = true ↔ r = .pass := by
  cases r <;> simp [isPass]

/-! ### What a sink took -/

section Deliver

variable {σ : Type} [Sink σ]

/-- The sink after some commands, also after those that it refused. -/
def deliver (s : σ) (cs : List Command) : σ := cs.foldl (fun s c => (Sink.accept s c).1) s

@[simp] theorem deliver_append (s : σ) (cs ds : List Command) :
    deliver s (cs ++ ds) = deliver (deliver s cs) ds :=
  List.foldl_append

end Deliver

namespace Chain

/-! ### How far a command goes -/

/-- Whether a command passes all stages of a row. -/
def goesThrough (ss : List Stage) (c : Command) : Bool := (walk ss c).2.1.isPass

@[simp] theorem goesThrough_nil (c : Command) : goesThrough [] c = true := rfl

theorem goesThrough_cons (s : Stage) (ss : List Stage) (c : Command) :
    goesThrough (s :: ss) c = ((s.receive c).2.isPass && goesThrough ss c) := by
  rcases hs : s.receive c with ⟨s', reaction⟩
  by_cases hpass : reaction = .pass
  · subst hpass
    simp [goesThrough, walk_cons_of_pass hs]
  · have hstop : reaction.isPass = false := by simpa [← Reaction.isPass_iff] using hpass
    simp [goesThrough, walk_cons_of_ne_pass hs hpass, hstop]

/-- To pass one stage more, a command has to come to that stage, and the stage has to pass
it. -/
theorem goesThrough_take_succ {ss : List Stage} {k : Nat} {s : Stage} (hk : ss[k]? = some s)
    (c : Command) :
    goesThrough (ss.take (k + 1)) c = (goesThrough (ss.take k) c && (s.receive c).2.isPass) := by
  induction ss generalizing k with
  | nil => simp at hk
  | cons t ss ih =>
    rcases k with _ | k
    · obtain rfl : t = s := by simpa using hk
      simp [goesThrough_cons]
    · simp only [List.take_succ_cons, goesThrough_cons, ih (by simpa using hk), Bool.and_assoc]

/-- **A stage answers exactly the commands that come to it.** -/
theorem getElem?_walk_eq {ss : List Stage} {k : Nat} {s : Stage} (hk : ss[k]? = some s)
    (c : Command) :
    (walk ss c).1[k]? = some (if goesThrough (ss.take k) c then (s.receive c).1 else s) := by
  induction ss generalizing k with
  | nil => simp at hk
  | cons t ss ih =>
    rcases ht : t.receive c with ⟨t', reaction⟩
    by_cases hpass : reaction = .pass
    · subst hpass
      rw [walk_cons_of_pass ht]
      rcases k with _ | k
      · obtain rfl : t = s := by simpa using hk
        simp [ht]
      · simpa [goesThrough_cons, ht] using ih (by simpa using hk)
    · rw [walk_cons_of_ne_pass ht hpass]
      have hstop : reaction.isPass = false := by simpa [← Reaction.isPass_iff] using hpass
      rcases k with _ | k
      · obtain rfl : t = s := by simpa using hk
        simp [ht]
      · simpa [goesThrough_cons, ht, hstop] using hk

variable {σ : Type}

/-- A command at the head of a chain. -/
structure Arrival (σ : Type) where
  /-- The chain that the command meets. -/
  chain : Chain σ
  /-- The command, as it was taken down. -/
  command : Command

/-- Whether the command comes to the place behind the first `k` stages. -/
def Arrival.reaches (k : Nat) (a : Arrival σ) : Bool :=
  goesThrough (a.chain.stages.take k) a.command

/-- The commands of a trace that come to the place behind the first `k` stages. -/
def reaching (k : Nat) (tr : List (Arrival σ)) : List Command :=
  (tr.filter (Arrival.reaches k)).map Arrival.command

@[simp] theorem reaching_nil (k : Nat) : reaching k ([] : List (Arrival σ)) = [] := rfl

@[simp] theorem reaching_append (k : Nat) (tr tr' : List (Arrival σ)) :
    reaching k (tr ++ tr') = reaching k tr ++ reaching k tr' := by
  simp [reaching]

/-- The command, if it comes to the place behind the first `k` stages. -/
def Arrival.beyond (k : Nat) (a : Arrival σ) : List Command :=
  if a.reaches k then [a.command] else []

theorem reaching_cons (k : Nat) (a : Arrival σ) (tr : List (Arrival σ)) :
    reaching k (a :: tr) = a.beyond k ++ reaching k tr := by
  cases h : a.reaches k <;> simp [reaching, Arrival.beyond, h]

theorem reaching_singleton (k : Nat) (a : Arrival σ) : reaching k [a] = a.beyond k := by
  simp [reaching_cons]

/-- All commands of a trace come to the head. -/
theorem reaching_zero (tr : List (Arrival σ)) : reaching 0 tr = tr.map Arrival.command := by
  have hall : ∀ a ∈ tr, a.reaches 0 = true := fun a _ => goesThrough_nil a.command
  rw [reaching, List.filter_eq_self.2 hall]

variable [Sink σ]

/-- A step hands the command to the sink if all stages pass it. -/
theorem sink_step (ch : Chain σ) (c : Command) :
    (ch.step 0 c).1.sink
      = if goesThrough ch.stages c then (Sink.accept ch.sink c).1 else ch.sink := by
  rcases hw : walk ch.stages c with ⟨ss, reaction, passed⟩
  cases reaction <;> simp [step, goesThrough, hw, Reaction.isPass, addReport]

/-! ### Traces -/

/-- **The course of commands issued at the head, with its trace**: the commands that came to
the head, the first one first, each with the chain that it met. -/
inductive Traced : List Command → Chain σ → List (Arrival σ) → Chain σ → Option Fault → Prop
  /-- No command. -/
  | nil (ch : Chain σ) : Traced [] ch [] ch none
  /-- A call that misuses its procedure does not come to the head. -/
  | misused {c : Command} {cs : List Command} {ch : Chain σ} {f : Fault}
      (hc : c.reissue = .error f) : Traced (c :: cs) ch [] ch (some f)
  /-- A command is dealt with, and the course goes on. -/
  | answered {c d : Command} {cs : List Command} {ch ch₁ ch₂ : Chain σ} {r : Option Fault}
      {tr : List (Arrival σ)} (hc : c.reissue = .ok d) (hstep : ch.step 0 d = (ch₁, .done))
      (hrest : Traced cs ch₁ tr ch₂ r) : Traced (c :: cs) ch (⟨ch, d⟩ :: tr) ch₂ r
  /-- A stage or the sink refuses a command. -/
  | stopped {c d : Command} {cs : List Command} {ch ch₁ : Chain σ} {f : Fault}
      (hc : c.reissue = .ok d) (hstep : ch.step 0 d = (ch₁, .fault f)) :
      Traced (c :: cs) ch [⟨ch, d⟩] ch₁ (some f)
  /-- A command stands for others, which come to the head after it. -/
  | replayed {c d : Command} {cs content : List Command} {ch ch₁ ch₂ ch₃ : Chain σ} {k : Nat}
      {r : Option Fault} {tr tr' : List (Arrival σ)} (hc : c.reissue = .ok d)
      (hstep : ch.step 0 d = (ch₁, .replay k content))
      (hreplay : Traced content (ch₁.enterReplay k) tr ch₂ none)
      (hrest : Traced cs (ch₂.leaveReplay k) tr' ch₃ r) :
      Traced (c :: cs) ch (⟨ch, d⟩ :: (tr ++ tr')) ch₃ r
  /-- A replay that stops early stops what asked for it. -/
  | interrupted {c d : Command} {cs content : List Command} {ch ch₁ ch₂ : Chain σ} {k : Nat}
      {f : Fault} {tr : List (Arrival σ)} (hc : c.reissue = .ok d)
      (hstep : ch.step 0 d = (ch₁, .replay k content))
      (hreplay : Traced content (ch₁.enterReplay k) tr ch₂ (some f)) :
      Traced (c :: cs) ch (⟨ch, d⟩ :: tr) (ch₂.leaveReplay k) (some f)

/-- **The courses are those that have a trace.** -/
theorem issues_iff_exists_traced {cs : List Command} {ch ch' : Chain σ} {r : Option Fault} :
    Issues cs ch ch' r ↔ ∃ tr, Traced cs ch tr ch' r := by
  constructor
  · intro h
    induction h with
    | nil ch => exact ⟨_, .nil ch⟩
    | misused hc => exact ⟨_, .misused hc⟩
    | answered hc hstep _ ih =>
      obtain ⟨tr, htr⟩ := ih
      exact ⟨_, .answered hc hstep htr⟩
    | stopped hc hstep => exact ⟨_, .stopped hc hstep⟩
    | replayed hc hstep _ _ ihreplay ihrest =>
      obtain ⟨tr, htr⟩ := ihreplay
      obtain ⟨tr', htr'⟩ := ihrest
      exact ⟨_, .replayed hc hstep htr htr'⟩
    | interrupted hc hstep _ ih =>
      obtain ⟨tr, htr⟩ := ih
      exact ⟨_, .interrupted hc hstep htr⟩
  · rintro ⟨tr, h⟩
    induction h with
    | nil ch => exact .nil ch
    | misused hc => exact .misused hc
    | answered hc hstep _ ih => exact .answered hc hstep ih
    | stopped hc hstep => exact .stopped hc hstep
    | replayed hc hstep _ _ ihreplay ihrest => exact .replayed hc hstep ihreplay ihrest
    | interrupted hc hstep _ ih => exact .interrupted hc hstep ih

theorem Traced.issues {cs : List Command} {ch ch' : Chain σ} {r : Option Fault}
    {tr : List (Arrival σ)} (h : Traced cs ch tr ch' r) : Issues cs ch ch' r :=
  issues_iff_exists_traced.2 ⟨tr, h⟩

/-- **The chains of a trace are moments of the course**, and its commands are in order. -/
theorem Traced.passes {cs : List Command} {ch ch' : Chain σ} {r : Option Fault}
    {tr : List (Arrival σ)} (h : Traced cs ch tr ch' r) :
    ∀ a ∈ tr, Passes cs ch a.chain ∧ a.command.InOrder := by
  induction h with
  | nil | misused => simp
  | stopped hc hstep =>
    refine List.forall_mem_singleton.2 ⟨.here _ _, Command.inOrder_of_reissue hc⟩
  | answered hc hstep _ ih =>
    refine List.forall_mem_cons.2 ⟨⟨.here _ _, Command.inOrder_of_reissue hc⟩, fun a ha => ?_⟩
    exact ⟨.later (.answered hc hstep (.nil _)) (ih a ha).1, (ih a ha).2⟩
  | replayed hc hstep hreplay _ ihreplay ihrest =>
    refine List.forall_mem_cons.2 ⟨⟨.here _ _, Command.inOrder_of_reissue hc⟩, fun a ha => ?_⟩
    rcases List.mem_append.1 ha with ha | ha
    · exact ⟨.inside hc hstep (ihreplay a ha).1, (ihreplay a ha).2⟩
    · exact ⟨.later (.replayed hc hstep hreplay.issues (.nil _)) (ihrest a ha).1, (ihrest a ha).2⟩
  | interrupted hc hstep _ ih =>
    refine List.forall_mem_cons.2 ⟨⟨.here _ _, Command.inOrder_of_reissue hc⟩, fun a ha => ?_⟩
    exact ⟨.inside hc hstep (ih a ha).1, (ih a ha).2⟩

/-- **The commands that were issued** come to the head in their order, between those of
replays. -/
theorem Traced.sublist {cs : List Command} {ch ch' : Chain σ} {r : Option Fault}
    {tr : List (Arrival σ)} (h : Traced cs ch tr ch' r) (hr : r = none) :
    ∃ ds, List.Forall₂ (fun c d => c.reissue = .ok d) cs ds ∧
      ds.Sublist (tr.map Arrival.command) := by
  induction h with
  | nil => exact ⟨[], .nil, .slnil⟩
  | misused | stopped | interrupted => cases hr
  | answered hc _ _ ih =>
    obtain ⟨ds, hds, hsublist⟩ := ih hr
    exact ⟨_ :: ds, .cons hc hds, hsublist.cons_cons _⟩
  | @replayed c d _ _ _ _ _ _ _ _ tr tr' hc _ _ _ _ ihrest =>
    obtain ⟨ds, hds, hsublist⟩ := ihrest hr
    refine ⟨d :: ds, .cons hc hds, ?_⟩
    rw [List.map_cons, List.map_append]
    exact (List.sublist_append_of_sublist_right hsublist).cons_cons d

/-! ### What all commands of a trace have -/

/-- All that is recorded in the chain is in order, and as `P` says. -/
def Holds (P : Command → Prop) (ch : Chain σ) : Prop :=
  ∀ s ∈ ch.stages, s.Recorded fun d => d.InOrder ∧ P d

section Holds

variable {P : Command → Prop} {ch ch₁ : Chain σ}

theorem Holds.of_step (h : ch.Holds P) {d : Command} {outcome : Outcome} (hd : d.InOrder ∧ P d)
    (hstep : ch.step 0 d = (ch₁, outcome)) : ch₁.Holds P := by
  have hstages : ch₁.stages = (walk ch.stages d).1 := by rw [← stages_step, hstep]
  rw [Holds, hstages]
  exact forall_walk (fun s hs => hs.receive hd) h

omit [Sink σ] in
theorem Holds.enterReplay (h : ch.Holds P) (k : Nat) : (ch.enterReplay k).Holds P :=
  forall_modify (P := Stage.Recorded _) (fun _ hs => hs.enterReplay) h k

omit [Sink σ] in
theorem Holds.leaveReplay (h : ch.Holds P) (k : Nat) : (ch.leaveReplay k).Holds P :=
  forall_modify (P := Stage.Recorded _) (fun _ hs => hs.leaveReplay) h k

/-- What is replayed was recorded, and is taken down as it is. -/
theorem Holds.of_replay (h : ch.Holds P) {d : Command} {k : Nat} {content : List Command}
    (hstep : ch.step 0 d = (ch₁, .replay k content)) :
    ∀ c ∈ content, ∀ e, c.reissue = .ok e → P e := by
  intro c hc e he
  obtain ⟨hwalk, -, -⟩ := step_replay hstep
  obtain ⟨f, hf, -, hreceive, -⟩ := walk_replay hwalk
  have hall : f.AllRecorded fun d => d.InOrder ∧ P d := h _ (List.mem_of_getElem? hf)
  obtain ⟨hinOrder, hP⟩ := hall.of_replay (hreceive ▸ f.received d) c hc
  rw [Command.reissue_of_inOrder hinOrder] at he
  exact Except.ok.inj he ▸ hP

end Holds

/-- **What holds of the commands that are called and recorded holds of all that come to the
head**, and of all that is recorded in the end. -/
theorem Traced.holds {P : Command → Prop} {cs : List Command} {ch ch' : Chain σ}
    {r : Option Fault} {tr : List (Arrival σ)} (h : Traced cs ch tr ch' r)
    (hcs : ∀ c ∈ cs, ∀ d, c.reissue = .ok d → P d) (hch : ch.Holds P) :
    (∀ a ∈ tr, P a.command) ∧ ch'.Holds P := by
  induction h with
  | nil | misused => exact ⟨nofun, hch⟩
  | answered hc hstep _ ih =>
    rw [List.forall_mem_cons] at hcs
    have hd := hcs.1 _ hc
    obtain ⟨hrest, hafter⟩ := ih hcs.2 (hch.of_step ⟨Command.inOrder_of_reissue hc, hd⟩ hstep)
    exact ⟨List.forall_mem_cons.2 ⟨hd, hrest⟩, hafter⟩
  | stopped hc hstep =>
    have hd := hcs _ List.mem_cons_self _ hc
    exact ⟨List.forall_mem_singleton.2 hd,
      hch.of_step ⟨Command.inOrder_of_reissue hc, hd⟩ hstep⟩
  | replayed hc hstep _ _ ihreplay ihrest =>
    rw [List.forall_mem_cons] at hcs
    have hd := hcs.1 _ hc
    have hstepped := hch.of_step ⟨Command.inOrder_of_reissue hc, hd⟩ hstep
    obtain ⟨hinside, hreplayed⟩ := ihreplay (hch.of_replay hstep) (hstepped.enterReplay _)
    obtain ⟨hrest, hafter⟩ := ihrest hcs.2 (hreplayed.leaveReplay _)
    exact ⟨List.forall_mem_cons.2 ⟨hd, List.forall_mem_append.2 ⟨hinside, hrest⟩⟩, hafter⟩
  | interrupted hc hstep _ ih =>
    have hd := hcs _ List.mem_cons_self _ hc
    have hstepped := hch.of_step ⟨Command.inOrder_of_reissue hc, hd⟩ hstep
    obtain ⟨hinside, hreplayed⟩ := ih (hch.of_replay hstep) (hstepped.enterReplay _)
    exact ⟨List.forall_mem_cons.2 ⟨hd, hinside⟩, hreplayed.leaveReplay _⟩

/-! ### What taps and sinks tell of a trace -/

/-- A tap that a command comes to has seen it afterwards. -/
theorem tap_step {ch ch₁ : Chain σ} {c : Command} {outcome : Outcome} {k : Nat}
    {seen : Array Command} (hstep : ch.step 0 c = (ch₁, outcome))
    (hk : ch.stages[k]? = some (.tap seen)) :
    ch₁.stages[k]? = some (.tap (seen ++ (Arrival.beyond k ⟨ch, c⟩).toArray)) := by
  have hstages : ch₁.stages = (walk ch.stages c).1 := by rw [← stages_step, hstep]
  rw [hstages, getElem?_walk_eq hk, Arrival.beyond, Arrival.reaches]
  cases goesThrough (ch.stages.take k) c <;> simp [Stage.receive]

omit [Sink σ] in
/-- Neither the begin nor the end of a replay concerns a tap. -/
theorem tap_modify {ss : List Stage} {m : Stage → Stage} (hm : ∀ seen, m (.tap seen) = .tap seen)
    {k : Nat} {seen : Array Command} (hk : ss[k]? = some (.tap seen)) (j : Nat) :
    (ss.modify j m)[k]? = some (.tap seen) := by
  rw [List.getElem?_modify, hk]
  by_cases h : j = k <;> simp [h, hm]

/-- **A tap sees the commands that come to it**, all of them, in their order. -/
theorem Traced.tap {cs : List Command} {ch ch' : Chain σ} {r : Option Fault}
    {tr : List (Arrival σ)} (h : Traced cs ch tr ch' r) {k : Nat} {seen : Array Command}
    (hk : ch.stages[k]? = some (.tap seen)) :
    ch'.stages[k]? = some (.tap (seen ++ (reaching k tr).toArray)) := by
  induction h generalizing seen with
  | nil | misused => simpa using hk
  | answered _ hstep _ ih =>
    rw [ih (tap_step hstep hk), reaching_cons]
    simp
  | stopped _ hstep =>
    rw [reaching_singleton]
    exact tap_step hstep hk
  | @replayed c d cs content ch ch₁ ch₂ ch₃ j r tr tr' _ hstep _ _ ihreplay ihrest =>
    have hinside := ihreplay (tap_modify (fun _ => rfl) (tap_step hstep hk) j)
    have hafter : (ch₂.leaveReplay j).stages[k]? = _ := tap_modify (fun _ => rfl) hinside j
    rw [ihrest hafter, reaching_cons]
    simp
  | @interrupted c d cs content ch ch₁ ch₂ j f tr _ hstep _ ih =>
    have hinside := ih (tap_modify (fun _ => rfl) (tap_step hstep hk) j)
    have hafter : (ch₂.leaveReplay j).stages[k]? = _ := tap_modify (fun _ => rfl) hinside j
    rw [hafter, reaching_cons]
    simp

omit [Sink σ] in
theorem length_stages_of_gauges {ch ch' : Chain σ} (h : ch'.gauges = ch.gauges) :
    ch'.stages.length = ch.stages.length := by
  simpa [gauges] using congrArg List.length h

/-- The sink after one command. -/
theorem sink_of_step {ch ch₁ : Chain σ} {c : Command} {outcome : Outcome}
    (hstep : ch.step 0 c = (ch₁, outcome)) :
    ch₁.sink = deliver ch.sink (Arrival.beyond ch.stages.length ⟨ch, c⟩) := by
  have hsink := sink_step ch c
  rw [hstep] at hsink
  rw [hsink, Arrival.beyond, Arrival.reaches, List.take_length]
  cases goesThrough ch.stages c <;> rfl

/-- **The sink takes the commands that come to the end of the row**, all of them, in their
order, also one that it refuses. -/
theorem Traced.sink {cs : List Command} {ch ch' : Chain σ} {r : Option Fault}
    {tr : List (Arrival σ)} (h : Traced cs ch tr ch' r) :
    ch'.sink = deliver ch.sink (reaching ch.stages.length tr) := by
  induction h with
  | nil | misused => rfl
  | answered _ hstep _ ih =>
    rw [ih, sink_of_step hstep, length_stages_of_gauges (gauges_of_step hstep), reaching_cons,
      deliver_append]
  | stopped _ hstep =>
    rw [reaching_singleton]
    exact sink_of_step hstep
  | @replayed c d cs content ch ch₁ ch₂ ch₃ k r tr tr' _ hstep hreplay _ ihreplay ihrest =>
    have hlength := length_stages_of_gauges (gauges_of_step hstep)
    have hlength' := length_stages_of_gauges
      (gauges_leaveReplay_of_enterReplay hreplay.issues.gauges)
    have hinside : ch₂.sink = deliver ch₁.sink (reaching ch₁.stages.length tr) := by
      simpa [Chain.enterReplay] using ihreplay
    have hleft : (ch₂.leaveReplay k).sink = ch₂.sink := rfl
    rw [ihrest, hlength', hleft, hinside, sink_of_step hstep, hlength, reaching_cons,
      reaching_append, deliver_append, deliver_append]
  | @interrupted c d cs content ch ch₁ ch₂ k f tr _ hstep _ ih =>
    have hlength := length_stages_of_gauges (gauges_of_step hstep)
    have hinside : ch₂.sink = deliver ch₁.sink (reaching ch₁.stages.length tr) := by
      simpa [Chain.enterReplay] using ih
    have hleft : (ch₂.leaveReplay k).sink = ch₂.sink := rfl
    rw [hleft, hinside, sink_of_step hstep, hlength, reaching_cons, deliver_append]

/-! ### Calls one after the other -/

/-- The traces of calls at the head, one after the other, whatever comes of each of them. -/
inductive CallsTraced : List Command → Chain σ → List (Arrival σ) → Chain σ → Prop
  /-- No call. -/
  | nil (ch : Chain σ) : CallsTraced [] ch [] ch
  /-- One call, and those after it. -/
  | cons {c : Command} {cs : List Command} {ch ch₁ ch₂ : Chain σ} {r : Option Fault}
      {tr tr' : List (Arrival σ)} (hc : Traced [c] ch tr ch₁ r) (hcs : CallsTraced cs ch₁ tr' ch₂) :
      CallsTraced (c :: cs) ch (tr ++ tr') ch₂

/-- Every row of calls has a trace. -/
theorem exists_callsTraced (ch : Chain σ) (cs : List Command) :
    ∃ tr, CallsTraced cs ch tr (ch.calls cs) := by
  induction cs generalizing ch with
  | nil => exact ⟨_, .nil ch⟩
  | cons c cs ih =>
    obtain ⟨tr, htr⟩ := issues_iff_exists_traced.1 (issues_issueAll ch [c])
    obtain ⟨tr', htr'⟩ := ih (ch.issue 0 c).1
    exact ⟨_, .cons htr htr'⟩

namespace CallsTraced

variable {cs : List Command} {ch ch' : Chain σ} {tr : List (Arrival σ)}

theorem calls_eq (h : CallsTraced cs ch tr ch') : ch.calls cs = ch' := by
  induction h with
  | nil => rfl
  | @cons c cs ch ch₁ ch₂ r tr tr' hc _ ih =>
    have hone : (ch.issue 0 c).1 = ch₁ := congrArg Prod.fst (issues_iff.1 hc.issues)
    rw [calls, List.foldl_cons, hone]
    exact ih

theorem inOrder (h : CallsTraced cs ch tr ch') : ∀ a ∈ tr, a.command.InOrder := by
  induction h with
  | nil => nofun
  | cons hc _ ih => exact List.forall_mem_append.2 ⟨fun a ha => (hc.passes a ha).2, ih⟩

theorem tap (h : CallsTraced cs ch tr ch') {k : Nat} {seen : Array Command}
    (hk : ch.stages[k]? = some (.tap seen)) :
    ch'.stages[k]? = some (.tap (seen ++ (reaching k tr).toArray)) := by
  induction h generalizing seen with
  | nil => simpa using hk
  | cons hc _ ih => simpa using ih (hc.tap hk)

theorem sink (h : CallsTraced cs ch tr ch') :
    ch'.sink = deliver ch.sink (reaching ch.stages.length tr) := by
  induction h with
  | nil => rfl
  | cons hc _ ih =>
    rw [ih, hc.sink, length_stages_of_gauges hc.issues.gauges, reaching_append, deliver_append]

end CallsTraced

/-! ### From moment to moment -/

/-- The chains that the commands of a trace met, one after the other, and the last one. -/
def moments (tr : List (Arrival σ)) (last : Chain σ) : List (Chain σ) :=
  tr.map Arrival.chain ++ [last]

section Pairwise

variable {R : Chain σ → Chain σ → Prop} (hrefl : ∀ ch, R ch ch)
  (htrans : ∀ a b c, R a b → R b c → R a c)

include htrans

omit [Sink σ] in
theorem pairwise_cons_of_rel {a b : Chain σ} {chs : List (Chain σ)} (hab : R a b)
    (h : (b :: chs).Pairwise R) : (a :: chs).Pairwise R := by
  obtain ⟨hb, hchs⟩ := List.pairwise_cons.1 h
  exact List.pairwise_cons.2 ⟨fun c hc => htrans a b c hab (hb c hc), hchs⟩

omit [Sink σ] in
/-- Where one trace follows another, what relates the moments of each relates all of them. -/
theorem pairwise_moments_append {tr tr' : List (Arrival σ)} {ch ch₁ ch₂ ch₃ : Chain σ}
    (h : (ch :: moments tr ch₁).Pairwise R) (hjoin : R ch₁ ch₂)
    (h' : (ch₂ :: moments tr' ch₃).Pairwise R) :
    (ch :: moments (tr ++ tr') ch₃).Pairwise R := by
  obtain ⟨hbefore, -, hlast⟩ :=
    List.pairwise_append.1 (show ((ch :: tr.map Arrival.chain) ++ [ch₁]).Pairwise R from h)
  obtain ⟨hnext, hafter⟩ := List.pairwise_cons.1 h'
  have hrow : ch :: moments (tr ++ tr') ch₃ = (ch :: tr.map Arrival.chain) ++ moments tr' ch₃ := by
    simp [moments]
  rw [hrow]
  refine List.pairwise_append.2 ⟨hbefore, hafter, fun a ha b hb => ?_⟩
  exact htrans _ _ _ (hlast a ha ch₁ List.mem_cons_self) (htrans _ _ _ hjoin (hnext b hb))

variable (hstep : ∀ ch c, R ch (ch.step 0 c).1) (henter : ∀ ch k, R ch (ch.enterReplay k))
  (hleave : ∀ ch k, R ch (ch.leaveReplay k))

include hrefl hstep henter hleave

/-- **What leads from before each step to after it leads from each moment of a course to every
later one**, if it does so over the begin and the end of a replay as well. -/
theorem Traced.pairwise {cs : List Command} {ch ch' : Chain σ} {r : Option Fault}
    {tr : List (Arrival σ)} (h : Traced cs ch tr ch' r) : (ch :: moments tr ch').Pairwise R := by
  have next : ∀ {ch ch₁ : Chain σ} {d : Command} {o : Outcome}, ch.step 0 d = (ch₁, o) →
      R ch ch₁ := by
    intro ch ch₁ d o hs
    have := hstep ch d
    rwa [hs] at this
  -- The first command meets the chain that is there before it.
  have arrive : ∀ {ch ch' : Chain σ} {d : Command} {tr : List (Arrival σ)},
      (ch :: moments tr ch').Pairwise R → (ch :: moments (⟨ch, d⟩ :: tr) ch').Pairwise R := by
    intro ch ch' d tr h
    exact List.pairwise_cons.2 ⟨List.forall_mem_cons.2 ⟨hrefl ch, (List.pairwise_cons.1 h).1⟩, h⟩
  induction h with
  | nil ch | misused => simp [moments, hrefl]
  | answered _ hs _ ih => exact arrive (pairwise_cons_of_rel htrans (next hs) ih)
  | stopped _ hs => exact arrive (by simp [moments, next hs])
  | replayed _ hs _ _ ihreplay ihrest =>
    have hreplay := pairwise_cons_of_rel htrans (htrans _ _ _ (next hs) (henter _ _)) ihreplay
    exact arrive (pairwise_moments_append htrans hreplay (hleave _ _) ihrest)
  | @interrupted c d cs content ch ch₁ ch₂ k f tr _ hs _ ihreplay =>
    have hreplay := pairwise_cons_of_rel htrans (htrans _ _ _ (next hs) (henter _ _)) ihreplay
    have hlast : (ch₂.leaveReplay k :: moments [] (ch₂.leaveReplay k)).Pairwise R := by
      simp [moments, hrefl]
    have hleft := pairwise_moments_append htrans hreplay (hleave ch₂ k) hlast
    rw [List.append_nil] at hleft
    exact arrive hleft

/-- The same for calls one after the other, whatever comes of each of them. -/
theorem CallsTraced.pairwise {cs : List Command} {ch ch' : Chain σ} {tr : List (Arrival σ)}
    (h : CallsTraced cs ch tr ch') : (ch :: moments tr ch').Pairwise R := by
  induction h with
  | nil ch => simp [moments, hrefl]
  | cons hc _ ih =>
    exact pairwise_moments_append htrans (hc.pairwise hrefl htrans hstep henter hleave) (hrefl _) ih

end Pairwise

/-- What a command of a trace meets has grown when the course is over. -/
theorem Traced.growsTo {cs : List Command} {ch ch' : Chain σ} {r : Option Fault}
    {tr : List (Arrival σ)} (h : Traced cs ch tr ch' r) : ∀ a ∈ tr, a.chain.GrowsTo ch' := by
  have hall := h.pairwise GrowsTo.refl (fun _ _ _ => GrowsTo.trans) growsTo_step
    growsTo_enterReplay growsTo_leaveReplay
  obtain ⟨-, -, hlast⟩ := List.pairwise_append.1 (List.pairwise_cons.1 hall).2
  exact fun a ha => hlast _ (List.mem_map_of_mem ha) ch' List.mem_cons_self

/-- Of any two moments of calls, the later one has grown from the earlier one. -/
theorem CallsTraced.growsTo {cs : List Command} {ch ch' : Chain σ} {tr : List (Arrival σ)}
    (h : CallsTraced cs ch tr ch') : (ch :: moments tr ch').Pairwise GrowsTo :=
  h.pairwise GrowsTo.refl (fun _ _ _ => GrowsTo.trans) growsTo_step growsTo_enterReplay
    growsTo_leaveReplay

/-- At all moments of calls the scopes fit the recordings, if they did at first. -/
theorem CallsTraced.fits {cs : List Command} {ch ch' : Chain σ} {tr : List (Arrival σ)}
    (h : CallsTraced cs ch tr ch') (hch : ∀ s ∈ ch.stages, s.Fits) :
    ∀ st ∈ ch :: moments tr ch', ∀ s ∈ st.stages, s.Fits := by
  have hkept := h.pairwise (R := fun st st' => (∀ s ∈ st.stages, s.Fits) → ∀ s ∈ st'.stages, s.Fits)
    (fun _ => id) (fun _ _ _ h h' => h' ∘ h)
    (fun st c hst => stages_step st c ▸ forall_walk (fun _ hs => hs.receive c) hst)
    (fun _ k hst => forall_modify (P := Stage.Fits) (fun _ => Stage.Fits.enterReplay) hst k)
    (fun _ k hst => forall_modify (P := Stage.Fits) (fun _ => Stage.Fits.leaveReplay) hst k)
  exact List.forall_mem_cons.2 ⟨hch, fun st hst => (List.pairwise_cons.1 hkept).1 st hst hch⟩

end Chain

end SceneReplay
