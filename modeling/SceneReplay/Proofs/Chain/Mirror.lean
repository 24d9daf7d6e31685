import SceneReplay.Proofs.Archive.Contents

/-!
# The same commands with more room for replays

Two chains *mirror* each other if they have the same stages with the same recordings
and scopes, the same sink and the same log; how deeply replays may be nested, how many
are in progress and what taps have seen may differ
(`SceneReplay.Chain.Mirrors`). A chain has *no less room* than another if each of its
filters could begin at least as many replays (`SceneReplay.Chain.Roomier`).

The gauge of a filter decides one thing only: whether a replay begins or is reported as
nested too deeply. Hence a course that adds no such report is repeated, command by
command, by every chain that mirrors the first one and has no less room
(`SceneReplay.Chain.Issues.mirrored`). The room needs no care along the way, as every
course leaves the gauges as they were.
-/

namespace SceneReplay

namespace ArchiveFilter

/-! ### Filters with another gauge -/

/-- The filter with another limit and another number of replays in progress. -/
def withGauge (f : ArchiveFilter) (limit depth : Nat) : ArchiveFilter :=
  { f with limit := limit, depth := depth }

theorem record_withGauge (f : ArchiveFilter) (limit depth : Nat) (kind : StreamKind)
    (index : Nat) (next : Scope) (c : Command) :
    (f.withGauge limit depth).record kind index next c
      = ((f.record kind index next c).1.withGauge limit depth,
        (f.record kind index next c).2) := by
  unfold record
  cases kind <;>
  · simp only [registry, withGauge]
    split <;> rfl

/-- **The gauge decides about replays only**: with another one, the filter does the
same, and it answers the same unless it is asked for a replay. -/
theorem receive_withGauge (f : ArchiveFilter) (limit depth : Nat) (c : Command) :
    ((f.withGauge limit depth).receive c).1 = (f.receive c).1.withGauge limit depth ∧
      (((f.withGauge limit depth).receive c).2 = (f.receive c).2 ∨
        ∃ kind s, (f.receive c).2 = f.replay kind s ∧
          ((f.withGauge limit depth).receive c).2 = (f.withGauge limit depth).replay kind s) := by
  have hcapture : (f.withGauge limit depth).capture = f.capture := rfl
  unfold receive
  rw [show (f.withGauge limit depth).scope = f.scope from rfl]
  cases f.scope with
  | idle =>
    unfold receiveIdle
    cases c.role with
    | archiveReference =>
      simp only
      rw [show (f.withGauge limit depth).archives = f.archives from rfl]
      cases f.archives.find? c.subject with
      | none => exact ⟨rfl, Or.inl rfl⟩
      | some s => exact ⟨rfl, Or.inr ⟨.archive, s, rfl, rfl⟩⟩
    | objectReference =>
      simp only
      rw [show (f.withGauge limit depth).objects = f.objects from rfl]
      cases f.objects.find? c.subject with
      | none => exact ⟨rfl, Or.inl rfl⟩
      | some s => exact ⟨rfl, Or.inr ⟨.object, s, rfl, rfl⟩⟩
    | _ => exact ⟨rfl, Or.inl rfl⟩
  | archive index nesting =>
    unfold receiveInArchive
    cases c.role with
    | archiveEnd =>
      cases nesting with
      | zero => exact ⟨rfl, Or.inl rfl⟩
      | succ n => simp [record_withGauge]
    | comment =>
      simp only [record_withGauge, hcapture]
      split <;> simp
    | _ => simp [record_withGauge]
  | object index =>
    unfold receiveInObject
    cases c.role with
    | objectEnd => exact ⟨rfl, Or.inl rfl⟩
    | comment =>
      simp only [record_withGauge, hcapture]
      split <;> simp
    | _ => simp [record_withGauge]

end ArchiveFilter

theorem Log.count_add (log : Log) (r : Report) (code : Report.Code) :
    (log.add r).count (some code) = log.count (some code) + if r.code == code then 1 else 0 := by
  simp [Log.count, Log.add, Array.countP_push]

/-- A report of a replay nested too deeply. -/
def Reaction.IsTooDeep : Reaction → Prop
  | .report r => r.code = .nesting
  | _ => False

namespace ArchiveFilter

/-- With no less room, a filter answers the same, unless the answer was that a replay
would be nested too deeply. -/
theorem receive_withGauge_of_room {f : ArchiveFilter} {limit depth : Nat} {c : Command}
    (hroom : f.limit + depth ≤ limit + f.depth) (hdeep : ¬ (f.receive c).2.IsTooDeep) :
    (f.withGauge limit depth).receive c
      = ((f.receive c).1.withGauge limit depth, (f.receive c).2) := by
  obtain ⟨hstate, hsame | ⟨kind, s, hf, hg⟩⟩ := f.receive_withGauge limit depth c
  · exact Prod.ext hstate hsame
  · refine Prod.ext hstate ?_
    rw [hf] at hdeep ⊢
    rw [hg]
    by_cases hlimit : f.limit ≤ f.depth
    · -- The report of nesting is excluded.
      exact absurd (by simp [replay, hlimit, Reaction.IsTooDeep, tooDeep, Report.ofError]) hdeep
    · have hlimit' : ¬ (f.withGauge limit depth).limit ≤ (f.withGauge limit depth).depth := by
        change ¬ limit ≤ depth
        omega
      simp only [replay, if_neg hlimit, if_neg hlimit']

end ArchiveFilter

/-! ### Stages that mirror each other -/

/-- Two stages are of the same kind; filters have the same recordings and the same
scope. -/
inductive Stage.Mirrors : Stage → Stage → Prop
  /-- Relays are all alike. -/
  | relay : Mirrors .relay .relay
  /-- Taps may have seen other commands. -/
  | tap (seen other : Array Command) : Mirrors (.tap seen) (.tap other)
  /-- Filters may have other gauges. -/
  | archive (f : ArchiveFilter) (limit depth : Nat) :
      Mirrors (.archive f) (.archive (f.withGauge limit depth))

/-- Whether the second gauge leaves at least the room of the first one. -/
def NoLessRoom (gauge other : Option (Nat × Nat)) : Prop :=
  ∀ g h, gauge = some g → other = some h → g.1 + h.2 ≤ h.1 + g.2

namespace Stage

theorem Mirrors.refl (s : Stage) : s.Mirrors s := by
  cases s with
  | relay => exact .relay
  | tap seen => exact .tap seen seen
  | archive f => exact .archive f f.limit f.depth

theorem Mirrors.enterReplay {s t : Stage} (h : s.Mirrors t) :
    s.enterReplay.Mirrors t.enterReplay := by
  cases h with
  | relay => exact .relay
  | tap seen other => exact .tap seen other
  | archive f limit depth =>
    exact .archive { f with depth := f.depth + 1 } limit (depth + 1)

theorem Mirrors.leaveReplay {s t : Stage} (h : s.Mirrors t) :
    s.leaveReplay.Mirrors t.leaveReplay := by
  cases h with
  | relay => exact .relay
  | tap seen other => exact .tap seen other
  | archive f limit depth =>
    exact .archive { f with depth := f.depth - 1 } limit (depth - 1)

/-- Stages that mirror each other answer alike. -/
theorem Mirrors.receive {s t : Stage} (h : s.Mirrors t) {c : Command}
    (hroom : NoLessRoom s.gauge? t.gauge?) (hdeep : ¬ (s.receive c).2.IsTooDeep) :
    (s.receive c).1.Mirrors (t.receive c).1 ∧ (t.receive c).2 = (s.receive c).2 := by
  cases h with
  | relay => exact ⟨.relay, rfl⟩
  | tap seen other => exact ⟨.tap _ _, rfl⟩
  | archive f limit depth =>
    have hroom : f.limit + depth ≤ limit + f.depth := hroom _ _ rfl rfl
    have hdeep : ¬ (f.receive c).2.IsTooDeep := hdeep
    have hreceive := ArchiveFilter.receive_withGauge_of_room hroom hdeep
    constructor
    · change Mirrors (.archive (f.receive c).1)
        (.archive ((f.withGauge limit depth).receive c).1)
      rw [hreceive]
      exact .archive _ limit depth
    · change ((f.withGauge limit depth).receive c).2 = (f.receive c).2
      rw [hreceive]

end Stage

namespace Chain

/-- **Rows of stages that mirror each other** take a command equally far. -/
theorem walk_mirrors {ss ts : List Stage} (h : List.Forall₂ Stage.Mirrors ss ts)
    (hroom : List.Forall₂ NoLessRoom (ss.map Stage.gauge?) (ts.map Stage.gauge?)) {c : Command}
    (hdeep : ¬ (walk ss c).2.1.IsTooDeep) :
    List.Forall₂ Stage.Mirrors (walk ss c).1 (walk ts c).1 ∧
      (walk ts c).2 = (walk ss c).2 := by
  induction h with
  | nil => exact ⟨.nil, rfl⟩
  | @cons s t ss ts hst htail ih =>
    obtain ⟨hroom_head, hroom_tail⟩ := List.forall₂_cons.1 hroom
    rcases hs : s.receive c with ⟨s', reaction⟩
    rcases ht : t.receive c with ⟨t', reaction'⟩
    by_cases hpass : reaction = .pass
    · subst hpass
      have hmirror := hst.receive hroom_head (c := c) (by rw [hs]; exact id)
      rw [hs, ht] at hmirror
      obtain ⟨hmirror, rfl⟩ := hmirror
      rw [walk_cons_of_pass hs] at hdeep ⊢
      rw [walk_cons_of_pass ht]
      obtain ⟨hrows, hrest⟩ := ih hroom_tail hdeep
      exact ⟨.cons hmirror hrows, by simp only [hrest]⟩
    · rw [walk_cons_of_ne_pass hs hpass] at hdeep ⊢
      have hmirror := hst.receive hroom_head (c := c) (by rw [hs]; exact hdeep)
      rw [hs, ht] at hmirror
      obtain ⟨hmirror, rfl⟩ := hmirror
      rw [walk_cons_of_ne_pass ht hpass]
      exact ⟨.cons hmirror htail, rfl⟩

/-! ### Chains that mirror each other -/

variable {σ : Type}

/-- **Two chains mirror each other**: they differ in gauges and in what taps saw, and in
nothing else. -/
structure Mirrors (ch other : Chain σ) : Prop where
  /-- The stages mirror each other. -/
  stages : List.Forall₂ Stage.Mirrors ch.stages other.stages
  /-- The sinks agree. -/
  sink : other.sink = ch.sink
  /-- The reports agree. -/
  log : other.log = ch.log

theorem Mirrors.refl (ch : Chain σ) : ch.Mirrors ch :=
  ⟨List.forall₂_same.2 fun s _ => .refl s, rfl, rfl⟩

/-- Each filter of the other chain could begin at least as many replays. -/
def Roomier (ch other : Chain σ) : Prop := List.Forall₂ NoLessRoom ch.gauges other.gauges

theorem Roomier.refl (ch : Chain σ) : ch.Roomier ch := by
  refine List.forall₂_same.2 fun gauge _ g h hg hh => ?_
  obtain rfl := Option.some.inj (hg.symm.trans hh)
  exact Nat.le_refl _

/-- How many replays were reported as nested too deeply. -/
def nestings (ch : Chain σ) : Nat := ch.log.count (some .nesting)

theorem forall₂_modify {α β : Type} {R : α → β → Prop} {m : α → α} {n : β → β}
    (hmn : ∀ a b, R a b → R (m a) (n b)) {as : List α} {bs : List β}
    (h : List.Forall₂ R as bs) (k : Nat) : List.Forall₂ R (as.modify k m) (bs.modify k n) := by
  induction h generalizing k with
  | nil => cases k <;> exact .nil
  | cons hab htail ih =>
    cases k with
    | zero => exact .cons (hmn _ _ hab) htail
    | succ k => exact .cons hab (ih k)

theorem forall₂_modify_left {α β : Type} {R : α → β → Prop} {m : α → α}
    (hm : ∀ a b, R a b → R (m a) b) {as : List α} {bs : List β} (h : List.Forall₂ R as bs)
    (k : Nat) : List.Forall₂ R (as.modify k m) bs := by
  have hid := forall₂_modify (n := id) hm h k
  rwa [List.modify_id] at hid

theorem Mirrors.enterReplay {ch other : Chain σ} (h : ch.Mirrors other) (k : Nat) :
    (ch.enterReplay k).Mirrors (other.enterReplay k) :=
  ⟨forall₂_modify (fun _ _ => Stage.Mirrors.enterReplay) h.stages k, h.sink, h.log⟩

theorem Mirrors.leaveReplay {ch other : Chain σ} (h : ch.Mirrors other) (k : Nat) :
    (ch.leaveReplay k).Mirrors (other.leaveReplay k) :=
  ⟨forall₂_modify (fun _ _ => Stage.Mirrors.leaveReplay) h.stages k, h.sink, h.log⟩

/-- A replay that begins in both chains takes the same from both. -/
theorem Roomier.enterReplay {ch other : Chain σ} (h : ch.Roomier other) (k : Nat) :
    (ch.enterReplay k).Roomier (other.enterReplay k) := by
  rw [Roomier, gauges_enterReplay, gauges_enterReplay]
  refine forall₂_modify (fun gauge gauge' hroom => ?_) h k
  rintro g g' hg hg'
  obtain ⟨a, ha, rfl⟩ := Option.map_eq_some_iff.1 hg
  obtain ⟨b, hb, rfl⟩ := Option.map_eq_some_iff.1 hg'
  have := hroom a b ha hb
  simp only
  omega

/-- Room is a matter of gauges. -/
theorem Roomier.of_gauges {ch ch₁ other other₁ : Chain σ} (h : ch.Roomier other)
    (hch : ch₁.gauges = ch.gauges) (hother : other₁.gauges = other.gauges) :
    ch₁.Roomier other₁ := by
  rw [Roomier, hch, hother]
  exact h

variable [Sink σ]

/-- What a step does to the number of replays reported as nested too deeply. -/
theorem nestings_step (ch : Chain σ) (c : Command) :
    ch.nestings ≤ (ch.step 0 c).1.nestings ∧
      ((walk ch.stages c).2.1.IsTooDeep → ch.nestings < (ch.step 0 c).1.nestings) := by
  simp only [step, List.drop_zero]
  rcases walk ch.stages c with ⟨ss, reaction, passed⟩
  cases reaction with
  | report r =>
    simp only [nestings, addReport, Log.count_add, Reaction.IsTooDeep]
    refine ⟨Nat.le_add_right _ _, fun hr => ?_⟩
    simp [hr]
  | _ => exact ⟨Nat.le_refl ch.nestings, False.elim⟩

theorem nestings_le_of_step {ch ch₁ : Chain σ} {c : Command} {outcome : Outcome}
    (h : ch.step 0 c = (ch₁, outcome)) : ch.nestings ≤ ch₁.nestings := by
  have hstep := (nestings_step ch c).1
  rwa [h] at hstep

/-- Reports stay. -/
theorem Issues.nestings_le {cs : List Command} {ch ch' : Chain σ} {r : Option Fault}
    (h : Issues cs ch ch' r) : ch.nestings ≤ ch'.nestings :=
  h.preserves (P := fun st => ch.nestings ≤ st.nestings)
    (fun st d _ hst => Nat.le_trans hst (nestings_step st d).1) (fun _ _ hst => hst)
    (fun _ _ hst => hst) (Nat.le_refl _)

/-- **One command from the head**, in two chains that mirror each other. -/
theorem Mirrors.step {ch ch₁ other : Chain σ} {c : Command} {outcome : Outcome}
    (h : ch.Mirrors other) (hroom : ch.Roomier other) (hstep : ch.step 0 c = (ch₁, outcome))
    (hdeep : ch₁.nestings ≤ ch.nestings) :
    ∃ other₁, other.step 0 c = (other₁, outcome) ∧ ch₁.Mirrors other₁ := by
  have hno : ¬ (walk ch.stages c).2.1.IsTooDeep := by
    intro htoo
    have := (nestings_step ch c).2 htoo
    rw [hstep] at this
    exact absurd hdeep (Nat.not_le.2 this)
  obtain ⟨hrows, hrest⟩ := walk_mirrors h.stages hroom hno
  simp only [Chain.step, List.drop_zero, List.take_zero, List.nil_append] at hstep ⊢
  rw [h.sink, h.log]
  rcases hw : walk ch.stages c with ⟨ss, reaction, passed⟩
  rcases hw' : walk other.stages c with ⟨ts, reaction', passed'⟩
  rw [hw, hw'] at hrows hrest
  rw [hw] at hstep
  obtain ⟨rfl, rfl⟩ := Prod.mk.inj hrest
  cases reaction' <;>
  · simp only [Prod.mk.injEq] at hstep
    obtain ⟨rfl, rfl⟩ := hstep
    exact ⟨_, rfl, hrows, rfl, by simp [addReport]⟩

/-- **A course without reports of nesting is repeated by every chain that mirrors the
first one and has no less room.** -/
theorem Issues.mirrored {cs : List Command} {ch ch' other : Chain σ} {r : Option Fault}
    (h : Issues cs ch ch' r) (hmirror : ch.Mirrors other) (hroom : ch.Roomier other)
    (hdeep : ch'.nestings ≤ ch.nestings) :
    ∃ other', Issues cs other other' r ∧ ch'.Mirrors other' := by
  induction h generalizing other with
  | nil ch => exact ⟨other, .nil other, hmirror⟩
  | misused hc => exact ⟨other, .misused hc, hmirror⟩
  | answered hc hs hrest ih =>
    have hfirst := nestings_le_of_step hs
    have hlast := hrest.nestings_le
    obtain ⟨other₁, hs', hmirror₁⟩ := hmirror.step hroom hs (by omega)
    obtain ⟨other', hrest', hmirror'⟩ := ih hmirror₁
      (hroom.of_gauges (gauges_of_step hs) (gauges_of_step hs')) (by omega)
    exact ⟨other', .answered hc hs' hrest', hmirror'⟩
  | stopped hc hs =>
    obtain ⟨other₁, hs', hmirror₁⟩ := hmirror.step hroom hs hdeep
    exact ⟨other₁, .stopped hc hs', hmirror₁⟩
  | @replayed c d cs content ch ch₁ ch₂ ch₃ k r hc hs hreplay hrest ihreplay ihrest =>
    -- The replay and what follows it add no report of nesting either.
    have hfirst : ch.nestings ≤ ch₁.nestings := nestings_le_of_step hs
    have hmiddle : ch₁.nestings ≤ ch₂.nestings := hreplay.nestings_le
    have hlast : ch₂.nestings ≤ ch₃.nestings := hrest.nestings_le
    obtain ⟨other₁, hs', hmirror₁⟩ := hmirror.step hroom hs (by omega)
    have hroom₁ := hroom.of_gauges (gauges_of_step hs) (gauges_of_step hs')
    obtain ⟨other₂, hreplay', hmirror₂⟩ := ihreplay (hmirror₁.enterReplay k)
      (hroom₁.enterReplay k) (Nat.le_trans hlast (Nat.le_trans hdeep hfirst))
    have hroom₂ : (ch₂.leaveReplay k).Roomier (other₂.leaveReplay k) :=
      hroom₁.of_gauges (gauges_leaveReplay_of_enterReplay hreplay.gauges)
        (gauges_leaveReplay_of_enterReplay hreplay'.gauges)
    obtain ⟨other', hrest', hmirror'⟩ := ihrest (hmirror₂.leaveReplay k) hroom₂
      (Nat.le_trans hdeep (Nat.le_trans hfirst hmiddle))
    exact ⟨other', .replayed hc hs' hreplay' hrest', hmirror'⟩
  | @interrupted c d cs content ch ch₁ ch₂ k f hc hs hreplay ihreplay =>
    have hfirst : ch.nestings ≤ ch₁.nestings := nestings_le_of_step hs
    have hmiddle : ch₁.nestings ≤ ch₂.nestings := hreplay.nestings_le
    obtain ⟨other₁, hs', hmirror₁⟩ := hmirror.step hroom hs (Nat.le_trans hmiddle hdeep)
    obtain ⟨other₂, hreplay', hmirror₂⟩ := ihreplay (hmirror₁.enterReplay k)
      ((hroom.of_gauges (gauges_of_step hs) (gauges_of_step hs')).enterReplay k)
      (Nat.le_trans hdeep hfirst)
    exact ⟨_, .interrupted hc hs' hreplay', hmirror₂.leaveReplay k⟩

/-- Calls take no report back. -/
theorem nestings_le_calls (ch : Chain σ) (cs : List Command) :
    ch.nestings ≤ (ch.calls cs).nestings := by
  induction cs generalizing ch with
  | nil => exact Nat.le_refl _
  | cons c cs ih => exact Nat.le_trans (issues_issueAll ch [c]).nestings_le (ih _)

/-- **Calls without reports of nesting are repeated as well**, whatever comes of each of
them. -/
theorem Mirrors.calls {ch other : Chain σ} (hmirror : ch.Mirrors other) (hroom : ch.Roomier other)
    {cs : List Command} (hdeep : (ch.calls cs).nestings ≤ ch.nestings) :
    (ch.calls cs).Mirrors (other.calls cs) := by
  induction cs generalizing ch other with
  | nil => exact hmirror
  | cons c cs ih =>
    have hcourse := issues_issueAll ch [c]
    have hlater : (ch.issue 0 c).1.nestings ≤ (ch.calls (c :: cs)).nestings :=
      nestings_le_calls _ cs
    obtain ⟨other₁, hcourse', hmirror₁⟩ :=
      hcourse.mirrored hmirror hroom (Nat.le_trans hlater hdeep)
    obtain rfl : (other.issue 0 c).1 = other₁ := congrArg Prod.fst (issues_iff.1 hcourse')
    exact ih hmirror₁ (hroom.of_gauges hcourse.gauges hcourse'.gauges)
      (Nat.le_trans hdeep hcourse.nestings_le)

end Chain

end SceneReplay
