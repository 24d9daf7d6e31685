import SceneReplay.Proofs.Archive.FirstMatch
import SceneReplay.Proofs.Archive.Refused
import SceneReplay.Proofs.Chain.Observers

/-!
# The same call again

A replay issues what was recorded as if it stood in place, and what stands there may hold
definitions. So a call may leave more defined than it found, and the same call again meets other
recordings. What it defines a second time does not matter, as the first stream of a name counts.
What matters is a reference that came too early: the first time it found nothing, and a reference
to an archive was passed on, one to an object reported; and the second time it finds what was
defined behind it.

If there is no such reference, the second call goes the way of the first one. Its filter is in the
state in which the first call left it, and has recorded since what the other filter has recorded
since the beginning (`SceneReplay.ArchiveFilter.Repeats`). A name that the filter of the first
call finds it finds first, too, since it has what was there in the end of the first call; and a
name that was not found then is not found now.

`SceneReplay.Chain.Reachable.issue_again` says so of chains with one archive filter and any
observers, and that a reference to an archive that came too early is always noticed.
-/

namespace SceneReplay

namespace ArchiveFilter

/-! ### Recording the same once more -/

/-- **One filter has recorded since `stop` what another one has recorded since `start`**, and the
two are at the same point. -/
structure SameSince (start stop f g : ArchiveFilter) : Prop where
  /-- The limits agree. -/
  limit : g.limit = f.limit
  /-- Both keep comments, or neither does. -/
  capture : g.capture = f.capture
  /-- As many replays are in progress. -/
  depth : g.depth = f.depth
  /-- The scopes are the same, but for positions. -/
  shape : f.scope.SameShape g.scope
  /-- The streams since then are the same. -/
  since : ∀ kind, ∃ new, (f.registry kind).streams = (start.registry kind).streams ++ new ∧
    (g.registry kind).streams = (stop.registry kind).streams ++ new

/-- **The second filter repeats what the first one does.** -/
structure Repeats (start stop f g : ArchiveFilter) : Prop where
  /-- They have recorded the same. -/
  same : SameSince start stop f g
  /-- The scope of the first one fits its recordings. -/
  fits : f.Fits
  /-- So does that of the second one. -/
  fits' : g.Fits

variable {start stop f g : ArchiveFilter}

/-- One registry and the scope are replaced in both. -/
theorem SameSince.replace (h : SameSince start stop f g) (kind : StreamKind) {next next' : Scope}
    (hshape : next.SameShape next') (new : List Stream) :
    SameSince start stop (f.replace kind ⟨(start.registry kind).streams ++ new⟩ next)
      (g.replace kind ⟨(stop.registry kind).streams ++ new⟩ next') := by
  refine ⟨by simpa using h.limit, by simpa using h.capture, by simpa using h.depth,
    by simpa using hshape, fun other => ?_⟩
  rcases eq_or_ne other kind with rfl | hne
  · exact ⟨new, by rw [registry_replace], by rw [registry_replace]⟩
  · rw [f.registry_replace_of_ne kind _ next hne, g.registry_replace_of_ne kind _ next' hne]
    exact h.since other

/-- Both open a definition. -/
theorem SameSince.openStream (h : SameSince start stop f g) (kind : StreamKind) (name : Value) :
    SameSince start stop (f.openStream kind name) (g.openStream kind name) := by
  obtain ⟨new, hf, hg⟩ := h.since kind
  have hopen : ∀ f : ArchiveFilter, f.openStream kind name
      = f.replace kind ⟨(f.registry kind).streams ++ [Stream.opened name]⟩
        (f.openStream kind name).scope := by
    intro f
    cases kind <;> rfl
  rw [hopen f, hopen g, hf, hg, List.append_assoc, List.append_assoc]
  refine h.replace kind ?_ _
  cases kind
  · exact .archive _ _ 0
  · exact .object _ _

/-- **Both find the same**, if the first one finds nothing only under names under which nothing is
found in the end. -/
theorem SameSince.find? (h : SameSince start stop f g) {kind : StreamKind}
    (hclosed : (f.registry kind).AllClosed) (hgrows : f.GrowsTo stop) {name : Value}
    (hname : (f.registry kind).find? name = none → (stop.registry kind).find? name = none) :
    (g.registry kind).find? name = (f.registry kind).find? name := by
  obtain ⟨new, hf, hg⟩ := h.since kind
  have hlook : (g.registry kind).find? name
      = ((stop.registry kind).find? name).or (new.find? fun s => s.name.same name) := by
    rw [Registry.find?, hg, List.find?_append]
    rfl
  rw [hlook]
  cases hs : (f.registry kind).find? name with
  | none =>
    rw [Registry.find?, hf, List.find?_append, Option.or_eq_none_iff] at hs
    rw [hname (by rw [Registry.find?, hf, List.find?_append, hs.1, hs.2]; rfl), hs.2]
    rfl
  | some s =>
    obtain ⟨t, ht, hst⟩ := (hgrows kind).find? hs
    rw [ht, hst.closed (hclosed s (Registry.mem_of_find? hs))]
    rfl

/-- The stream that is recorded in was opened since then. -/
theorem SameSince.recording (h : SameSince start stop f g)
    (hstart : ∀ kind, (start.registry kind).AllClosed) {kind : StreamKind}
    {earlier earlier' : List Stream} {s s' : Stream} (hs : s.closed = false)
    (hf : (f.registry kind).streams = earlier ++ [s])
    (hg : (g.registry kind).streams = earlier' ++ [s']) :
    s' = s ∧ ∃ new, earlier = (start.registry kind).streams ++ new ∧
      earlier' = (stop.registry kind).streams ++ new := by
  obtain ⟨new, hf', hg'⟩ := h.since kind
  rw [hf'] at hf
  rw [hg'] at hg
  rcases List.eq_nil_or_concat new with rfl | ⟨new, t, rfl⟩
  · have hmem : s ∈ (start.registry kind).streams := by
      rw [List.append_nil] at hf
      simp [hf]
    exact absurd (hs.symm.trans (hstart kind s hmem)) Bool.false_ne_true
  · rw [List.concat_eq_append, ← List.append_assoc] at hf hg
    obtain ⟨hearlier, hlast⟩ := List.append_inj' hf rfl
    obtain ⟨hearlier', hlast'⟩ := List.append_inj' hg rfl
    refine ⟨?_, new, hearlier.symm, hearlier'.symm⟩
    exact (List.singleton_inj.1 hlast').symm.trans (List.singleton_inj.1 hlast)

/-- **The second filter answers as the first one does**, and goes on repeating it. -/
theorem Repeats.receive (h : Repeats start stop f g)
    (hstart : ∀ kind, (start.registry kind).AllClosed) (hgrows : f.GrowsTo stop) {c : Command}
    (hc : f.scope = .idle → ∀ kind : StreamKind, c.role = kind.reference →
      (f.registry kind).find? c.subject = none → (stop.registry kind).find? c.subject = none) :
    Repeats start stop (f.receive c).1 (g.receive c).1 ∧ (g.receive c).2 = (f.receive c).2 := by
  suffices hsame : SameSince start stop (f.receive c).1 (g.receive c).1 ∧
      (g.receive c).2 = (f.receive c).2 from
    ⟨⟨hsame.1, h.fits.receive (received f c), h.fits'.receive (received g c)⟩, hsame.2⟩
  cases htarget : f.scope.target? with
  | none =>
    have hidle : f.scope = .idle := Scope.target?_eq_none.1 htarget
    refine receive_alike_of_idle hidle (h.same.shape.idle_iff.2 hidle) h.same.limit h.same.depth
      h.same (fun kind => h.same.openStream kind c.subject) fun kind hrole => ?_
    have hfind := h.same.find? (h.fits.allClosed hidle kind) hgrows (hc hidle kind hrole)
    cases hs : (f.registry kind).find? c.subject with
    | none => exact Or.inl ⟨rfl, hfind.trans hs⟩
    | some s => exact Or.inr ⟨s, s, rfl, hfind.trans hs, rfl, rfl⟩
  | some target =>
    obtain ⟨kind, i⟩ := target
    obtain ⟨j, htarget'⟩ := h.same.shape.target? htarget
    obtain ⟨earlier, s, hstreams, hi, hs, -⟩ := h.fits.recorded kind i htarget
    obtain ⟨earlier', s', hstreams', hj, hs', -⟩ := h.fits'.recorded kind j htarget'
    obtain ⟨rfl, new, rfl, rfl⟩ := h.same.recording hstart hs hstreams hstreams'
    cases hclose : f.scope.closes c.role with
    | true =>
      rw [receive_closing htarget hstreams hi hs hclose,
        receive_closing htarget' hstreams' hj hs ((h.same.shape.closes_eq c.role).trans hclose),
        List.append_assoc, List.append_assoc]
      exact ⟨h.same.replace kind .idle _, rfl⟩
    | false =>
      rw [receive_recording htarget hstreams hi hs hclose,
        receive_recording htarget' hstreams' hj hs ((h.same.shape.closes_eq c.role).trans hclose),
        h.same.capture, List.append_assoc, List.append_assoc]
      exact ⟨h.same.replace kind (h.same.shape.advance c.role) _, rfl⟩

theorem Repeats.withDepth (h : Repeats start stop f g) (n : Nat) :
    Repeats start stop { f with depth := n } { g with depth := n } :=
  ⟨⟨h.same.limit, h.same.capture, rfl, h.same.shape, fun kind => by
    cases kind <;> [exact h.same.since .archive; exact h.same.since .object]⟩,
    h.fits.withDepth n, h.fits'.withDepth n⟩

theorem keepsReplays_repeats : KeepsReplays (Repeats start stop) where
  enter h := by
    rw [h.same.depth]
    exact h.withDepth _
  leave h := by
    rw [h.same.depth]
    exact h.withDepth _

/-- A filter that is idle as before repeats what it did, to begin with. -/
theorem repeats_refl (hf : f.Fits) (hg : g.Fits) (hidle : f.scope = .idle)
    (hidle' : g.scope = .idle) (hsetting : SameSetting f g) : Repeats f g f g := by
  refine ⟨⟨hsetting.limit, hsetting.capture, hsetting.depth, ?_, fun kind => ⟨[], ?_, ?_⟩⟩, hf, hg⟩
  · rw [hidle, hidle']
    exact .idle
  · exact (List.append_nil _).symm
  · exact (List.append_nil _).symm

end ArchiveFilter

/-! ### Rows before and after a call -/

/-- The stage as it was when it was new. -/
def Stage.renewed : Stage → Stage
  | .relay => .relay
  | .tap _ => .tap #[]
  | .archive f => .archive (.fresh f.limit f.capture)

namespace Chain

/-- Rows of the same new stages pair up. -/
theorem forall₂_related {R : ArchiveFilter → ArchiveFilter → Prop} {ss ts : List Stage}
    (h : ts.map Stage.renewed = ss.map Stage.renewed)
    (hR : ∀ f g, .archive f ∈ ss → .archive g ∈ ts → g.limit = f.limit →
      g.capture = f.capture → R f g) : List.Forall₂ (Stage.Related R) ss ts := by
  induction ss generalizing ts with
  | nil =>
    obtain rfl := List.map_eq_nil_iff.1 h
    exact .nil
  | cons s ss ih =>
    obtain ⟨t, ts, rfl, hst, hrest⟩ := List.map_eq_cons_iff.1 h
    refine .cons ?_ (ih hrest fun f g hf hg =>
      hR f g (List.mem_cons_of_mem s hf) (List.mem_cons_of_mem t hg))
    cases s with
    | relay =>
      cases t with
      | relay => exact .relay
      | tap | archive => cases hst
    | tap seen =>
      cases t with
      | tap other => exact .tap seen other
      | relay | archive => cases hst
    | archive f =>
      cases t with
      | archive g =>
        obtain ⟨hlimit, hcapture⟩ : g.limit = f.limit ∧ g.capture = f.capture := by
          simpa [Stage.renewed, ArchiveFilter.fresh] using hst
        exact .archive (hR f g List.mem_cons_self List.mem_cons_self hlimit hcapture)
      | relay | tap => cases hst

variable {σ : Type} [Sink σ]

/-- **Calls keep the stages**, up to what they have seen and recorded. -/
theorem Passes.renewed {cs : List Command} {ch st : Chain σ} (h : Passes cs ch st) :
    st.stages.map Stage.renewed = ch.stages.map Stage.renewed := by
  have hreceive : ∀ (s : Stage) (c : Command), (s.receive c).1.renewed = s.renewed := by
    intro s c
    cases s with
    | archive f =>
      have hsetting := (f.received c).sameSetting
      exact congrArg Stage.archive (congrArg₂ ArchiveFilter.fresh hsetting.limit hsetting.capture)
    | _ => rfl
  have hmodify : ∀ {m : Stage → Stage}, (∀ s, (m s).renewed = s.renewed) →
      ∀ (ss : List Stage) (k : Nat),
        (ss.modify k m).map Stage.renewed = ss.map Stage.renewed := by
    intro m hm ss k
    have hmap := map_modify (g := id) hm ss k
    rwa [List.modify_id] at hmap
  refine h.preserves (P := fun st => st.stages.map Stage.renewed = ch.stages.map Stage.renewed)
    (fun st d _ hst => ?_) (fun st k hst => ?_) (fun st k hst => ?_) rfl
  · rw [stages_step, map_walk hreceive, hst]
  · exact (hmodify (fun s => by cases s <;> rfl) st.stages k).trans hst
  · exact (hmodify (fun s => by cases s <;> rfl) st.stages k).trans hst

theorem Passes.length_stages {cs : List Command} {ch st : Chain σ} (h : Passes cs ch st) :
    st.stages.length = ch.stages.length := by
  simpa using congrArg List.length h.renewed

/-- One filter remains one filter. -/
theorem Passes.exists_filter {cs : List Command} {ch st : Chain σ} (h : Passes cs ch st)
    {f : ArchiveFilter} (hf : ch.archiveFilters = [f]) : ∃ g, st.archiveFilters = [g] := by
  have hfilters : ∀ ss : List Stage, (ss.map Stage.renewed).filterMap Stage.archiveFilter?
      = (ss.filterMap Stage.archiveFilter?).map fun f => .fresh f.limit f.capture := by
    intro ss
    rw [List.filterMap_map, List.map_filterMap]
    refine List.filterMap_congr fun s _ => ?_
    cases s <;> rfl
  have hsame : st.archiveFilters.map (fun f => ArchiveFilter.fresh f.limit f.capture)
      = [.fresh f.limit f.capture] := by
    rw [archiveFilters, ← hfilters, h.renewed, hfilters]
    exact congrArg (List.map _) hf
  obtain ⟨g, hg, -⟩ := List.map_eq_singleton_iff.1 hsame
  exact ⟨g, hg⟩

omit [Sink σ] in
/-- What the one filter of a chain is later on. -/
theorem GrowsTo.of_one_filter {ch st : Chain σ} (h : ch.GrowsTo st) {f g : ArchiveFilter}
    (hf : .archive f ∈ ch.stages) (hg : st.archiveFilters = [g]) : f.GrowsTo g := by
  obtain ⟨k, hk⟩ := List.getElem?_of_mem hf
  obtain ⟨g', hg', hgrows⟩ := h k f hk
  exact eq_of_archiveFilters hg (List.mem_of_getElem? hg') ▸ hgrows

omit [Sink σ] in
/-- **What comes to the end** is what the one filter of a chain passes. -/
theorem reaches_end {st : Chain σ} {f : ArchiveFilter} (hf : st.archiveFilters = [f])
    (c : Command) : Arrival.reaches st.stages.length ⟨st, c⟩ = (f.receive c).2.isPass := by
  obtain ⟨front, back, hstages, hfront, hback⟩ := exists_front_of_archiveFilters hf
  have hobservers : ∀ {ss : List Stage}, (∀ s ∈ ss, s.archiveFilter? = none) →
      goesThrough ss c = true := fun hss =>
    goesThrough_of_observers (fun s hs => by simp [Stage.isFilter, hss s hs]) c
  rw [Arrival.reaches, List.take_length, hstages, goesThrough_append, goesThrough_cons,
    hobservers hfront, hobservers (List.filterMap_eq_nil_iff.1 hback), Bool.true_and, Bool.and_true]
  rfl

/-! ### The second call -/

omit [Sink σ] in
/-- **A reference that finds nothing**: it came while a filter was idle that does not know the
name. -/
def Arrival.FindsNothing (kind : StreamKind) (a : Arrival σ) : Prop :=
  a.command.role = kind.reference ∧
    ∃ f, .archive f ∈ a.chain.stages ∧ f.scope = .idle ∧
      (f.registry kind).find? a.command.subject = none

section Again

variable {ch ch₁ : Chain Collector} {f g : ArchiveFilter} {cs : List Command}
  {tr : List (Arrival Collector)} {r : Option Fault}

/-- **Calls whose references find as much in the end** are repeated by the chain that they left
behind. -/
theorem Traced.again (htr : Traced cs ch tr ch₁ r) (hfits : ∀ s ∈ ch.stages, s.Fits)
    (hf : ch.archiveFilters = [f]) (hidle : f.scope = .idle) (hg : ch₁.archiveFilters = [g])
    (hidle' : g.scope = .idle) (hfound : ∀ a ∈ tr, ∀ kind, a.FindsNothing kind →
      (g.registry kind).find? a.command.subject = none) :
    ∃ tr' ch₂, Traced cs ch₁ tr' ch₂ r ∧ List.Forall₂ Arrival.SameWay tr tr' ∧
      SameOutput ch ch₁ ch₁ ch₂ := by
  have hfits₁ : ∀ s ∈ ch₁.stages, s.Fits := (Passes.of_issues htr.issues).fits hfits
  have hffits : f.Fits := hfits _ (mem_stages_of_archiveFilters hf)
  have hgfits : g.Fits := hfits₁ _ (mem_stages_of_archiveFilters hg)
  have hdepth : g.depth = f.depth := by
    obtain ⟨g', hg', -, -, hdepth⟩ := htr.issues.exists_filter hf
    obtain rfl : g = g' := by simpa [hg] using hg'
    exact hdepth
  have hrows : List.Forall₂ (Stage.Related (ArchiveFilter.Repeats f g)) ch.stages ch₁.stages := by
    refine forall₂_related (Passes.of_issues htr.issues).renewed
      fun f' g' hf' hg' hlimit hcapture => ?_
    obtain rfl := eq_of_archiveFilters hf hf'
    obtain rfl := eq_of_archiveFilters hg hg'
    exact ArchiveFilter.repeats_refl hffits hgfits hidle hidle' ⟨hlimit, hcapture, hdepth⟩
  have hanswers : ∀ a ∈ tr, AnswerAlike (ArchiveFilter.Repeats f g) a.chain.stages a.command := by
    intro a ha f' g' hf' hrepeats
    refine hrepeats.receive (hffits.allClosed hidle) ((htr.growsTo a ha).of_one_filter hf' hg)
      fun hidle' kind hrole hnone => ?_
    exact hfound a ha kind ⟨hrole, f', hf', hidle', hnone⟩
  obtain ⟨tr', ch₂, htr', hway, hstep⟩ :=
    htr.inStep ArchiveFilter.keepsReplays_repeats hanswers (InStep.refl hrows)
  exact ⟨tr', ch₂, htr', hway, hstep.output⟩

/-- **A reference to an archive that finds nothing is sent on.** -/
theorem Traced.mem_reaching_of_findsNothing (htr : Traced cs ch tr ch₁ r)
    (hf : ch.archiveFilters = [f]) {a : Arrival Collector} (ha : a ∈ tr)
    (hnothing : a.FindsNothing .archive) : a.command ∈ reaching ch.stages.length tr := by
  obtain ⟨hrole, f', hf', hidle, hnone⟩ := hnothing
  obtain ⟨hpasses, -⟩ := htr.passes a ha
  obtain ⟨f'', hone⟩ := hpasses.exists_filter hf
  obtain rfl := eq_of_archiveFilters hone hf'
  have hnone : f'.archives.find? a.command.subject = none := hnone
  have hpass : (f'.receive a.command).2 = .pass := by
    simp [ArchiveFilter.receive, ArchiveFilter.receiveIdle, hidle, hrole, StreamKind.reference,
      hnone]
  refine List.mem_map_of_mem (List.mem_filter.2 ⟨ha, ?_⟩)
  rw [← hpasses.length_stages, reaches_end hone, hpass]
  rfl

/-- **A reference to an archive that is known is not sent on**, whatever comes before it. -/
theorem Traced.not_mem_reaching_of_known (htr : Traced cs ch tr ch₁ r)
    (hf : ch.archiveFilters = [f]) {c : Command} (hrole : c.role = .archiveReference)
    (hknown : f.archives.find? c.subject ≠ none) : c ∉ reaching ch.stages.length tr := by
  intro hsent
  obtain ⟨a, ha, rfl⟩ := List.mem_map.1 hsent
  obtain ⟨ha, hreaches⟩ := List.mem_filter.1 ha
  obtain ⟨hpasses, -⟩ := htr.passes a ha
  obtain ⟨g, hone⟩ := hpasses.exists_filter hf
  rw [← hpasses.length_stages, reaches_end hone] at hreaches
  -- The filter knew the name at first, so it knows it here, and does not pass the reference.
  have hmove := g.received a.command
  rw [Reaction.isPass_iff.1 hreaches] at hmove
  obtain ⟨-, -, hpassed⟩ := hmove.of_pass
  have hunknown : g.archives.find? a.command.subject = none := by simpa [hrole] using hpassed
  obtain ⟨s, hs⟩ := Option.ne_none_iff_exists'.1 hknown
  have hgrows := hpasses.growsTo.of_one_filter (mem_stages_of_archiveFilters hf) hone
  obtain ⟨t, ht, -⟩ := (hgrows .archive).find? hs
  exact Option.some_ne_none t (ht.symm.trans hunknown)

/-- **The same call again.** Let a call be made at the head of a reachable chain with one archive
filter, idle before the call and after it, and let the same call be made once more. The first call
has a trace; take any trace of it.

If no reference of the trace found nothing while there is something under its name after the call,
then the second call ends as the first one did, delivers the same and makes the same reports, and
each tap sees the same commands again.

If some reference to an archive found nothing, and there is an archive under its name after the
call, then the second call does not deliver the same. -/
theorem Reachable.issue_again (hch : ch.Reachable) (hf : ch.archiveFilters = [f])
    (hidle : f.scope = .idle) {c : Command} (hissue : ch.issue 0 c = (ch₁, r))
    (hg : ch₁.archiveFilters = [g]) (hidle' : g.scope = .idle) :
    (∃ tr, Traced [c] ch tr ch₁ r) ∧
      ∀ tr, Traced [c] ch tr ch₁ r →
        ((∀ a ∈ tr, ∀ kind, a.FindsNothing kind →
            (g.registry kind).find? a.command.subject = none) →
          ∃ ch₂, ch₁.issue 0 c = (ch₂, r) ∧ SameOutput ch ch₁ ch₁ ch₂ ∧
            ∀ (k : Nat) (seen : Array Command), ch.stages[k]? = some (.tap seen) →
              ∃ more, ch₁.stages[k]? = some (.tap (seen ++ more)) ∧
                ch₂.stages[k]? = some (.tap (seen ++ more ++ more))) ∧
        ∀ a ∈ tr, a.FindsNothing .archive → g.archives.find? a.command.subject ≠ none →
          ¬ SameOutput ch ch₁ ch₁ (ch₁.issue 0 c).1 := by
  refine ⟨issues_iff_exists_traced.1 (issues_iff.2 hissue), fun tr htr => ⟨fun hfound => ?_, ?_⟩⟩
  · obtain ⟨tr', ch₂, htr', hway, houtput⟩ := htr.again hch.fits hf hidle hg hidle' hfound
    refine ⟨ch₂, issues_iff.1 htr'.issues, houtput, fun k seen hk => ?_⟩
    have hseen := htr.tap hk
    refine ⟨_, hseen, ?_⟩
    rw [htr'.tap hseen, reaching_of_sameWay hway]
  · rintro a ha hnothing hfound ⟨sent, reported, hsent, hsent', -, -⟩
    obtain ⟨tr', htr'⟩ := issues_iff_exists_traced.1 (issues_issueAll ch₁ [c])
    have hmem := htr.mem_reaching_of_findsNothing hf ha hnothing
    have hnot := htr'.not_mem_reaching_of_known hg hnothing.1 hfound
    have hfirst : sent = reaching ch.stages.length tr := by
      rw [htr.sink, toList_deliver] at hsent
      exact (List.append_cancel_left hsent).symm
    have hsecond : sent = reaching ch₁.stages.length tr' := by
      have hsink : (ch₁.issue 0 c).1.sink = _ := htr'.sink
      rw [hsink, toList_deliver] at hsent'
      exact (List.append_cancel_left hsent').symm
    exact hnot (hsecond ▸ hfirst ▸ hmem)

end Again

/-- What an archive holds that defines an archive before it refers to it, and refers to another
one that is never defined. -/
def early : List Command :=
  [referTo 'z', ⟨"ArchiveBegin", [.text [.char 'b']], some .empty⟩, world,
    ⟨"ArchiveEnd", [], none⟩, referTo 'b']

/-- A filter that has recorded this archive, and the one that it defines some times. -/
def earlyReader (times : Nat) : ArchiveFilter :=
  ⟨2, true, ⟨⟨.text [.char 'a'], early, true⟩ ::
    List.replicate times (⟨.text [.char 'b'], [world], true⟩ : Stream)⟩, .empty, .idle, 0⟩

/-- This archive is repeated, although its first replay defines another archive: two commands are
delivered by each replay. -/
theorem issue_again_early :
    ∃ (ch ch₁ ch₂ : Chain Collector) (f g : ArchiveFilter) (seen more : Array Command),
      ch.Reachable ∧ ch.stages = [.tap seen, .archive f] ∧ f.archives.streams.length = 1 ∧
      ch.issue 0 selfReference = (ch₁, none) ∧ ch₁.stages = [.tap (seen ++ more), .archive g] ∧
      g.archives.streams.length = 2 ∧ ch₁.sink.toList = [referTo 'z', world] ∧
      ch₁.issue 0 selfReference = (ch₂, none) ∧ SameOutput ch ch₁ ch₁ ch₂ ∧
      ch₂.stages[0]? = some (.tap (seen ++ more ++ more)) := by
  let definition : List Command :=
    ⟨"ArchiveBegin", [.text [.char 'a']], some .empty⟩ :: (early ++ [⟨"ArchiveEnd", [], none⟩])
  let more : Array Command := (selfReference :: (early ++ [world])).toArray
  let ch : Chain Collector :=
    ⟨[.tap definition.toArray, .archive (earlyReader 0)], .empty, .empty⟩
  let ch₁ : Chain Collector :=
    ⟨[.tap (definition.toArray ++ more), .archive (earlyReader 1)], ⟨#[referTo 'z', world]⟩, .empty⟩
  have hch : ch.Reachable := by
    let new : Chain Collector :=
      ((ofSink .empty).addStage (.archive (.fresh 2 true))).addStage (.tap #[])
    have hnew : new.Reachable :=
      .addStage rfl (.addStage ⟨2, true, by decide, by decide, rfl⟩ (.ofSink _))
    have hread : new.calls definition = ch := by rfl
    exact hread ▸ hnew.calls definition
  have hissue : ch.issue 0 selfReference = (ch₁, none) := by rfl
  obtain ⟨⟨tr, htr⟩, hall⟩ := hch.issue_again (f := earlyReader 0) (g := earlyReader 1) rfl rfl
    hissue rfl rfl
  have hsent : reaching 2 tr = [referTo 'z', world] := by
    have hsink := congrArg Collector.toList htr.sink
    rw [toList_deliver] at hsink
    exact hsink.symm
  have hfound : ∀ a ∈ tr, ∀ kind, a.FindsNothing kind →
      ((earlyReader 1).registry kind).find? a.command.subject = none := by
    intro a ha kind hnothing
    cases kind with
    | object => rfl
    | archive =>
      -- A reference that found nothing was sent on, and only one was.
      have hmem : a.command ∈ reaching 2 tr :=
        htr.mem_reaching_of_findsNothing (f := earlyReader 0) rfl ha hnothing
      rw [hsent] at hmem
      rcases List.mem_cons.1 hmem with heq | heq
      · rw [heq]
        rfl
      · exact absurd hnothing.1 (List.mem_singleton.1 heq ▸ Role.noConfusion)
  obtain ⟨ch₂, hagain, houtput, htaps⟩ := (hall tr htr).1 hfound
  obtain ⟨more', hmore, hmore'⟩ := htaps 0 definition.toArray rfl
  obtain rfl : more = more' :=
    (Array.append_right_inj definition.toArray).1 (Stage.tap.inj (Option.some.inj hmore))
  exact ⟨ch, ch₁, ch₂, _, _, _, more, hch, rfl, rfl, hissue, rfl, rfl, rfl, hagain, houtput, hmore'⟩

/-- What the archive `a` may hold: a reference to `b`, and then its definition. -/
def late : StreamKind → List Command
  | .archive => [referTo 'b', ⟨"ArchiveBegin", [.text [.char 'b']], some .empty⟩, world,
      ⟨"ArchiveEnd", [], none⟩]
  | .object => [⟨"ObjectInstance", [.text [.char 'b']], none⟩,
      ⟨"ObjectBegin", [.text [.char 'b']], none⟩, world, ⟨"ObjectEnd", [], none⟩]

/-- The definition of this archive. -/
def lateReading (kind : StreamKind) : List Command :=
  ⟨"ArchiveBegin", [.text [.char 'a']], some .empty⟩ :: (late kind ++ [⟨"ArchiveEnd", [], none⟩])

/-- A filter that has recorded this archive, and `b` some times. -/
def lateReader (kind : StreamKind) (times : Nat) : ArchiveFilter :=
  let a : Stream := ⟨.text [.char 'a'], late kind, true⟩
  let bs := List.replicate times (⟨.text [.char 'b'], [world], true⟩ : Stream)
  match kind with
  | .archive => ⟨2, true, ⟨a :: bs⟩, .empty, .idle, 0⟩
  | .object => ⟨2, true, ⟨[a]⟩, ⟨bs⟩, .idle, 0⟩

/-- **A reference to `a` that is not repeated**, though nothing is cut off and the filter is idle
in between: between a tap and a collector, the second reference to `a` leads to other commands at
the head and to other commands at the end than the first one. -/
def Surprises (content : List Command) : Prop :=
  ∃ (ch ch₁ ch₂ : Chain Collector) (f g : ArchiveFilter) (seen more more' : Array Command)
    (sent sent' : List Command),
    ch.Reachable ∧ ch.stages = [.tap seen, .archive f] ∧ f.scope = .idle ∧
      f.archives.find? selfReference.subject = some ⟨.text [.char 'a'], content, true⟩ ∧
      ch.issue 0 selfReference = (ch₁, none) ∧ ch₁.nestings = ch.nestings ∧
      ch₁.stages = [.tap (seen ++ more), .archive g] ∧ g.scope = .idle ∧
      ch₁.sink.toList = ch.sink.toList ++ sent ∧
      ch₁.issue 0 selfReference = (ch₂, none) ∧
      ch₂.stages[0]? = some (.tap (seen ++ more ++ more')) ∧ more'.size ≠ more.size ∧
      ch₂.sink.toList = ch₁.sink.toList ++ sent' ∧ sent' ≠ sent

/-- What is defined too late surprises the second time, be it an archive or an object. -/
theorem surprises_late : Surprises (late .archive) ∧ Surprises (late .object) := by
  let new : Chain Collector :=
    ((ofSink .empty).addStage (.archive (.fresh 2 true))).addStage (.tap #[])
  have hnew : new.Reachable :=
    .addStage rfl (.addStage ⟨2, true, by decide, by decide, rfl⟩ (.ofSink _))
  -- The first time the reference to `b` finds nothing, the second time it stands for one command.
  let once (kind : StreamKind) : List Command := selfReference :: late kind
  let twice (kind : StreamKind) : List Command :=
    selfReference :: ((late kind).take 1 ++ world :: (late kind).drop 1)
  let reader (kind : StreamKind) (times : Nat) (seen sent : List Command) (log : Log) :
      Chain Collector :=
    ⟨[.tap seen.toArray, .archive (lateReader kind times)], ⟨sent.toArray⟩, log⟩
  have hreader : ∀ kind, (reader kind 0 (lateReading kind) [] .empty).Reachable := by
    intro kind
    have hread : new.calls (lateReading kind) = reader kind 0 (lateReading kind) [] .empty := by
      cases kind <;> rfl
    exact hread ▸ hnew.calls _
  refine ⟨⟨_, reader .archive 1 (lateReading .archive ++ once .archive) [referTo 'b'] .empty,
      reader .archive 2 (lateReading .archive ++ once .archive ++ twice .archive)
        [referTo 'b', world] .empty, _, _, _, (once .archive).toArray, (twice .archive).toArray,
      [referTo 'b'], [world], hreader .archive, rfl, rfl, rfl, by rfl, rfl, rfl, rfl, rfl, by rfl,
      rfl, by decide, rfl, by simp [world, referTo]⟩, ?_⟩
  let log := Log.empty.add (ArchiveFilter.badHandle (.text [.char 'b']))
  exact ⟨_, reader .object 1 (lateReading .object ++ once .object) [] log,
    reader .object 2 (lateReading .object ++ once .object ++ twice .object) [world] log, _, _, _,
    (once .object).toArray, (twice .object).toArray, [], [world], hreader .object, rfl, rfl, rfl,
    by rfl, by decide, rfl, rfl, rfl, by rfl, rfl, by decide, rfl, List.cons_ne_nil _ _⟩

end Chain

end SceneReplay
