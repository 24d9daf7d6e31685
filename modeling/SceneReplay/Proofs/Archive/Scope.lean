import SceneReplay.Proofs.Archive.Recordings
import SceneReplay.Sink

/-!
# The scope of an archive filter

What can be seen of the scope of an archive filter is the stream that it records in,
whether that is an object, and how many archives were opened inside.
`SceneReplay.ArchiveFilter.ScopeInvariant` says how these go together with the
recordings that are open: there is one exactly while a stream is recorded in, and
that stream is the last of its registry.

The invariant holds at every moment of every call on a reachable chain, whatever the
stages around the filter are and whatever the sink refuses. Hence recording never
meets a closed stream, and a stream that is replayed is closed, before the replay
and until its end (`SceneReplay.Chain.Reachable.scopeInvariant_of_passes`).

A scope is one value, so some of the invariant comes with its type. A filter that keeps the
stream, the count and the flag in fields of their own has to see to it in its handlers; that
it does is shown in `SceneReplay.Proofs.Archive.Fields`.
-/

namespace SceneReplay

namespace ArchiveFilter

/-- Whether the filter records an object. -/
def isInObject (f : ArchiveFilter) : Bool :=
  match f.scope with
  | .object _ => true
  | _ => false

/-- The kind of stream that the filter records, if it records at all. -/
def activeKind (f : ArchiveFilter) : StreamKind :=
  if f.isInObject then .object else .archive

/-- **The scope invariant.** -/
structure ScopeInvariant (f : ArchiveFilter) : Prop where
  /-- Some stream is open exactly if one is recorded in. -/
  open_iff : (∃ kind, ∃ s ∈ (f.registry kind).streams, s.closed = false) ↔ f.active? ≠ none
  /-- The stream recorded in is open, the last one of its registry, and no other stream
  is open. -/
  active : ∀ s, f.active? = some s → s.closed = false ∧
    ∃ earlier, (f.registry f.activeKind).streams = earlier ++ [s] ∧
      (∀ t ∈ earlier, t.closed = true) ∧
      ∀ kind, kind ≠ f.activeKind → ∀ t ∈ (f.registry kind).streams, t.closed = true
  /-- An object is recorded only into a stream. -/
  inObject : f.isInObject = true → f.active? ≠ none
  /-- Only while an archive is recorded are opened archives counted. -/
  nesting : f.scope.nesting ≠ 0 → f.active? ≠ none ∧ f.isInObject = false

/-- The stream recorded in, where the scope says. -/
theorem active?_of_target? {f : ArchiveFilter} {kind : StreamKind} {i : Nat}
    (h : f.scope.target? = some (kind, i)) :
    f.active? = (f.registry kind).get? i ∧ f.activeKind = kind := by
  unfold active? activeKind isInObject
  cases hs : f.scope with
  | idle =>
    rw [hs] at h
    cases h
  | archive i n =>
    rw [hs] at h
    cases h
    exact ⟨rfl, rfl⟩
  | object i =>
    rw [hs] at h
    cases h
    exact ⟨rfl, rfl⟩

/-- A filter that fits its recordings satisfies the scope invariant. -/
theorem Fits.scopeInvariant {f : ArchiveFilter} (h : f.Fits) : f.ScopeInvariant := by
  cases htarget : f.scope.target? with
  | none =>
    have hidle : f.scope = .idle := Scope.target?_eq_none.1 htarget
    have hactive : f.active? = none := by simp [active?, hidle]
    refine ⟨⟨?_, fun hne => absurd hactive hne⟩, fun s hs => ?_, fun ho => ?_, fun hn => ?_⟩
    · rintro ⟨kind, s, hs, hopen⟩
      rw [h.allClosed hidle kind s hs] at hopen
      cases hopen
    · rw [hactive] at hs
      cases hs
    · simp [isInObject, hidle] at ho
    · simp [hidle, Scope.nesting] at hn
  | some target =>
    obtain ⟨kind, i⟩ := target
    obtain ⟨hactive, hkind⟩ := active?_of_target? htarget
    obtain ⟨earlier, s, hstreams, hi, hopen, hearlier⟩ := h.recorded kind i htarget
    have hget : f.active? = some s := hactive.trans (Registry.get?_of_streams hstreams hi)
    refine ⟨⟨fun _ => by simp [hget], fun _ => ⟨kind, s, by simp [hstreams], hopen⟩⟩,
      fun t ht => ?_, fun _ => by simp [hget], fun hn => ⟨by simp [hget], ?_⟩⟩
    · obtain rfl : s = t := Option.some.inj (hget.symm.trans ht)
      rw [hkind]
      refine ⟨hopen, earlier, hstreams, hearlier, fun other hne => h.others other fun j hj => ?_⟩
      rw [htarget] at hj
      cases hj
      exact hne rfl
    · unfold isInObject
      cases hs : f.scope with
      | object j => simp [hs, Scope.nesting] at hn
      | _ => rfl

end ArchiveFilter

/-- The fit of the archive filter of a stage that is one. -/
def Stage.Fits : Stage → Prop
  | .archive f => f.Fits
  | _ => True

namespace Stage

theorem Fits.receive {s : Stage} (h : s.Fits) (c : Command) : (s.receive c).1.Fits := by
  cases s with
  | relay => trivial
  | tap seen => trivial
  | archive f => exact ArchiveFilter.Fits.receive h (f.received c)

theorem Fits.enterReplay {s : Stage} (h : s.Fits) : s.enterReplay.Fits := by
  cases s with
  | archive f => exact ArchiveFilter.Fits.withDepth h _
  | _ => trivial

theorem Fits.leaveReplay {s : Stage} (h : s.Fits) : s.leaveReplay.Fits := by
  cases s with
  | archive f => exact ArchiveFilter.Fits.withDepth h _
  | _ => trivial

theorem IsNew.fits {s : Stage} (h : s.IsNew) : s.Fits := by
  cases s with
  | archive f =>
    obtain ⟨limit, capture, -, -, rfl⟩ := h
    exact ArchiveFilter.fits_fresh limit capture
  | _ => trivial

end Stage

namespace Chain

variable {σ : Type} [Sink σ]

/-- In a reachable chain the scopes of all filters fit their recordings. -/
theorem Reachable.fits {ch : Chain σ} (h : ch.Reachable) : ∀ s ∈ ch.stages, s.Fits :=
  h.forall_stages (P := Stage.Fits) (fun _ d _ hs => hs.receive d) (fun _ => Stage.Fits.enterReplay)
    (fun _ => Stage.Fits.leaveReplay) fun _ => Stage.IsNew.fits

/-- They do so at every moment of every call. -/
theorem Passes.fits {cs : List Command} {ch st : Chain σ} (h : Passes cs ch st)
    (hch : ∀ s ∈ ch.stages, s.Fits) : ∀ s ∈ st.stages, s.Fits :=
  h.forall_stages (P := Stage.Fits) (fun _ d _ hs => hs.receive d) (fun _ => Stage.Fits.enterReplay)
    (fun _ => Stage.Fits.leaveReplay) hch

/-- **A closed stream stays as it is, where it is, at every later moment.** -/
theorem Passes.get?_of_closed {cs : List Command} {ch st : Chain σ} (h : Passes cs ch st) {k : Nat}
    {f : ArchiveFilter} (hk : ch.stages[k]? = some (.archive f)) {kind : StreamKind} {i : Nat}
    {s : Stream} (hs : (f.registry kind).get? i = some s) (hclosed : s.closed = true) :
    ∃ g, st.stages[k]? = some (.archive g) ∧ (g.registry kind).get? i = some s := by
  obtain ⟨g, hg, hfg⟩ := h.growsTo k f hk
  exact ⟨g, hg, (hfg kind).get?_of_closed hs hclosed⟩

/-- **What a replay replays**: the commands of a closed stream, which stays as it is until the
replay ends. -/
theorem exists_closed_of_replay {ch ch₁ : Chain σ} {d : Command} {k : Nat} {content : List Command}
    (hstep : ch.step 0 d = (ch₁, .replay k content)) (hfits : ∀ s ∈ ch.stages, s.Fits) :
    ∃ f kind i s, ch.stages[k]? = some (.archive f) ∧ (f.registry kind).get? i = some s ∧
      s.closed = true ∧ content = s.commands ∧
      ∀ st, Passes content (ch₁.enterReplay k) st →
        ∃ g, st.stages[k]? = some (.archive g) ∧ (g.registry kind).get? i = some s := by
  obtain ⟨hwalk, -, -⟩ := step_replay hstep
  obtain ⟨f, hf, hf₁, hreceive, -⟩ := walk_replay hwalk
  obtain ⟨-, hidle, -, kind, s, -, hfind, rfl⟩ := (hreceive ▸ f.received d).of_replay
  have hmem : s ∈ (f.registry kind).streams := Registry.mem_of_find? hfind
  have hffits : f.Fits := hfits (.archive f) (List.mem_of_getElem? hf)
  have hclosed : s.closed = true := hffits.allClosed hidle kind s hmem
  obtain ⟨i, hi⟩ := List.getElem?_of_mem hmem
  have hentered : (ch₁.enterReplay k).stages[k]? = some (Stage.enterReplay (.archive f)) := by
    simp [Chain.enterReplay, hf₁]
  refine ⟨f, kind, i, s, hf, hi, hclosed, rfl, fun st hst => ?_⟩
  refine hst.get?_of_closed hentered ?_ hclosed
  cases kind <;> exact hi

/-- **The scope invariant holds at every moment.** At every moment `st` of every call
on a reachable chain, every archive filter satisfies the scope invariant, never fails
to record a command, and replays closed streams only: when it asks for a replay, the
content is that of a closed stream, and that stream stays closed and as it is until
the replay ends. -/
theorem Reachable.scopeInvariant_of_passes {ch st : Chain σ} {c : Command} (hch : ch.Reachable)
    (hst : Passes [c] ch st) {k : Nat} {f : ArchiveFilter}
    (hk : st.stages[k]? = some (.archive f)) :
    f.ScopeInvariant ∧
      (∀ d fault, (f.receive d).2 ≠ .fault fault) ∧
      ∀ d st₁ content, st.step 0 d = (st₁, .replay k content) →
        ∃ kind i s, (f.registry kind).get? i = some s ∧ s.closed = true ∧
          content = s.commands ∧
          ∀ st₂, Passes content (st₁.enterReplay k) st₂ →
            ∃ g, st₂.stages[k]? = some (.archive g) ∧ (g.registry kind).get? i = some s := by
  have hall : ∀ s ∈ st.stages, s.Fits := hst.fits hch.fits
  have hfits : f.Fits := hall (.archive f) (List.mem_of_getElem? hk)
  refine ⟨hfits.scopeInvariant, fun d fault => hfits.not_fault (f.received d) fault,
    fun d st₁ content hstep => ?_⟩
  obtain ⟨g, kind, i, s, hg, hi, hclosed, hcontent, hstays⟩ := exists_closed_of_replay hstep hall
  obtain rfl : g = f := by simpa [hg] using hk
  exact ⟨kind, i, s, hi, hclosed, hcontent, hstays⟩

/-- The definition of an archive that refers to itself. -/
def selfReading : List Command :=
  [⟨"ArchiveBegin", [.text [.char 'a']], some .empty⟩,
    ⟨"ReadArchive", [.text [.char 'a'], .null], some .empty⟩, ⟨"ArchiveEnd", [], none⟩]

/-- The reference to that archive. -/
def selfReference : Command := ⟨"ReadArchive", [.text [.char 'a'], .null], some .empty⟩

/-- Inside the replay of an archive that refers to itself, where a second replay of the
same stream is about to begin. -/
theorem scopeInvariant_inside_selfReading :
    ∃ (ch st : Chain Collector) (f : ArchiveFilter), ch.Reachable ∧ Passes [selfReference] ch st ∧
      st.stages[0]? = some (.archive f) ∧ f.depth = 1 ∧ f.ScopeInvariant ∧
      st.step 0 selfReference = (st, .replay 0 [selfReference]) ∧
      ∃ s, f.archives.get? 0 = some s ∧ s.closed = true ∧ s.commands = [selfReference] := by
  let new : Chain Collector := (ofSink Collector.empty).addStage (.archive (.fresh 2 true))
  have hnew : new.Reachable := .addStage ⟨2, true, by decide, by decide, rfl⟩ (.ofSink _)
  have hinside : Passes [selfReference] (new.calls selfReading)
      ((new.calls selfReading).enterReplay 0) :=
    .inside (show selfReference.reissue = .ok selfReference from rfl)
      (show (new.calls selfReading).step 0 selfReference
        = (new.calls selfReading, .replay 0 [selfReference]) from rfl) (.here _ _)
  have hscope := (hnew.calls selfReading).scopeInvariant_of_passes hinside (k := 0)
    (f := ⟨2, true, ⟨[⟨.text [.char 'a'], [selfReference], true⟩]⟩, .empty, .idle, 1⟩) rfl
  exact ⟨_, _, _, hnew.calls selfReading, hinside, rfl, rfl, hscope.1, rfl, _, rfl, rfl, rfl⟩

end Chain

end SceneReplay
