import SceneReplay.Proofs.Archive.Settled

/-!
# What recordings look like

An archive is closed by the first call that can close it, and so is an object. So a recording
tells how it came about: a closed archive is balanced in the archives that it opens and closes,
and an object closes none. In an archive that is still open, archives may have been opened and
not closed, and the filter counts them (`SceneReplay.Scope.Describes` says what the scope tells
of the stream that is recorded in).

`SceneReplay.ArchiveFilter.Shaped` is this for all recordings of a filter. A move of a filter
adds one command to the recording that is open, or opens or closes one, and the scope moves
along. That a stream is replayed meanwhile, which may be balanced in one kind of definitions
only, does not matter: whatever comes, comes one command at a time. So every filter of a
reachable chain has the invariant, at every moment of every call
(`SceneReplay.Chain.Reachable.shaped_of_passes`).
-/

namespace SceneReplay

/-! ### Scopes and what was recorded under them -/

namespace Command

theorem tally_concat (role : Role) (cs : List Command) (c : Command) :
    tally role (cs ++ [c]) = tally role cs + if c.role = role then 1 else 0 := by
  simp [tally, List.countP_append, List.countP_singleton]

end Command

namespace Scope

/-- **What a scope tells of the commands recorded so far**: none of them closes the
definition, and of the archives opened in an archive as many are not closed as the scope
counts. -/
def Describes : Scope → List Command → Prop
  | .idle, _ => True
  | .archive _ n, cs => StreamKind.archive.StaysOpen cs ∧
      Command.tally .archiveBegin cs = Command.tally .archiveEnd cs + n
  | .object _, cs => StreamKind.object.StaysOpen cs

variable {s : Scope} {cs : List Command} {c : Command}

/-- One more command is recorded. -/
theorem Describes.advance (h : s.Describes cs) (hopen : s.closes c.role = false) :
    (s.advance c.role).Describes (cs ++ [c]) := by
  cases s with
  | idle => trivial
  | archive i n =>
    obtain ⟨hbefore, hcount⟩ := h
    have hlast := (closes_archive i n c.role).1 hopen
    rw [advance_archive hopen]
    have hsum : Command.tally .archiveBegin (cs ++ [c]) = Command.tally .archiveEnd (cs ++ [c])
        + (n + (if c.role = .archiveBegin then 1 else 0)
          - if c.role = .archiveEnd then 1 else 0) := by
      rw [Command.tally_concat, Command.tally_concat]
      omega
    refine ⟨fun ds hds => ?_, hsum⟩
    rcases List.prefix_concat_iff.1 hds with rfl | hds
    · omega
    · exact hbefore ds hds
  | object i =>
    have hc : c.role ≠ .objectEnd := by simpa [closes] using hopen
    exact List.forall_mem_append.2 ⟨h, List.forall_mem_singleton.2 hc⟩

/-- When the definition is closed, what was recorded may stand in one. -/
theorem Describes.encloses (h : s.Describes cs) {kind : StreamKind} {i : Nat}
    (htarget : s.target? = some (kind, i)) (hclose : s.closes c.role = true) :
    kind.Encloses cs := by
  cases s with
  | idle => cases htarget
  | archive j n =>
    cases htarget
    obtain ⟨hbefore, hcount⟩ := h
    obtain ⟨-, rfl⟩ : c.role = .archiveEnd ∧ n = 0 := by simpa [closes] using hclose
    exact ⟨hbefore, hcount.symm⟩
  | object j =>
    cases htarget
    exact h

end Scope

/-! ### The recordings of a filter -/

namespace ArchiveFilter

/-- **What the recordings of a filter look like.** -/
structure Shaped (f : ArchiveFilter) : Prop where
  /-- In a closed archive, no more archives are closed than were opened before, and as many are
  closed as are opened. -/
  archives : ∀ s ∈ f.archives.streams, s.closed = true → StreamKind.archive.Encloses s.commands
  /-- In the archive that is recorded, no more archives are closed than were opened before, and
  those that are not closed are counted. -/
  recording : ∀ s, f.active? = some s → f.activeKind = .archive →
    StreamKind.archive.StaysOpen s.commands ∧
      Command.tally .archiveBegin s.commands
        = Command.tally .archiveEnd s.commands + f.scope.nesting
  /-- No object, be it closed or recorded, holds a command that closes an object. -/
  objects : ∀ s ∈ f.objects.streams, ∀ c ∈ s.commands, c.role ≠ .objectEnd
  /-- There are no comments, if they are not kept. -/
  comments : f.capture = false → f.AllRecorded fun c => c.role ≠ .comment

/-- The invariant behind this: closed recordings may stand in a definition, and the open one is
as the scope tells. -/
structure Told (f : ArchiveFilter) : Prop where
  /-- The scope fits the recordings. -/
  fits : f.Fits
  /-- Nothing inside a closed recording could have closed it before. -/
  closed : ∀ kind, ∀ s ∈ (f.registry kind).streams, s.closed = true → kind.Encloses s.commands
  /-- The scope describes the stream that is recorded in. -/
  recorded : ∀ kind i s, f.scope.target? = some (kind, i) → (f.registry kind).get? i = some s →
    f.scope.Describes s.commands
  /-- There are no comments, if they are not kept. -/
  comments : f.capture = false → f.AllRecorded fun c => c.role ≠ .comment

variable {f : ArchiveFilter}

/-- The stream that is recorded in is as the scope tells. -/
theorem Told.active (h : f.Told) {s : Stream} (hs : f.active? = some s) :
    f.scope.Describes s.commands := by
  cases htarget : f.scope.target? with
  | none =>
    rw [active?, Scope.target?_eq_none.1 htarget] at hs
    cases hs
  | some target =>
    obtain ⟨kind, i⟩ := target
    exact h.recorded kind i s htarget ((active?_of_target? htarget).1.symm.trans hs)

theorem Told.shaped (h : f.Told) : f.Shaped := by
  refine ⟨h.closed .archive, fun s hs hkind => ?_, fun s hs => ?_, h.comments⟩
  · have htold := h.active hs
    cases hscope : f.scope with
    | archive i n =>
      rw [hscope] at htold
      exact htold
    | idle => simp [active?, hscope] at hs
    | object i => simp [activeKind, isInObject, hscope] at hkind
  · cases hclosed : s.closed with
    | true => exact h.closed .object s hs hclosed
    | false =>
      -- An object that is open is the stream that is recorded in.
      have hinvariant := h.fits.scopeInvariant
      obtain ⟨t, ht⟩ := Option.ne_none_iff_exists'.1
        (hinvariant.open_iff.1 ⟨.object, s, hs, hclosed⟩)
      obtain ⟨-, earlier, hstreams, hearlier, hothers⟩ := hinvariant.active t ht
      have hkind : f.activeKind = .object := by
        by_contra hne
        exact Bool.false_ne_true (hclosed.symm.trans (hothers .object (Ne.symm hne) s hs))
      rw [hkind] at hstreams
      have hmem : s ∈ earlier ++ [t] := hstreams ▸ hs
      rcases List.mem_append.1 hmem with hmem | hmem
      · exact absurd (hclosed.symm.trans (hearlier s hmem)) Bool.false_ne_true
      · have htold := h.active ht
        rw [← List.mem_singleton.1 hmem] at htold
        cases hscope : f.scope with
        | object i =>
          rw [hscope] at htold
          exact htold
        | idle | archive => simp [activeKind, isInObject, hscope] at hkind

theorem told_fresh (limit : Nat) (capture : Bool) : (fresh limit capture).Told := by
  refine ⟨fits_fresh limit capture, fun kind s hs => ?_, fun kind i s htarget => ?_,
    fun _ kind s hs => ?_⟩
  · cases kind <;> cases hs
  · cases htarget
  · cases kind <;> cases hs

/-- How many replays are in progress does not matter. -/
theorem Told.withDepth (h : f.Told) (depth : Nat) : ({ f with depth := depth } : ArchiveFilter).Told
    where
  fits := h.fits.withDepth depth
  closed kind := by cases kind <;> [exact h.closed .archive; exact h.closed .object]
  recorded kind := by cases kind <;> [exact h.recorded .archive; exact h.recorded .object]
  comments hcapture kind := by
    cases kind <;> [exact h.comments hcapture .archive; exact h.comments hcapture .object]

/-- One registry and the scope are replaced: what changes is the last stream, if any. -/
theorem Told.replace (h : f.Told) {kind : StreamKind} {earlier : List Stream} {s : Stream}
    {next : Scope} (hfits : (f.replace kind ⟨earlier ++ [s]⟩ next).Fits)
    (hearlier : ∀ t ∈ earlier, t ∈ (f.registry kind).streams)
    (hclosed : s.closed = true → kind.Encloses s.commands)
    (htold : ∀ other i, next.target? = some (other, i) →
      other = kind ∧ i = earlier.length ∧ next.Describes s.commands)
    (hcomments : f.capture = false → ∀ c ∈ s.commands, c.role ≠ .comment) :
    (f.replace kind ⟨earlier ++ [s]⟩ next).Told := by
  refine ⟨hfits, fun other t ht => ?_, fun other i t htarget hget => ?_, fun hcapture => ?_⟩
  · rcases eq_or_ne other kind with rfl | hne
    · rw [registry_replace] at ht
      rcases List.mem_append.1 ht with ht | ht
      · exact h.closed other t (hearlier t ht)
      · exact List.mem_singleton.1 ht ▸ hclosed
    · rw [f.registry_replace_of_ne kind _ next hne] at ht
      exact h.closed other t ht
  · rw [scope_replace] at htarget ⊢
    obtain ⟨rfl, rfl, hdescribes⟩ := htold other i htarget
    rw [registry_replace, Registry.get?_of_streams rfl rfl] at hget
    exact Option.some.inj hget ▸ hdescribes
  · rw [capture_replace] at hcapture
    refine (h.comments hcapture).replace kind (fun t ht => ?_) next
    rcases List.mem_append.1 ht with ht | ht
    · exact h.comments hcapture kind t (hearlier t ht)
    · exact List.mem_singleton.1 ht ▸ hcomments hcapture

/-- **Every move keeps the shape of the recordings.** -/
theorem Told.receive {g : ArchiveFilter} {c : Command} {reaction : Reaction} (h : f.Told)
    (hmove : Received f c g reaction) : g.Told := by
  have hfits := h.fits.receive hmove
  cases hmove with
  | passed | dropped | undefined | referred | refused => exact h
  | opened kind hidle hrole =>
    refine h.replace hfits (fun t ht => ht) (fun hclosed => absurd hclosed Bool.false_ne_true)
      (fun other i htarget => ?_) fun _ => List.forall_mem_nil _
    cases kind with
    | archive =>
      cases htarget
      exact ⟨rfl, rfl, fun ds hds => List.prefix_nil.1 hds ▸ Nat.le_refl 0, rfl⟩
    | object =>
      cases htarget
      exact ⟨rfl, rfl, List.forall_mem_nil _⟩
  | recorded kind index r htarget hopen hkept happend =>
    obtain ⟨earlier, s, hstreams, hi, hs, -⟩ := h.fits.recorded kind index htarget
    have hget : (f.registry kind).get? index = some s := Registry.get?_of_streams hstreams hi
    rw [Registry.append_of_streams hstreams hi hs] at happend
    cases happend
    refine h.replace hfits (fun t ht => by simp [hstreams, ht]) (fun hclosed => ?_)
      (fun other i hnext => ?_) fun hcapture d hd => ?_
    · exact absurd (hs.symm.trans hclosed) Bool.false_ne_true
    · rw [Scope.target?_advance, htarget] at hnext
      cases hnext
      exact ⟨rfl, hi.symm, (h.recorded kind index s htarget hget).advance hopen⟩
    · rcases List.mem_append.1 hd with hd | hd
      · exact h.comments hcapture kind s (List.mem_of_getElem? hget) d hd
      · rw [List.mem_singleton.1 hd]
        exact fun hcomment => Bool.false_ne_true (hcapture.symm.trans (hkept hcomment))
  | closed kind index htarget hclose =>
    obtain ⟨earlier, s, hstreams, hi, hs, -⟩ := h.fits.recorded kind index htarget
    have hget : (f.registry kind).get? index = some s := Registry.get?_of_streams hstreams hi
    rw [closeStream, Registry.close_of_streams hstreams hi] at hfits ⊢
    refine h.replace hfits (fun t ht => by simp [hstreams, ht]) (fun _ => ?_)
      (fun other i hnext => absurd hnext.symm (Option.some_ne_none _)) ?_
    · exact (h.recorded kind index s htarget hget).encloses htarget hclose
    · exact fun hcapture => h.comments hcapture kind s (List.mem_of_getElem? hget)

end ArchiveFilter

namespace Stage

/-- The invariant, of the archive filter of a stage that is one. -/
def Told : Stage → Prop
  | .archive f => f.Told
  | _ => True

theorem Told.receive {s : Stage} (h : s.Told) (c : Command) : (s.receive c).1.Told := by
  cases s with
  | relay => trivial
  | tap seen => trivial
  | archive f => exact ArchiveFilter.Told.receive h (f.received c)

theorem Told.enterReplay {s : Stage} (h : s.Told) : s.enterReplay.Told := by
  cases s with
  | archive f => exact ArchiveFilter.Told.withDepth h _
  | _ => trivial

theorem Told.leaveReplay {s : Stage} (h : s.Told) : s.leaveReplay.Told := by
  cases s with
  | archive f => exact ArchiveFilter.Told.withDepth h _
  | _ => trivial

theorem IsNew.told {s : Stage} (h : s.IsNew) : s.Told := by
  cases s with
  | archive f =>
    obtain ⟨limit, capture, -, -, rfl⟩ := h
    exact ArchiveFilter.told_fresh limit capture
  | _ => trivial

end Stage

namespace Chain

variable {σ : Type} [Sink σ]

/-- **The shape of recordings.** At every moment `st` of any calls at the head of a reachable
chain, and so also between calls, the recordings of every archive filter are in shape: closed
archives are balanced, the archive that is recorded is balanced but for the archives that the
filter counts, no object closes an object, and there are no comments if they are not kept. -/
theorem Reachable.shaped_of_passes {ch st : Chain σ} {cs : List Command} (hch : ch.Reachable)
    (hst : Passes cs ch st) {k : Nat} {f : ArchiveFilter}
    (hk : st.stages[k]? = some (.archive f)) : f.Shaped := by
  have hall : ∀ s ∈ ch.stages, s.Told :=
    hch.forall_stages (P := Stage.Told) (fun _ d _ hs => hs.receive d)
      (fun _ => Stage.Told.enterReplay) (fun _ => Stage.Told.leaveReplay) fun _ => Stage.IsNew.told
  have htold : ∀ s ∈ st.stages, s.Told :=
    hst.forall_stages (P := Stage.Told) (fun _ d _ hs => hs.receive d)
      (fun _ => Stage.Told.enterReplay) (fun _ => Stage.Told.leaveReplay) hall
  have hstage : (Stage.archive f).Told := htold _ (List.mem_of_getElem? hk)
  exact ArchiveFilter.Told.shaped hstage

/-- What an archive holds that defines an archive that defines an archive. -/
def nested : List Command :=
  [⟨"ArchiveBegin", [.text [.char 'b']], some .empty⟩,
    ⟨"ArchiveBegin", [.text [.char 'c']], some .empty⟩, ⟨"ArchiveEnd", [], none⟩,
    ⟨"ArchiveEnd", [], none⟩]

/-- The definition of this archive, with a comment, and of an object that holds the end of an
archive. -/
def nestedReading : List Command :=
  ⟨"ArchiveBegin", [.text [.char 'a']], some .empty⟩ :: remark :: nested ++
    [⟨"ArchiveEnd", [], none⟩, ⟨"ObjectBegin", [.text [.char 'o']], none⟩,
      ⟨"ArchiveEnd", [], none⟩, ⟨"ObjectEnd", [], none⟩]

/-- A filter that has recorded these, and more archives. -/
def nestedReader (archives : List Stream) (scope : Scope) (depth : Nat) : ArchiveFilter :=
  ⟨2, false, ⟨⟨.text [.char 'a'], nested, true⟩ :: archives⟩,
    ⟨[⟨.text [.char 'o'], [⟨"ArchiveEnd", [], none⟩], true⟩]⟩, scope, depth⟩

/-- Inside the replay of this archive, when two archives are begun: one of them is recorded, the
other one is counted. -/
theorem shaped_inside_nested :
    ∃ (ch st : Chain Collector) (f : ArchiveFilter), ch.Reachable ∧ Passes [selfReference] ch st ∧
      st.stages[0]? = some (.archive f) ∧ f.depth = 1 ∧ f.scope = .archive 1 1 ∧ f.Shaped ∧
      f.archives.streams.map (fun s => (s.length, s.closed)) = [(4, true), (1, false)] ∧
      f.objects.streams.map (fun s => (s.length, s.closed)) = [(1, true)] := by
  let at_ (f : ArchiveFilter) : Chain Collector := ⟨[.archive f], .empty, .empty⟩
  let ch := at_ (nestedReader [] .idle 0)
  let first := at_ (nestedReader [⟨.text [.char 'b'], [], false⟩] (.archive 1 0) 1)
  let second := at_ (nestedReader [⟨.text [.char 'b'], (nested.drop 1).take 1, false⟩]
    (.archive 1 1) 1)
  have hch : ch.Reachable := by
    let new : Chain Collector := (ofSink .empty).addStage (.archive (.fresh 2 false))
    have hnew : new.Reachable := .addStage ⟨2, false, by decide, by decide, rfl⟩ (.ofSink _)
    have hread : new.calls nestedReading = ch := by rfl
    exact hread ▸ hnew.calls nestedReading
  have hfirst : (ch.enterReplay 0).issueAll 0 (nested.take 1) = (first, none) := by rfl
  have hsecond : first.issueAll 0 ((nested.drop 1).take 1) = (second, none) := by rfl
  have hst : Passes [selfReference] ch second :=
    .inside (show selfReference.reissue = .ok selfReference from rfl)
      (show ch.step 0 selfReference = (ch, .replay 0 nested) by rfl)
      (.later (issues_iff.2 hfirst) (.later (issues_iff.2 hsecond) (.here _ _)))
  have hshaped := hch.shaped_of_passes hst (k := 0) rfl
  exact ⟨ch, second, _, hch, hst, rfl, rfl, rfl, hshaped, rfl, rfl⟩

end Chain

end SceneReplay
