import SceneReplay.Proofs.Archive.Scope

/-!
# The scope as three fields

A `SceneReplay.Scope` is one of the things that a filter can be doing, and there are no others. A
program keeps three fields instead: the stream that is recorded in, how many archives were opened
inside, and whether an object is recorded. Each handler sets some of them, one after the other, and
most combinations of the three mean nothing: a count below zero, or a flag for an object while
nothing is recorded.

This file has the filter with the three fields (`SceneReplay.FieldFilter`) and a handler for every
kind of call. The handlers do what the filter with a scope does
(`SceneReplay.FieldFilter.handle_toFields`). Hence whatever calls and replays come, the three fields
always go together with each other and with the recordings
(`SceneReplay.FieldFilter.Reached.scopeInvariant`): the count is never below zero, it is zero
unless an archive is recorded, the flag is set only while an object is recorded, and the stream
recorded in is the only one that is open. All this is so at every moment of every call on a
reachable chain, for the fields of all filters in it
(`SceneReplay.Chain.Reachable.reached_toFields`).
-/

namespace SceneReplay

/-- **A filter whose scope is kept in three fields.** -/
structure FieldFilter where
  /-- How many of its replays may be in progress at once. -/
  limit : Nat
  /-- Whether comments inside definitions are recorded. -/
  capture : Bool
  /-- The archives defined so far. -/
  archives : Registry
  /-- The objects defined so far. -/
  objects : Registry
  /-- The stream that is recorded in: its kind and its position. -/
  active : Option (StreamKind × Nat)
  /-- How many archives were opened inside it and not yet closed. -/
  nested : Int
  /-- Whether an object is recorded. -/
  inObject : Bool
  /-- How many of its replays are in progress. -/
  depth : Nat

namespace FieldFilter

/-- A filter before its first command. -/
def fresh (limit : Nat) (capture : Bool) : FieldFilter :=
  ⟨limit, capture, .empty, .empty, none, 0, false, 0⟩

/-- The streams of one kind. -/
def registry (g : FieldFilter) : StreamKind → Registry
  | .archive => g.archives
  | .object => g.objects

/-- The filter with other streams of one kind. -/
def withRegistry (g : FieldFilter) (kind : StreamKind) (r : Registry) : FieldFilter :=
  match kind with
  | .archive => { g with archives := r }
  | .object => { g with objects := r }

/-! ### The handlers -/

/-- Records a command in a stream. What is left to do to the fields is done if that was possible. -/
def append (g : FieldFilter) (kind : StreamKind) (index : Nat) (c : Command)
    (next : FieldFilter → FieldFilter) : FieldFilter × Reaction :=
  match (g.registry kind).append index c with
  | .ok r => (next (g.withRegistry kind r), .hold)
  | .error fault => (g, .fault fault)

/-- Starts a definition. -/
def openStream (g : FieldFilter) (kind : StreamKind) (name : Value) : FieldFilter :=
  { g.withRegistry kind ((g.registry kind).create name) with
    active := some (kind, (g.registry kind).streams.length) }

/-- Ends a definition. All three fields are reset. -/
def closeStream (g : FieldFilter) (kind : StreamKind) (index : Nat) : FieldFilter :=
  { g.withRegistry kind ((g.registry kind).close index) with
    active := none, nested := 0, inObject := false }

/-- Asks for the replay of a stream, unless too many are in progress. -/
def replay (g : FieldFilter) (kind : StreamKind) (s : Stream) : Reaction :=
  if g.limit ≤ g.depth then .report (ArchiveFilter.tooDeep g.limit kind s.name)
  else .replay s.commands

/-- Counts one more archive, or one less, but not inside an object. -/
def count (n : Int) (g : FieldFilter) : FieldFilter :=
  if g.inObject then g else { g with nested := g.nested + n }

/-- The beginning of an archive. -/
def archiveBegin (g : FieldFilter) (c : Command) : FieldFilter × Reaction :=
  match g.active with
  | none => (g.openStream .archive c.subject, .hold)
  | some (kind, index) => g.append kind index c (count 1)

/-- The end of an archive. -/
def archiveEnd (g : FieldFilter) (c : Command) : FieldFilter × Reaction :=
  match g.active with
  | none => (g, .hold)
  | some (kind, index) =>
    if g.inObject ∨ 0 < g.nested then g.append kind index c (count (-1))
    else (g.closeStream kind index, .hold)

/-- A reference to an archive. One that is not defined is passed on. -/
def readArchive (g : FieldFilter) (c : Command) : FieldFilter × Reaction :=
  match g.active with
  | some (kind, index) => g.append kind index c id
  | none =>
    match g.archives.find? c.subject with
    | some s => (g, g.replay .archive s)
    | none => (g, .pass)

/-- The beginning of an object. -/
def objectBegin (g : FieldFilter) (c : Command) : FieldFilter × Reaction :=
  match g.active with
  | some (kind, index) => g.append kind index c id
  | none => ({ g.openStream .object c.subject with inObject := true }, .hold)

/-- The end of an object. -/
def objectEnd (g : FieldFilter) (c : Command) : FieldFilter × Reaction :=
  match g.active with
  | none => (g, .hold)
  | some (kind, index) =>
    if g.inObject then (g.closeStream kind index, .hold) else g.append kind index c id

/-- A reference to an object. One that is not defined is reported. -/
def objectInstance (g : FieldFilter) (c : Command) : FieldFilter × Reaction :=
  match g.active with
  | some (kind, index) => g.append kind index c id
  | none =>
    match g.objects.find? c.subject with
    | some s => (g, g.replay .object s)
    | none => (g, .report (ArchiveFilter.badHandle c.subject))

/-- A comment. -/
def archiveRecord (g : FieldFilter) (c : Command) : FieldFilter × Reaction :=
  match g.active with
  | none => (g, .pass)
  | some (kind, index) => if g.capture then g.append kind index c id else (g, .hold)

/-- Any other call. -/
def uniform (g : FieldFilter) (c : Command) : FieldFilter × Reaction :=
  match g.active with
  | some (kind, index) => g.append kind index c id
  | none => (g, .pass)

/-- How the filter answers a command: by the handler for its role. -/
def handle (g : FieldFilter) (c : Command) : FieldFilter × Reaction :=
  match c.role with
  | .archiveBegin => g.archiveBegin c
  | .archiveEnd => g.archiveEnd c
  | .archiveReference => g.readArchive c
  | .objectBegin => g.objectBegin c
  | .objectEnd => g.objectEnd c
  | .objectReference => g.objectInstance c
  | .comment => g.archiveRecord c
  | .uniform => g.uniform c

end FieldFilter

/-! ### The fields of a scope -/

namespace ArchiveFilter

/-- **The fields of a filter**, as its scope has them. -/
def toFields (f : ArchiveFilter) : FieldFilter where
  limit := f.limit
  capture := f.capture
  archives := f.archives
  objects := f.objects
  active := f.scope.target?
  nested := f.scope.nesting
  inObject := f.isInObject
  depth := f.depth

@[simp] theorem registry_toFields (f : ArchiveFilter) (kind : StreamKind) :
    f.toFields.registry kind = f.registry kind := by
  cases kind <;> rfl

@[simp] theorem archives_toFields (f : ArchiveFilter) : f.toFields.archives = f.archives := rfl

@[simp] theorem objects_toFields (f : ArchiveFilter) : f.toFields.objects = f.objects := rfl

@[simp] theorem replay_toFields (f : ArchiveFilter) (kind : StreamKind) (s : Stream) :
    f.toFields.replay kind s = f.replay kind s := rfl

/-- Recording is the same, if the fields are left as the scope is. -/
theorem append_toFields {f : ArchiveFilter} {c : Command} {kind : StreamKind} {index : Nat}
    {next : FieldFilter → FieldFilter} {scope : Scope}
    (hnext : ∀ r, next (f.toFields.withRegistry kind r) = (f.replace kind r scope).toFields) :
    f.toFields.append kind index c next
      = ((f.record kind index scope c).1.toFields, (f.record kind index scope c).2) := by
  unfold FieldFilter.append record
  rw [registry_toFields]
  rcases (f.registry kind).append index c with fault | r
  · rfl
  · exact congrArg (·, Reaction.hold) (hnext r)

theorem openStream_toFields {f : ArchiveFilter} (h : f.scope = .idle) (name : Value) :
    f.toFields.openStream .archive name = (f.openStream .archive name).toFields ∧
      { f.toFields.openStream .object name with inObject := true }
        = (f.openStream .object name).toFields := by
  obtain ⟨limit, capture, archives, objects, scope, depth⟩ := f
  obtain rfl : scope = .idle := h
  exact ⟨rfl, rfl⟩

theorem closeStream_toFields (f : ArchiveFilter) (kind : StreamKind) (index : Nat) :
    f.toFields.closeStream kind index = (f.closeStream kind index).toFields := by
  cases kind <;> rfl

end ArchiveFilter

namespace FieldFilter

section Handle

variable {f : ArchiveFilter}

/-- The handlers while nothing is recorded. -/
theorem handle_toFields_idle (h : f.scope = .idle) (c : Command) :
    f.toFields.handle c = ((f.receiveIdle c).1.toFields, (f.receiveIdle c).2) := by
  have hactive : f.toFields.active = none := by
    rw [ArchiveFilter.toFields, h]
    rfl
  obtain ⟨harchive, hobject⟩ := ArchiveFilter.openStream_toFields h c.subject
  unfold handle ArchiveFilter.receiveIdle
  cases c.role with
  | archiveBegin => simp only [archiveBegin, hactive, harchive]
  | archiveEnd => simp only [archiveEnd, hactive]
  | archiveReference =>
    simp only [readArchive, hactive, ArchiveFilter.archives_toFields]
    rcases f.archives.find? c.subject with _ | s
    · rfl
    · simp only [ArchiveFilter.replay_toFields]
  | objectBegin => simp only [objectBegin, hactive, hobject]
  | objectEnd => simp only [objectEnd, hactive]
  | objectReference =>
    simp only [objectInstance, hactive, ArchiveFilter.objects_toFields]
    rcases f.objects.find? c.subject with _ | s
    · rfl
    · simp only [ArchiveFilter.replay_toFields]
  | comment => simp only [archiveRecord, hactive]
  | uniform => simp only [uniform, hactive]

/-- The handlers while an archive is recorded. -/
theorem handle_toFields_archive {index nesting : Nat} (h : f.scope = .archive index nesting)
    (c : Command) : f.toFields.handle c
      = ((f.receiveInArchive index nesting c).1.toFields,
        (f.receiveInArchive index nesting c).2) := by
  obtain ⟨limit, capture, archives, objects, scope, depth⟩ := f
  obtain rfl : scope = .archive index nesting := h
  set f : ArchiveFilter := ⟨limit, capture, archives, objects, .archive index nesting, depth⟩
  have hactive : f.toFields.active = some (.archive, index) := rfl
  have hobject : f.toFields.inObject = false := rfl
  have hnested : f.toFields.nested = nesting := rfl
  -- Whatever is recorded leaves the fields alone, but for the count.
  have hkept : f.toFields.append .archive index c id
      = ((f.record .archive index (.archive index nesting) c).1.toFields,
        (f.record .archive index (.archive index nesting) c).2) :=
    ArchiveFilter.append_toFields fun r => rfl
  unfold handle ArchiveFilter.receiveInArchive
  cases c.role with
  | archiveBegin =>
    simp only [archiveBegin, hactive]
    exact ArchiveFilter.append_toFields fun r => rfl
  | archiveEnd =>
    simp only [archiveEnd, hactive, hobject, hnested]
    cases nesting with
    | zero => rfl
    | succ n =>
      rw [if_pos (.inr (by omega))]
      refine ArchiveFilter.append_toFields fun r => ?_
      have hless : ((n + 1 : Nat) : Int) + -1 = n := by omega
      exact congrArg (fun m => { f.toFields.withRegistry .archive r with nested := m }) hless
  | comment =>
    simp only [archiveRecord, hactive]
    cases capture with
    | true => exact hkept
    | false => rfl
  | objectEnd =>
    simp only [objectEnd, hactive, hobject]
    exact hkept
  | archiveReference => simpa only [readArchive, hactive] using hkept
  | objectBegin => simpa only [objectBegin, hactive] using hkept
  | objectReference => simpa only [objectInstance, hactive] using hkept
  | uniform => simpa only [uniform, hactive] using hkept

/-- The handlers while an object is recorded. -/
theorem handle_toFields_object {index : Nat} (h : f.scope = .object index) (c : Command) :
    f.toFields.handle c
      = ((f.receiveInObject index c).1.toFields, (f.receiveInObject index c).2) := by
  obtain ⟨limit, capture, archives, objects, scope, depth⟩ := f
  obtain rfl : scope = .object index := h
  set f : ArchiveFilter := ⟨limit, capture, archives, objects, .object index, depth⟩
  have hactive : f.toFields.active = some (.object, index) := rfl
  have hobject : f.toFields.inObject = true := rfl
  -- Whatever is recorded leaves the fields alone: inside an object nothing is counted.
  have hkept : ∀ next : FieldFilter → FieldFilter, (∀ g, g.inObject = true → next g = g) →
      f.toFields.append .object index c next
        = ((f.record .object index (.object index) c).1.toFields,
          (f.record .object index (.object index) c).2) := fun next hnext =>
    ArchiveFilter.append_toFields fun r => hnext _ rfl
  have hcount : ∀ n g, g.inObject = true → count n g = g := fun n g hg => if_pos hg
  unfold handle ArchiveFilter.receiveInObject
  cases c.role with
  | archiveBegin => simpa only [archiveBegin, hactive] using hkept _ (hcount 1)
  | archiveEnd =>
    simpa only [archiveEnd, hactive, hobject, true_or, if_true] using hkept _ (hcount (-1))
  | objectEnd =>
    simp only [objectEnd, hactive, hobject, if_true, ArchiveFilter.closeStream_toFields]
  | comment =>
    simp only [archiveRecord, hactive]
    cases capture with
    | true => exact hkept id fun _ _ => rfl
    | false => rfl
  | archiveReference => simpa only [readArchive, hactive] using hkept id fun _ _ => rfl
  | objectBegin => simpa only [objectBegin, hactive] using hkept id fun _ _ => rfl
  | objectReference => simpa only [objectInstance, hactive] using hkept id fun _ _ => rfl
  | uniform => simpa only [uniform, hactive] using hkept id fun _ _ => rfl

/-- **The handlers do what the filter with a scope does.** -/
theorem handle_toFields (f : ArchiveFilter) (c : Command) :
    f.toFields.handle c = ((f.receive c).1.toFields, (f.receive c).2) := by
  unfold ArchiveFilter.receive
  cases hscope : f.scope with
  | idle => exact handle_toFields_idle hscope c
  | archive index nesting => exact handle_toFields_archive hscope c
  | object index => exact handle_toFields_object hscope c

end Handle

/-! ### How the fields go together -/

/-- **Filters that come of a new one** by any commands, and by replays that begin and end. -/
inductive Reached : FieldFilter → Prop
  /-- A new filter. -/
  | fresh (limit : Nat) (capture : Bool) : Reached (fresh limit capture)
  /-- A command has been answered. -/
  | handled {g : FieldFilter} (h : Reached g) (c : Command) : Reached (g.handle c).1
  /-- Another number of replays is in progress. -/
  | withDepth {g : FieldFilter} (h : Reached g) (depth : Nat) :
      Reached { g with depth := depth }

/-- **The fields of a filter that was reached are those of a scope** that fits the recordings. -/
theorem Reached.exists_fits {g : FieldFilter} (h : g.Reached) :
    ∃ f : ArchiveFilter, f.Fits ∧ f.toFields = g := by
  induction h with
  | fresh limit capture => exact ⟨.fresh limit capture, ArchiveFilter.fits_fresh limit capture, rfl⟩
  | handled _ c ih =>
    obtain ⟨f, hfits, rfl⟩ := ih
    exact ⟨(f.receive c).1, hfits.receive (f.received c), by rw [handle_toFields]⟩
  | withDepth _ depth ih =>
    obtain ⟨f, hfits, rfl⟩ := ih
    exact ⟨{ f with depth := depth }, hfits.withDepth depth, rfl⟩

/-- **How the three fields go together**, with each other and with the recordings. -/
structure ScopeInvariant (g : FieldFilter) : Prop where
  /-- While nothing is recorded, no stream is open, and the other fields are reset. -/
  idle : g.active = none → (∀ kind, (g.registry kind).AllClosed) ∧ g.nested = 0 ∧
    g.inObject = false
  /-- The stream recorded in is an object exactly if the flag is set. It is the last one of its
  registry, it is open, and no other stream is. -/
  active : ∀ kind index, g.active = some (kind, index) → (kind = .object ↔ g.inObject = true) ∧
    (g.registry kind).LastOpen index ∧ ∀ other, other ≠ kind → (g.registry other).AllClosed
  /-- The count is never below zero. -/
  nested_nonneg : 0 ≤ g.nested
  /-- It is zero while an object is recorded. -/
  nested : g.inObject = true → g.nested = 0

/-- The fields of a scope that fits the recordings go together with them. -/
theorem scopeInvariant_toFields {f : ArchiveFilter} (h : f.Fits) :
    f.toFields.ScopeInvariant where
  idle hactive := by
    have hidle : f.scope = .idle := Scope.target?_eq_none.1 hactive
    simp only [ArchiveFilter.registry_toFields]
    refine ⟨h.allClosed hidle, ?_, ?_⟩
    · rw [ArchiveFilter.toFields, hidle]
      rfl
    · rw [ArchiveFilter.toFields, ArchiveFilter.isInObject, hidle]
  active kind index hactive := by
    have htarget : f.scope.target? = some (kind, index) := hactive
    simp only [ArchiveFilter.registry_toFields]
    refine ⟨?_, h.recorded kind index htarget, fun other hne => h.others other fun i hi => ?_⟩
    · have hobject : f.toFields.inObject = f.isInObject := rfl
      rw [hobject, ← (ArchiveFilter.active?_of_target? htarget).2, ArchiveFilter.activeKind]
      cases f.isInObject <;> decide
    · rw [htarget] at hi
      cases hi
      exact hne rfl
  nested_nonneg := Int.natCast_nonneg _
  nested hobject := by
    have hscope : f.isInObject = true := hobject
    unfold ArchiveFilter.isInObject at hscope
    split at hscope
    · rename_i index hindex
      rw [ArchiveFilter.toFields, hindex]
      rfl
    · cases hscope

/-- **The fields go together**, whatever commands and replays have come, and no command meets a
stream that is closed already. What is replayed is a closed stream. -/
theorem Reached.scopeInvariant {g : FieldFilter} (h : g.Reached) :
    g.ScopeInvariant ∧ (∀ c fault, (g.handle c).2 ≠ .fault fault) ∧
      ∀ c content, (g.handle c).2 = .replay content →
        ∃ kind, ∃ s ∈ (g.registry kind).streams, s.closed = true ∧ content = s.commands := by
  obtain ⟨f, hfits, rfl⟩ := h.exists_fits
  refine ⟨scopeInvariant_toFields hfits, fun c fault => ?_, fun c content hreplay => ?_⟩
  · rw [handle_toFields]
    exact hfits.not_fault (f.received c) fault
  · rw [handle_toFields] at hreplay
    have hmove := f.received c
    rw [show (f.receive c).2 = .replay content from hreplay] at hmove
    obtain ⟨-, hidle, -, kind, s, -, hfind, rfl⟩ := hmove.of_replay
    have hmem := Registry.mem_of_find? hfind
    rw [← ArchiveFilter.registry_toFields] at hmem
    exact ⟨kind, s, hmem, hfits.allClosed hidle kind s (Registry.mem_of_find? hfind), rfl⟩

end FieldFilter

/-! ### The fields of the filters of a chain -/

/-- The fields of the stage, if it is a filter, have come of the handlers. -/
def Stage.FieldsReached : Stage → Prop
  | .archive f => f.toFields.Reached
  | _ => True

namespace Stage

theorem FieldsReached.receive {s : Stage} (h : s.FieldsReached) (c : Command) :
    (s.receive c).1.FieldsReached := by
  cases s with
  | archive f =>
    have hhandled := FieldFilter.Reached.handled h c
    rwa [FieldFilter.handle_toFields] at hhandled
  | _ => trivial

theorem FieldsReached.enterReplay {s : Stage} (h : s.FieldsReached) :
    s.enterReplay.FieldsReached := by
  cases s with
  | archive f => exact FieldFilter.Reached.withDepth h (f.depth + 1)
  | _ => trivial

theorem FieldsReached.leaveReplay {s : Stage} (h : s.FieldsReached) :
    s.leaveReplay.FieldsReached := by
  cases s with
  | archive f => exact FieldFilter.Reached.withDepth h (f.depth - 1)
  | _ => trivial

theorem IsNew.fieldsReached {s : Stage} (h : s.IsNew) : s.FieldsReached := by
  cases s with
  | archive f =>
    obtain ⟨limit, capture, -, -, rfl⟩ := h
    exact .fresh limit capture
  | _ => trivial

end Stage

/-- **At every moment of every call on a reachable chain**, the fields of every filter have come of
the handlers. So they go together. -/
theorem Chain.Reachable.reached_toFields {σ : Type} [Sink σ] {ch st : Chain σ} {cs : List Command}
    (hch : ch.Reachable) (hst : Passes cs ch st) {k : Nat} {f : ArchiveFilter}
    (hk : st.stages[k]? = some (.archive f)) : f.toFields.Reached := by
  have hstart : ∀ s ∈ ch.stages, s.FieldsReached :=
    hch.forall_stages (P := Stage.FieldsReached) (fun _ d _ hs => hs.receive d)
      (fun _ => Stage.FieldsReached.enterReplay) (fun _ => Stage.FieldsReached.leaveReplay)
      fun _ => Stage.IsNew.fieldsReached
  have hall : ∀ s ∈ st.stages, s.FieldsReached :=
    hst.forall_stages (P := Stage.FieldsReached) (fun _ d _ hs => hs.receive d)
      (fun _ => Stage.FieldsReached.enterReplay) (fun _ => Stage.FieldsReached.leaveReplay) hstart
  exact hall _ (List.mem_of_getElem? hk)

end SceneReplay
