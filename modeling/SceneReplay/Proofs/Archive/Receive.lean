import SceneReplay.ArchiveFilter

/-!
# What an archive filter can do with a command

One answer of an archive filter (`SceneReplay.ArchiveFilter.receive`) is one of
eight moves, and nothing else: it lets the command pass, drops it, opens a
definition, closes one, records the command, fails to record it, reports an
undefined object, or asks for a replay. `SceneReplay.ArchiveFilter.Received` lists
the moves with the conditions under which each is made, and
`SceneReplay.ArchiveFilter.received` says that the list is complete. Whatever a
single answer keeps – limits, closed recordings, the fit between the scope and the
recording that is open – is read off this list, one case for each move.
-/

namespace SceneReplay

/-! ### Kinds of streams and the commands about them -/

namespace StreamKind

/-- The role of the commands that open a definition of this kind. -/
def opening : StreamKind → Role
  | .archive => .archiveBegin
  | .object => .objectBegin

/-- The role of the commands that refer to a definition of this kind. -/
def reference : StreamKind → Role
  | .archive => .archiveReference
  | .object => .objectReference

end StreamKind

namespace Scope

/-- Where a scope records: the kind of the stream and its position. -/
def target? : Scope → Option (StreamKind × Nat)
  | .idle => none
  | .archive i _ => some (.archive, i)
  | .object i => some (.object, i)

/-- Whether a command of the given role ends the recording of a scope. -/
def closes : Scope → Role → Bool
  | .idle, _ => false
  | .archive _ n, r => r = .archiveEnd && n = 0
  | .object _, r => r = .objectEnd

/-- The scope after a command of the given role was recorded: only archives inside
an archive are counted. -/
def advance : Scope → Role → Scope
  | .archive i n, .archiveBegin => .archive i (n + 1)
  | .archive i (n + 1), .archiveEnd => .archive i n
  | s, _ => s

/-- Recording goes on in the same stream. -/
@[simp] theorem target?_advance (s : Scope) (r : Role) : (s.advance r).target? = s.target? := by
  unfold advance
  split <;> rfl

@[simp] theorem target?_eq_none {s : Scope} : s.target? = none ↔ s = .idle := by
  cases s <;> simp [target?]

end Scope

/-! ### The moves of a filter -/

namespace ArchiveFilter

/-- The filter with other streams of one kind and another scope. -/
def replace (f : ArchiveFilter) (kind : StreamKind) (r : Registry) (next : Scope) :
    ArchiveFilter :=
  { f.withRegistry kind r with scope := next }

section Replace

variable (f : ArchiveFilter) (kind : StreamKind) (r : Registry) (next : Scope)

@[simp] theorem registry_replace : (f.replace kind r next).registry kind = r := by
  cases kind <;> rfl

theorem registry_replace_of_ne {other : StreamKind} (h : other ≠ kind) :
    (f.replace kind r next).registry other = f.registry other := by
  cases kind <;> cases other <;> first | rfl | exact absurd rfl h

@[simp] theorem scope_replace : (f.replace kind r next).scope = next := by
  cases kind <;> rfl

@[simp] theorem limit_replace : (f.replace kind r next).limit = f.limit := by
  cases kind <;> rfl

@[simp] theorem depth_replace : (f.replace kind r next).depth = f.depth := by
  cases kind <;> rfl

@[simp] theorem capture_replace : (f.replace kind r next).capture = f.capture := by
  cases kind <;> rfl

@[simp] theorem replace_replace (r' : Registry) (next' : Scope) :
    (f.replace kind r next).replace kind r' next' = f.replace kind r' next' := by
  cases kind <;> rfl

theorem replace_self : f.replace kind (f.registry kind) f.scope = f := by
  cases kind <;> rfl

end Replace

/-- **The moves of an archive filter**: the state that an answer leaves and the
reaction it gives, with all that the filter checks on the way. -/
inductive Received (f : ArchiveFilter) (c : Command) : ArchiveFilter → Reaction → Prop
  /-- Idle, the filter passes what is no definition and no reference to an archive
  that it knows. -/
  | passed (hidle : f.scope = .idle)
      (hrole : c.role = .uniform ∨ c.role = .comment ∨
        c.role = .archiveReference ∧ f.archives.find? c.subject = none) :
      Received f c f .pass
  /-- A closing call without an open scope is dropped, and so is a comment inside a
  definition if comments are not kept. -/
  | dropped
      (h : f.scope = .idle ∧ (c.role = .archiveEnd ∨ c.role = .objectEnd) ∨
        f.scope ≠ .idle ∧ c.role = .comment ∧ f.capture = false) :
      Received f c f .hold
  /-- Idle, the filter opens a definition. -/
  | opened (kind : StreamKind) (hidle : f.scope = .idle) (hrole : c.role = kind.opening) :
      Received f c (f.openStream kind c.subject) .hold
  /-- Idle, the filter reports a reference to an object that it does not know. -/
  | undefined (hidle : f.scope = .idle) (hrole : c.role = .objectReference)
      (hfind : f.objects.find? c.subject = none) :
      Received f c f (.report (badHandle c.subject))
  /-- Idle, the filter answers a reference by the first stream of that name. -/
  | referred (kind : StreamKind) (s : Stream) (hidle : f.scope = .idle)
      (hrole : c.role = kind.reference)
      (hfind : (f.registry kind).find? c.subject = some s) :
      Received f c f (f.replay kind s)
  /-- Inside a definition, the filter records. -/
  | recorded (kind : StreamKind) (index : Nat) (r : Registry)
      (htarget : f.scope.target? = some (kind, index)) (hopen : f.scope.closes c.role = false)
      (hkept : c.role = .comment → f.capture = true)
      (happend : (f.registry kind).append index c = .ok r) :
      Received f c { f.withRegistry kind r with scope := f.scope.advance c.role } .hold
  /-- The stream that should be recorded in does not take the command. -/
  | refused (kind : StreamKind) (index : Nat) (fault : Fault)
      (htarget : f.scope.target? = some (kind, index))
      (happend : (f.registry kind).append index c = .error fault) :
      Received f c f (.fault fault)
  /-- The definition ends. -/
  | closed (kind : StreamKind) (index : Nat)
      (htarget : f.scope.target? = some (kind, index)) (hclose : f.scope.closes c.role = true) :
      Received f c (f.closeStream kind index) .hold

/-- Recording is one of two moves. -/
theorem received_record {f : ArchiveFilter} {c : Command} {kind : StreamKind} {index : Nat}
    {next : Scope} (htarget : f.scope.target? = some (kind, index))
    (hopen : f.scope.closes c.role = false) (hkept : c.role = .comment → f.capture = true)
    (hnext : f.scope.advance c.role = next) :
    Received f c (f.record kind index next c).1 (f.record kind index next c).2 := by
  subst hnext
  unfold record
  split
  · rename_i r happend
    exact .recorded kind index r htarget hopen hkept happend
  · rename_i fault happend
    exact .refused kind index fault htarget happend

theorem received_idle {f : ArchiveFilter} (c : Command) (h : f.scope = .idle) :
    Received f c (f.receiveIdle c).1 (f.receiveIdle c).2 := by
  unfold receiveIdle
  cases hrole : c.role with
  | archiveBegin => exact .opened .archive h hrole
  | objectBegin => exact .opened .object h hrole
  | archiveEnd => exact .dropped (Or.inl ⟨h, Or.inl hrole⟩)
  | objectEnd => exact .dropped (Or.inl ⟨h, Or.inr hrole⟩)
  | archiveReference =>
    cases hfind : f.archives.find? c.subject with
    | some s => exact .referred .archive s h hrole hfind
    | none => exact .passed h (Or.inr (Or.inr ⟨hrole, hfind⟩))
  | objectReference =>
    cases hfind : f.objects.find? c.subject with
    | some s => exact .referred .object s h hrole hfind
    | none => exact .undefined h hrole hfind
  | comment => exact .passed h (Or.inr (Or.inl hrole))
  | uniform => exact .passed h (Or.inl hrole)

theorem received_inArchive {f : ArchiveFilter} (c : Command) {index nesting : Nat}
    (h : f.scope = .archive index nesting) :
    Received f c (f.receiveInArchive index nesting c).1
      (f.receiveInArchive index nesting c).2 := by
  have htarget : f.scope.target? = some (.archive, index) := by rw [h]; rfl
  unfold receiveInArchive
  cases hrole : c.role with
  | archiveEnd =>
    cases nesting with
    | zero => exact .closed .archive index htarget (by simp [h, hrole, Scope.closes])
    | succ n =>
      exact received_record htarget (by simp [h, hrole, Scope.closes]) (by simp [hrole])
        (by rw [h, hrole]; rfl)
  | comment =>
    cases hcapture : f.capture with
    | false =>
      exact .dropped (Or.inr ⟨by rw [h]; simp, hrole, hcapture⟩)
    | true =>
      exact received_record htarget (by simp [h, hrole, Scope.closes]) (fun _ => hcapture)
        (by rw [h, hrole]; rfl)
  | _ =>
    exact received_record htarget (by simp [h, hrole, Scope.closes]) (by simp [hrole])
      (by rw [h, hrole]; rfl)

theorem received_inObject {f : ArchiveFilter} (c : Command) {index : Nat}
    (h : f.scope = .object index) :
    Received f c (f.receiveInObject index c).1 (f.receiveInObject index c).2 := by
  have htarget : f.scope.target? = some (.object, index) := by rw [h]; rfl
  unfold receiveInObject
  cases hrole : c.role with
  | objectEnd => exact .closed .object index htarget (by simp [h, hrole, Scope.closes])
  | comment =>
    cases hcapture : f.capture with
    | false => exact .dropped (Or.inr ⟨by rw [h]; simp, hrole, hcapture⟩)
    | true =>
      exact received_record htarget (by simp [h, hrole, Scope.closes]) (fun _ => hcapture)
        (by rw [h, hrole]; rfl)
  | _ =>
    exact received_record htarget (by simp [h, hrole, Scope.closes]) (by simp [hrole])
      (by rw [h, hrole]; rfl)

/-- **Every answer is one of the moves.** -/
theorem received (f : ArchiveFilter) (c : Command) :
    Received f c (f.receive c).1 (f.receive c).2 := by
  unfold receive
  cases h : f.scope with
  | idle => exact received_idle c h
  | archive index nesting => exact received_inArchive c h
  | object index => exact received_inObject c h

/-! ### What no move changes -/

/-- What is set when a filter is made, and the count of its replays in progress. -/
structure SameSetting (f g : ArchiveFilter) : Prop where
  /-- The limits agree. -/
  limit : g.limit = f.limit
  /-- Both keep comments, or neither does. -/
  capture : g.capture = f.capture
  /-- As many replays are in progress. -/
  depth : g.depth = f.depth

theorem SameSetting.refl (f : ArchiveFilter) : SameSetting f f := ⟨rfl, rfl, rfl⟩

/-- An answer changes neither the limit nor the choice about comments, and it
leaves the counting of replays to the chain. -/
theorem Received.sameSetting {f g : ArchiveFilter} {c : Command} {reaction : Reaction}
    (h : Received f c g reaction) : SameSetting f g := by
  cases h with
  | passed | dropped | undefined | referred | refused => exact .refl f
  | opened kind | closed kind => constructor <;> cases kind <;> rfl
  | recorded kind _ r => constructor <;> cases kind <;> rfl

/-- A replay is asked for only below the limit. -/
theorem replay_eq_replay {f : ArchiveFilter} {kind : StreamKind} {s : Stream}
    {content : List Command} (h : f.replay kind s = .replay content) :
    f.depth < f.limit ∧ content = s.commands := by
  unfold replay at h
  split at h
  · cases h
  · cases h
    exact ⟨by omega, rfl⟩

/-- **What is passed**: an idle filter passes what is no definition and no reference to an
archive that it knows, and stays as it is. -/
theorem Received.of_pass {f g : ArchiveFilter} {c : Command} (h : Received f c g .pass) :
    g = f ∧ f.scope = .idle ∧ (c.role = .uniform ∨ c.role = .comment ∨
      c.role = .archiveReference ∧ f.archives.find? c.subject = none) := by
  generalize hr : Reaction.pass = reaction at h
  cases h with
  | passed hidle hrole => exact ⟨rfl, hidle, hrole⟩
  | referred kind s =>
    unfold replay at hr
    split at hr <;> cases hr
  | _ => cases hr

/-- **Where a replay comes from**: an idle filter, below its limit, and the first
stream of the name that the command refers to. -/
theorem Received.of_replay {f g : ArchiveFilter} {c : Command} {content : List Command}
    (h : Received f c g (.replay content)) :
    g = f ∧ f.scope = .idle ∧ f.depth < f.limit ∧
      ∃ kind s, c.role = kind.reference ∧ (f.registry kind).find? c.subject = some s ∧
        content = s.commands := by
  generalize hr : Reaction.replay content = reaction at h
  cases h with
  | referred kind s hidle hrole hfind =>
    obtain ⟨hdepth, hcontent⟩ := replay_eq_replay hr.symm
    exact ⟨rfl, hidle, hdepth, kind, s, hrole, hfind, hcontent⟩
  | _ => cases hr

/-! ### An idle filter -/

/-- An idle filter opens a definition. -/
theorem receive_opening {f : ArchiveFilter} (hidle : f.scope = .idle) {c : Command}
    {kind : StreamKind} (hrole : c.role = kind.opening) :
    f.receive c = (f.openStream kind c.subject, .hold) := by
  cases kind <;> simp [receive, hidle, receiveIdle, hrole, StreamKind.opening]

/-- An idle filter answers a reference to a definition that it knows. -/
theorem receive_reference {f : ArchiveFilter} (hidle : f.scope = .idle)
    {c : Command} {kind : StreamKind} (hrole : c.role = kind.reference) {s : Stream}
    (hfind : (f.registry kind).find? c.subject = some s) :
    f.receive c = (f, f.replay kind s) := by
  cases kind with
  | archive =>
    have hfind : f.archives.find? c.subject = some s := hfind
    simp [receive, hidle, receiveIdle, hrole, StreamKind.reference, hfind]
  | object =>
    have hfind : f.objects.find? c.subject = some s := hfind
    simp [receive, hidle, receiveIdle, hrole, StreamKind.reference, hfind]

/-- **Two idle filters answer a command alike** if they find the same under the name that it
refers to, as far as name and content go. What relates them relates them afterwards, if it does
so when both have opened a definition. -/
theorem receive_alike_of_idle {R : ArchiveFilter → ArchiveFilter → Prop} {f g : ArchiveFilter}
    {c : Command} (hidle : f.scope = .idle) (hidle' : g.scope = .idle) (hlimit : g.limit = f.limit)
    (hdepth : g.depth = f.depth) (hfg : R f g)
    (hopen : ∀ kind, R (f.openStream kind c.subject) (g.openStream kind c.subject))
    (hfind : ∀ kind : StreamKind, c.role = kind.reference →
      (f.registry kind).find? c.subject = none ∧ (g.registry kind).find? c.subject = none ∨
        ∃ s t, (f.registry kind).find? c.subject = some s ∧
          (g.registry kind).find? c.subject = some t ∧ t.name = s.name ∧
          t.commands = s.commands) :
    R (f.receive c).1 (g.receive c).1 ∧ (g.receive c).2 = (f.receive c).2 := by
  have hopens : ∀ kind : StreamKind, c.role = kind.opening →
      R (f.receive c).1 (g.receive c).1 ∧ (g.receive c).2 = (f.receive c).2 := by
    intro kind hrole
    rw [receive_opening hidle hrole, receive_opening hidle' hrole]
    exact ⟨hopen kind, rfl⟩
  have hrefers : ∀ (kind : StreamKind) (s t : Stream), c.role = kind.reference →
      (f.registry kind).find? c.subject = some s → (g.registry kind).find? c.subject = some t →
      t.name = s.name → t.commands = s.commands →
      R (f.receive c).1 (g.receive c).1 ∧ (g.receive c).2 = (f.receive c).2 := by
    intro kind s t hrole hs ht hname hcommands
    rw [receive_reference hidle hrole hs, receive_reference hidle' hrole ht]
    exact ⟨hfg, by simp only [replay, hlimit, hdepth, hname, hcommands]⟩
  cases hrole : c.role with
  | archiveBegin => exact hopens .archive hrole
  | objectBegin => exact hopens .object hrole
  | archiveReference =>
    rcases hfind .archive hrole with ⟨hnone, hnone'⟩ | ⟨s, t, hs, ht, hname, hcommands⟩
    · have hnone : f.archives.find? c.subject = none := hnone
      have hnone' : g.archives.find? c.subject = none := hnone'
      simpa [receive, receiveIdle, hidle, hidle', hrole, hnone, hnone'] using hfg
    · exact hrefers .archive s t hrole hs ht hname hcommands
  | objectReference =>
    rcases hfind .object hrole with ⟨hnone, hnone'⟩ | ⟨s, t, hs, ht, hname, hcommands⟩
    · have hnone : f.objects.find? c.subject = none := hnone
      have hnone' : g.objects.find? c.subject = none := hnone'
      simpa [receive, receiveIdle, hidle, hidle', hrole, hnone, hnone'] using hfg
    · exact hrefers .object s t hrole hs ht hname hcommands
  | _ => simpa [receive, receiveIdle, hidle, hidle', hrole] using hfg

end ArchiveFilter

end SceneReplay
