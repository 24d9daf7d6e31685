import Mathlib.Data.List.Find
import SceneReplay.Proofs.Archive.Definitions
import SceneReplay.Proofs.Chain.InStep
import SceneReplay.Proofs.Chain.Termination

/-!
# Only the first stream of a name counts

Registries grow: a definition of a name that is defined already is kept behind the first one,
where it is never found. So what a filter does later depends on its registries only through
what the first stream of each name contains. Filters for which this is the same are
*equivalent* (`SceneReplay.ArchiveFilter.Equivalent`), even if one of them has many streams
more, or has them in another order.

`SceneReplay.Chain.Reachable.first_match_decides` says that chains with equivalent filters have
the same output for the same calls, for ever. A redefinition and the exchange of two
definitions lead to equivalent filters, so they can never be noticed.

## What has to be kept

Equivalence is not kept by single answers: while a filter records, its registry has a stream
that is not finished, and the two filters record at different positions. What answers keep is
`SceneReplay.ArchiveFilter.SameLookup`. It compares the scopes without their positions, it
compares the streams that are recorded in, and it compares what is *known*, the first match
among the streams that are closed. A stream that is opened or grows is not known, and when it is
closed it is known unless it is shadowed, which is so in both filters or in neither.

Names are texts. Values of other kinds can be equal and yet be shown differently, and a report
shows the name of a stream; so references are by text
(`SceneReplay.Command.RefersByText`).
-/

namespace SceneReplay

/-! ### What a name stands for -/

/-- Nothing but a text equals a text. -/
theorem Value.same_text {v : Value} {t : Text} : v.same (.text t) = true ↔ v = .text t := by
  constructor
  · intro h
    unfold same at h
    split at h <;> simp_all [asNumber?]
  · rintro rfl
    simp [same]

namespace Registry

/-- A stream that is found by a text has that text as its name. -/
theorem name_of_find? {r : Registry} {name : Text} {s : Stream}
    (h : r.find? (.text name) = some s) : s.name = .text name := by
  unfold find? at h
  exact Value.same_text.1 (by simpa using List.find?_some h)

/-- What the first stream of a name contains. -/
def content? (r : Registry) (name : Text) : Option (List Command) :=
  (r.find? (.text name)).map Stream.commands

/-- What the first stream of a name contains, among those that are closed. -/
def known? (r : Registry) (name : Text) : Option (List Command) :=
  (r.streams.find? fun s => s.closed && s.name.same (.text name)).map Stream.commands

/-- When all streams are closed, what is known is what is found. -/
theorem AllClosed.known? {r : Registry} (h : r.AllClosed) (name : Text) :
    r.known? name = r.content? name := by
  unfold Registry.known? content? find?
  congr 1
  refine List.find?_congr fun s hs => ?_
  rw [h s hs, Bool.true_and]

/-- Looking for a stream comes to the last one if it is none of the others. -/
theorem commands_find?_append (p : Stream → Bool) (earlier : List Stream) (s : Stream) :
    ((earlier ++ [s]).find? p).map Stream.commands
      = ((earlier.find? p).map Stream.commands).or (if p s then some s.commands else none) := by
  rw [List.find?_append, Option.map_or, List.find?_singleton]
  split <;> rfl

/-- **The last stream is found** if it has the name and is not shadowed. -/
theorem content?_append (earlier : List Stream) (s : Stream) (name : Text) :
    content? ⟨earlier ++ [s]⟩ name = (content? ⟨earlier⟩ name).or
      (if s.name.same (.text name) then some s.commands else none) :=
  commands_find?_append _ earlier s

/-- **The last stream is known** if, besides, it is closed. -/
theorem known?_append (earlier : List Stream) (s : Stream) (name : Text) :
    known? ⟨earlier ++ [s]⟩ name = (known? ⟨earlier⟩ name).or
      (if s.closed && s.name.same (.text name) then some s.commands else none) :=
  commands_find?_append _ earlier s

/-- A stream that is open is not known. -/
theorem known?_append_open (earlier : List Stream) {s : Stream} (hs : s.closed = false)
    (name : Text) : known? ⟨earlier ++ [s]⟩ name = known? ⟨earlier⟩ name := by
  rw [known?_append, hs]
  simp

end Registry

/-- References are to names that are texts. -/
def Command.RefersByText (c : Command) : Prop :=
  ∀ kind : StreamKind, c.role = kind.reference → ∃ t, c.subject = .text t

theorem Command.RefersByText.takenDown {c d : Command} (h : c.RefersByText)
    (hd : c.reissue = .ok d) : d.RefersByText := by
  intro kind hrole
  obtain ⟨t, ht⟩ := h kind ((role_of_reissue hd).symm.trans hrole)
  exact ⟨t, by simp [subject_of_reissue hd, ht, Value.freeze]⟩

/-! ### Filters that find the same -/

/-- The same scope, possibly at another position. -/
inductive Scope.SameShape : Scope → Scope → Prop
  /-- Both idle. -/
  | idle : SameShape .idle .idle
  /-- Both in an archive, with as many archives opened inside. -/
  | archive (i j n : Nat) : SameShape (.archive i n) (.archive j n)
  /-- Both in an object. -/
  | object (i j : Nat) : SameShape (.object i) (.object j)

namespace Scope.SameShape

variable {s t : Scope}

theorem refl (s : Scope) : s.SameShape s := by
  cases s with
  | idle => exact .idle
  | archive i n => exact .archive i i n
  | object i => exact .object i i

theorem closes_eq (h : s.SameShape t) (r : Role) : t.closes r = s.closes r := by
  cases h <;> rfl

theorem advance (h : s.SameShape t) (r : Role) : (s.advance r).SameShape (t.advance r) := by
  cases h with
  | idle => exact .idle
  | object i j => exact .object i j
  | archive i j n =>
    cases r with
    | archiveBegin => exact .archive i j (n + 1)
    | archiveEnd =>
      cases n with
      | zero => exact .archive i j 0
      | succ n => exact .archive i j n
    | _ => exact .archive i j n

theorem idle_iff (h : s.SameShape t) : t = .idle ↔ s = .idle := by
  cases h <;> simp

theorem target? (h : s.SameShape t) {kind : StreamKind} {i : Nat}
    (htarget : s.target? = some (kind, i)) : ∃ j, t.target? = some (kind, j) := by
  cases h with
  | idle => cases htarget
  | archive i j n =>
    cases htarget
    exact ⟨j, rfl⟩
  | object i j =>
    cases htarget
    exact ⟨j, rfl⟩

end Scope.SameShape

namespace ArchiveFilter

/-- **Two idle filters are equivalent** if they are set alike and the first streams of each name
have the same content. -/
structure Equivalent (f g : ArchiveFilter) : Prop where
  /-- The first filter is idle. -/
  idle : f.scope = .idle
  /-- So is the second. -/
  idle' : g.scope = .idle
  /-- The limits agree. -/
  limit : g.limit = f.limit
  /-- Both keep comments, or neither does. -/
  capture : g.capture = f.capture
  /-- The same names are defined, and stand for the same. -/
  content : ∀ kind name, (g.registry kind).content? name = (f.registry kind).content? name

/-- **Two filters find the same**, now and when what they record is finished. -/
structure SameLookup (f g : ArchiveFilter) : Prop where
  /-- The limits agree. -/
  limit : g.limit = f.limit
  /-- Both keep comments, or neither does. -/
  capture : g.capture = f.capture
  /-- As many replays are in progress. -/
  depth : g.depth = f.depth
  /-- The scopes are the same, but for positions. -/
  shape : f.scope.SameShape g.scope
  /-- The streams recorded in are the same. -/
  active : g.active? = f.active?
  /-- The same is known. -/
  known : ∀ kind name, (g.registry kind).known? name = (f.registry kind).known? name

variable {f g : ArchiveFilter}

theorem SameLookup.refl (f : ArchiveFilter) : f.SameLookup f :=
  ⟨rfl, rfl, rfl, .refl f.scope, rfl, fun _ _ => rfl⟩

theorem active?_of_idle (h : f.scope = .idle) : f.active? = none := by simp [active?, h]

/-- Equivalent filters find the same. -/
theorem Equivalent.sameLookup (h : f.Equivalent g) (hf : f.Fits) (hg : g.Fits)
    (hdepth : g.depth = f.depth) : f.SameLookup g := by
  refine ⟨h.limit, h.capture, hdepth, ?_, ?_, fun kind name => ?_⟩
  · rw [h.idle, h.idle']
    exact .idle
  · rw [active?_of_idle h.idle, active?_of_idle h.idle']
  · rw [(hf.allClosed h.idle kind).known?, (hg.allClosed h.idle' kind).known?, h.content]

/-- Filters that find the same are equivalent whenever they are idle. -/
theorem SameLookup.equivalent (h : f.SameLookup g) (hf : f.Fits) (hg : g.Fits)
    (hidle : f.scope = .idle) : f.Equivalent g := by
  have hidle' : g.scope = .idle := h.shape.idle_iff.2 hidle
  refine ⟨hidle, hidle', h.limit, h.capture, fun kind name => ?_⟩
  rw [← (hf.allClosed hidle kind).known?, ← (hg.allClosed hidle' kind).known?, h.known]

/-- One registry and the scope are replaced in both. -/
theorem SameLookup.replace (h : f.SameLookup g) {kind : StreamKind} {r r' : Registry}
    {next next' : Scope} (hshape : next.SameShape next')
    (hactive : (g.replace kind r' next').active? = (f.replace kind r next).active?)
    (hknown : ∀ name, r'.known? name = r.known? name) :
    (f.replace kind r next).SameLookup (g.replace kind r' next') := by
  refine ⟨by simpa using h.limit, by simpa using h.capture, by simpa using h.depth,
    by simpa using hshape, hactive, fun other name => ?_⟩
  rcases eq_or_ne other kind with rfl | hne
  · rw [registry_replace, registry_replace, hknown]
  · rw [f.registry_replace_of_ne kind r next hne, g.registry_replace_of_ne kind r' next' hne,
      h.known]

/-- The stream recorded in, after a replacement of its registry. -/
theorem active?_replace {kind : StreamKind} {i : Nat} {earlier : List Stream} {s : Stream}
    {next : Scope} (hnext : next.target? = some (kind, i)) (hi : earlier.length = i) :
    (f.replace kind ⟨earlier ++ [s]⟩ next).active? = some s := by
  have htarget : (f.replace kind ⟨earlier ++ [s]⟩ next).scope.target? = some (kind, i) := by
    rwa [scope_replace]
  rw [(active?_of_target? htarget).1, registry_replace]
  exact Registry.get?_of_streams rfl hi

/-- Both open a definition. -/
theorem SameLookup.openStream (h : f.SameLookup g) (kind : StreamKind) (name : Value) :
    (f.openStream kind name).SameLookup (g.openStream kind name) := by
  have hopen : ∀ f : ArchiveFilter, f.openStream kind name
      = f.replace kind ⟨(f.registry kind).streams ++ [Stream.opened name]⟩
        (f.openStream kind name).scope := by
    intro f
    cases kind <;> rfl
  have htarget : ∀ f : ArchiveFilter, (f.openStream kind name).scope.target?
      = some (kind, (f.registry kind).streams.length) := by
    intro f
    cases kind <;> rfl
  rw [hopen f, hopen g]
  refine h.replace ?_ ?_ fun name' => ?_
  · cases kind
    · exact .archive _ _ 0
    · exact .object _ _
  · rw [active?_replace (htarget f) rfl, active?_replace (htarget g) rfl]
  · rw [Registry.known?_append_open _ rfl, Registry.known?_append_open _ rfl]
    exact h.known kind name'

/-- Both find the same stream, as far as name and content go. -/
theorem SameLookup.find? (h : f.SameLookup g) (hf : f.Fits) (hg : g.Fits) (hidle : f.scope = .idle)
    (kind : StreamKind) (name : Text) :
    (f.registry kind).find? (.text name) = none ∧ (g.registry kind).find? (.text name) = none ∨
      ∃ s t, (f.registry kind).find? (.text name) = some s ∧
        (g.registry kind).find? (.text name) = some t ∧ t.name = s.name ∧
        t.commands = s.commands := by
  have hcontent := (h.equivalent hf hg hidle).content kind name
  unfold Registry.content? at hcontent
  cases hs : (f.registry kind).find? (.text name) with
  | none =>
    rw [hs] at hcontent
    exact Or.inl ⟨rfl, Option.map_eq_none_iff.1 hcontent⟩
  | some s =>
    rw [hs] at hcontent
    obtain ⟨t, ht, hcommands⟩ := Option.map_eq_some_iff.1 hcontent
    exact Or.inr ⟨s, t, rfl, ht,
      (Registry.name_of_find? ht).trans (Registry.name_of_find? hs).symm, hcommands⟩

/-- Idle filters that find the same answer alike. -/
theorem SameLookup.receive_of_idle (h : f.SameLookup g) (hf : f.Fits) (hg : g.Fits)
    (hidle : f.scope = .idle) {c : Command} (hc : c.RefersByText) :
    (f.receive c).1.SameLookup (g.receive c).1 ∧ (g.receive c).2 = (f.receive c).2 := by
  refine receive_alike_of_idle hidle (h.shape.idle_iff.2 hidle) h.limit h.depth h
    (fun kind => h.openStream kind c.subject) fun kind hrole => ?_
  obtain ⟨t, ht⟩ := hc kind hrole
  rw [ht]
  exact h.find? hf hg hidle kind t

/-- **Filters that find the same answer alike**, and find the same afterwards. -/
theorem SameLookup.receive (h : f.SameLookup g) (hf : f.Fits) (hg : g.Fits) {c : Command}
    (hc : c.RefersByText) :
    (f.receive c).1.SameLookup (g.receive c).1 ∧ (g.receive c).2 = (f.receive c).2 := by
  cases htarget : f.scope.target? with
  | none => exact h.receive_of_idle hf hg (Scope.target?_eq_none.1 htarget) hc
  | some target =>
    obtain ⟨kind, i⟩ := target
    obtain ⟨j, htarget'⟩ := h.shape.target? htarget
    obtain ⟨earlier, s, hstreams, hi, hs, -⟩ := hf.recorded kind i htarget
    obtain ⟨earlier', s', hstreams', hj, hs', -⟩ := hg.recorded kind j htarget'
    -- The streams recorded in are the same, and what is known stands before them.
    obtain rfl : s' = s := by
      have hactive := h.active
      rw [(active?_of_target? htarget).1, (active?_of_target? htarget').1,
        Registry.get?_of_streams hstreams hi, Registry.get?_of_streams hstreams' hj] at hactive
      exact Option.some.inj hactive
    have hearlier : ∀ name, Registry.known? ⟨earlier'⟩ name = Registry.known? ⟨earlier⟩ name := by
      intro name
      have hknown := h.known kind name
      rwa [show f.registry kind = ⟨earlier ++ [s']⟩ by rw [← hstreams],
        show g.registry kind = ⟨earlier' ++ [s']⟩ by rw [← hstreams'],
        Registry.known?_append_open _ hs, Registry.known?_append_open _ hs] at hknown
    cases hclose : f.scope.closes c.role with
    | true =>
      rw [receive_closing htarget hstreams hi hs hclose,
        receive_closing htarget' hstreams' hj hs ((h.shape.closes_eq c.role).trans hclose)]
      refine ⟨h.replace .idle ?_ fun name => ?_, rfl⟩
      · rw [active?_of_idle (scope_replace ..), active?_of_idle (scope_replace ..)]
      · rw [Registry.known?_append, Registry.known?_append, hearlier]
    | false =>
      rw [receive_recording htarget hstreams hi hs hclose,
        receive_recording htarget' hstreams' hj hs ((h.shape.closes_eq c.role).trans hclose),
        h.capture]
      refine ⟨h.replace (h.shape.advance c.role) ?_ fun name => ?_, rfl⟩
      · rw [active?_replace (by rwa [Scope.target?_advance]) hi,
          active?_replace (by rwa [Scope.target?_advance]) hj]
      · rw [Registry.known?_append_open earlier' (by exact hs),
          Registry.known?_append_open earlier (by exact hs), hearlier]

/-! ### Filters in step -/

/-- **Two filters go in step**: they find the same, both fit their recordings, and what the
first one recorded refers by text. -/
structure Alike (f g : ArchiveFilter) : Prop where
  /-- They find the same. -/
  lookup : f.SameLookup g
  /-- The scope of the first one fits its recordings. -/
  fits : f.Fits
  /-- So does that of the second one. -/
  fits' : g.Fits
  /-- What the first one replays refers by text. -/
  recorded : f.AllRecorded Command.RefersByText

theorem SameLookup.withDepth (h : f.SameLookup g) (n : Nat) :
    ({ f with depth := n } : ArchiveFilter).SameLookup { g with depth := n } :=
  ⟨h.limit, h.capture, rfl, h.shape, h.active, fun kind => by
    cases kind <;> [exact h.known .archive; exact h.known .object]⟩

theorem Alike.withDepth (h : f.Alike g) (n : Nat) :
    ({ f with depth := n } : ArchiveFilter).Alike { g with depth := n } :=
  ⟨h.lookup.withDepth n, h.fits.withDepth n, h.fits'.withDepth n, fun kind => by
    cases kind <;> [exact h.recorded .archive; exact h.recorded .object]⟩

theorem keepsStep_alike : KeepsStep Command.RefersByText Alike where
  receive h hc := by
    obtain ⟨hlookup, hreaction⟩ := h.lookup.receive h.fits h.fits' hc
    exact ⟨⟨hlookup, h.fits.receive (received _ _), h.fits'.receive (received _ _),
      h.recorded.receive hc (received _ _)⟩, hreaction⟩
  replayed {f g c content} h hreplay := h.recorded.of_replay (hreplay ▸ f.received c)
  takenDown := Command.RefersByText.takenDown
  enter h := by
    rw [h.lookup.depth]
    exact h.withDepth _
  leave h := by
    rw [h.lookup.depth]
    exact h.withDepth _

/-- **Two filters remain equivalent**: they are idle at the same time and equivalent then, and
while they record, they record the same under the same name. -/
structure RemainEquivalent (f g : ArchiveFilter) : Prop where
  /-- The scopes are the same, but for positions. -/
  shape : f.scope.SameShape g.scope
  /-- Whenever they are idle, they are equivalent. -/
  equivalent : f.scope = .idle → f.Equivalent g
  /-- The streams recorded in are the same. -/
  active : g.active? = f.active?

theorem Alike.remainEquivalent (h : f.Alike g) : f.RemainEquivalent g :=
  ⟨h.lookup.shape, h.lookup.equivalent h.fits h.fits', h.lookup.active⟩

/-! ### One definition more -/

variable (f) in
@[simp] theorem registry_define (kind : StreamKind) (s : Stream) :
    (f.define kind s).registry kind = ⟨(f.registry kind).streams ++ [s]⟩ :=
  f.registry_replace kind _ _

variable (f) in
theorem registry_define_of_ne {kind other : StreamKind} (s : Stream) (h : other ≠ kind) :
    (f.define kind s).registry other = f.registry other :=
  f.registry_replace_of_ne kind _ _ h

/-- A stream of another name does not matter to a name. -/
theorem same_eq_false {s : Stream} {name name' : Text} (hs : s.name = .text name)
    (hne : name ≠ name') : s.name.same (.text name') = false := by
  rw [Bool.eq_false_iff, ne_eq, Value.same_text, hs]
  simpa using hne

theorem Equivalent.refl (hidle : f.scope = .idle) : f.Equivalent f :=
  ⟨hidle, hidle, rfl, rfl, fun _ _ => rfl⟩

/-- **A redefinition is not noticed.** -/
theorem equivalent_define (hidle : f.scope = .idle) {kind : StreamKind} {name : Text}
    (hdefined : ((f.registry kind).content? name).isSome) {s : Stream} (hs : s.name = .text name) :
    f.Equivalent (f.define kind s) := by
  refine ⟨hidle, by simpa [define] using hidle, by simp [define], by simp [define],
    fun other name' => ?_⟩
  rcases eq_or_ne other kind with rfl | hne
  · rw [registry_define, Registry.content?_append]
    rcases eq_or_ne name name' with rfl | hname
    · exact Option.or_of_isSome hdefined
    · rw [same_eq_false hs hname]
      exact Option.or_none
  · rw [f.registry_define_of_ne s hne]

/-- **The order of two definitions is not noticed**, if they are of different names or kinds. -/
theorem equivalent_define_define (hidle : f.scope = .idle) {kind kind' : StreamKind}
    {name name' : Text} (hne : kind ≠ kind' ∨ name ≠ name') {s s' : Stream}
    (hs : s.name = .text name) (hs' : s'.name = .text name') :
    ((f.define kind s).define kind' s').Equivalent ((f.define kind' s').define kind s) := by
  have hidle' : ((f.define kind s).define kind' s').scope = .idle := by simpa [define] using hidle
  rcases eq_or_ne kind kind' with rfl | hkinds
  · have hname : name ≠ name' := hne.resolve_left fun h => h rfl
    refine ⟨hidle', by simpa [define] using hidle, by simp [define], by simp [define],
      fun other name'' => ?_⟩
    rcases eq_or_ne other kind with rfl | hother
    · simp only [registry_define, Registry.content?_append]
      -- One of the two streams does not have the name.
      rcases eq_or_ne name name'' with rfl | hname'
      · rw [same_eq_false hs' hname.symm]
        simp
      · rw [same_eq_false hs hname']
        simp
    · simp only [registry_define_of_ne _ _ hother]
  · have hcomm : (f.define kind s).define kind' s' = (f.define kind' s').define kind s := by
      cases kind <;> cases kind' <;> first | rfl | exact absurd rfl hkinds
    rw [← hcomm]
    exact .refl hidle'

end ArchiveFilter

/-! ### Rows that differ in their first filter -/

namespace Stage

/-- A stage that is no filter pairs up with itself, whatever either of them receives. -/
theorem related_after {R : ArchiveFilter → ArchiveFilter → Prop} {s : Stage}
    (h : s.archiveFilter? = none) (cs ds : List Command) : (s.after cs).Related R (s.after ds) := by
  cases s with
  | relay =>
    have hafter : ∀ cs, Stage.relay.after cs = .relay := by
      intro cs
      induction cs with
      | nil => rfl
      | cons c cs ih => exact ih
    rw [hafter, hafter]
    exact .relay
  | tap seen =>
    have hafter : ∀ cs seen, ∃ seen', (Stage.tap seen).after cs = .tap seen' := by
      intro cs
      induction cs with
      | nil => exact fun seen => ⟨seen, rfl⟩
      | cons c cs ih => exact fun seen => ih (seen.push c)
    obtain ⟨seen₁, h₁⟩ := hafter cs seen
    obtain ⟨seen₂, h₂⟩ := hafter ds seen
    rw [h₁, h₂]
    exact .tap seen₁ seen₂
  | archive f => cases h

theorem related_self {s : Stage} (hfits : s.Fits) (hrecorded : s.Recorded Command.RefersByText) :
    s.Related ArchiveFilter.Alike s := by
  cases s with
  | relay => exact .relay
  | tap seen => exact .tap seen seen
  | archive f => exact .archive ⟨.refl f, hfits, hfits, hrecorded⟩

end Stage

namespace Chain

variable {ch : Chain Collector} {front back : List Stage} {f f₁ f₂ g : ArchiveFilter}
  {ds ds' cs : List Command}

/-- Calls that only the first filter and the taps before it take note of; the filter is `g`
afterwards. -/
def Absorbs (ch : Chain Collector) (front back : List Stage) (ds : List Command)
    (g : ArchiveFilter) : Prop :=
  ∃ es, ch.calls ds = ⟨front.map (·.after es) ++ .archive g :: back, ch.sink, ch.log⟩

theorem absorbs_of_swallows (hstages : ch.stages = front ++ .archive f :: back)
    (hfront : ∀ s ∈ front, s.archiveFilter? = none) {es : List Command}
    (hes : Command.TakenDown ds es) (h : f.Swallows es g) : ch.Absorbs front back ds g := by
  obtain ⟨stages, sink, log⟩ := ch
  obtain rfl : stages = _ := hstages
  exact ⟨es, calls_of_issues (issues_of_swallows h hfront hes sink log)⟩

theorem calls_append (ch : Chain Collector) (ds cs : List Command) :
    ch.calls (ds ++ cs) = (ch.calls ds).calls cs :=
  List.foldl_append

/-- **Calls that lead to equivalent filters cannot be told apart later.** -/
theorem Reachable.calls_of_absorbs (hch : ch.Reachable)
    (hstages : ch.stages = front ++ .archive f :: back)
    (hfront : ∀ s ∈ front, s.archiveFilter? = none)
    (hback : ∀ s ∈ back, s.Recorded Command.RefersByText) (h₁ : ch.Absorbs front back ds f₁)
    (h₂ : ch.Absorbs front back ds' f₂) (heq : f₁.Equivalent f₂)
    (hrecorded : f₁.AllRecorded Command.RefersByText)
    (hcs : ∀ c ∈ cs, ∀ d, c.reissue = .ok d → d.RefersByText) :
    (ch.calls (ds ++ cs)).sink = (ch.calls (ds' ++ cs)).sink ∧
      (ch.calls (ds ++ cs)).log = (ch.calls (ds' ++ cs)).log := by
  obtain ⟨es, h₁⟩ := h₁
  obtain ⟨es', h₂⟩ := h₂
  have hfirst : ∀ {ds es g}, ch.calls ds = ⟨front.map (·.after es) ++ .archive g :: back, ch.sink,
      ch.log⟩ → g.Fits ∧ g.depth = 0 := by
    intro ds es g h
    have hstage : (ch.calls ds).stages[front.length]? = some (.archive g) := by simp [h]
    exact ⟨(hch.calls ds).fits _ (List.mem_of_getElem? hstage), (hch.calls ds).depth_eq_zero hstage⟩
  obtain ⟨hfits₁, hdepth₁⟩ := hfirst h₁
  obtain ⟨hfits₂, hdepth₂⟩ := hfirst h₂
  have halike : f₁.Alike f₂ :=
    ⟨heq.sameLookup hfits₁ hfits₂ (hdepth₂.trans hdepth₁.symm), hfits₁, hfits₂, hrecorded⟩
  have hrows : List.Forall₂ (Stage.Related ArchiveFilter.Alike) (ch.calls ds).stages
      (ch.calls ds').stages := by
    rw [h₁, h₂]
    refine List.rel_append ?_ (.cons (.archive halike) (List.forall₂_same.2 fun s hs => ?_))
    · rw [List.forall₂_map_left_iff, List.forall₂_map_right_iff]
      exact List.forall₂_same.2 fun s hs => Stage.related_after (hfront s hs) es es'
    · refine Stage.related_self (hch.fits s ?_) (hback s hs)
      rw [hstages]
      exact List.mem_append_right _ (List.mem_cons_of_mem _ hs)
  have hsame := (InStep.refl hrows).calls ArchiveFilter.keepsStep_alike hcs
  rw [calls_append, calls_append]
  exact hsame.output.eq (by rw [h₁, h₂]) (by rw [h₁, h₂])

/-- One more definition, of commands that are as all that is recorded. -/
theorem allRecorded_define {P : Command → Prop} (h : f.AllRecorded P) (kind : StreamKind)
    {name : Value} {capture : Bool} {body : List Command} (hbody : ∀ c ∈ body, P c) :
    (f.define kind ⟨name, Command.kept capture body, true⟩).AllRecorded P := by
  refine h.replace kind (fun t ht c hc => ?_) f.scope
  rcases List.mem_append.1 ht with ht | ht
  · exact h kind t ht c hc
  · obtain rfl := List.mem_singleton.1 ht
    exact hbody c (Command.mem_of_mem_kept hc)

/-- Between calls, equivalent filters go in step. -/
theorem Reachable.alike_of_equivalent (hch : ch.Reachable)
    (hrecorded : ∀ s ∈ ch.stages, s.Recorded Command.RefersByText) {other : Chain Collector}
    (hother : other.Reachable)
    (h : List.Forall₂ (Stage.Related ArchiveFilter.Equivalent) ch.stages other.stages) :
    List.Forall₂ (Stage.Related ArchiveFilter.Alike) ch.stages other.stages := by
  refine List.forall₂_iff_get.2 ⟨h.length_eq, fun i hi hi' => ?_⟩
  have hpair := h.get hi hi'
  have hs := List.getElem?_eq_getElem hi
  have ht := List.getElem?_eq_getElem hi'
  rw [List.get_eq_getElem, List.get_eq_getElem] at hpair ⊢
  generalize ch.stages[i] = s at hpair hs ⊢
  generalize other.stages[i] = t at hpair ht ⊢
  cases hpair with
  | relay => exact .relay
  | tap seen other => exact .tap seen other
  | @archive f g heq =>
    have hf := hch.fits _ (List.mem_of_getElem? hs)
    have hg := hother.fits _ (List.mem_of_getElem? ht)
    have hdepth : g.depth = f.depth :=
      (hother.depth_eq_zero ht).trans (hch.depth_eq_zero hs).symm
    exact .archive ⟨heq.sameLookup hf hg hdepth, hf, hg, hrecorded _ (List.mem_of_getElem? hs)⟩

/-- Calls that are taken down as commands with a property. -/
theorem exists_takenDown_forall {P : Command → Prop}
    (h : ∀ d ∈ ds, ∃ e, d.reissue = .ok e ∧ P e) :
    ∃ es, Command.TakenDown ds es ∧ ∀ e ∈ es, P e := by
  obtain ⟨es, hes⟩ := Command.exists_takenDown fun d hd => (h d hd).imp fun _ h => h.1
  refine ⟨es, hes, hes.forall fun d hd e he => ?_⟩
  obtain ⟨e', he', hP⟩ := h d hd
  cases he.symm.trans he'
  exact hP

/-- **Only the first stream of a name counts.** Let calls be made at the head of a reachable
chain, and let them, as they are taken down, and all that is recorded in the chain refer by
text.

A reachable chain with equivalent filters in the same places, and any history besides, is sent
and reports the same by these calls, and its filters remain equivalent.

If the first filter is idle, then a complete definition of a name that it has defined already
makes no difference to what is delivered and reported in the end, wherever it is put; and of two
complete definitions one after the other, of different names or of different kinds, either may
come first. -/
theorem Reachable.first_match_decides (hch : ch.Reachable)
    (hrecorded : ∀ s ∈ ch.stages, s.Recorded Command.RefersByText)
    (hcs : ∀ c ∈ cs, ∀ d, c.reissue = .ok d → d.RefersByText) :
    (∀ other : Chain Collector, other.Reachable →
      List.Forall₂ (Stage.Related ArchiveFilter.Equivalent) ch.stages other.stages →
        SameOutput ch (ch.calls cs) other (other.calls cs) ∧
          List.Forall₂ (Stage.Related ArchiveFilter.RemainEquivalent) (ch.calls cs).stages
            (other.calls cs).stages) ∧
      ∀ f fs, ch.archiveFilters = f :: fs → f.scope = .idle →
        (∀ (kind : StreamKind) (name : Text) (body ds : List Command),
          ((f.registry kind).content? name).isSome → kind.IsDefinition body (.text name) ds →
          (∀ d ∈ ds, ∃ e, d.reissue = .ok e) →
            (ch.calls (ds ++ cs)).sink = (ch.calls cs).sink ∧
              (ch.calls (ds ++ cs)).log = (ch.calls cs).log) ∧
        ∀ (kind kind' : StreamKind) (name name' : Text) (body body' ds ds' : List Command),
          kind ≠ kind' ∨ name ≠ name' → kind.IsDefinition body (.text name) ds →
          kind'.IsDefinition body' (.text name') ds' →
          (∀ d ∈ ds ++ ds', ∃ e, d.reissue = .ok e ∧ e.RefersByText) →
            (ch.calls (ds ++ ds' ++ cs)).sink = (ch.calls (ds' ++ ds ++ cs)).sink ∧
              (ch.calls (ds ++ ds' ++ cs)).log = (ch.calls (ds' ++ ds ++ cs)).log := by
  refine ⟨fun other hother hrows => ?_, fun f fs hfilters hidle => ?_⟩
  · have hsame := (InStep.refl (hch.alike_of_equivalent hrecorded hother hrows)).calls
      ArchiveFilter.keepsStep_alike hcs
    exact ⟨hsame.output, hsame.stages.imp fun _ _ h => h.mono fun _ _ => (·.remainEquivalent)⟩
  obtain ⟨front, back, hstages, hfront, -⟩ := exists_front_of_archiveFilters hfilters
  have hf : f.AllRecorded Command.RefersByText := hrecorded (.archive f) (by simp [hstages])
  have hback : ∀ s ∈ back, s.Recorded Command.RefersByText :=
    fun s hs => hrecorded s (by simp [hstages, hs])
  refine ⟨fun kind name body ds hdefined hds hissues => ?_,
    fun kind kind' name name' body body' ds ds' hne hds hds' hissues => ?_⟩
  · obtain ⟨es, hes⟩ := Command.exists_takenDown hissues
    obtain ⟨inside, -, hdef⟩ := hds.takenDown hes
    have hnothing : ch.Absorbs front back [] f := absorbs_of_swallows hstages hfront .nil (.nil f)
    have hmore := absorbs_of_swallows hstages hfront hes
      (ArchiveFilter.swallows_definition hidle hdef)
    have heq := ArchiveFilter.equivalent_define hidle hdefined
      (s := ⟨.text name, Command.kept f.capture inside, true⟩) rfl
    obtain ⟨hsink, hlog⟩ := hch.calls_of_absorbs hstages hfront hback hnothing hmore heq hf hcs
    exact ⟨hsink.symm, hlog.symm⟩
  · obtain ⟨hissues, hissues'⟩ := List.forall_mem_append.1 hissues
    obtain ⟨es, hes, htext⟩ := exists_takenDown_forall hissues
    obtain ⟨es', hes', htext'⟩ := exists_takenDown_forall hissues'
    obtain ⟨inside, -, hdef⟩ := hds.takenDown hes
    obtain ⟨inside', -, hdef'⟩ := hds'.takenDown hes'
    have horder := absorbs_of_swallows hstages hfront (List.rel_append hes hes')
      (ArchiveFilter.swallows_definitions hidle hdef hdef')
    have horder' := absorbs_of_swallows hstages hfront (List.rel_append hes' hes)
      (ArchiveFilter.swallows_definitions hidle hdef' hdef)
    have heq := ArchiveFilter.equivalent_define_define hidle hne
      (s := ⟨.text name, Command.kept f.capture inside, true⟩) rfl
      (show (Stream.mk (.text name') (Command.kept f.capture inside') true).name = .text name' from
        rfl)
    refine hch.calls_of_absorbs hstages hfront hback horder horder' heq ?_ hcs
    exact allRecorded_define (allRecorded_define hf kind fun c hc => htext c (hdef.subset hc)) kind'
      fun c hc => htext' c (hdef'.subset hc)

/-- A call that leads to nothing else. -/
def world : Command := ⟨"WorldBegin", [], none⟩

/-- A reference to an archive. -/
def referTo (name : Char) : Command := ⟨"ReadArchive", [.text [.char name], .null], some .empty⟩

/-- The definition of an archive of a single command. -/
def holding (name : Char) (c : Command) : List Command :=
  [⟨"ArchiveBegin", [.text [.char name]], some .empty⟩, c, ⟨"ArchiveEnd", [], none⟩]

theorem isDefinition_holding (name : Char) {c : Command} (hc : c.role ≠ .archiveEnd)
    (hc' : c.role ≠ .archiveBegin) :
    StreamKind.archive.IsDefinition [c] (.text [.char name]) (holding name c) := by
  let first : Command := ⟨"ArchiveBegin", [.text [.char name]], some .empty⟩
  have hfirst : first.role = StreamKind.archive.opening := rfl
  refine .intro hfirst ⟨fun cs hcs => ?_, by simp [Command.tally, hc, hc']⟩ rfl
  have hnone : Command.tally .archiveEnd [c] = 0 := by simp [Command.tally, hc]
  have hle : Command.tally .archiveEnd cs ≤ Command.tally .archiveEnd [c] :=
    hcs.sublist.countP_le
  omega

theorem holding_takenDown (name : Char) {c : Command} (hc : c.reissue = .ok c)
    (htext : c.RefersByText) :
    ∀ d ∈ holding name c, ∃ e, d.reissue = .ok e ∧ e.RefersByText := by
  have hdelimits : ∀ {d : Command}, d.role = .archiveBegin ∨ d.role = .archiveEnd →
      d.RefersByText := by
    rintro d (hd | hd) (_ | _) hrole <;> exact absurd (hd.symm.trans hrole) nofun
  refine List.forall_mem_cons.2 ⟨⟨_, rfl, hdelimits (Or.inl rfl)⟩, ?_⟩
  exact List.forall_mem_cons.2 ⟨⟨c, hc, htext⟩,
    List.forall_mem_singleton.2 ⟨_, rfl, hdelimits (Or.inr rfl)⟩⟩

/-- With an archive that refers to itself: a chain that has done more, and has the archive
defined again, behaves alike; defining it again changes no report, and two more archives may be
defined in either order. -/
theorem first_match_decides_shadowed :
    let ch := (filtering 2 true).calls (holding 'a' (referTo 'a'))
    let other := ((filtering 2 true).calls (world :: holding 'a' (referTo 'a'))).calls
      (holding 'a' world)
    let cs := [referTo 'a', referTo 'b', referTo 'c']
    SameOutput ch (ch.calls cs) other (other.calls cs) ∧
      (ch.calls cs).log.count (some .nesting) = 1 ∧
      (ch.calls (holding 'a' world ++ cs)).log = (ch.calls cs).log ∧
      (ch.calls (holding 'b' (referTo 'c') ++ holding 'c' world ++ cs)).sink
        = (ch.calls (holding 'c' world ++ holding 'b' (referTo 'c') ++ cs)).sink ∧
      (ch.calls (holding 'b' (referTo 'c') ++ holding 'c' world ++ cs)).sink.toList.length = 2 := by
  intro ch other cs
  have hnew : (filtering 2 true).Reachable :=
    .addStage ⟨2, true, by decide, by decide, rfl⟩ (.ofSink _)
  have hch : ch.Reachable := hnew.calls _
  have hother : other.Reachable := (hnew.calls _).calls _
  let f : ArchiveFilter := ⟨2, true, ⟨[⟨.text [.char 'a'], [referTo 'a'], true⟩]⟩, .empty, .idle, 0⟩
  have hstages : ch.stages = [.archive f] := rfl
  have htext : ∀ name, (referTo name).RefersByText := fun name _ _ => ⟨_, rfl⟩
  have hworld : world.RefersByText := by
    rintro (_ | _) hrole <;> exact absurd hrole (by decide)
  have hrecorded : ∀ s ∈ ch.stages, s.Recorded Command.RefersByText := by
    rw [hstages, List.forall_mem_singleton]
    rintro (_ | _) s hs c hc
    · obtain rfl := List.mem_singleton.1 hs
      obtain rfl := List.mem_singleton.1 hc
      exact htext 'a'
    · cases hs
  have hcs : ∀ c ∈ cs, ∀ d, c.reissue = .ok d → d.RefersByText := by
    intro c hc d hd
    refine Command.RefersByText.takenDown ?_ hd
    simp only [cs, List.mem_cons, List.not_mem_nil, or_false] at hc
    rcases hc with rfl | rfl | rfl <;> exact htext _
  obtain ⟨hequivalent, hfirst⟩ := hch.first_match_decides hrecorded hcs
  have hrows : List.Forall₂ (Stage.Related ArchiveFilter.Equivalent) ch.stages other.stages := by
    have hdefined : ((f.registry .archive).content? [.char 'a']).isSome := rfl
    have heq : f.Equivalent (f.define .archive ⟨.text [.char 'a'], [world], true⟩) :=
      ArchiveFilter.equivalent_define rfl hdefined rfl
    exact .cons (.archive heq) .nil
  obtain ⟨hagain, horder⟩ := hfirst f [] rfl rfl
  have hissues := holding_takenDown 'a' (show world.reissue = .ok world from rfl) hworld
  have hissuesTwo := List.forall_mem_append.2
    ⟨holding_takenDown 'b' (show (referTo 'c').reissue = .ok (referTo 'c') from rfl) (htext 'c'),
      holding_takenDown 'c' (show world.reissue = .ok world from rfl) hworld⟩
  refine ⟨(hequivalent other hother hrows).1, by decide +kernel, ?_, ?_, by decide +kernel⟩
  · exact (hagain .archive [.char 'a'] [world] (holding 'a' world) rfl
      (isDefinition_holding 'a' (by decide) (by decide))
      fun d hd => (hissues d hd).imp fun _ h => h.1).2
  · exact (horder .archive .archive [.char 'b'] [.char 'c'] [referTo 'c'] [world]
      (holding 'b' (referTo 'c')) (holding 'c' world) (Or.inr (by decide))
      (isDefinition_holding 'b' (by decide) (by decide))
      (isDefinition_holding 'c' (by decide) (by decide)) hissuesTwo).1

end Chain

end SceneReplay
