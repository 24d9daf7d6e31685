import Mathlib.Data.List.Infix
import SceneReplay.Proofs.Archive.Comments
import SceneReplay.Proofs.Chain.Trace

/-!
# Complete definitions

A definition is complete if the call that closes it is the first one that can: what stands
inside an archive is balanced in the archives that it opens and closes, and what stands
inside an object closes no object (`SceneReplay.StreamKind.IsDefinition`). Everything else
may stand inside, also what opens definitions of the other kind and leaves them open.

An idle filter takes in a complete definition, command by command, and nothing passes it and
nothing is reported (`SceneReplay.ArchiveFilter.swallows_definition`). Afterwards it is idle
again and has one stream more, which is the last of its registry. At the head of a chain, the
calls of the definition are all that comes, and nothing behind the filter takes notice
(`SceneReplay.Chain.records_definition`).

Inside the definition, the scope moves as the roles of the commands say, whatever the
registries are (`SceneReplay.Scope.KeepsOpen`). So the two kinds of definitions need one
induction between them; what differs is the count that decides which command closes.
-/

namespace SceneReplay

/-! ### What stands inside -/

/-- The role of the commands that close a definition of this kind. -/
def StreamKind.closing : StreamKind → Role
  | .archive => .archiveEnd
  | .object => .objectEnd

namespace Command

/-- How many of the commands have a role. -/
def tally (role : Role) (cs : List Command) : Nat := cs.countP fun c => c.role = role

theorem tally_cons (role : Role) (c : Command) (cs : List Command) :
    tally role (c :: cs) = tally role cs + if c.role = role then 1 else 0 := by
  simp [tally, List.countP_cons]

/-- Commands without the comments among them, unless these are kept. -/
def kept (capture : Bool) (cs : List Command) : List Command :=
  if capture then cs else uncommented cs

theorem kept_append (capture : Bool) (cs ds : List Command) :
    kept capture (cs ++ ds) = kept capture cs ++ kept capture ds := by
  cases capture <;> simp [kept]

theorem mem_of_mem_kept {capture : Bool} {c : Command} {cs : List Command}
    (h : c ∈ kept capture cs) : c ∈ cs := by
  cases capture with
  | true => exact h
  | false => exact (List.mem_filter.1 h).1

/-- No commands are left of a command that is a comment, if comments are not kept, and it
is left itself otherwise. -/
theorem kept_singleton (capture : Bool) (c : Command) :
    kept capture [c] = if c.role = .comment ∧ capture = false then [] else [c] := by
  cases capture with
  | true => simp [kept]
  | false =>
    by_cases hc : c.role = .comment
    · simp [kept, hc, uncommented_cons_of_comment hc]
    · simp [kept, hc, uncommented_cons_of_ne hc]

end Command

/-- **What may stand inside a definition** without closing it. -/
def StreamKind.Encloses (kind : StreamKind) (body : List Command) : Prop :=
  match kind with
  | .archive =>
    (∀ cs, cs <+: body → Command.tally .archiveEnd cs ≤ Command.tally .archiveBegin cs) ∧
      Command.tally .archiveEnd body = Command.tally .archiveBegin body
  | .object => ∀ c ∈ body, c.role ≠ .objectEnd

instance (kind : StreamKind) (body : List Command) : Decidable (kind.Encloses body) :=
  match kind with
  | .archive => decidable_of_iff
      ((∀ cs ∈ body.inits, Command.tally .archiveEnd cs ≤ Command.tally .archiveBegin cs) ∧
        Command.tally .archiveEnd body = Command.tally .archiveBegin body)
      (and_congr (forall_congr' fun cs => imp_congr (List.mem_inits cs body) Iff.rfl) Iff.rfl)
  | .object => inferInstanceAs (Decidable (∀ c ∈ body, c.role ≠ .objectEnd))

/-- **A complete definition**: what opens it, what stands inside, and what closes it. -/
inductive StreamKind.IsDefinition (kind : StreamKind) (body : List Command) :
    Value → List Command → Prop
  /-- The name is what the opening command is about. -/
  | intro {first last : Command} (hfirst : first.role = kind.opening)
      (hbody : kind.Encloses body) (hlast : last.role = kind.closing) :
      IsDefinition kind body first.subject (first :: (body ++ [last]))

/-! ### Scopes that stay open -/

namespace Scope

/-- The scope after commands were recorded. -/
def advanceAll (s : Scope) (cs : List Command) : Scope := cs.foldl (fun s c => s.advance c.role) s

/-- None of the commands closes the scope in which it comes. -/
def KeepsOpen : Scope → List Command → Prop
  | _, [] => True
  | s, c :: cs => s.closes c.role = false ∧ (s.advance c.role).KeepsOpen cs

theorem closes_archive (i n : Nat) (r : Role) : (archive i n).closes r = false ↔
    (if r = .archiveEnd then 1 else 0) ≤ n + if r = .archiveBegin then 1 else 0 := by
  cases r <;> simp [closes, Nat.one_le_iff_ne_zero]

/-- An archive that is opened inside counts up, and one that is closed counts down. -/
theorem advance_archive {i n : Nat} {r : Role} (h : (archive i n).closes r = false) :
    (archive i n).advance r = .archive i
      (n + (if r = .archiveBegin then 1 else 0) - if r = .archiveEnd then 1 else 0) := by
  rw [closes_archive] at h
  cases r with
  | archiveEnd =>
    obtain ⟨m, rfl⟩ : ∃ m, n = m + 1 := ⟨n - 1, by simp at h; omega⟩
    rfl
  | _ => rfl

/-- Inside an archive, archives are counted. -/
theorem keepsOpen_archive {i n : Nat} {cs : List Command}
    (h : ∀ ds, ds <+: cs → Command.tally .archiveEnd ds ≤ n + Command.tally .archiveBegin ds) :
    (archive i n).KeepsOpen cs ∧ (archive i n).advanceAll cs
      = .archive i (n + Command.tally .archiveBegin cs - Command.tally .archiveEnd cs) := by
  induction cs generalizing n with
  | nil => exact ⟨trivial, rfl⟩
  | cons c cs ih =>
    have hmore : ∀ ds, ds <+: cs → Command.tally .archiveEnd (c :: ds)
        ≤ n + Command.tally .archiveBegin (c :: ds) :=
      fun ds hds => h _ (List.cons_prefix_cons.2 ⟨rfl, hds⟩)
    simp only [Command.tally_cons] at hmore ⊢
    have hopen : (archive i n).closes c.role = false := by
      simpa [closes_archive, Command.tally] using hmore [] cs.nil_prefix
    have hcount := (closes_archive i n c.role).1 hopen
    obtain ⟨hrest, hlast⟩ := ih
      (n := n + (if c.role = .archiveBegin then 1 else 0) - if c.role = .archiveEnd then 1 else 0)
      fun ds hds => by
        have := hmore ds hds
        omega
    rw [← advance_archive hopen] at hrest hlast
    refine ⟨⟨hopen, hrest⟩, hlast.trans (congrArg (archive i) ?_)⟩
    omega

/-- Inside an object, nothing is counted. -/
theorem keepsOpen_object {i : Nat} {cs : List Command} (h : ∀ c ∈ cs, c.role ≠ .objectEnd) :
    (Scope.object i).KeepsOpen cs ∧ (Scope.object i).advanceAll cs = .object i := by
  induction cs with
  | nil => exact ⟨trivial, rfl⟩
  | cons c cs ih =>
    obtain ⟨hc, hcs⟩ := List.forall_mem_cons.1 h
    obtain ⟨hopen, hlast⟩ := ih hcs
    exact ⟨⟨by simp [closes, hc], hopen⟩, hlast⟩

end Scope

/-! ### What a filter does with a definition -/

namespace ArchiveFilter

/-- The filter holds all of the commands, one after the other. -/
inductive Swallows : ArchiveFilter → List Command → ArchiveFilter → Prop
  /-- No command, no change. -/
  | nil (f : ArchiveFilter) : Swallows f [] f
  /-- The first command is held. -/
  | cons {f g h : ArchiveFilter} {c : Command} {cs : List Command}
      (hfirst : f.receive c = (g, .hold)) (hrest : Swallows g cs h) : Swallows f (c :: cs) h

theorem Swallows.append {f g h : ArchiveFilter} {cs ds : List Command} (hcs : Swallows f cs g)
    (hds : Swallows g ds h) : Swallows f (cs ++ ds) h := by
  induction hcs with
  | nil => exact hds
  | cons hfirst _ ih => exact .cons hfirst (ih hds)

/-- The filter with one more stream of a kind, behind the others. -/
def define (f : ArchiveFilter) (kind : StreamKind) (s : Stream) : ArchiveFilter :=
  f.replace kind ⟨(f.registry kind).streams ++ [s]⟩ f.scope

section Recording

variable {f : ArchiveFilter} {kind : StreamKind} {i : Nat} {earlier : List Stream} {s : Stream}
  {c : Command}

theorem scope_ne_idle (htarget : f.scope.target? = some (kind, i)) : f.scope ≠ .idle := by
  intro hidle
  rw [hidle] at htarget
  cases htarget

/-- **A filter that records** keeps a command that does not close the definition. -/
theorem receive_recording (htarget : f.scope.target? = some (kind, i))
    (hstreams : (f.registry kind).streams = earlier ++ [s]) (hi : earlier.length = i)
    (hs : s.closed = false) (hopen : f.scope.closes c.role = false) :
    f.receive c = (f.replace kind
      ⟨earlier ++ [{ s with commands := s.commands ++ Command.kept f.capture [c] }]⟩
      (f.scope.advance c.role), .hold) := by
  have hbusy := scope_ne_idle htarget
  rcases hreceive : f.receive c with ⟨g, reaction⟩
  have hmove : f.Received c g reaction := by simpa only [hreceive] using f.received c
  cases hmove with
  | passed hidle | opened _ hidle | undefined hidle | referred _ _ hidle => exact absurd hidle hbusy
  | dropped h =>
    obtain ⟨-, hrole, hcapture⟩ := h.resolve_left fun h => hbusy h.1
    have hscope : f.scope.advance c.role = f.scope := by
      rw [hrole]
      cases f.scope <;> rfl
    have hsame : f.registry kind = ⟨earlier ++ [s]⟩ := by rw [← hstreams]
    rw [Command.kept_singleton, if_pos ⟨hrole, hcapture⟩, List.append_nil, hscope, ← hsame,
      replace_self]
  | recorded k j r htarget' _ hkept happend =>
    cases htarget.symm.trans htarget'
    rw [Registry.append_of_streams hstreams hi hs] at happend
    cases happend
    rw [Command.kept_singleton, if_neg fun h => by simp [hkept h.1] at h]
    rfl
  | refused k j fault htarget' happend =>
    cases htarget.symm.trans htarget'
    rw [Registry.append_of_streams hstreams hi hs] at happend
    cases happend
  | closed k j _ hclose => exact absurd (hopen.symm.trans hclose) nofun

/-- **A filter that records** ends with the command that closes the definition. -/
theorem receive_closing (htarget : f.scope.target? = some (kind, i))
    (hstreams : (f.registry kind).streams = earlier ++ [s]) (hi : earlier.length = i)
    (hs : s.closed = false) (hclose : f.scope.closes c.role = true) :
    f.receive c = (f.replace kind ⟨earlier ++ [s.close]⟩ .idle, .hold) := by
  have hbusy := scope_ne_idle htarget
  rcases hreceive : f.receive c with ⟨g, reaction⟩
  have hmove : f.Received c g reaction := by simpa only [hreceive] using f.received c
  cases hmove with
  | passed hidle | opened _ hidle | undefined hidle | referred _ _ hidle => exact absurd hidle hbusy
  | dropped h =>
    obtain ⟨-, hrole, -⟩ := h.resolve_left fun h => hbusy h.1
    rw [hrole] at hclose
    cases hscope : f.scope <;> simp [hscope, Scope.closes] at hclose
  | recorded _ _ _ _ hopen => exact absurd (hopen.symm.trans hclose) Bool.false_ne_true
  | refused k j fault htarget' happend =>
    cases htarget.symm.trans htarget'
    rw [Registry.append_of_streams hstreams hi hs] at happend
    cases happend
  | closed k j htarget' =>
    cases htarget.symm.trans htarget'
    rw [closeStream, Registry.close_of_streams hstreams hi]
    rfl

/-- **Inside a definition**, commands that close nothing are kept, in their order. -/
theorem swallows_recording {cs : List Command} (htarget : f.scope.target? = some (kind, i))
    (hstreams : (f.registry kind).streams = earlier ++ [s]) (hi : earlier.length = i)
    (hs : s.closed = false) (hopen : f.scope.KeepsOpen cs) :
    f.Swallows cs (f.replace kind
      ⟨earlier ++ [{ s with commands := s.commands ++ Command.kept f.capture cs }]⟩
      (f.scope.advanceAll cs)) := by
  induction cs generalizing f s with
  | nil =>
    have hsame : f.registry kind = ⟨earlier ++ [s]⟩ := by rw [← hstreams]
    have hkept : Command.kept f.capture [] = [] := by cases f.capture <;> rfl
    have hscope : f.scope.advanceAll [] = f.scope := rfl
    rw [hkept, List.append_nil, hscope, ← hsame, replace_self]
    exact .nil f
  | cons c cs ih =>
    obtain ⟨hfirst, hrest⟩ := hopen
    have hkept : s.commands ++ Command.kept f.capture (c :: cs)
        = s.commands ++ Command.kept f.capture [c] ++ Command.kept f.capture cs := by
      rw [List.append_assoc, ← Command.kept_append, List.singleton_append]
    refine .cons (receive_recording htarget hstreams hi hs hfirst) ?_
    let t : Stream := { s with commands := s.commands ++ Command.kept f.capture [c] }
    have hlater := ih (f := f.replace kind ⟨earlier ++ [t]⟩ (f.scope.advance c.role)) (s := t)
      (by simpa using htarget) (by simp) hs (by simpa using hrest)
    rw [replace_replace, capture_replace, scope_replace] at hlater
    rwa [hkept]

end Recording

/-- The scope of a filter that has opened a definition. -/
theorem scope_openStream (f : ArchiveFilter) (kind : StreamKind) (name : Value) :
    (f.openStream kind name).scope = match kind with
      | .archive => .archive (f.registry kind).streams.length 0
      | .object => .object (f.registry kind).streams.length := by
  cases kind <;> rfl

/-- What may stand inside a definition keeps open the scope that the definition begins, and
leads back to it. -/
theorem keepsOpen_openStream (f : ArchiveFilter) {kind : StreamKind} (name : Value)
    {body : List Command} (h : kind.Encloses body) :
    (f.openStream kind name).scope.KeepsOpen body ∧
      (f.openStream kind name).scope.advanceAll body = (f.openStream kind name).scope := by
  rw [scope_openStream]
  cases kind with
  | archive =>
    obtain ⟨hopen, hlast⟩ := Scope.keepsOpen_archive (i := (f.registry .archive).streams.length)
      (n := 0) fun cs hcs => Nat.le_add_left_of_le (h.1 cs hcs)
    refine ⟨hopen, hlast.trans ?_⟩
    rw [h.2, Nat.add_sub_cancel]
  | object => exact Scope.keepsOpen_object h

/-- **An idle filter takes in what a definition begins with**: the command that opens it, and
what comes inside, as long as nothing closes it. -/
theorem swallows_opened {f : ArchiveFilter} (hidle : f.scope = .idle) {kind : StreamKind}
    {first : Command} (hfirst : first.role = kind.opening) {body : List Command}
    (hopen : (f.openStream kind first.subject).scope.KeepsOpen body) :
    f.Swallows (first :: body) ((f.openStream kind first.subject).replace kind
      ⟨(f.registry kind).streams ++ [⟨first.subject, Command.kept f.capture body, false⟩]⟩
      ((f.openStream kind first.subject).scope.advanceAll body)) := by
  let g := f.openStream kind first.subject
  have htarget : g.scope.target? = some (kind, (f.registry kind).streams.length) := by
    cases kind <;> rfl
  have hstreams : (g.registry kind).streams
      = (f.registry kind).streams ++ [Stream.opened first.subject] := by
    cases kind <;> rfl
  have hcapture : g.capture = f.capture := by cases kind <;> rfl
  have hinside := swallows_recording htarget hstreams rfl rfl hopen
  rw [hcapture] at hinside
  exact .cons (receive_opening hidle hfirst) hinside

/-- **An idle filter takes in a complete definition**: it holds all of it, and then has one
stream more. -/
theorem swallows_definition {f : ArchiveFilter} (hidle : f.scope = .idle) {kind : StreamKind}
    {body cs : List Command} {name : Value} (h : kind.IsDefinition body name cs) :
    f.Swallows cs (f.define kind ⟨name, Command.kept f.capture body, true⟩) := by
  obtain @⟨first, last, hfirst, hbody, hlast⟩ := h
  let g := f.openStream kind first.subject
  let s : Stream := ⟨first.subject, Command.kept f.capture body, false⟩
  have htarget : g.scope.target? = some (kind, (f.registry kind).streams.length) := by
    cases kind <;> rfl
  obtain ⟨hkeeps, hback⟩ := f.keepsOpen_openStream first.subject hbody
  have hopened := swallows_opened hidle hfirst hkeeps
  rw [hback] at hopened
  have hclose : (g.replace kind ⟨(f.registry kind).streams ++ [s]⟩ g.scope).receive last
      = (g.replace kind ⟨(f.registry kind).streams ++ [s.close]⟩ .idle, .hold) := by
    have hclosing : g.scope.closes last.role = true := by
      rw [hlast]
      cases kind <;> rfl
    have hreceive :=
      receive_closing (f := g.replace kind ⟨(f.registry kind).streams ++ [s]⟩ g.scope)
        (by rwa [scope_replace]) (by rw [registry_replace]) rfl rfl (by rwa [scope_replace])
    rwa [replace_replace] at hreceive
  have hend : g.replace kind ⟨(f.registry kind).streams ++ [s.close]⟩ .idle
      = f.define kind s.close := by
    rw [define, hidle]
    cases kind <;> rfl
  rw [hend] at hclose
  exact hopened.append (.cons hclose (.nil _))

/-- **Two complete definitions, one after the other.** -/
theorem swallows_definitions {f : ArchiveFilter} (hidle : f.scope = .idle) {kind kind' : StreamKind}
    {body body' cs cs' : List Command} {name name' : Value} (h : kind.IsDefinition body name cs)
    (h' : kind'.IsDefinition body' name' cs') :
    f.Swallows (cs ++ cs') ((f.define kind ⟨name, Command.kept f.capture body, true⟩).define kind'
      ⟨name', Command.kept f.capture body', true⟩) := by
  have hsecond := swallows_definition
    (f := f.define kind ⟨name, Command.kept f.capture body, true⟩)
    (by simpa [define] using hidle) h'
  have hcapture :
      (f.define kind ⟨name, Command.kept f.capture body, true⟩).capture = f.capture := by
    simp [define]
  rw [hcapture] at hsecond
  exact (swallows_definition hidle h).append hsecond

end ArchiveFilter

/-! ### Definitions as they are taken down -/

namespace Command

/-- What calls are taken down as, one by one. -/
def TakenDown (cs ds : List Command) : Prop := List.Forall₂ (fun c d => c.reissue = .ok d) cs ds

variable {cs ds : List Command}

/-- Calls that use their procedures rightly are taken down. -/
theorem exists_takenDown (h : ∀ c ∈ cs, ∃ d, c.reissue = .ok d) : ∃ ds, TakenDown cs ds := by
  induction cs with
  | nil => exact ⟨[], .nil⟩
  | cons c cs ih =>
    obtain ⟨⟨d, hd⟩, hcs⟩ := List.forall_mem_cons.1 h
    obtain ⟨ds, hds⟩ := ih hcs
    exact ⟨d :: ds, .cons hd hds⟩

/-- Calls in two parts are taken down in two parts. -/
theorem TakenDown.split {cs' : List Command} (h : TakenDown (cs ++ cs') ds) :
    ∃ ds₁ ds₂, ds = ds₁ ++ ds₂ ∧ TakenDown cs ds₁ ∧ TakenDown cs' ds₂ := by
  refine ⟨ds.take cs.length, ds.drop cs.length, (List.take_append_drop _ _).symm, ?_, ?_⟩
  · simpa [TakenDown] using List.forall₂_take cs.length h
  · simpa [TakenDown] using List.forall₂_drop cs.length h

/-- Calls are taken down in one way. -/
theorem TakenDown.unique {es : List Command} (h : TakenDown cs ds) (h' : TakenDown cs es) :
    ds = es :=
  Relator.RightUnique.forall₂ (fun _ _ _ hd he => Except.ok.inj (hd.symm.trans he)) h h'

/-- What holds of whatever the calls are taken down as. -/
theorem TakenDown.forall {P : Command → Prop} (h : TakenDown cs ds)
    (hcs : ∀ c ∈ cs, ∀ d, c.reissue = .ok d → P d) : ∀ d ∈ ds, P d := by
  induction h with
  | nil => nofun
  | cons hc _ ih =>
    obtain ⟨hfirst, hlater⟩ := List.forall_mem_cons.1 hcs
    exact List.forall_mem_cons.2 ⟨hfirst _ hc, ih hlater⟩

theorem TakenDown.roles (h : TakenDown cs ds) : ds.map role = cs.map role := by
  induction h with
  | nil => rfl
  | cons hc _ ih => rw [List.map_cons, List.map_cons, role_of_reissue hc, ih]

theorem tally_eq_of_roles (h : ds.map role = cs.map role) (r : Role) : tally r ds = tally r cs := by
  have htally : ∀ cs, tally r cs = (cs.map role).countP fun r' => r' = r := by
    intro cs
    rw [List.countP_map]
    rfl
  rw [htally, htally, h]

end Command

namespace StreamKind

variable {kind : StreamKind} {cs ds body : List Command} {name : Value}

/-- Whether a definition is closed inside is a matter of roles. -/
theorem Encloses.of_roles (h : kind.Encloses cs)
    (hroles : ds.map Command.role = cs.map Command.role) : kind.Encloses ds := by
  cases kind with
  | archive =>
    refine ⟨fun es hes => ?_, ?_⟩
    · have hes' : (cs.take es.length).map Command.role = es.map Command.role := by
        rw [List.map_take, ← hroles, ← List.map_take, ← List.prefix_iff_eq_take.1 hes]
      rw [← Command.tally_eq_of_roles hes', ← Command.tally_eq_of_roles hes']
      exact h.1 _ (List.take_prefix _ _)
    · rw [Command.tally_eq_of_roles hroles, Command.tally_eq_of_roles hroles]
      exact h.2
  | object =>
    intro d hd hrole
    have hmem : Role.objectEnd ∈ cs.map Command.role := by
      rw [← hroles, ← hrole]
      exact List.mem_map_of_mem hd
    obtain ⟨c, hc, hcrole⟩ := List.mem_map.1 hmem
    exact h c hc hcrole

/-- What stands inside a definition is part of it. -/
theorem IsDefinition.subset (h : kind.IsDefinition body name cs) : body ⊆ cs := by
  obtain @⟨first, last, -, -, -⟩ := h
  intro c hc
  exact List.mem_cons_of_mem _ (List.mem_append_left _ hc)

/-- A complete definition is taken down as one. -/
theorem IsDefinition.takenDown (h : kind.IsDefinition body name cs)
    (hds : Command.TakenDown cs ds) :
    ∃ body', Command.TakenDown body body' ∧ kind.IsDefinition body' name.freeze ds := by
  obtain @⟨first, last, hfirst, hbody, hlast⟩ := h
  obtain ⟨first', rest', hfirst', hrest', rfl⟩ := List.forall₂_cons_left_iff.1 hds
  obtain ⟨body', lasts', rfl, hbody', hlasts'⟩ := Command.TakenDown.split hrest'
  obtain ⟨last', nil', hlast', hnil', rfl⟩ := List.forall₂_cons_left_iff.1 hlasts'
  obtain rfl := List.forall₂_nil_left_iff.1 hnil'
  refine ⟨body', hbody', ?_⟩
  rw [← Command.subject_of_reissue hfirst']
  exact .intro ((Command.role_of_reissue hfirst').trans hfirst)
    (hbody.of_roles (Command.TakenDown.roles hbody')) ((Command.role_of_reissue hlast').trans hlast)

end StreamKind

/-! ### Definitions in front of a chain -/

/-- The stage when it has received commands. -/
def Stage.after (s : Stage) (cs : List Command) : Stage := cs.foldl (fun s c => (s.receive c).1) s

/-- A stage that is no filter passes every command and stays none. -/
theorem Stage.receive_of_no_filter {s : Stage} (h : s.archiveFilter? = none) (c : Command) :
    s.receive c = (s.after [c], .pass) ∧ (s.after [c]).archiveFilter? = none := by
  cases s with
  | relay => exact ⟨rfl, rfl⟩
  | tap seen => exact ⟨rfl, rfl⟩
  | archive f => cases h

namespace Chain

variable {σ : Type} {front back : List Stage} {f g : ArchiveFilter}

/-- A command that the first filter holds goes no further. -/
theorem walk_held (hfront : ∀ s ∈ front, s.archiveFilter? = none) {c : Command}
    (h : f.receive c = (g, .hold)) :
    walk (front ++ .archive f :: back) c
      = (front.map (·.after [c]) ++ .archive g :: back, .hold, front.length) := by
  induction front with
  | nil =>
    have hstage : (Stage.archive f).receive c = (.archive g, .hold) := by simp [Stage.receive, h]
    exact walk_cons_of_ne_pass hstage (fun h => Reaction.noConfusion h) back
  | cons s front ih =>
    obtain ⟨hs, hrest⟩ := List.forall_mem_cons.1 hfront
    rw [List.cons_append, walk_cons_of_pass (Stage.receive_of_no_filter hs c).1, ih hrest]
    rfl

/-- A command that the first filter holds does not come to the stage behind it. -/
theorem not_reaches_of_held (hfront : ∀ s ∈ front, s.archiveFilter? = none) {c : Command}
    (h : f.receive c = (g, .hold)) (sink : σ) (log : Log) :
    Arrival.reaches (front.length + 1) ⟨⟨front ++ .archive f :: back, sink, log⟩, c⟩ = false := by
  have hrow : (front ++ .archive f :: back).take (front.length + 1) = front ++ [.archive f] := by
    rw [List.take_length_add_append]
    rfl
  rw [Arrival.reaches, hrow, goesThrough, walk_held hfront h]
  rfl

variable [Sink σ]

/-- **Commands that the first filter holds** change this filter and the stages before it, and
nothing else. They are all that comes to the head, and none of them gets past the filter. -/
theorem traced_of_swallows {ds : List Command} (h : f.Swallows ds g)
    (hfront : ∀ s ∈ front, s.archiveFilter? = none) {cs : List Command}
    (hds : Command.TakenDown cs ds) (sink : σ) (log : Log) :
    ∃ tr, Traced cs ⟨front ++ .archive f :: back, sink, log⟩ tr
        ⟨front.map (·.after ds) ++ .archive g :: back, sink, log⟩ none ∧
      tr.map Arrival.command = ds ∧ reaching (front.length + 1) tr = [] := by
  induction h generalizing front cs with
  | nil f =>
    obtain rfl := List.forall₂_nil_right_iff.1 hds
    have hkeep : front.map (·.after []) = front := List.map_id front
    rw [hkeep]
    exact ⟨[], .nil _, rfl, rfl⟩
  | @cons f g h d ds hfirst _ ih =>
    obtain ⟨c, cs, hc, hcs, rfl⟩ := List.forall₂_cons_right_iff.1 hds
    have hstep : (Chain.mk (front ++ .archive f :: back) sink log).step 0 d
        = (⟨front.map (·.after [d]) ++ .archive g :: back, sink, log⟩, .done) := by
      simp only [step, List.drop_zero, List.take_zero, List.nil_append, walk_held hfront hfirst]
    have hfront' : ∀ s ∈ front.map (·.after [d]), s.archiveFilter? = none := by
      intro s hs
      obtain ⟨t, ht, rfl⟩ := List.mem_map.1 hs
      exact (Stage.receive_of_no_filter (hfront t ht) d).2
    obtain ⟨tr, htr, hcommands, hreaching⟩ := ih hfront' hcs
    rw [List.map_map] at htr
    rw [List.length_map] at hreaching
    refine ⟨_, .answered hc hstep htr, congrArg (d :: ·) hcommands, ?_⟩
    rw [reaching_cons, hreaching, Arrival.beyond, not_reaches_of_held hfront hfirst]
    rfl

/-- Commands that the first filter holds change this filter and the stages before it. -/
theorem issues_of_swallows {ds : List Command} (h : f.Swallows ds g)
    (hfront : ∀ s ∈ front, s.archiveFilter? = none) {cs : List Command}
    (hds : Command.TakenDown cs ds) (sink : σ) (log : Log) :
    Issues cs ⟨front ++ .archive f :: back, sink, log⟩
      ⟨front.map (·.after ds) ++ .archive g :: back, sink, log⟩ none := by
  obtain ⟨tr, htr, -⟩ :
      ∃ tr, Traced cs ⟨front ++ .archive f :: back, sink, log⟩ tr _ none ∧ _ ∧ _ :=
    traced_of_swallows h hfront hds sink log
  exact htr.issues

/-- **What a definition records.** Let a complete definition be called at the head of a chain in
which the first filter is idle, all of its calls as their procedures want them. Then the filter
has one stream more, behind the others of its kind: it has the name, it is closed, and it holds
what stands inside as that was taken down, without the comments if they are not kept. No other
stream has changed, and the filter is idle again. All that came to the head are the calls
themselves, none of them got past the filter, nothing was reported, and what comes after the
filter is as it was. -/
theorem records_definition {ch : Chain σ} (hstages : ch.stages = front ++ .archive f :: back)
    (hfront : ∀ s ∈ front, s.archiveFilter? = none) (hidle : f.scope = .idle) {kind : StreamKind}
    {body cs ds : List Command} {name : Value} (hdef : kind.IsDefinition body name cs)
    (hds : Command.TakenDown cs ds) :
    ∃ (content : List Command) (g : ArchiveFilter) (tr : List (Arrival σ)),
      Command.TakenDown body content ∧
      (g.registry kind).streams = (f.registry kind).streams
        ++ [⟨name.freeze, Command.kept f.capture content, true⟩] ∧
      (∀ other, other ≠ kind → g.registry other = f.registry other) ∧
      g.scope = .idle ∧ f.SameSetting g ∧
      ch.calls cs = ⟨front.map (·.after ds) ++ .archive g :: back, ch.sink, ch.log⟩ ∧
      Traced cs ch tr (ch.calls cs) none ∧ tr.map Arrival.command = ds ∧
      reaching (front.length + 1) tr = [] := by
  obtain ⟨content, hcontent, hdef'⟩ := hdef.takenDown hds
  have hswallows := ArchiveFilter.swallows_definition hidle hdef'
  obtain ⟨stages, sink, log⟩ := ch
  obtain rfl : stages = front ++ .archive f :: back := hstages
  obtain ⟨tr, htr, hcommands, hreaching⟩ :
      ∃ tr, Traced cs ⟨front ++ .archive f :: back, sink, log⟩ tr _ none ∧ _ ∧ _ :=
    traced_of_swallows hswallows hfront hds sink log
  have hcalls := calls_of_issues htr.issues
  refine ⟨content, _, tr, hcontent, ?_, fun other hother => ?_, ?_, ?_, hcalls, hcalls ▸ htr,
    hcommands, hreaching⟩
  · rw [ArchiveFilter.define, ArchiveFilter.registry_replace]
  · exact f.registry_replace_of_ne kind _ _ hother
  · rw [ArchiveFilter.define, ArchiveFilter.scope_replace, hidle]
  · exact ⟨f.limit_replace .., f.capture_replace .., f.depth_replace ..⟩

/-- What stands in an archive: a comment, an archive that defines half of an object, and a
reference to itself. -/
def halfObject : List Command :=
  [remark, ⟨"ArchiveBegin", [.text [.char 'b']], some .empty⟩,
    ⟨"ObjectBegin", [.text [.char 'o']], none⟩, ⟨"ArchiveEnd", [], none⟩, selfReference]

/-- Behind a tap and in front of a renderer that refuses everything, the archive is recorded
without the comment. -/
theorem records_definition_halfObject :
    ∃ (f g : ArchiveFilter) (cs : List Command) (tr : List (Arrival Endpoint)),
      let ch : Chain Endpoint := ⟨[.tap #[], .archive f, .tap #[]], .bare, .empty⟩
      f = .fresh 1 false ∧ StreamKind.archive.IsDefinition halfObject (.text [.char 'a']) cs ∧
      Command.TakenDown cs cs ∧
      g.archives.streams = [⟨.text [.char 'a'], halfObject.drop 1, true⟩] ∧
      g.objects = f.objects ∧ g.scope = .idle ∧
      ch.calls cs = ⟨[.tap cs.toArray, .archive g, .tap #[]], .bare, .empty⟩ ∧
      Traced cs ch tr (ch.calls cs) none ∧ tr.map Arrival.command = cs ∧ reaching 2 tr = [] := by
  let f : ArchiveFilter := .fresh 1 false
  let ch : Chain Endpoint := ⟨[.tap #[], .archive f, .tap #[]], .bare, .empty⟩
  let cs := ⟨"ArchiveBegin", [.text [.char 'a']], some .empty⟩ :: (halfObject
    ++ [⟨"ArchiveEnd", [], none⟩])
  have hbody : StreamKind.archive.Encloses halfObject := by decide
  have hdef : StreamKind.archive.IsDefinition halfObject (.text [.char 'a']) cs :=
    @StreamKind.IsDefinition.intro _ _ ⟨"ArchiveBegin", [.text [.char 'a']], some .empty⟩
      ⟨"ArchiveEnd", [], none⟩ rfl hbody rfl
  have hhalf : Command.TakenDown halfObject halfObject :=
    .cons rfl (.cons rfl (.cons rfl (.cons rfl (.cons rfl .nil))))
  have hcs : Command.TakenDown cs cs := .cons rfl (List.rel_append hhalf (.cons rfl .nil))
  obtain ⟨content, g, tr, hcontent, hstreams, hothers, hidle, -, hcalls, htr, hcommands, hpast⟩ :=
    records_definition (show ch.stages = [.tap #[]] ++ .archive f :: [.tap #[]] from rfl)
      (List.forall_mem_singleton.2 rfl) rfl hdef hcs
  obtain rfl := hcontent.unique hhalf
  exact ⟨f, g, cs, tr, rfl, hdef, hcs, hstreams, hothers .object StreamKind.noConfusion, hidle,
    hcalls, htr, hcommands, hpast⟩

/-- A chain whose first filter is known, in parts. -/
theorem exists_front_of_archiveFilters {ss : List Stage} {fs : List ArchiveFilter}
    (h : ss.filterMap Stage.archiveFilter? = f :: fs) :
    ∃ front back, ss = front ++ .archive f :: back ∧ (∀ s ∈ front, s.archiveFilter? = none) ∧
      back.filterMap Stage.archiveFilter? = fs := by
  obtain ⟨front, s, back, rfl, hfront, hs, hback⟩ := List.filterMap_eq_cons_iff.1 h
  refine ⟨front, back, ?_, hfront, hback⟩
  cases s with
  | archive g =>
    obtain rfl : g = f := Option.some.inj hs
    rfl
  | _ => cases hs

end Chain

end SceneReplay
