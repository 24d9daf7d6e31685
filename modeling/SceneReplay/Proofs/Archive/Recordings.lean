import SceneReplay.Proofs.Chain.Moment

/-!
# Open and closed recordings

At most one recording of an archive filter is open, and the scope of the filter says
which: the last stream of the registry that it records in, and none while it is
idle. `SceneReplay.ArchiveFilter.Fits` is this fit between the scope and the
registries; every move of the filter keeps it
(`SceneReplay.ArchiveFilter.Fits.receive`), so every filter of a reachable chain has
it at every moment.

Recordings only grow: a new one comes behind all others, and one that is there keeps its
place, its name and its commands; it gets more of them at its end until it is closed, and is
closed for good (`SceneReplay.Stream.GrowsTo`). Every move of a filter is such a growth
(`SceneReplay.ArchiveFilter.Received.growsTo`), and so is whatever calls at the head of a
chain lead to (`SceneReplay.Chain.Passes.growsTo`).
-/

namespace SceneReplay

/-! ### Registries -/

namespace Registry

/-- All recordings of the registry have ended. -/
def AllClosed (r : Registry) : Prop := ∀ s ∈ r.streams, s.closed = true

/-- The recording at the position is the last one and the only one that has not
ended. -/
def LastOpen (r : Registry) (i : Nat) : Prop :=
  ∃ earlier s, r.streams = earlier ++ [s] ∧ earlier.length = i ∧ s.closed = false ∧
    ∀ t ∈ earlier, t.closed = true

theorem allClosed_empty : empty.AllClosed := by
  intro s hs
  cases hs

/-- A new recording is the last one, and open. -/
theorem AllClosed.create {r : Registry} (h : r.AllClosed) (name : Value) :
    (r.create name).LastOpen r.streams.length :=
  ⟨r.streams, Stream.opened name, rfl, rfl, rfl, h⟩

theorem get?_of_streams {r : Registry} {earlier : List Stream} {s : Stream} {i : Nat}
    (h : r.streams = earlier ++ [s]) (hi : earlier.length = i) : r.get? i = some s := by
  subst hi
  simp [get?, h]

/-- An open recording takes every command, and stays the last and the only open
one. -/
theorem append_of_streams {r : Registry} {earlier : List Stream} {s : Stream} {i : Nat}
    (h : r.streams = earlier ++ [s]) (hi : earlier.length = i) (hs : s.closed = false)
    (c : Command) :
    r.append i c = .ok ⟨earlier ++ [{ s with commands := s.commands ++ [c] }]⟩ := by
  subst hi
  simp [append, get?_of_streams h rfl, Stream.append, hs, Except.map, set, h]

theorem LastOpen.append {r r' : Registry} {i : Nat} {c : Command} (h : r.LastOpen i)
    (happend : r.append i c = .ok r') : r'.LastOpen i := by
  obtain ⟨earlier, s, hstreams, hi, hs, hearlier⟩ := h
  rw [append_of_streams hstreams hi hs] at happend
  cases happend
  exact ⟨earlier, _, rfl, hi, hs, hearlier⟩

/-- An open recording refuses nothing. -/
theorem LastOpen.append_ne_error {r : Registry} {i : Nat} (h : r.LastOpen i) (c : Command)
    (f : Fault) : r.append i c ≠ .error f := by
  obtain ⟨earlier, s, hstreams, hi, hs, -⟩ := h
  rw [append_of_streams hstreams hi hs]
  simp

/-- The last recording ends. -/
theorem close_of_streams {r : Registry} {earlier : List Stream} {s : Stream} {i : Nat}
    (h : r.streams = earlier ++ [s]) (hi : earlier.length = i) :
    r.close i = ⟨earlier ++ [s.close]⟩ := by
  subst hi
  simp [close, get?_of_streams h rfl, set, h]

/-- When the open recording ends, all have ended. -/
theorem LastOpen.close {r : Registry} {i : Nat} (h : r.LastOpen i) : (r.close i).AllClosed := by
  obtain ⟨earlier, s, hstreams, hi, -, hearlier⟩ := h
  intro t ht
  rw [close_of_streams hstreams hi, List.mem_append, List.mem_singleton] at ht
  rcases ht with ht | rfl
  · exact hearlier t ht
  · rfl

/-- A stream that is found is one of the registry. -/
theorem mem_of_find? {r : Registry} {name : Value} {s : Stream} (h : r.find? name = some s) :
    s ∈ r.streams :=
  List.mem_of_find?_eq_some h

end Registry

/-! ### The fit between the scope and the recordings -/

namespace ArchiveFilter

/-- **The scope fits the recordings**: the stream recorded in is the last of its
registry and the only open one there, and a registry that is not recorded in has no
open stream. -/
structure Fits (f : ArchiveFilter) : Prop where
  /-- What is recorded in is the last stream, and open. -/
  recorded : ∀ kind i, f.scope.target? = some (kind, i) → (f.registry kind).LastOpen i
  /-- All else is closed. -/
  others : ∀ kind, (∀ i, f.scope.target? ≠ some (kind, i)) → (f.registry kind).AllClosed

theorem fits_fresh (limit : Nat) (capture : Bool) : (fresh limit capture).Fits := by
  refine ⟨fun kind i h => ?_, fun kind _ => ?_⟩
  · cases h
  · cases kind <;> exact Registry.allClosed_empty

/-- While the filter is idle, every recording has ended. -/
theorem Fits.allClosed {f : ArchiveFilter} (h : f.Fits) (hidle : f.scope = .idle)
    (kind : StreamKind) : (f.registry kind).AllClosed := by
  refine h.others kind fun i hi => ?_
  rw [hidle] at hi
  cases hi

/-- The fit does not depend on how many replays are in progress. -/
theorem Fits.withDepth {f : ArchiveFilter} (h : f.Fits) (depth : Nat) :
    ({ f with depth := depth } : ArchiveFilter).Fits :=
  ⟨fun kind i hi => by have := h.recorded kind i hi; cases kind <;> exact this,
    fun kind hk => by have := h.others kind hk; cases kind <;> exact this⟩

/-- The fit of a filter of which one registry and the scope were replaced. -/
theorem Fits.replace {f : ArchiveFilter} (h : f.Fits) {kind : StreamKind} {r : Registry}
    {next : Scope} (hothers : ∀ other, other ≠ kind → ∀ i, f.scope.target? ≠ some (other, i))
    (hnext : (∃ i, next.target? = some (kind, i) ∧ r.LastOpen i) ∨
      next.target? = none ∧ r.AllClosed) :
    (f.replace kind r next).Fits := by
  refine ⟨fun k i hk => ?_, fun k hk => ?_⟩
  · rw [scope_replace] at hk
    rcases hnext with ⟨j, hj, hopen⟩ | ⟨hnone, -⟩
    · obtain ⟨rfl, rfl⟩ : kind = k ∧ j = i := by simpa [hj] using hk
      rw [registry_replace]
      exact hopen
    · rw [hnone] at hk
      cases hk
  · rw [scope_replace] at hk
    rcases eq_or_ne k kind with rfl | hne
    · rw [registry_replace]
      rcases hnext with ⟨j, hj, -⟩ | ⟨-, hclosed⟩
      · exact absurd hj (hk j)
      · exact hclosed
    · rw [f.registry_replace_of_ne kind r next hne]
      exact h.others k (hothers k hne)

/-- **Every move keeps the fit.** -/
theorem Fits.receive {f g : ArchiveFilter} {c : Command} {reaction : Reaction} (h : f.Fits)
    (hmove : Received f c g reaction) : g.Fits := by
  have hothers : ∀ {kind i}, f.scope.target? = some (kind, i) →
      ∀ other, other ≠ kind → ∀ j, f.scope.target? ≠ some (other, j) := by
    intro kind i htarget other hne j hj
    rw [htarget] at hj
    cases hj
    exact hne rfl
  cases hmove with
  | passed | dropped | undefined | referred | refused => exact h
  | opened kind hidle hrole =>
    refine h.replace (fun other _ i hi => ?_) (Or.inl ⟨_, ?_, (h.allClosed hidle kind).create _⟩)
    · rw [hidle] at hi
      cases hi
    · cases kind <;> rfl
  | recorded kind index r htarget hopen hkept happend =>
    exact h.replace (hothers htarget)
      (Or.inl ⟨index, by simpa using htarget, (h.recorded kind index htarget).append happend⟩)
  | closed kind index htarget hclose =>
    exact h.replace (hothers htarget) (Or.inr ⟨rfl, (h.recorded kind index htarget).close⟩)

/-- A filter that fits its recordings records whatever it should. -/
theorem Fits.not_fault {f g : ArchiveFilter} {c : Command} {reaction : Reaction} (h : f.Fits)
    (hmove : Received f c g reaction) (fault : Fault) : reaction ≠ .fault fault := by
  cases hmove with
  | refused kind index fault' htarget happend =>
    exact absurd happend ((h.recorded kind index htarget).append_ne_error c fault')
  | referred kind s =>
    unfold replay
    split <;> simp
  | _ => simp

end ArchiveFilter

/-! ### Recordings grow -/

namespace Stream

variable {s t u : Stream}

/-- **A recording later on**: it has its name, and the commands that it had come first. One
that was closed is the same. -/
structure GrowsTo (s t : Stream) : Prop where
  /-- The name stays. -/
  name : t.name = s.name
  /-- What was recorded stays, in front of what is new. -/
  commands : s.commands <+: t.commands
  /-- A closed recording is closed for good. -/
  closed : s.closed = true → t = s

theorem GrowsTo.refl (s : Stream) : s.GrowsTo s := ⟨rfl, List.prefix_refl _, fun _ => rfl⟩

theorem GrowsTo.trans (h : s.GrowsTo t) (h' : t.GrowsTo u) : s.GrowsTo u := by
  refine ⟨h'.name.trans h.name, h.commands.trans h'.commands, fun hs => ?_⟩
  obtain rfl := h.closed hs
  exact h'.closed hs

theorem growsTo_of_append {c : Command} (h : s.append c = .ok t) : s.GrowsTo t := by
  unfold append at h
  split at h
  · cases h
  · rename_i hopen
    cases h
    exact ⟨rfl, List.prefix_append _ _, fun hs => absurd hs hopen⟩

theorem growsTo_close (s : Stream) : s.GrowsTo s.close := by
  refine ⟨rfl, List.prefix_refl _, fun hs => ?_⟩
  cases s
  simp_all [close]

end Stream

namespace Registry

variable {r r' r'' : Registry}

/-- **A registry later on**: every recording has grown where it was. New ones stand behind
them. -/
def GrowsTo (r r' : Registry) : Prop :=
  ∀ i s, r.get? i = some s → ∃ t, r'.get? i = some t ∧ s.GrowsTo t

theorem GrowsTo.refl (r : Registry) : r.GrowsTo r := fun _ s hs => ⟨s, hs, .refl s⟩

theorem GrowsTo.trans (h : r.GrowsTo r') (h' : r'.GrowsTo r'') : r.GrowsTo r'' := by
  intro i s hs
  obtain ⟨t, ht, hst⟩ := h i s hs
  obtain ⟨u, hu, htu⟩ := h' i t ht
  exact ⟨u, hu, hst.trans htu⟩

/-- A closed recording stays as it is, where it is. -/
theorem GrowsTo.get?_of_closed (h : r.GrowsTo r') {i : Nat} {s : Stream} (hs : r.get? i = some s)
    (hclosed : s.closed = true) : r'.get? i = some s := by
  obtain ⟨t, ht, hst⟩ := h i s hs
  rwa [hst.closed hclosed] at ht

theorem growsTo_create (r : Registry) (name : Value) : r.GrowsTo (r.create name) := by
  intro i s hs
  refine ⟨s, ?_, .refl s⟩
  rw [get?, create, List.getElem?_append_left (List.getElem?_eq_some_iff.1 hs).1]
  exact hs

/-- One recording is replaced by a grown one. -/
theorem growsTo_set {i : Nat} {s t : Stream} (hs : r.get? i = some s) (hst : s.GrowsTo t) :
    r.GrowsTo (r.set i t) := by
  intro j u hu
  rcases eq_or_ne i j with rfl | hne
  · obtain rfl : s = u := Option.some.inj (hs.symm.trans hu)
    exact ⟨t, List.getElem?_set_self (List.getElem?_eq_some_iff.1 hs).1, hst⟩
  · exact ⟨u, (List.getElem?_set_ne hne).trans hu, .refl u⟩

theorem growsTo_of_append {i : Nat} {c : Command} (h : r.append i c = .ok r') :
    r.GrowsTo r' := by
  unfold append at h
  cases hi : r.get? i with
  | none =>
    rw [hi] at h
    cases h
    exact .refl r
  | some s =>
    rw [hi] at h
    cases hs : s.append c with
    | error f => simp [hs, Except.map] at h
    | ok t =>
      obtain rfl : r.set i t = r' := by simpa [hs, Except.map] using h
      exact growsTo_set hi (Stream.growsTo_of_append hs)

theorem growsTo_close (r : Registry) (i : Nat) : r.GrowsTo (r.close i) := by
  unfold close
  cases hi : r.get? i with
  | none => exact .refl r
  | some s => exact growsTo_set hi s.growsTo_close

end Registry

namespace ArchiveFilter

variable {f g h : ArchiveFilter}

/-- **A filter later on**: all its recordings have grown where they were. -/
def GrowsTo (f g : ArchiveFilter) : Prop := ∀ kind, (f.registry kind).GrowsTo (g.registry kind)

theorem GrowsTo.refl (f : ArchiveFilter) : f.GrowsTo f := fun _ => .refl _

theorem GrowsTo.trans (hfg : f.GrowsTo g) (hgh : g.GrowsTo h) : f.GrowsTo h :=
  fun kind => (hfg kind).trans (hgh kind)

/-- How many replays are in progress does not matter to the recordings. -/
theorem growsTo_withDepth (f : ArchiveFilter) (depth : Nat) :
    f.GrowsTo { f with depth := depth } := fun kind => by
  cases kind <;> exact .refl _

theorem growsTo_replace {kind : StreamKind} {r : Registry} (hr : (f.registry kind).GrowsTo r)
    (next : Scope) : f.GrowsTo (f.replace kind r next) := by
  intro other
  rcases eq_or_ne other kind with rfl | hne
  · rwa [registry_replace]
  · rw [f.registry_replace_of_ne kind r next hne]
    exact .refl _

/-- **No move changes what was recorded**, takes a stream away or puts one in front. -/
theorem Received.growsTo {c : Command} {reaction : Reaction} (hmove : Received f c g reaction) :
    f.GrowsTo g := by
  cases hmove with
  | passed | dropped | undefined | referred | refused => exact .refl f
  | opened kind => exact growsTo_replace ((f.registry kind).growsTo_create _) _
  | recorded kind index r _ _ _ happend =>
    exact growsTo_replace (Registry.growsTo_of_append happend) _
  | closed kind index => exact growsTo_replace ((f.registry kind).growsTo_close index) _

end ArchiveFilter

namespace Chain

variable {σ : Type}

/-- **A chain later on**: the recordings of each filter have grown. -/
def GrowsTo (ch st : Chain σ) : Prop :=
  ∀ (k : Nat) (f : ArchiveFilter), ch.stages[k]? = some (Stage.archive f) →
    ∃ g, st.stages[k]? = some (Stage.archive g) ∧ f.GrowsTo g

theorem GrowsTo.refl (ch : Chain σ) : ch.GrowsTo ch := fun _ f hk => ⟨f, hk, .refl f⟩

theorem GrowsTo.trans {ch st st' : Chain σ} (h : ch.GrowsTo st) (h' : st.GrowsTo st') :
    ch.GrowsTo st' := by
  intro k f hk
  obtain ⟨g, hg, hfg⟩ := h k f hk
  obtain ⟨g', hg', hgg'⟩ := h' k g hg
  exact ⟨g', hg', hfg.trans hgg'⟩

/-- What the begin and the end of a replay do to a stage concerns no recordings. -/
theorem growsTo_modify (ch : Chain σ) {m : Stage → Stage}
    (hm : ∀ f, ∃ depth, m (.archive f) = .archive { f with depth := depth }) (j : Nat) :
    ch.GrowsTo { ch with stages := ch.stages.modify j m } := by
  intro k f hk
  obtain ⟨depth, hdepth⟩ := hm f
  rcases eq_or_ne j k with rfl | hne
  · exact ⟨_, by simp [hk, hdepth], f.growsTo_withDepth depth⟩
  · exact ⟨f, by simpa [hne] using hk, .refl f⟩

theorem growsTo_enterReplay (ch : Chain σ) (j : Nat) : ch.GrowsTo (ch.enterReplay j) :=
  ch.growsTo_modify (fun f => ⟨f.depth + 1, rfl⟩) j

theorem growsTo_leaveReplay (ch : Chain σ) (j : Nat) : ch.GrowsTo (ch.leaveReplay j) :=
  ch.growsTo_modify (fun f => ⟨f.depth - 1, rfl⟩) j

variable [Sink σ]

theorem growsTo_step (ch : Chain σ) (c : Command) : ch.GrowsTo (ch.step 0 c).1 := by
  intro k f hk
  rw [stages_step]
  obtain ⟨t, ht, hgrows⟩ := getElem?_walk
    (R := fun s t => ∀ f, s = .archive f → ∃ g, t = .archive g ∧ f.GrowsTo g)
    (fun _ f hs => ⟨f, hs, .refl f⟩)
    (fun _ c f hs => ⟨_, by rw [hs]; rfl, (f.received c).growsTo⟩) hk c
  obtain ⟨g, rfl, hfg⟩ := hgrows f rfl
  exact ⟨g, ht, hfg⟩

/-- **At every later moment of calls the recordings have grown.** -/
theorem Passes.growsTo {cs : List Command} {ch st : Chain σ} (h : Passes cs ch st) :
    ch.GrowsTo st :=
  h.preserves (P := fun st => ch.GrowsTo st) (fun st c _ hst => hst.trans (st.growsTo_step c))
    (fun st k hst => hst.trans (st.growsTo_enterReplay k))
    (fun st k hst => hst.trans (st.growsTo_leaveReplay k)) (.refl ch)

end Chain

end SceneReplay
