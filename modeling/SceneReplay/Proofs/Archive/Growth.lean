import SceneReplay.Proofs.Chain.Trace
import SceneReplay.Sink

/-!
# What was defined stays defined

A registry only gets longer, and a stream in it only until it is closed. So whatever a filter
knows at one moment it knows at every later one: the names at the front of its registries are
the same, a name that stood for a stream stands for the stream at that place, and once that
stream is closed, every reference that the filter deals with is answered by the very commands
that it had then (`SceneReplay.ArchiveFilter.Keeps`).

`SceneReplay.Chain.Reachable.keeps_recordings` says so about any two moments of any calls at
the head of a chain: new streams may be created and filled while another one is in the middle
of being replayed, and any call may be refused by the sink. The reason is that each single
move of a filter is a growth (`SceneReplay.ArchiveFilter.Received.growsTo`), and growth may be
followed along a trace (`SceneReplay.Chain.CallsTraced.pairwise`).
-/

namespace SceneReplay

/-! ### Registries that have grown -/

namespace Registry

variable {r r' : Registry} {name : Value}

/-- The names at the front stay. -/
theorem GrowsTo.names (h : r.GrowsTo r') : r.names <+: r'.names := by
  refine List.prefix_iff_getElem?.2 fun i hi => ?_
  rw [Registry.names, List.length_map] at hi
  obtain ⟨t, ht, hgrows⟩ := h i _ (List.getElem?_eq_getElem hi)
  have ht : r'.streams[i]? = some t := ht
  simp [Registry.names, ht, hgrows.name]

theorem position?_eq_findIdx?_names (r : Registry) (name : Value) :
    r.position? name = r.names.findIdx? fun n => n.same name := by
  rw [Registry.names, List.findIdx?_map]
  rfl

/-- A name that stands for a stream stands for it later on. -/
theorem GrowsTo.position? (h : r.GrowsTo r') {i : Nat} (hi : r.position? name = some i) :
    r'.position? name = some i := by
  rw [position?_eq_findIdx?_names] at hi ⊢
  exact h.names.findIdx?_eq_some hi

theorem find?_eq_bind_position? (r : Registry) (name : Value) :
    r.find? name = (r.position? name).bind r.get? :=
  List.find?_eq_bind_findIdx?_getElem?

/-- The stream that is found under a name is found under it later on. -/
theorem GrowsTo.find? (h : r.GrowsTo r') {s : Stream} (hs : r.find? name = some s) :
    ∃ t, r'.find? name = some t ∧ s.GrowsTo t := by
  rw [find?_eq_bind_position?] at hs
  obtain ⟨i, hi, hget⟩ := Option.bind_eq_some_iff.1 hs
  obtain ⟨t, ht, hgrows⟩ := h i s hget
  exact ⟨t, by rw [find?_eq_bind_position?, h.position? hi, Option.bind_some, ht], hgrows⟩

end Registry

namespace ArchiveFilter

/-- **What a filter knows, another one knows as well**, namely itself later on. -/
structure Keeps (f g : ArchiveFilter) : Prop where
  /-- No name goes away, and none comes in front or in between. -/
  names : ∀ kind, (f.registry kind).names <+: (g.registry kind).names
  /-- Every stream is where it was, grown at its end only, and as it was if it was closed. -/
  streams : ∀ kind i s, (f.registry kind).get? i = some s →
    ∃ t, (g.registry kind).get? i = some t ∧ s.GrowsTo t
  /-- A name that stands for a stream still stands for the one at that place. -/
  places : ∀ kind name i, (f.registry kind).position? name = some i →
    (g.registry kind).position? name = some i
  /-- So the same stream is found under it. -/
  found : ∀ kind name s, (f.registry kind).find? name = some s →
    ∃ t, (g.registry kind).find? name = some t ∧ s.GrowsTo t
  /-- Once the first stream of a name is closed, a reference to it that the filter deals with
  stands for the commands of that stream. -/
  answers : ∀ kind c s, (f.registry kind).find? c.subject = some s → s.closed = true →
    c.role = kind.reference → g.scope = .idle →
      g.receive c = (g, if g.limit ≤ g.depth then .report (tooDeep g.limit kind s.name)
        else .replay s.commands)

/-- All this is a matter of growth. -/
theorem GrowsTo.keeps {f g : ArchiveFilter} (h : f.GrowsTo g) : f.Keeps g where
  names kind := (h kind).names
  streams kind := h kind
  places kind _ _ hi := (h kind).position? hi
  found kind _ _ hs := (h kind).find? hs
  answers kind c s hfind hclosed hrole hidle := by
    obtain ⟨t, ht, hgrows⟩ := (h kind).find? hfind
    rw [hgrows.closed hclosed] at ht
    exact receive_reference hidle hrole ht

end ArchiveFilter

namespace Chain

variable {σ : Type} [Sink σ]

/-- **Recordings are kept.** Let calls be made at the head of a reachable chain, one after the
other, whatever comes of each of them. The calls have a trace. Let `st` and `st'` be two
moments of any trace of them, `st` the earlier one: before or after all calls, or when some
command comes to the head, be it one of the calls or one that is replayed. Then every archive
filter of `st` is there in `st'`, and keeps what it knew. While such a filter is idle, all its
streams are closed, so that then every name that stands for a stream stands for its commands
for good. -/
theorem Reachable.keeps_recordings {ch : Chain σ} (hch : ch.Reachable) (cs : List Command) :
    (∃ tr, CallsTraced cs ch tr (ch.calls cs)) ∧
      ∀ tr ch', CallsTraced cs ch tr ch' →
        ((ch :: moments tr ch').Pairwise fun st st' =>
          ∀ (k : Nat) (f : ArchiveFilter), st.stages[k]? = some (Stage.archive f) →
            ∃ g, st'.stages[k]? = some (Stage.archive g) ∧ f.Keeps g) ∧
        ∀ st ∈ ch :: moments tr ch', ∀ (k : Nat) (f : ArchiveFilter),
          st.stages[k]? = some (Stage.archive f) → f.scope = .idle →
            ∀ kind, ∀ s ∈ (f.registry kind).streams, s.closed = true := by
  refine ⟨exists_callsTraced ch cs, fun tr ch' htr => ⟨?_, fun st hst k f hk hidle => ?_⟩⟩
  · refine htr.growsTo.imp fun {st st'} hgrows k f hk => ?_
    obtain ⟨g, hg, hfg⟩ := hgrows k f hk
    exact ⟨g, hg, hfg.keeps⟩
  · have hfits : f.Fits := htr.fits hch.fits st hst (.archive f) (List.mem_of_getElem? hk)
    exact hfits.allClosed hidle

/-- An archive that defines an object and then draws, and one that refers to it. -/
def objectReading : List Command :=
  [⟨"ArchiveBegin", [.text [.char 'a']], some .empty⟩, ⟨"ObjectBegin", [.text [.char 'o']], none⟩,
    ⟨"WorldBegin", [], none⟩, ⟨"ObjectEnd", [], none⟩, ⟨"WorldBegin", [], none⟩,
    ⟨"ArchiveEnd", [], none⟩, ⟨"ArchiveBegin", [.text [.char 'b']], some .empty⟩, selfReference,
    ⟨"ArchiveEnd", [], none⟩]

/-- The reference to the second of these archives. -/
def outerReference : Command := ⟨"ReadArchive", [.text [.char 'b'], .null], some .empty⟩

/-- A filter that has recorded these archives, and some objects. -/
def twoArchives (objects : List Stream) : ArchiveFilter :=
  ⟨4, true, ⟨[⟨.text [.char 'a'], (objectReading.drop 1).take 4, true⟩,
    ⟨.text [.char 'b'], [selfReference], true⟩]⟩, ⟨objects⟩, .idle, 0⟩

/-- A filter that has recorded these archives, between two taps, where everything that gets past
it is refused. -/
def refusing : Chain Endpoint :=
  ⟨[.tap objectReading.toArray, .archive (twoArchives []), .tap #[]], .bare, .empty⟩

theorem reachable_refusing : refusing.Reachable := by
  let new : Chain Endpoint := (((ofSink .bare).addStage (.tap #[])).addStage
    (.archive (.fresh 4 true))).addStage (.tap #[])
  have hnew : new.Reachable :=
    .addStage rfl (.addStage ⟨4, true, by decide, by decide, rfl⟩ (.addStage rfl (.ofSink _)))
  have hread : new.calls objectReading = refusing := by rfl
  exact hread ▸ hnew.calls objectReading

/-- The object that is defined when they are replayed. -/
def drawn : Stream := ⟨.text [.char 'o'], [⟨"WorldBegin", [], none⟩], true⟩

/-- Two replays deep the object is defined, and the command after it is refused. -/
theorem issue_refusing : (refusing.issue 0 outerReference).2 = some .notImplemented ∧
    (refusing.issue 0 outerReference).1.archiveFilters = [twoArchives [drawn]] :=
  ⟨rfl, rfl⟩

/-- An object is defined inside a replay that the sink then breaks off. A reference to the archive
that was replayed stands for what it stood for before. -/
theorem keeps_recordings_refused :
    ∃ (ch : Chain Endpoint) (f g : ArchiveFilter) (s : Stream), ch.Reachable ∧
      ch.stages[1]? = some (.archive f) ∧ f.archives.find? selfReference.subject = some s ∧
      s.closed = true ∧ s.commands.length = 4 ∧ f.objects.streams = [] ∧
      (ch.issue 0 outerReference).2 = some .notImplemented ∧
      (ch.calls [outerReference]).stages[1]? = some (.archive g) ∧ f.Keeps g ∧
      g.objects.streams = [drawn] ∧ g.receive selfReference = (g, .replay s.commands) := by
  obtain ⟨⟨tr, htr⟩, hall⟩ := reachable_refusing.keeps_recordings [outerReference]
  obtain ⟨g, hg, hkeeps⟩ := (List.pairwise_cons.1 (hall tr _ htr).1).1 _
    (List.mem_append_right _ List.mem_cons_self) 1 (twoArchives []) rfl
  obtain rfl : g = twoArchives [drawn] := by
    have hfilters := issue_refusing.2
    have hmem := mem_archiveFilters_of_getElem? hg
    exact List.mem_singleton.1 (hfilters ▸ hmem)
  exact ⟨refusing, twoArchives [], _, _, reachable_refusing, rfl, rfl, rfl, rfl, rfl,
    issue_refusing.1, hg, hkeeps, rfl, hkeeps.answers .archive selfReference _ rfl rfl rfl rfl⟩

end Chain

end SceneReplay
