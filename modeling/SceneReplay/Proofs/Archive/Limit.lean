import SceneReplay.Proofs.Archive.Comments
import SceneReplay.Proofs.Chain.Mirror

/-!
# The limit only cuts

A filter looks at its limit in one place: before a replay begins, to see whether as many are
in progress already. If so, the replay is left out and reported. So the limit decides about
nothing else, and as long as it has cut nothing, a greater one does not matter
(`SceneReplay.Chain.calls_of_limit_le`).

Two filters with different limits mirror each other
(`SceneReplay.ArchiveFilter.withGauge`), and the one with the greater limit has no less room.
The first is kept by all calls that cut nothing (`SceneReplay.Chain.Mirrors.calls`), and the
second is a matter of gauges, which calls leave as they are.
-/

namespace SceneReplay.Chain

/-- Two new filters of which the second has the greater limit. -/
theorem mirrors_filtering {limit limit' : Nat} (hle : limit ≤ limit') (capture : Bool) :
    (filtering limit capture).Mirrors (filtering limit' capture) ∧
      (filtering limit capture).Roomier (filtering limit' capture) := by
  refine ⟨⟨.cons (.archive (.fresh limit capture) limit' 0) .nil, rfl, rfl⟩, .cons ?_ .nil⟩
  rintro g h ⟨⟩ ⟨⟩
  exact Nat.add_le_add_right hle 0

/-- Two chains of one filter that mirror each other have the same filter, up to the limits, if
no replay is in progress. -/
theorem Mirrors.exists_filter {σ : Type} {ch other : Chain σ} {limit limit' : Nat}
    (h : ch.Mirrors other) (hgauges : ch.gauges = [some (limit, 0)])
    (hgauges' : other.gauges = [some (limit', 0)]) :
    ∃ f, ch.stages = [.archive f] ∧ other.stages = [.archive { f with limit := limit' }] := by
  obtain ⟨f, hf, -, hdepth⟩ := exists_archive_of_gauges hgauges
  obtain ⟨g, hg, hlimit, hdepth'⟩ := exists_archive_of_gauges hgauges'
  refine ⟨f, hf, ?_⟩
  have hrows := h.stages
  rw [hf, hg] at hrows
  obtain ⟨hpair, -⟩ := List.forall₂_cons.1 hrows
  cases hpair with
  | archive f l d =>
    obtain rfl : l = limit' := hlimit
    obtain rfl : d = f.depth := hdepth'.trans hdepth.symm
    exact hg

/-- **The limit only cuts.** Let any calls be made at the head of a new filter in front of a
collector, and let them lead to no report of nesting. Then a filter with a greater limit
delivers the same commands in the same order, makes the same reports, and ends in the same
state: with the same archives and objects, open or closed alike, in the same scope, with as
many replays in progress. -/
theorem calls_of_limit_le {limit limit' : Nat} (hle : limit ≤ limit') (capture : Bool)
    {cs : List Command}
    (hdeep : ((filtering limit capture).calls cs).log.count (some .nesting) = 0) :
    let ch := (filtering limit capture).calls cs
    let ch' := (filtering limit' capture).calls cs
    ch'.sink = ch.sink ∧ ch'.log = ch.log ∧
      ∃ f, ch.stages = [.archive f] ∧ ch'.stages = [.archive { f with limit := limit' }] := by
  intro ch ch'
  obtain ⟨hmirror, hroom⟩ := mirrors_filtering hle capture
  have hend : ch.Mirrors ch' := hmirror.calls hroom (Nat.le_of_eq hdeep)
  exact ⟨hend.sink, hend.log, hend.exists_filter (gauges_calls _ cs) (gauges_calls _ cs)⟩

/-- An archive that opens an object and does not end it, and one that refers to the first, and a
reference to that one. -/
def readThrough : List Command :=
  [⟨"ArchiveBegin", [.text [.char 'a']], some .empty⟩, ⟨"WorldBegin", [], none⟩,
    ⟨"ObjectBegin", [.text [.char 'o']], none⟩, ⟨"ArchiveEnd", [], none⟩,
    ⟨"ArchiveBegin", [.text [.char 'b']], some .empty⟩, selfReference, ⟨"ArchiveEnd", [], none⟩,
    ⟨"ReadArchive", [.text [.char 'b'], .null], some .empty⟩]

/-- A limit of two is enough for these calls, so the greatest limit changes nothing; a limit of
one cuts the inner replay, and neither is the command delivered nor the object opened. -/
theorem calls_of_limit_le_readThrough :
    let ch := (filtering 2 true).calls readThrough
    let ch' := (filtering 64 true).calls readThrough
    let cut := (filtering 1 true).calls readThrough
    ch.log.count (some .nesting) = 0 ∧ ch'.sink = ch.sink ∧
      ch.sink.toList = [⟨"WorldBegin", [], none⟩] ∧
      (∃ f, ch.stages = [.archive f] ∧ ch'.stages = [.archive { f with limit := 64 }] ∧
        f.scope = .object 0) ∧
      cut.sink.toList = [] ∧ cut.log.count (some .nesting) = 1 := by
  intro ch ch' cut
  have hdeep : ch.log.count (some .nesting) = 0 := rfl
  obtain ⟨hsink, -, f, hf, hf'⟩ := calls_of_limit_le (show 2 ≤ 64 by decide) true hdeep
  have hscope : ch.archiveFilters.map ArchiveFilter.scope = [.object 0] := rfl
  rw [archiveFilters, hf] at hscope
  exact ⟨hdeep, hsink, rfl, ⟨f, hf, hf', (List.cons.inj hscope).1⟩, rfl, rfl⟩

end SceneReplay.Chain
