import Mathlib.Data.Set.Card
import SceneReplay.Proofs.Archive.Growth
import SceneReplay.Proofs.Archive.Refused
import SceneReplay.Proofs.Archive.Unfolding
import SceneReplay.Proofs.Chain.Collected
import SceneReplay.Proofs.Chain.Mirror
import SceneReplay.Proofs.Chain.Observers

/-!
# Counting walks

The recordings of a filter are a graph. Its nodes are the places of streams
(`SceneReplay.Place`), and every reference in a stream to a name that is defined is an edge, from
the place of that stream to that of the first stream of this name. There may be several edges
from one place to another, and edges from a place to itself.

While no recording defines anything, a replay that is left out because too many are in progress
is one that a walk in this graph leads to, one edge for every replay on the way. So a reference
makes as many reports of nesting as there are walks from its place with as many edges as the
filter has units of depth, no more and no less
(`SceneReplay.Chain.Reachable.nestings_eq_walks`). Such a walk is long: there is none in an
acyclic graph of few places, and there is one wherever a cycle can be reached.

A walk is given by the positions of the references that it follows. The walks of some length are
listed by recursion on the length (`SceneReplay.ArchiveFilter.walks`), in the way in which a
command unfolds, and so their number is that of the reports in an unfolding to that depth
(`SceneReplay.ArchiveFilter.nestings_unfolding`).
-/

namespace SceneReplay

/-- The place of a stream in the registries of a filter. -/
structure Place where
  /-- The kind of the stream. -/
  kind : StreamKind
  /-- Its position among the streams of this kind. -/
  index : Nat
deriving DecidableEq

namespace ArchiveFilter

/-! ### The graph of references -/

/-- What is recorded at a place. -/
def content (f : ArchiveFilter) (p : Place) : List Command :=
  ((f.registry p.kind).get? p.index).elim [] Stream.commands

/-- **What a reference refers to**: the place of the first stream of its name. -/
def target? (f : ArchiveFilter) (c : Command) : Option Place :=
  match c.role with
  | .archiveReference => (f.archives.position? c.subject).map (Place.mk .archive)
  | .objectReference => (f.objects.position? c.subject).map (Place.mk .object)
  | _ => none

/-- **A walk** from one place to another: each of its edges is a reference, given by its position
in what is recorded at the place where it starts. -/
inductive Walk (f : ArchiveFilter) : Place → List Nat → Place → Prop
  /-- The walk that stays where it is. -/
  | nil (p : Place) : Walk f p [] p
  /-- One reference is followed, and the walk goes on from what it refers to. -/
  | cons {p q r : Place} {i : Nat} {is : List Nat} {c : Command}
      (hc : (f.content p)[i]? = some c) (htarget : f.target? c = some q) (h : Walk f q is r) :
      Walk f p (i :: is) r

/-- The walks from a place with some number of edges. -/
def walksFrom (f : ArchiveFilter) (p : Place) (n : Nat) : Set (List Nat) :=
  {is | is.length = n ∧ ∃ q, f.Walk p is q}

/-- The places that walks from a place lead to. -/
def reach (f : ArchiveFilter) (p : Place) : Set Place := {q | ∃ is, f.Walk p is q}

/-- Some walk from the place leads to a place to which it can come back. -/
def ReachesCycle (f : ArchiveFilter) (p : Place) : Prop :=
  ∃ q is js, f.Walk p is q ∧ js ≠ [] ∧ f.Walk q js q

variable {f : ArchiveFilter} {p q : Place} {c : Command}

theorem target?_eq_some : f.target? c = some p ↔
    c.role = p.kind.reference ∧ (f.registry p.kind).position? c.subject = some p.index := by
  obtain ⟨_ | _, i⟩ := p <;> unfold target? <;>
    cases hrole : c.role <;> simp [StreamKind.reference, registry]

/-- The only walk without an edge is the one that stays. -/
theorem walksFrom_zero (f : ArchiveFilter) (p : Place) : f.walksFrom p 0 = {[]} := by
  ext is
  constructor
  · rintro ⟨hlength, -⟩
    exact List.eq_nil_of_length_eq_zero hlength
  · rintro rfl
    exact ⟨rfl, p, .nil p⟩

/-! ### Listing walks -/

/-- **The walks with `n` edges**, one after the other. -/
def walks (f : ArchiveFilter) : Nat → Place → List (List Nat)
  | 0, _ => [[]]
  | n + 1, p => (f.content p).zipIdx.flatMap fun ci =>
      (f.target? ci.1).elim [] fun q => (f.walks n q).map (ci.2 :: ·)

/-- How many walks with `n` edges begin at the place that a command refers to. -/
def walkCount (f : ArchiveFilter) (n : Nat) (c : Command) : Nat :=
  (f.target? c).elim 0 fun p => (f.walks n p).length

theorem length_walks_succ (f : ArchiveFilter) (n : Nat) (p : Place) :
    (f.walks (n + 1) p).length = ((f.content p).map (f.walkCount n)).sum := by
  have hone : ∀ ci : Command × Nat, ((f.target? ci.1).elim [] fun q =>
      (f.walks n q).map (ci.2 :: ·)).length = (f.walkCount n ∘ Prod.fst) ci := by
    intro ci
    rw [Function.comp_apply, walkCount]
    cases f.target? ci.1 <;> simp
  rw [walks, List.length_flatMap]
  simp only [hone]
  rw [← List.map_map, List.zipIdx_map_fst]

/-- The walks that are listed are the walks with this number of edges. -/
theorem mem_walks {n : Nat} {is : List Nat} : is ∈ f.walks n p ↔ is ∈ f.walksFrom p n := by
  induction n generalizing p is with
  | zero => rw [walksFrom_zero, walks, List.mem_singleton, Set.mem_singleton_iff]
  | succ n ih =>
    simp only [walks, List.mem_flatMap, Prod.exists, List.mem_zipIdx_iff_getElem?]
    constructor
    · rintro ⟨c, i, hc, his⟩
      cases htarget : f.target? c with
      | none => simp [htarget] at his
      | some q =>
        simp only [htarget, Option.elim_some, List.mem_map, ih] at his
        obtain ⟨js, ⟨hlength, r, hwalk⟩, rfl⟩ := his
        exact ⟨congrArg Nat.succ hlength, r, .cons hc htarget hwalk⟩
    · rintro ⟨hlength, r, hwalk⟩
      cases hwalk with
      | nil => cases hlength
      | @cons p q r i js c hc htarget hwalk =>
        refine ⟨c, i, hc, ?_⟩
        rw [htarget, Option.elim_some]
        exact List.mem_map_of_mem (ih.2 ⟨Nat.succ.inj hlength, r, hwalk⟩)

/-- No walk is listed twice. -/
theorem nodup_walks (f : ArchiveFilter) (n : Nat) (p : Place) : (f.walks n p).Nodup := by
  induction n generalizing p with
  | zero => exact List.nodup_singleton []
  | succ n ih =>
    have hpositions : ((f.content p).zipIdx.map Prod.snd).Nodup := by
      rw [List.zipIdx_map_snd]
      exact List.nodup_range' 1
    have hfirst : ∀ (ci : Command × Nat) (is : List Nat), (is ∈ (f.target? ci.1).elim [] fun q =>
        (f.walks n q).map (ci.2 :: ·)) → is.head? = some ci.2 := by
      intro ci is his
      cases htarget : f.target? ci.1 with
      | none => simp [htarget] at his
      | some q =>
        rw [htarget, Option.elim_some] at his
        obtain ⟨js, -, rfl⟩ := List.mem_map.1 his
        rfl
    refine List.nodup_flatMap.2 ⟨fun ci _ => ?_, (List.pairwise_map.1 hpositions).imp ?_⟩
    · cases f.target? ci.1 with
      | none => exact List.nodup_nil
      | some q => exact (ih q).map List.cons_injective
    · intro ci dj hne is hci hdj
      exact hne (Option.some.inj ((hfirst ci is hci).symm.trans (hfirst dj is hdj)))

/-- **The number of walks.** -/
theorem encard_walksFrom (f : ArchiveFilter) (p : Place) (n : Nat) :
    (f.walksFrom p n).encard = (f.walks n p).length := by
  have hset : f.walksFrom p n = ((f.walks n p).toFinset : Set (List Nat)) := by
    ext is
    rw [List.coe_toFinset, Set.mem_ofPred_eq, mem_walks]
  rw [hset, Set.encard_coe_eq_coe_finsetCard, List.toFinset_card_of_nodup (f.nodup_walks n p)]

/-! ### Long walks -/

/-- **Where no cycle can be reached, each edge of a walk leads to a new place.** -/
theorem Walk.length_lt_encard {is : List Nat} (h : f.Walk p is q) (hacyclic : ¬ f.ReachesCycle p) :
    (is.length : ℕ∞) + 1 ≤ (f.reach p).encard := by
  induction h with
  | nil p =>
    rw [List.length_nil, Nat.cast_zero, zero_add, Set.one_le_encard_iff_nonempty]
    exact ⟨p, [], .nil p⟩
  | @cons p q r i is c hc htarget _ ih =>
    have hnext : ¬ f.ReachesCycle q := by
      rintro ⟨t, js, ks, hwalk, hne, hcycle⟩
      exact hacyclic ⟨t, i :: js, ks, .cons hc htarget hwalk, hne, hcycle⟩
    -- A walk does not come back to where it started.
    have hnew : p ∉ f.reach q := by
      rintro ⟨js, hback⟩
      exact hacyclic ⟨p, [], i :: js, .nil p, List.cons_ne_nil i js, .cons hc htarget hback⟩
    have hsubset : insert p (f.reach q) ⊆ f.reach p := by
      rintro t (rfl | ⟨js, hwalk⟩)
      · exact ⟨[], .nil _⟩
      · exact ⟨i :: js, .cons hc htarget hwalk⟩
    calc ((i :: is).length : ℕ∞) + 1 = (is.length + 1) + 1 := by
          rw [List.length_cons, Nat.cast_succ]
      _ ≤ (f.reach q).encard + 1 := by gcongr; exact ih hnext
      _ = (insert p (f.reach q)).encard := (Set.encard_insert_of_notMem hnew).symm
      _ ≤ (f.reach p).encard := Set.encard_le_encard hsubset

/-- No walk is listed if all of them are shorter. -/
theorem walks_eq_nil {n : Nat} (h : ∀ is q, f.Walk p is q → is.length < n) : f.walks n p = [] := by
  refine List.eq_nil_iff_forall_not_mem.2 fun is his => ?_
  obtain ⟨hlength, q, hwalk⟩ := mem_walks.1 his
  exact absurd hlength (h is q hwalk).ne

/-- They are in an acyclic graph of few places. -/
theorem walks_eq_nil_of_acyclic {n : Nat} (hacyclic : ¬ f.ReachesCycle p)
    (hfew : (f.reach p).encard ≤ n) : f.walks n p = [] := by
  refine walks_eq_nil fun is q hwalk => ?_
  have hlength : (is.length : ℕ∞) + 1 ≤ n := (hwalk.length_lt_encard hacyclic).trans hfew
  exact_mod_cast hlength

/-- From where a cycle can be reached, one edge leads to where it still can be. -/
theorem ReachesCycle.exists_edge (h : f.ReachesCycle p) :
    ∃ (i : Nat) (c : Command) (q : Place), (f.content p)[i]? = some c ∧ f.target? c = some q ∧
      f.ReachesCycle q := by
  obtain ⟨t, is, js, hwalk, hne, hcycle⟩ := h
  cases hwalk with
  | @cons p q r i is c hc htarget hwalk =>
    exact ⟨i, c, q, hc, htarget, t, is, js, hwalk, hne, hcycle⟩
  | nil =>
    -- The place is on the cycle itself.
    cases hcycle with
    | nil => exact absurd rfl hne
    | @cons p q r i is c hc htarget hwalk =>
      exact ⟨i, c, q, hc, htarget, _, is, _, hwalk, List.cons_ne_nil i is, .cons hc htarget hwalk⟩

/-- So there are walks of every length. -/
theorem ReachesCycle.length_walks_pos (h : f.ReachesCycle p) (n : Nat) :
    0 < (f.walks n p).length := by
  suffices hsome : ∃ is, is ∈ f.walksFrom p n by
    obtain ⟨is, his⟩ := hsome
    exact List.length_pos_of_mem (mem_walks.2 his)
  induction n generalizing p with
  | zero => exact ⟨[], rfl, p, .nil p⟩
  | succ n ih =>
    obtain ⟨i, c, q, hc, htarget, hq⟩ := h.exists_edge
    obtain ⟨is, hlength, r, hwalk⟩ := ih hq
    exact ⟨i :: is, congrArg Nat.succ hlength, r, .cons hc htarget hwalk⟩

end ArchiveFilter

/-! ### What is cut off in an unfolding -/

namespace Unfolding

/-- How many reports of nesting are made. -/
def nestings (u : Unfolding) : Nat := u.reports.countP fun r => r.code == .nesting

@[simp] theorem nestings_deliver (c : Command) : (deliver c).nestings = 0 := rfl

@[simp] theorem nestings_badHandle (name : Value) :
    (complain (ArchiveFilter.badHandle name)).nestings = 0 := rfl

theorem nestings_join (us : List Unfolding) : (join us).nestings = (us.map nestings).sum :=
  List.countP_flatMap

end Unfolding

namespace ArchiveFilter

variable {f : ArchiveFilter} {c : Command} {refer : StreamKind → Stream → Unfolding}

/-- A reference comes to what its target comes to. -/
theorem unfoldWith_of_target? {p : Place} (h : f.target? c = some p) :
    ∃ s, f.content p = s.commands ∧ f.unfoldWith refer c = refer p.kind s := by
  obtain ⟨hrole, hposition⟩ := target?_eq_some.1 h
  have hi := (List.findIdx?_eq_some_iff_getElem.1 hposition).1
  have hget : (f.registry p.kind).get? p.index = some (f.registry p.kind).streams[p.index] :=
    List.getElem?_eq_getElem hi
  refine ⟨_, by rw [content, hget]; rfl, unfoldWith_of_find? hrole ?_⟩
  rw [Registry.find?_eq_bind_position?, hposition, Option.bind_some, hget]

/-- A command that refers to nothing leads to no report of nesting. -/
theorem nestings_unfoldWith_of_target?_eq_none (h : f.target? c = none) :
    (f.unfoldWith refer c).nestings = 0 := by
  unfold target? at h
  unfold unfoldWith
  cases hrole : c.role with
  | archiveReference =>
    rw [hrole, Option.map_eq_none_iff] at h
    simp [Registry.find?_eq_bind_position?, h]
  | objectReference =>
    rw [hrole, Option.map_eq_none_iff] at h
    simp [Registry.find?_eq_bind_position?, h]
  | _ => rfl

/-- A command leads to as many reports of nesting as what it refers to. -/
theorem nestings_unfoldWith {count : Place → Nat} (c : Command)
    (h : ∀ p s, f.content p = s.commands → (refer p.kind s).nestings = count p) :
    (f.unfoldWith refer c).nestings = (f.target? c).elim 0 count := by
  cases htarget : f.target? c with
  | none => exact nestings_unfoldWith_of_target?_eq_none htarget
  | some p =>
    obtain ⟨s, hcontent, hunfold⟩ :
        ∃ s, f.content p = s.commands ∧ f.unfoldWith refer c = refer p.kind s :=
      unfoldWith_of_target? htarget
    rw [hunfold]
    exact h p s hcontent

/-- **As much is cut off in an unfolding as there are walks** with as many edges as there are
units of depth behind the first reference. -/
theorem nestings_unfolding (f : ArchiveFilter) (n : Nat) (c : Command) :
    (f.unfolding n c).nestings = f.walkCount n c := by
  induction n generalizing c with
  | zero => exact nestings_unfoldWith c fun p s _ => rfl
  | succ n ih =>
    refine nestings_unfoldWith c fun p s hcontent => ?_
    rw [Unfolding.nestings_join, List.map_map, length_walks_succ, hcontent]
    exact congrArg List.sum (List.map_congr_left fun e _ => ih e)

end ArchiveFilter

/-! ### What a call cuts off -/

theorem Log.count_eq_countP (log : Log) (code : Report.Code) :
    log.count (some code) = log.toList.countP fun r => r.code == code :=
  Array.countP_toList.symm

namespace Chain

variable {σ : Type} [Sink σ] {ch : Chain σ} {f : ArchiveFilter} {c d : Command}

/-- **Calls make the reports of nesting of their unfoldings**, whatever watches them and whatever
takes what they deliver. -/
theorem Reachable.nestings_issue (hsink : TakesInOrder σ) (hch : ch.Reachable)
    (hf : ch.archiveFilters = [f]) (hidle : f.scope = .idle)
    (hflat : f.AllRecorded fun e => e.role.delimits = false) (hd : c.reissue = .ok d)
    (hc : d.role.delimits = false) : (ch.issue 0 c).2 = none ∧
      (ch.issue 0 c).1.nestings = ch.nestings + (f.unfolding f.limit d).nestings := by
  have hmem : .archive f ∈ ch.stages := mem_stages_of_archiveFilters hf
  have hnone : (ch.issue 0 c).2 = none := (issues_issueAll ch [c]).not_fault_of_takes hsink
    (List.forall_mem_singleton.2 ⟨d, hd⟩) hch.fits hch.recordedInOrder
  -- Without its observers and with a collector at its end, the chain goes the same way.
  have hstart : Collected ch.sink ch.unobserved (alone f .empty ch.log) :=
    ⟨by rw [stages_unobserved, hf]; rfl, rfl, rfl⟩
  obtain ⟨-, hend⟩ := hstart.issue (c := c) (by rw [issue_unobserved, hnone])
  have hinOrder : f.AllRecorded Command.InOrder := hch.recordedInOrder _ hmem
  obtain ⟨k, hk⟩ := List.getElem?_of_mem hmem
  obtain ⟨sink, log, hcourse, -, hlog⟩ := comesTo_unfolding hidle
    (fun kind s hs e he => ⟨hinOrder kind s hs e he, hflat kind s hs e he⟩)
    (by rw [hch.depth_eq_zero hk, Nat.zero_add])
    (List.forall_mem_singleton.2 ⟨Command.inOrder_of_reissue hd, hc⟩) .empty ch.log
  have hissue : (alone f .empty ch.log).issue 0 c = (alone f sink log, none) :=
    issues_iff.1 (hcourse.of_reissue hd)
  have hsame : log = (ch.issue 0 c).1.log := by
    have h := hend.log
    rwa [hissue, issue_unobserved] at h
  refine ⟨hnone, ?_⟩
  rw [nestings, ← hsame, Log.count_eq_countP, hlog, List.countP_append, nestings,
    Log.count_eq_countP]
  simp [Unfolding.join, Unfolding.nestings]

/-- **As many replays are cut off as there are long walks.** Let a reachable chain have one archive
filter, idle, with recordings that open and close no definition, and a sink that takes every
command that is in order. A reference at the head to a name that is defined returns, and makes as
many reports of nesting as there are walks from the place of this name with as many edges as
replays may be nested. So it makes none if all walks from there are shorter, as they are in an
acyclic graph with no more places than that, and it makes one at least if a cycle can be
reached. -/
theorem Reachable.nestings_eq_walks (hsink : TakesInOrder σ) (hch : ch.Reachable)
    (hf : ch.archiveFilters = [f]) (hidle : f.scope = .idle)
    (hflat : f.AllRecorded fun e => e.role.delimits = false) (hd : c.reissue = .ok d) {p : Place}
    (hp : f.target? d = some p) :
    let ch' := (ch.issue 0 c).1
    (ch.issue 0 c).2 = none ∧
      (ch'.nestings : ℕ∞) = ch.nestings + (f.walksFrom p f.limit).encard ∧
      ((∀ is q, f.Walk p is q → is.length < f.limit) → ch'.nestings = ch.nestings) ∧
      (¬ f.ReachesCycle p → (f.reach p).encard ≤ f.limit → ch'.nestings = ch.nestings) ∧
      (f.ReachesCycle p → ch.nestings < ch'.nestings) := by
  intro ch'
  have hrole : d.role.delimits = false := by
    rw [(ArchiveFilter.target?_eq_some.1 hp).1]
    cases p.kind <;> rfl
  obtain ⟨hnone, hcount⟩ := hch.nestings_issue hsink hf hidle hflat hd hrole
  have hcount : ch'.nestings = ch.nestings + (f.walks f.limit p).length := by
    rw [ArchiveFilter.nestings_unfolding, ArchiveFilter.walkCount, hp] at hcount
    exact hcount
  refine ⟨hnone, ?_, fun hshort => ?_, fun hacyclic hfew => ?_, fun hcycle => ?_⟩
  · rw [hcount, Nat.cast_add, ArchiveFilter.encard_walksFrom]
  · rw [hcount, ArchiveFilter.walks_eq_nil hshort, List.length_nil, Nat.add_zero]
  · rw [hcount, ArchiveFilter.walks_eq_nil_of_acyclic hacyclic hfew, List.length_nil, Nat.add_zero]
  · rw [hcount]
    exact Nat.lt_add_of_pos_right (hcycle.length_walks_pos f.limit)

/-- The definitions of an archive with two references to an object, and of this object, which
refers to the archive. -/
def alternating : List Command :=
  [⟨"ArchiveBegin", [.text [.char 'a']], some .empty⟩,
    ⟨"ObjectInstance", [.text [.char 'o']], none⟩, ⟨"WorldBegin", [], none⟩,
    ⟨"ObjectInstance", [.text [.char 'o']], none⟩, ⟨"ArchiveEnd", [], none⟩,
    ⟨"ObjectBegin", [.text [.char 'o']], none⟩, selfReference, ⟨"ObjectEnd", [], none⟩]

/-- A filter that has recorded them. -/
def alternatingReader : ArchiveFilter :=
  ⟨3, true, ⟨[⟨.text [.char 'a'], (alternating.drop 1).take 3, true⟩]⟩,
    ⟨[⟨.text [.char 'o'], [selfReference], true⟩]⟩, .idle, 0⟩

/-- Three references on, to the object, to the archive and to the object again, four replays of the
object are cut off. -/
theorem nestings_eq_walks_alternating :
    ∃ (ch : Chain Collector) (f : ArchiveFilter) (p : Place), ch.Reachable ∧
      ch.stages = [.tap alternating.toArray, .archive f] ∧ f.limit = 3 ∧
      f.target? selfReference = some p ∧ f.ReachesCycle p ∧
      f.walksFrom p 3 = {[0, 0, 0], [0, 0, 2], [2, 0, 0], [2, 0, 2]} ∧
      (ch.issue 0 selfReference).2 = none ∧ ch.nestings = 0 ∧
      (ch.issue 0 selfReference).1.nestings = 4 := by
  let f : ArchiveFilter := alternatingReader
  let ch : Chain Collector := ⟨[.tap alternating.toArray, .archive f], .empty, .empty⟩
  have hch : ch.Reachable := by
    let new : Chain Collector :=
      ((ofSink .empty).addStage (.archive (.fresh 3 true))).addStage (.tap #[])
    have hnew : new.Reachable :=
      .addStage rfl (.addStage ⟨3, true, by decide, by decide, rfl⟩ (.ofSink _))
    have hread : new.calls alternating = ch := by rfl
    exact hread ▸ hnew.calls alternating
  have hflat : f.AllRecorded fun e => e.role.delimits = false := by
    rintro (_ | _) s hs <;>
    · obtain rfl := List.mem_singleton.1 hs
      decide
  have hp : f.target? selfReference = some ⟨.archive, 0⟩ := rfl
  have hcycle : f.ReachesCycle ⟨.archive, 0⟩ :=
    ⟨_, [], [0, 0], .nil _, List.cons_ne_nil _ _,
      .cons (q := ⟨.object, 0⟩) rfl rfl (.cons rfl hp (.nil _))⟩
  have hlist : f.walks 3 ⟨.archive, 0⟩ = [[0, 0, 0], [0, 0, 2], [2, 0, 0], [2, 0, 2]] := by rfl
  have hwalks : f.walksFrom ⟨.archive, 0⟩ 3 = {[0, 0, 0], [0, 0, 2], [2, 0, 0], [2, 0, 2]} := by
    ext is
    rw [← ArchiveFilter.mem_walks, hlist]
    simp
  obtain ⟨hnone, hcount, -⟩ := hch.nestings_eq_walks (fun _ _ _ => rfl) (f := f) rfl rfl hflat
    (show selfReference.reissue = .ok selfReference from rfl) hp
  refine ⟨ch, f, _, hch, rfl, rfl, hp, hcycle, hwalks, hnone, rfl, ?_⟩
  have hlimit : f.walksFrom ⟨.archive, 0⟩ f.limit = f.walksFrom ⟨.archive, 0⟩ 3 := rfl
  rw [hlimit, ArchiveFilter.encard_walksFrom, hlist] at hcount
  exact_mod_cast hcount

end Chain

end SceneReplay
