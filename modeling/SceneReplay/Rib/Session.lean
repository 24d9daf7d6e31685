import SceneReplay.Chain
import SceneReplay.Rib.Event

/-!
# Reading scene files into a chain

A session reads one text after the other. The events of each text are played into
a chain: requests and comments are issued at one of its stages, problems go into
its log. The declarations of a text hold in the texts after it, also if a fault
stopped it half-way.
-/

namespace SceneReplay.Rib

/-- What playing events leaves: the chain, the declarations, how many requests
were issued, and the fault that stopped it, if one did. -/
structure Played (σ : Type) where
  /-- The chain afterwards. -/
  chain : Chain σ
  /-- The declarations afterwards. -/
  declarations : Declarations
  /-- How many requests were issued. -/
  issued : Nat
  /-- The fault that stopped the events, if one did. -/
  fault : Option Fault

/-- Plays events into a chain, issuing commands at the stage at `entry`, until
they end or a fault stops them. -/
def play {σ : Type} [Sink σ] (entry : Nat) :
    List Event → Chain σ → Declarations → Nat → Played σ
  | [], ch, d, issued => ⟨ch, d, issued, none⟩
  | .report r :: es, ch, d, issued => play entry es (ch.addReport r) d issued
  | .declare token type :: es, ch, d, issued => play entry es ch (d.declare token type) issued
  | .request c :: es, ch, d, issued =>
    match ch.issue entry c with
    | (ch, none) => play entry es ch d (issued + 1)
    | (ch, some f) => ⟨ch, d, issued, some f⟩
  | .comment c :: es, ch, d, issued =>
    match ch.issue entry c with
    | (ch, none) => play entry es ch d issued
    | (ch, some f) => ⟨ch, d, issued, some f⟩
  | .fault f :: _, ch, d, issued => ⟨ch, d, issued, some f⟩

/-- Reads a text into a chain at the stage at `entry`. -/
def read {σ : Type} [Sink σ] (ch : Chain σ) (entry : Nat) (d : Declarations) (text : Text) :
    Played σ :=
  play entry (events d text) ch d 0

end SceneReplay.Rib
