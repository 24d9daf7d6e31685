import SceneReplay.CommandLine.Run
import SceneReplay.Main
import SceneReplay.Web.StandIn
import SceneReplay.Proofs.Archive.Comments
import SceneReplay.Proofs.Archive.Unfolding
import SceneReplay.Proofs.Rib.Expanding
import SceneReplay.Proofs.Archive.Definitions
import SceneReplay.Proofs.Archive.Fields
import SceneReplay.Proofs.Chain.InStep
import SceneReplay.Proofs.Archive.FirstMatch
import SceneReplay.Proofs.Rib.Incremental
import SceneReplay.Proofs.Rib.Stopping
import SceneReplay.Proofs.Archive.Limit
import SceneReplay.Proofs.Archive.Growth
import SceneReplay.Proofs.Archive.Refused
import SceneReplay.Proofs.Chain.Hops
import SceneReplay.Proofs.Chain.Observers
import SceneReplay.Proofs.Chain.Stacking
import SceneReplay.Proofs.Archive.Settled
import SceneReplay.Proofs.CommandLine.Saved
import SceneReplay.Proofs.Service.Answers
import SceneReplay.Proofs.Archive.Shape
import SceneReplay.Proofs.Archive.Again
import SceneReplay.Proofs.Archive.Walks
import SceneReplay.Proofs.Rib.Fates
import SceneReplay.Proofs.Rib.WithoutComments
import SceneReplay.Proofs.Rib.Grammar
import SceneReplay.Proofs.Rib.Quoting
import SceneReplay.Proofs.Rib.Declared
