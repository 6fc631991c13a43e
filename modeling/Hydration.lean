import Hydration.Main
import Hydration.Requirement.Timed
import Hydration.Strategy.Requests
import Hydration.Proofs.Page.Once
import Hydration.Proofs.Requirement.Meaning
import Hydration.Proofs.Requirement.Timing
import Hydration.Proofs.Scenario.Activation
import Hydration.Proofs.Scenario.Flags
import Hydration.Proofs.Strategy.Awaited
import Hydration.Proofs.Module.Overlap
import Hydration.Proofs.Module.History
import Hydration.Proofs.Page.Identity
import Hydration.Proofs.Requirement.Normal
import Hydration.Proofs.Page.Cloning
import Hydration.Proofs.Options.Default
import Hydration.Proofs.Page.Withheld
import Hydration.Proofs.Requirement.Failing
import Hydration.Proofs.Page.Failure
import Hydration.Proofs.Strategy.Thrown
import Hydration.Proofs.Strategy.Beginning
import Hydration.Proofs.Requirement.Shape
import Hydration.Proofs.Requirement.Pieces
import Hydration.Proofs.Page.Held
import Hydration.Proofs.Requirement.Gap
import Hydration.Proofs.Scenario.Faults
import Hydration.Proofs.Scenario.Coherent
import Hydration.Proofs.Page.Joined
import Hydration.Proofs.Options.Merging
import Hydration.Proofs.Document.Order
import Hydration.Proofs.Document.Circle
import Hydration.Proofs.Platform.Lookout
import Hydration.Proofs.Platform.Served
import Hydration.Proofs.Scenario.Wording
