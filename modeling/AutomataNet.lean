import AutomataNet.CommandLine.Folder
import AutomataNet.Main
import AutomataNet.Proofs.Behaviour
import AutomataNet.Proofs.Chains
import AutomataNet.Proofs.Comments
import AutomataNet.Proofs.Companions
import AutomataNet.Proofs.Declarations
import AutomataNet.Proofs.Depth
import AutomataNet.Proofs.Documents
import AutomataNet.Proofs.Growth
import AutomataNet.Proofs.Levels
import AutomataNet.Proofs.Limits
import AutomataNet.Proofs.Locations
import AutomataNet.Proofs.Meaning
import AutomataNet.Proofs.Nesting
import AutomataNet.Proofs.Order
import AutomataNet.Proofs.Product
import AutomataNet.Proofs.Properties
import AutomataNet.Proofs.Readiness
import AutomataNet.Proofs.Relabeling
import AutomataNet.Proofs.Reload
import AutomataNet.Proofs.RoundTrip
import AutomataNet.Proofs.Stability
import AutomataNet.Proofs.Supported
import AutomataNet.Proofs.WellFormed
import AutomataNet.Proofs.Removal
import AutomataNet.Proofs.Discards
import AutomataNet.Proofs.Sendings
import AutomataNet.Proofs.Accesses
import AutomataNet.Proofs.Spacing
import AutomataNet.Proofs.Sampling
import AutomataNet.Proofs.Capacities
import AutomataNet.Proofs.Acceptance
import AutomataNet.Proofs.Recording
