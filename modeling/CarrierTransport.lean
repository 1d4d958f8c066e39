import CarrierTransport.LinearSystem.Coordinate
import CarrierTransport.Main
import CarrierTransport.Proofs.LinearSystem.Refusal
import CarrierTransport.Proofs.LinearSystem.Solve
import CarrierTransport.Proofs.Newton.Convergence
import CarrierTransport.Proofs.LinearSystem.Workspace
import CarrierTransport.Proofs.LinearSystem.Places
import CarrierTransport.Proofs.Newton.Assembly
import CarrierTransport.Proofs.Newton.Phases
import CarrierTransport.Proofs.Newton.History
import CarrierTransport.Proofs.Mesh.Line
import CarrierTransport.Proofs.Newton.Sound
import CarrierTransport.Proofs.Device.Stack
import CarrierTransport.Proofs.Newton.Contacts
import CarrierTransport.Proofs.Run.Sweep
import CarrierTransport.Proofs.Scalar.Real
import CarrierTransport.Proofs.Newton.Flux
import CarrierTransport.Proofs.Newton.Amounts
import CarrierTransport.Proofs.Newton.Jacobian
import CarrierTransport.Proofs.Newton.Update
import CarrierTransport.Proofs.Newton.Failure
import CarrierTransport.Proofs.LinearSystem.Chain
import CarrierTransport.Proofs.Newton.Equilibrium
import CarrierTransport.Proofs.Newton.Handover
import CarrierTransport.Proofs.Newton.Targets
import CarrierTransport.Proofs.Newton.PoissonEquation
import CarrierTransport.Proofs.LinearSystem.Addresses
import CarrierTransport.Proofs.LinearSystem.Coordinate
import CarrierTransport.Proofs.Text.Lines
import CarrierTransport.Proofs.Newton.Conservation
import CarrierTransport.Proofs.State.Unknown
import CarrierTransport.Proofs.Newton.Damping
import CarrierTransport.Proofs.Newton.FixedPoint
import CarrierTransport.Proofs.Newton.Protocol
import CarrierTransport.Proofs.Mesh.Layers
import CarrierTransport.Proofs.Newton.Insulator
import CarrierTransport.Proofs.Newton.OneStep
import CarrierTransport.Proofs.LinearSystem.RoundTrip
import CarrierTransport.Proofs.LinearSystem.Dominance
import CarrierTransport.Proofs.LinearSystem.Reuse
import CarrierTransport.Proofs.Newton.Halving
import CarrierTransport.Proofs.Newton.Floor
import CarrierTransport.Proofs.LinearSystem.Dirichlet
import CarrierTransport.Proofs.Newton.ContactEquations
import CarrierTransport.Proofs.Newton.FiniteVolume
import CarrierTransport.Proofs.Newton.Neutrality
import CarrierTransport.Proofs.Mesh.Ascent
import CarrierTransport.Proofs.Physics.Truncation
import CarrierTransport.Proofs.Mesh.Geometry
import CarrierTransport.Proofs.Device.Volumes
import CarrierTransport.Proofs.State.Rejection
import CarrierTransport.Proofs.Device.UniformBar
import CarrierTransport.Proofs.Physics.Narrowing
import CarrierTransport.Proofs.Run.Results
import CarrierTransport.Proofs.LinearSystem.Profile
import CarrierTransport.Proofs.Newton.Maxima
import CarrierTransport.Proofs.LinearSystem.Writes
