import SecureSession.Diagnostic
import SecureSession.Proofs.Account.Confirmations
import SecureSession.Proofs.Account.HandshakeStates
import SecureSession.Proofs.Account.LegacyPurge
import SecureSession.Proofs.Account.Pinning
import SecureSession.Proofs.Account.Responses
import SecureSession.Proofs.BundleConvergence
import SecureSession.Proofs.Clocks
import SecureSession.Proofs.Codec.Delimitation
import SecureSession.Proofs.Codec.Extensibility
import SecureSession.Proofs.Codec.VersionGate
import SecureSession.Proofs.Codec.WireFormat
import SecureSession.Proofs.Consistency
import SecureSession.Proofs.Convergence
import SecureSession.Proofs.Conversations
import SecureSession.Proofs.Lockstep
import SecureSession.Proofs.Mirroring
import SecureSession.Proofs.Newcomers
import SecureSession.Proofs.Posting
import SecureSession.Proofs.Publishing
import SecureSession.Proofs.Quiescence
import SecureSession.Proofs.Reinitiation
import SecureSession.Proofs.ResponseAgreement
import SecureSession.Proofs.Session.History
import SecureSession.Proofs.Simulation.Links
import SecureSession.Proofs.Storage.Archival
import SecureSession.Proofs.Storage.IdentityUpdates
import SecureSession.Proofs.Storage.Queries
import SecureSession.Proofs.Storage.Refinement
import SecureSession.Simulation.EnvironmentPool
import SecureSession.Simulation.Sample
import SecureSession.Simulation.Scene
import SecureSession.Simulation.Trial
