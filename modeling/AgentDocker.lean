import AgentDocker.Proofs.Coordinator
import AgentDocker.Proofs.Deadlock
import AgentDocker.Proofs.Overtaking
import AgentDocker.Proofs.Tickets
import AgentDocker.Proofs.WaitGraph
import AgentDocker.Proofs.WakeUps
import AgentDocker.Proofs.WriteThrough
import AgentDocker.Proofs.Tokens
import AgentDocker.Proofs.Revocation
import AgentDocker.Proofs.Delivery
import AgentDocker.Proofs.Asking
import AgentDocker.Proofs.Persistence
import AgentDocker.Proofs.Addresses
import AgentDocker.Proofs.Lifecycle
import AgentDocker.Proofs.Admission
import AgentDocker.Proofs.Registrations
import AgentDocker.Proofs.Names
import AgentDocker.Proofs.Responses
import AgentDocker.Proofs.Holdings
import AgentDocker.Proofs.Stays
import AgentDocker.Proofs.Sweeps
import AgentDocker.Proofs.Reviews
import AgentDocker.Proofs.Reading
import AgentDocker.Proofs.WaitCycles
import AgentDocker.Proofs.Pulls
import AgentDocker.Proofs.EventReplay
import AgentDocker.Proofs.Topics
import AgentDocker.Proofs.Bindings
import AgentDocker.Proofs.Commits
import AgentDocker.Proofs.Resources
import AgentDocker.Proofs.Merges
import AgentDocker.Proofs.Channel
import AgentDocker.Proofs.Memory
import AgentDocker.Proofs.ReadContent
import AgentDocker.Proofs.ProviderBlocks
import AgentDocker.Proofs.Tracking
import AgentDocker.Proofs.Range
import AgentDocker.Proofs.Mentions
import AgentDocker.Proofs.Digest
