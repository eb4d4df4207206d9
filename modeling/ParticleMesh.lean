import ParticleMesh.Main
import ParticleMesh.Proofs.Accounting
import ParticleMesh.Proofs.Attempts
import ParticleMesh.Proofs.Attribution
import ParticleMesh.Proofs.Balance
import ParticleMesh.Proofs.Binding
import ParticleMesh.Proofs.Carriage
import ParticleMesh.Proofs.Clockwork
import ParticleMesh.Proofs.Contacts
import ParticleMesh.Proofs.Cuts
import ParticleMesh.Proofs.Deadlines
import ParticleMesh.Proofs.Dedup
import ParticleMesh.Proofs.Descent
import ParticleMesh.Proofs.Endings
import ParticleMesh.Proofs.Entries
import ParticleMesh.Proofs.Expiry
import ParticleMesh.Proofs.Fanout
import ParticleMesh.Proofs.Fates
import ParticleMesh.Proofs.Forwarding
import ParticleMesh.Proofs.Grammar
import ParticleMesh.Proofs.Hops
import ParticleMesh.Proofs.Invocations
import ParticleMesh.Proofs.Lanes
import ParticleMesh.Proofs.Leases
import ParticleMesh.Proofs.Ledger
import ParticleMesh.Proofs.Lives
import ParticleMesh.Proofs.Location
import ParticleMesh.Proofs.Loopbacks
import ParticleMesh.Proofs.Nesting
import ParticleMesh.Proofs.Peers
import ParticleMesh.Proofs.Provenance
import ParticleMesh.Proofs.Pumps
import ParticleMesh.Proofs.Records
import ParticleMesh.Proofs.References
import ParticleMesh.Proofs.Refusals
import ParticleMesh.Proofs.Registrations
import ParticleMesh.Proofs.Release
import ParticleMesh.Proofs.Requests
import ParticleMesh.Proofs.Rerouting
import ParticleMesh.Proofs.Results
import ParticleMesh.Proofs.Resumption
import ParticleMesh.Proofs.Ring
import ParticleMesh.Proofs.Schedule
import ParticleMesh.Proofs.Settling
import ParticleMesh.Proofs.Shards
import ParticleMesh.Proofs.Stages
import ParticleMesh.Proofs.Texts
import ParticleMesh.Proofs.Threads
import ParticleMesh.Proofs.Thresholds
import ParticleMesh.Proofs.Traffic
import ParticleMesh.Proofs.Variables
import ParticleMesh.Proofs.Wakeup
import ParticleMesh.Proofs.Wire
import ParticleMesh.Rehearsal.Play
import ParticleMesh.Rehearsal.Samples
import ParticleMesh.Rehearsal.World
