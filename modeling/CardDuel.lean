import CardDuel.Catalog.Starter
import CardDuel.Duel.Setup
import CardDuel.Duel.Snapshot
import CardDuel.Json.Duel
import CardDuel.Json.Text
import CardDuel.Play.Action
import CardDuel.Play.Query
import CardDuel.Proofs.Calculus
import CardDuel.Proofs.InStep
import CardDuel.Proofs.Depth
import CardDuel.Proofs.Limit
import CardDuel.Proofs.Fixture
import CardDuel.Proofs.Layout
import CardDuel.Proofs.Registry
import CardDuel.Proofs.Upkeep
import CardDuel.Proofs.Reached
import CardDuel.Proofs.Partition
import CardDuel.Proofs.Refusal
import CardDuel.Proofs.Stats
import CardDuel.Proofs.Destruction
import CardDuel.Proofs.Cleanliness
import CardDuel.Proofs.Books
import CardDuel.Proofs.Lifetime
import CardDuel.Proofs.Account
import CardDuel.Proofs.Legible
import CardDuel.Proofs.Snapshots
import CardDuel.Proofs.Relocation
import CardDuel.Proofs.Declared
import CardDuel.Proofs.Registrations
import CardDuel.Proofs.Draws
import CardDuel.Proofs.Queries
import CardDuel.Proofs.Faultless
import CardDuel.Proofs.Simulation
import CardDuel.Proofs.Twins
import CardDuel.Proofs.Mentions
import CardDuel.Proofs.Frame
import CardDuel.Proofs.Inert
import CardDuel.Proofs.Renaming
import CardDuel.Proofs.Equivariance
import CardDuel.Proofs.RoundTrip
import CardDuel.Proofs.Idle
import CardDuel.Proofs.Availability
import CardDuel.Proofs.CardTargets
import CardDuel.Proofs.Exchange
import CardDuel.Proofs.Walk
import CardDuel.Proofs.Piles
import CardDuel.Proofs.Drawing
import CardDuel.Proofs.Opening
import CardDuel.Proofs.Applying
import CardDuel.Proofs.Sums
import CardDuel.Proofs.Naming
import CardDuel.Proofs.Resumption
import CardDuel.Proofs.Unchanged
