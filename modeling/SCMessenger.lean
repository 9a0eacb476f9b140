import SCMessenger.Core.Blocking
import SCMessenger.Core.Delivery
import SCMessenger.Core.Isolation
import SCMessenger.Core.PeerSessions
import SCMessenger.Crypto.Crossing
import SCMessenger.Crypto.Negotiation
import SCMessenger.Crypto.PqSelection
import SCMessenger.Crypto.SessionImport
import SCMessenger.Crypto.SkipCache
import SCMessenger.Drift.Parsing
import SCMessenger.Drift.RateLimit
import SCMessenger.Drift.RelayRate
import SCMessenger.Drift.SigningHash
import SCMessenger.Drift.SketchDifference
import SCMessenger.Drift.Sync
import SCMessenger.Drift.Wrapping
import SCMessenger.Identity.Bundle
import SCMessenger.Privacy.Circuit
import SCMessenger.Privacy.OnionApi
import SCMessenger.Privacy.OnionTampering
import SCMessenger.Privacy.Padding
import SCMessenger.Relay.Invite
import SCMessenger.Relay.Server
import SCMessenger.Routing.Decisions
import SCMessenger.Routing.GlobalTable
import SCMessenger.Routing.Neighborhood
import SCMessenger.Store.Contacts
import SCMessenger.Store.DeviceForms
import SCMessenger.Store.LedgerExchange
import SCMessenger.Store.LedgerSeeds
import SCMessenger.Store.OutboxCount
import SCMessenger.Store.PurgePolicy
import SCMessenger.Store.QueueBound
import SCMessenger.Store.Retention
import SCMessenger.Store.SeenIds
import SCMessenger.Store.StoredRecords
import SCMessenger.Transport.CircuitBreaker
import SCMessenger.Transport.Convergence
import SCMessenger.Transport.DialPolicy
import SCMessenger.Transport.Dispatch
import SCMessenger.Transport.Fragments
import SCMessenger.Transport.RecipientRecency
