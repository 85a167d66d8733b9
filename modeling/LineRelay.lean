import LineRelay.Main
import LineRelay.Session.Basic
import LineRelay.Session.Loopback
import LineRelay.Proofs.Framing.RoundTrip
import LineRelay.Proofs.Framing.Steadiness
import LineRelay.Proofs.Registry.Linear
import LineRelay.Proofs.Relay.Callers
import LineRelay.Proofs.Relay.Accounting
import LineRelay.Proofs.Relay.Integrity
import LineRelay.Proofs.Relay.Drain
import LineRelay.Proofs.Relay.Shares
import LineRelay.Proofs.Relay.Exits
import LineRelay.Proofs.Relay.Servers
import LineRelay.Proofs.Relay.Reasons
import LineRelay.Proofs.Relay.Observers
import LineRelay.Proofs.Relay.Pruning
import LineRelay.Proofs.Relay.Conservation
import LineRelay.Proofs.Settings.Overrides
import LineRelay.Proofs.Settings.Environment
import LineRelay.Proofs.Relay.Sampling
import LineRelay.Proofs.Relay.Acceptance
import LineRelay.Proofs.Relay.Orders
