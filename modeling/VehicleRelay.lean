import VehicleRelay.Bench
import VehicleRelay.Main
import VehicleRelay.Proofs.Relay.GetCalls
import VehicleRelay.Proofs.Relay.HandoverOrder
import VehicleRelay.Settings.Json
import VehicleRelay.Proofs.TimestampTable.Current
import VehicleRelay.Proofs.Relay.Registry
import VehicleRelay.Proofs.Relay.Changes
import VehicleRelay.Proofs.Relay.Shutdown
import VehicleRelay.Proofs.Server.Injection
import VehicleRelay.Proofs.GetCall.Stored
import VehicleRelay.Proofs.Echo.Exchange
import VehicleRelay.Proofs.Echo.ReadYourWrites
import VehicleRelay.Proofs.Relay.UnchangedStore
import VehicleRelay.Proofs.Wire.Contract
import VehicleRelay.Proofs.Json.Contract
import VehicleRelay.Proofs.Relay.Operations
import VehicleRelay.Proofs.Relay.HandedResults
import VehicleRelay.Proofs.Reader.Sessions
import VehicleRelay.Proofs.TimestampTable.Independence
import VehicleRelay.Proofs.Reader.LeastWait
import VehicleRelay.Proofs.Relay.RetryBatches
import VehicleRelay.Proofs.TimestampTable.LocalTime
import VehicleRelay.Proofs.Server.Actions
import VehicleRelay.Proofs.Server.Store
import VehicleRelay.Proofs.Wire.Received
import VehicleRelay.Proofs.Toml.Documents
import VehicleRelay.Proofs.Settings.Requirements
import VehicleRelay.Proofs.Settings.Loading
import VehicleRelay.Proofs.Server.Scripts
import VehicleRelay.Proofs.Server.Starts
import VehicleRelay.Proofs.Server.Streams
import VehicleRelay.Proofs.CommandLine
import VehicleRelay.Proofs.Toml.Spelling
import VehicleRelay.Proofs.Toml.Tokens
import VehicleRelay.Proofs.Toml.Numbers
import VehicleRelay.Proofs.Toml.Texts
