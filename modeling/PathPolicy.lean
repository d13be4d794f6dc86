import PathPolicy.Bytes
import PathPolicy.Client.Channel
import PathPolicy.Client.Peer
import PathPolicy.Client.Selector
import PathPolicy.Client.Tracer
import PathPolicy.Config
import PathPolicy.Daemon
import PathPolicy.Decimal
import PathPolicy.Decimal.General
import PathPolicy.Decimal.Shortest
import PathPolicy.Directory
import PathPolicy.Envelope
import PathPolicy.Fault
import PathPolicy.Float
import PathPolicy.Frame
import PathPolicy.Json.Codable
import PathPolicy.Json.Error
import PathPolicy.Json.Raw
import PathPolicy.Json.Read
import PathPolicy.Json.Record
import PathPolicy.Json.Scan
import PathPolicy.Json.Tree
import PathPolicy.Json.Value
import PathPolicy.Main
import PathPolicy.Members
import PathPolicy.Network
import PathPolicy.Path
import PathPolicy.Path.Table
import PathPolicy.Path.Wire
import PathPolicy.Policies.Catalogue
import PathPolicy.Policies.LowestLatency
import PathPolicy.Policies.Player
import PathPolicy.Policies.Trial
import PathPolicy.Proofs.Arithmetic
import PathPolicy.Proofs.Client.Agreement
import PathPolicy.Proofs.Client.Calls
import PathPolicy.Proofs.Client.Candidates
import PathPolicy.Proofs.Client.Fallback
import PathPolicy.Proofs.Client.Heard
import PathPolicy.Proofs.Client.Leftover
import PathPolicy.Proofs.Client.Occasion
import PathPolicy.Proofs.Client.Outcome
import PathPolicy.Proofs.Client.Registration
import PathPolicy.Proofs.Client.Requests
import PathPolicy.Proofs.Client.Telemetry
import PathPolicy.Proofs.Daemon.Address
import PathPolicy.Proofs.Daemon.Isolation
import PathPolicy.Proofs.Daemon.Lifecycle
import PathPolicy.Proofs.Daemon.Log
import PathPolicy.Proofs.Daemon.Membership
import PathPolicy.Proofs.Daemon.Refusal
import PathPolicy.Proofs.Daemon.Reply
import PathPolicy.Proofs.Daemon.Tracing
import PathPolicy.Proofs.Float
import PathPolicy.Proofs.Frame.Chunks
import PathPolicy.Proofs.Json.Cut
import PathPolicy.Proofs.Json.Fields
import PathPolicy.Proofs.Json.Kept
import PathPolicy.Proofs.Json.Numeral
import PathPolicy.Proofs.Json.Reading
import PathPolicy.Proofs.Json.RoundTrip
import PathPolicy.Proofs.Json.Single
import PathPolicy.Proofs.Json.Skip
import PathPolicy.Proofs.Json.Text
import PathPolicy.Proofs.Json.Tree
import PathPolicy.Proofs.Json.Written
import PathPolicy.Proofs.LowestLatency.Answer
import PathPolicy.Proofs.LowestLatency.Choice
import PathPolicy.Proofs.LowestLatency.Finite
import PathPolicy.Proofs.LowestLatency.Least
import PathPolicy.Proofs.LowestLatency.Run
import PathPolicy.Proofs.LowestLatency.Totals
import PathPolicy.Proofs.Rounding
import PathPolicy.Proofs.Selector.Calls
import PathPolicy.Proofs.Selector.History
import PathPolicy.Proofs.Selector.Keys
import PathPolicy.Proofs.Selector.Run
import PathPolicy.Proofs.Selector.Selection
import PathPolicy.Proofs.Since
import PathPolicy.Proofs.Sums
import PathPolicy.Proofs.Table.Accepted
import PathPolicy.Proofs.Table.Lossless
import PathPolicy.Proofs.Time
import PathPolicy.Proofs.Tracer.Description
import PathPolicy.Proofs.Tracer.Distinction
import PathPolicy.Proofs.Tracer.History
import PathPolicy.Proofs.Tracer.Queue
import PathPolicy.Proofs.Tracer.Refinement
import PathPolicy.Proofs.Tracer.Remembrance
import PathPolicy.Proofs.Fraction
import PathPolicy.Proofs.Views
import PathPolicy.Proofs.Vm.Crossing
import PathPolicy.Proofs.Vm.Numbers
import PathPolicy.Proofs.Vm.Tables
import PathPolicy.Proofs.Widening
import PathPolicy.Proofs.Wire.Lossless
import PathPolicy.Proofs.Wire.Message
import PathPolicy.Proofs.Wire.Path
import PathPolicy.Proofs.Wire.Rejection
import PathPolicy.Proofs.Wire.Request
import PathPolicy.Proofs.Wire.Tracing
import PathPolicy.Script.Host
import PathPolicy.Script.Plan
import PathPolicy.Script.Playback
import PathPolicy.Script.Value
import PathPolicy.Selector.Message
import PathPolicy.Selector.Service
import PathPolicy.Selector.Session
import PathPolicy.Text.Literal
import PathPolicy.Text.Visible
import PathPolicy.Time
import PathPolicy.Tracer.Arguments
import PathPolicy.Tracer.Event
import PathPolicy.Tracer.Message
import PathPolicy.Tracer.Registry
import PathPolicy.Tracer.Service
import PathPolicy.Vm.Exchange
import PathPolicy.Vm.Machine
import PathPolicy.Vm.Maths
import PathPolicy.Vm.Numeral
import PathPolicy.Vm.Policy
import PathPolicy.Vm.Random
import PathPolicy.Vm.Value
import PathPolicy.Yaml.Cursor
import PathPolicy.Yaml.Document
import PathPolicy.Yaml.Node
import PathPolicy.Yaml.Scalar
import PathPolicy.Yaml.Tag
import PathPolicy.Yaml.Token
