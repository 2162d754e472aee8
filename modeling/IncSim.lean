import IncSim.Lib.Scheduler
import IncSim.Producer.Effects
import IncSim.Producer.Sharing
import IncSim.Lib.BackwardLoop
import IncSim.Producer.Pending
import IncSim.Lib.Text
import IncSim.Node.Switch
import IncSim.Lib.Tally
import IncSim.Node.ExcludeList
import IncSim.Lib.OrdMap
import IncSim.Orchestrator.Storage
import IncSim.Node.Status
import IncSim.Orchestrator.Message
import IncSim.Orchestrator.Report
import IncSim.Orchestrator.Bootstrap
import IncSim.Lib.LastWriter
import IncSim.Orchestrator.Update
import IncSim.Orchestrator.History
import IncSim.Orchestrator.Loss
import IncSim.Orchestrator.Immutable
import IncSim.Orchestrator.Transport
import IncSim.Orchestrator.Management
import IncSim.Lib.Commute
import IncSim.Orchestrator.Delivery
import IncSim.Producer.NullFree
import IncSim.Producer.Forwarding
import IncSim.Producer.Started
import IncSim.Producer.Allowed
import IncSim.Producer.Warranted
import IncSim.Dataset.Generator
import IncSim.Dataset.Served
import IncSim.Lib.Extract
import IncSim.Lib.Grouping
import IncSim.Lib.Sections
import IncSim.Topology.Reader
import IncSim.Dataset.Parser
import IncSim.Dataset.Placement
import IncSim.Dataset.ReadBack
import IncSim.Producer.Kept
import IncSim.Producer.Decision
import IncSim.Lib.Weave
import IncSim.Producer.Calls
import IncSim.Lib.Ledger
import IncSim.Producer.Ledger
import IncSim.Lib.Flight
import IncSim.Dataset.RequestName
import IncSim.Dataset.RoundTrip
import IncSim.Dataset.Arity
import IncSim.Producer.SingleFlight
import IncSim.Producer.Cleanup
import IncSim.Producer.Checked
import IncSim.Producer.Malformed
import IncSim.Producer.Excluded
import IncSim.Producer.Kinds
import IncSim.Lib.Since
import IncSim.Producer.Misses
import IncSim.Node.Requests
import IncSim.Node.SwitchEffect
import IncSim.Node.SwitchTransports
import IncSim.Node.SwitchReply
import IncSim.Orchestrator.Command
import IncSim.Node.SwitchLoop
import IncSim.Orchestrator.Guard
import IncSim.Orchestrator.Overload
import IncSim.Orchestrator.Redelivery
import IncSim.Lib.Slot
import IncSim.Orchestrator.Accessors
import IncSim.Dataset.ConsumerLinks
import IncSim.Dataset.ParserRows
import IncSim.Topology.Runtimes
import IncSim.Lib.Sieve
import IncSim.Topology.CommaList
import IncSim.Lib.Oriented
import IncSim.Topology.Links
import IncSim.Dataset.Progress
import IncSim.Producer.QueueTimer
import IncSim.Tracer.Summary
import IncSim.Lib.TimedIndex
import IncSim.Consumer.BaseApp
import IncSim.Consumer.Outstanding
import IncSim.Consumer.Rate
import IncSim.Dataset.Arithmetic
import IncSim.Lib.Relay
import IncSim.Orchestrator.Network
import IncSim.Orchestrator.Round
import IncSim.Orchestrator.Loop
import IncSim.Topology.Save
import IncSim.Topology.Settings
import IncSim.Dataset.Devices
import IncSim.Producer.Drain
import IncSim.Lib.Buffer
import IncSim.Orchestrator.Payload
import IncSim.Orchestrator.UdpClient
