import DatagramRpc.Client.Call
import DatagramRpc.Main
import DatagramRpc.Proofs.Calls.Attempt
import DatagramRpc.Proofs.Calls.Provenance
import DatagramRpc.Proofs.Calls.Replies
import DatagramRpc.Proofs.Config.Addressing
import DatagramRpc.Proofs.Facility.AllOrNothing
import DatagramRpc.Proofs.Facility.Availability
import DatagramRpc.Proofs.Facility.ChangingHours
import DatagramRpc.Proofs.Facility.Listing
import DatagramRpc.Proofs.Facility.Moves
import DatagramRpc.Proofs.Facility.Notices
import DatagramRpc.Proofs.Facility.Owners
import DatagramRpc.Proofs.Frame.Derivations
import DatagramRpc.Proofs.Frame.Expansion
import DatagramRpc.Proofs.Frame.Foreign
import DatagramRpc.Proofs.Frame.Metadata
import DatagramRpc.Proofs.Frame.Readable
import DatagramRpc.Proofs.Frame.ReferenceTypes
import DatagramRpc.Proofs.Frame.Relay
import DatagramRpc.Proofs.Frame.Relocation
import DatagramRpc.Proofs.Frame.RoundTrip
import DatagramRpc.Proofs.Frame.Writable
import DatagramRpc.Proofs.Graph.Depth
import DatagramRpc.Proofs.Message.NormalForm
import DatagramRpc.Proofs.Message.RoundTrip
import DatagramRpc.Proofs.Message.Truncation
import DatagramRpc.Proofs.Metrics.Counters
import DatagramRpc.Proofs.Metrics.Histograms
import DatagramRpc.Proofs.Server.Accounting
import DatagramRpc.Proofs.Server.AtMostOnce
import DatagramRpc.Proofs.Server.BoundedHistory
import DatagramRpc.Proofs.Server.Correlation
import DatagramRpc.Proofs.Server.Retransmission
import DatagramRpc.Proofs.Server.Suppression
import DatagramRpc.Proofs.Server.Sweeping
import DatagramRpc.Proofs.Wire.Corruption
import DatagramRpc.Proofs.Wire.Items
import DatagramRpc.Text.Hex
