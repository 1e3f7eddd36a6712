import TwinLink.Descriptor.Document
import TwinLink.Descriptor.Reader
import TwinLink.Descriptor.Writer
import TwinLink.Frame.Splitter
import TwinLink.Proofs.Descriptor.Extension
import TwinLink.Proofs.Descriptor.Grammar
import TwinLink.Proofs.Descriptor.Migration
import TwinLink.Proofs.Descriptor.NormalForm
import TwinLink.Proofs.Descriptor.RoundTrip
import TwinLink.Proofs.Frame.Batch
import TwinLink.Proofs.Frame.Chunk
import TwinLink.Proofs.Frame.Escaping
import TwinLink.Proofs.Frame.Progress
import TwinLink.Proofs.Frame.Stream
import TwinLink.Proofs.Host.Effects
import TwinLink.Proofs.Host.Holders
import TwinLink.Proofs.Host.Moves
import TwinLink.Proofs.Host.OneThread
import TwinLink.Proofs.Host.Runs
import TwinLink.Proofs.Host.Turns
import TwinLink.Proofs.Link.Closing
import TwinLink.Proofs.Link.Decoding
import TwinLink.Proofs.Link.Edits
import TwinLink.Proofs.Link.Ending
import TwinLink.Proofs.Link.Events
import TwinLink.Proofs.Link.Limits
import TwinLink.Proofs.Link.Listening
import TwinLink.Proofs.Link.Routing
import TwinLink.Proofs.Link.Senders
import TwinLink.Proofs.Link.Sending
import TwinLink.Proofs.Link.Separation
import TwinLink.Proofs.Link.Standing
import TwinLink.Proofs.Link.Tickets
import TwinLink.Proofs.Link.Waits
import TwinLink.Proofs.Scenario
import TwinLink.Proofs.Schema.Conversions
import TwinLink.Proofs.Schema.Floats
import TwinLink.Proofs.Session.Calls
import TwinLink.Proofs.Session.Closed
import TwinLink.Proofs.Session.Closing
import TwinLink.Proofs.Session.Costs
import TwinLink.Proofs.Session.Delivery
import TwinLink.Proofs.Session.Exchanges
import TwinLink.Proofs.Session.Failures
import TwinLink.Proofs.Session.Fatality
import TwinLink.Proofs.Session.Framing
import TwinLink.Proofs.Session.Handshake
import TwinLink.Proofs.Session.InFlight
import TwinLink.Proofs.Session.Lane
import TwinLink.Proofs.Session.LateReplies
import TwinLink.Proofs.Session.Lifecycle
import TwinLink.Proofs.Session.Naming
import TwinLink.Proofs.Session.Notifications
import TwinLink.Proofs.Session.Pairing
import TwinLink.Proofs.Session.Plans
import TwinLink.Proofs.Session.Ready
import TwinLink.Proofs.Session.Registrations
import TwinLink.Proofs.Session.Requests
import TwinLink.Proofs.Session.StartEnds
import TwinLink.Proofs.Session.Starts
import TwinLink.Proofs.Session.Switch
import TwinLink.Proofs.Session.UpdateOrder
import TwinLink.Proofs.Session.Updates
import TwinLink.Proofs.Session.Wire
import TwinLink.Proofs.Session.Writes
import TwinLink.Scenario.Play
import TwinLink.Settings
