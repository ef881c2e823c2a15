import ThingSet.BinaryDecoder
import ThingSet.BinaryEncoder
import ThingSet.Can.AddressClaim
import ThingSet.Can.Control
import ThingSet.Can.Exchange
import ThingSet.Can.SocketCanInterface
import ThingSet.CharArrays
import ThingSet.Decoder
import ThingSet.Persistence.RoundTrip
import ThingSet.Encoder
import ThingSet.Evolution.Exchange
import ThingSet.Evolution.Reading
import ThingSet.Evolution.Schema
import ThingSet.Exchanges
import ThingSet.Forwarding
import ThingSet.Foundations.Cbor
import ThingSet.Foundations.Chain
import ThingSet.Foundations.Interaction
import ThingSet.Foundations.Json
import ThingSet.Foundations.Keyed
import ThingSet.Foundations.Loop
import ThingSet.Foundations.Transition
import ThingSet.Integers
import ThingSet.IntrusiveLinkedList
import ThingSet.Ip.SocketExchanges
import ThingSet.Ip.SocketSlots
import ThingSet.IsoTp.Backlog
import ThingSet.IsoTp.Basic
import ThingSet.IsoTp.BlockSize
import ThingSet.IsoTp.Callbacks
import ThingSet.IsoTp.Delivery
import ThingSet.IsoTp.Frames
import ThingSet.IsoTp.Freed
import ThingSet.IsoTp.Lengths
import ThingSet.IsoTp.LossyDelivery
import ThingSet.IsoTp.Messages
import ThingSet.IsoTp.Phases
import ThingSet.IsoTp.Reclaim
import ThingSet.IsoTp.Sender
import ThingSet.Jsmn
import ThingSet.MapKeys
import ThingSet.Node
import ThingSet.Persistence.Load
import ThingSet.Records
import ThingSet.Recovery.Entries
import ThingSet.Registry.Basic
import ThingSet.Registry.Buckets
import ThingSet.Registry.Children
import ThingSet.Registry.Flattening
import ThingSet.Registry.Lifetimes
import ThingSet.Registry.Paths
import ThingSet.Registry.RecordMembers
import ThingSet.RequestContext
import ThingSet.Server.Arguments
import ThingSet.Server.Basic
import ThingSet.Server.Exec
import ThingSet.Server.Frame
import ThingSet.Server.Publish
import ThingSet.Server.RecordArrays
import ThingSet.Server.RequestBuffer
import ThingSet.Server.Update
import ThingSet.Siblings.Binary
import ThingSet.Siblings.Decoders
import ThingSet.Siblings.Reference
import ThingSet.Siblings.Streaming
import ThingSet.Siblings.Text
import ThingSet.Streaming.Decoder
import ThingSet.Streaming.DecoderBounds
import ThingSet.Streaming.Delivery
import ThingSet.Streaming.EncoderBounds
import ThingSet.Streaming.Frames
import ThingSet.Streaming.Listener
import ThingSet.Streaming.Room
import ThingSet.Streaming.Skip
import ThingSet.Streaming.Subscriber
import ThingSet.Strings
import ThingSet.Text.Containers
import ThingSet.Text.Entries
import ThingSet.Text.Groups
import ThingSet.Text.Integers
import ThingSet.Text.Members
import ThingSet.Text.Memory
import ThingSet.Text.Strings
import ThingSet.Zcbor.Decode
import ThingSet.Zcbor.Encode
import ThingSet.Zcbor.Reference
