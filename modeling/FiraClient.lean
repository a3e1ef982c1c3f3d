import FiraClient.Proof.Interference
import FiraClient.Proof.Addressing
import FiraClient.Proof.Recovery
import FiraClient.Proof.Steering
import FiraClient.Proof.Symmetry
import FiraClient.Proof.Representatives
import FiraClient.Proof.Narrowing
import FiraClient.Proof.Modulus
import FiraClient.Proof.Arrays
import FiraClient.Proof.Subscription
import FiraClient.Proof.FailedOpen
import FiraClient.Proof.Equality
import FiraClient.Proof.Traffic
import FiraClient.Library.Loop
import FiraClient.Library.Varint
import FiraClient.Library.Wire
import FiraClient.Library.Schema
import FiraClient.Pb.CodedStream
import FiraClient.Pb.WireFormat
import FiraClient.Pb.Common
import FiraClient.Proof.Varints
import FiraClient.Proof.Streams
import FiraClient.Proof.Shortcuts
import FiraClient.Proof.Tables
import FiraClient.Proof.Unknown
import FiraClient.Proof.Refinement
import FiraClient.Pb.Proto
import FiraClient.Proof.Schemas
import FiraClient.Proof.Serialized
import FiraClient.Proof.RoundTrip
import FiraClient.Proof.Limits
import FiraClient.Proof.Truncation
import FiraClient.Net.GrSim
import FiraClient.Program
import FiraClient.Proof.Program
import FiraClient.Proof.EndToEnd
import FiraClient.Net.Echo
import FiraClient.Net.Network
import FiraClient.Proof.Echo
import FiraClient.Proof.Delivery
import FiraClient.Proof.EchoPair
import FiraClient.Proof.Numeric
import FiraClient.Proof.Memory
import FiraClient.Library.Extension
import FiraClient.Pb.PacketProto
import FiraClient.Proof.Compatibility
import FiraClient.Library.Size
import FiraClient.Proof.NormalForm
