import FiraClient.Library.Extension
import FiraClient.Pb.PacketProto
import FiraClient.Proof.RoundTrip

/-!
# Two versions of the packet

The client's packet and the one of `packet.proto` on the same wire: the client's packets are packets
without replacements there, and of a packet with replacements the client's class reads the commands.
-/

namespace FiraClient

open Pb

namespace PacketProto

theorem extends_schema :
    Wire.Extends Packet.seen Packet.schema (FiraClient.Packet.schema) := by
  refine .shared (Wire.messageField_whole rfl)
    (Wire.messageField_seenAs (fun _ => rfl) fun _ _ => rfl) ?_
  exact .further (Wire.messageField_whole rfl) (Wire.messageField_unseen fun _ _ => rfl) rfl .nil

theorem absorbs_packet (depth : ℕ) (packet : FiraClient.Packet Binary64)
    (hsize : packet.byteSize < 2 ^ 31) :
    Wire.Absorbs Packet.schema (depth + 2) packet.serializeToArray fun message =>
      { message with cmd := (message.seen.mergeFrom packet).cmd } := by
  refine (packet.absorbs_cmd depth rfl hsize).congr fun message => ?_
  unfold Packet.mergeFrom
  cases packet.cmd <;> rfl

end PacketProto

/-- **Two versions of one protocol.** By `packet.proto` every packet of the client is read as its
commands, but for negative zeros, with no replacement. And whatever well formed fields
`packet.proto` reads as a packet, the client's class accepts, nothing changed in its commands. -/
theorem packets_compatible (reader : RepeatedReader) :
    (∀ packet : Packet Binary64, packet.byteSize < 2 ^ 31 →
      Wire.parse PacketProto.Packet.schema 100 PacketProto.Packet.cleared
          packet.serializeToArray =
        some ⟨(Packet.cleared.mergeFrom packet).cmd, none⟩) ∧
      ∀ written : Wire.Fields, written.WellFormed → ∀ packet,
        Wire.parse PacketProto.Packet.schema 100 PacketProto.Packet.cleared written.encode =
          some packet →
        parseFromArray Packet.cleared (Packet.mergePartialFromCodedStream reader) written.encode =
          (true, packet.seen) := by
  constructor
  · intro packet hsize
    exact (PacketProto.absorbs_packet 98 packet hsize).parse_eq PacketProto.Packet.cleared
  · intro written hwritten packet hparse
    have hseen : Wire.parse Packet.schema 100 Packet.cleared written.encode = some packet.seen :=
      PacketProto.extends_schema.parse hwritten hparse
    have hresult := parseFromArray_eq (Packet.realizes reader) Packet.cleared written.encode
    rwa [ParsesBy, hseen] at hresult

/-- No commands, and one robot put back where it is. -/
theorem packets_compatible_replacement :
    parseFromArray Packet.cleared (Packet.mergePartialFromCodedStream limitReader)
        [10, 0, 18, 4, 18, 2, 48, 1] =
      (true, ⟨some ⟨[]⟩⟩) := by
  have hbytes : [10, 0, 18, 4, 18, 2, 48, 1] =
      (Wire.Fields.scalar 1 (.delimited []) (.scalar 2 (.delimited [18, 2, 48, 1]) .nil)).encode := by
    decide +kernel
  have hwritten : (Wire.Fields.scalar 1 (.delimited [])
      (.scalar 2 (.delimited [18, 2, 48, 1]) .nil)).WellFormed := by
    simp [Wire.Fields.WellFormed, Wire.Payload.WellFormed]
  have hparse : Wire.parse PacketProto.Packet.schema 100 PacketProto.Packet.cleared
      (Wire.Fields.scalar 1 (.delimited [])
        (.scalar 2 (.delimited [18, 2, 48, 1]) .nil)).encode =
      some ⟨some ⟨[]⟩, some ⟨none, [⟨none, false, true⟩]⟩⟩ := by
    decide +kernel
  rw [hbytes]
  exact (packets_compatible limitReader).2 _ hwritten _ hparse

end FiraClient
