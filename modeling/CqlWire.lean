import CqlWire.Link
import CqlWire.Stream.Frames
import CqlWire.Proofs.Cutter
import CqlWire.Proofs.FrameStream
import CqlWire.Proofs.Format
import CqlWire.Proofs.Message
import CqlWire.Proofs.Compressor
import CqlWire.Proofs.Registry
import CqlWire.Proofs.Dialect
import CqlWire.Proofs.Decoded
import CqlWire.Proofs.Packer.Conserved
import CqlWire.Proofs.Unpacker.Conserved
import CqlWire.Proofs.Segment
import CqlWire.Proofs.SegmentStream
import CqlWire.Proofs.SegmentStream.Portions
import CqlWire.Proofs.SegmentStream.Pieces
import CqlWire.Proofs.Link
import CqlWire.Proofs.Link.Orders
import CqlWire.Proofs.Format.Refused
import CqlWire.Proofs.Dialect.Paths
import CqlWire.Proofs.Format.Condenses
import CqlWire.Proofs.Dialect.Renewed
import CqlWire.Proofs.FrameStream.Encoded
import CqlWire.Proofs.Checksum.Crc32
import CqlWire.Proofs.Bits
import CqlWire.Proofs.Checksum.Crc24
import CqlWire.Proofs.Segment.Damaged
import CqlWire.Proofs.Format.Limits
import CqlWire.Proofs.Dialect.Accepted
import CqlWire.Proofs.Packer.Refused
import CqlWire.Proofs.Format.Canonical
import CqlWire.Proofs.Reader
import CqlWire.Proofs.Format.Local
import CqlWire.Proofs.Utf8
import CqlWire.Proofs.Format.Renewal
import CqlWire.Proofs.Utf16
import CqlWire.Proofs.FrameStream.Calls
import CqlWire.Proofs.SegmentStream.Bounded
import CqlWire.Proofs.Unpacker.Failed
import CqlWire.Proofs.FrameStream.Payload
import CqlWire.Proofs.Segment.Header
import CqlWire.Proofs.Dialect.Dispatch
import CqlWire.Proofs.Packer.Announced
import CqlWire.Proofs.Frame.Header
import CqlWire.Proofs.Checksum.Remainder
