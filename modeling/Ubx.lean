import Ubx.Lib.Memory
import Ubx.Lib.Overlap
import Ubx.Lib.Machine
import Ubx.Lib.Batch
import Ubx.Lib.Interleave
import Ubx.Lib.Fletcher
import Ubx.Lib.Words
import Ubx.Lib.LittleEndian
import Ubx.Lib.Layout
import Ubx.Lib.Signed
import Ubx.Internal
import Ubx.Wire
import Ubx.Helpers
import Ubx.Stream.Encoder
import Ubx.Stream.Exact
import Ubx.Stream.Assembler
import Ubx.Stream.Parser
import Ubx.Stream.Refine
import Ubx.Stream.History
import Ubx.Stream.Frames
import Ubx.Stream.Resync
import Ubx.Stream.Rejoin
import Ubx.Stream.Wrap
import Ubx.Stream.Grammar
import Ubx.Stream.Undetected
import Ubx.Stream.InPlace
import Ubx.Stream.Lifetime
import Ubx.Stream.Capacity
import Ubx.Cfg.Key
import Ubx.Cfg.Valset
import Ubx.Cfg.Request
import Ubx.Cfg.Sessions
import Ubx.Cfg.Valget
import Ubx.Cfg.Iterate
import Ubx.Cfg.Getters
import Ubx.Cfg.RoundTrip
import Ubx.Rxm.Pmreq
import Ubx.Decode.Payload
import Ubx.Decode.Fixed
import Ubx.Decode.Mon
import Ubx.Decode.Rxm
import Ubx.Decode.FixedWire
import Ubx.Decode.RxmWire
import Ubx.Decode.MonWire
import Ubx.Decode.MonSigned
import Ubx.Decode.Safety
import Ubx.Decode.Interleaved
import Ubx.Decode.NullPayload
import Ubx.Decode.Meaning
import Ubx.Decode.Deadlines
import Ubx.Decode.Messages
import Ubx.Telemetry
import Ubx.Buffers
import Ubx.Requests
import Ubx.Restore
