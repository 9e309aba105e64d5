import ConstructTransport.Grpc.Receive
import ConstructTransport.Grpc.Header
import ConstructTransport.Grpc.Metadata
import ConstructTransport.Datagram.Network
import ConstructTransport.Datagram.Coalesced
import ConstructTransport.Datagram.Counters
import ConstructTransport.Datagram.Keyed
import ConstructTransport.Dial.Ledger
import ConstructTransport.Migration.Verdict
import ConstructTransport.Migration.Wire
import ConstructTransport.Migration.Concurrent
import ConstructTransport.Migration.Wait
import ConstructTransport.Proxy.Endings
import ConstructTransport.Proxy.Release
import ConstructTransport.Proxy.Head
import ConstructTransport.Proxy.Settling
import ConstructTransport.Proxy.Serve
import ConstructTransport.Ffi.Lossless
import ConstructTransport.Ffi.Serial
import ConstructTransport.Ffi.Duplex
import ConstructTransport.Ffi.Progress
import ConstructTransport.Teardown.Open
import ConstructTransport.Tls.Identity
import ConstructTransport.Tls.Transport
import ConstructTransport.Echo.Faithful
import ConstructTransport.Path.Call
import ConstructTransport.Bin.DecodeHex
import ConstructTransport.Bin.Probe
import ConstructTransport.Bin.Udpcheck
import ConstructTransport.Bin.Ffiprobe
import ConstructTransport.Bin.Smoke
