import Rove.Model.NodeIndependence
import Rove.Model.Views
import Rove.Inbound.Admission
import Rove.Outbound.Chain
import Rove.Reverse.Tunnel
import Rove.Ingress.Reclaim
import Rove.Ingress.Flows
import Rove.Inbound.ClientLatch
import Rove.Engine.Permits
import Rove.Reverse.Edge
import Rove.Reverse.Contacted
import Rove.AddrBook.Canonical
import Rove.AddrBook.Export
import Rove.Splice
import Rove.Diagnostics
import Rove.Subnetra.Ephemeral
import Rove.Subnetra.Psk
import Rove.Sniff.NormalForm
import Rove.Sync.BookWatch
import Rove.Sync.Health
import Rove.Outbound.Dial
import Rove.Subnetra.Egress
import Rove.Proxy.HopConnect
import Rove.Subnetra.Forwarding
import Rove.Ingress.Registry
import Rove.Subnetra.Delivery
import Rove.Policy.Selectors
import Rove.Inbound.Granted
import Rove.Inbound.Chunked
import Rove.Inbound.ForwardedHead
import Rove.Inbound.TuicRelays
import Rove.Inbound.TuicCodec
import Rove.Engine.Tuic
import Rove.Subnetra.Pump
