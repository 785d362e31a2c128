import StatsRelay.Bytes
import StatsRelay.StatsdServer.Framing
import StatsRelay.StatsdServer.Ingress
import StatsRelay.StatsdServer.Udp
import StatsRelay.Processors.MultiCuckoo
import StatsRelay.Processors.Cardinality
import StatsRelay.StatsdClient.ClientTask
import StatsRelay.StatsdClient.ClientSender
import StatsRelay.Backends
import StatsRelay.Fanout
import StatsRelay.DataPath
import StatsRelay.Accounting
import StatsRelay.Wire
import StatsRelay.Service
import StatsRelay.Delivery
import StatsRelay.Chain
