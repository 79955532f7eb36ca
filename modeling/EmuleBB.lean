import EmuleBB.Transfer.Completion
import EmuleBB.Transfer.LeaseDelivery
import EmuleBB.Peer.Corroboration
import EmuleBB.Credit.ReadThrough
import EmuleBB.Upload.Slots
import EmuleBB.Upload.Fencing
import EmuleBB.Upload.Entitlements
import EmuleBB.Upload.Takeover
import EmuleBB.Upload.Throttle
import EmuleBB.Callback.Matching
import EmuleBB.Transfer.Coordinator
import EmuleBB.Download.SourceRegistry
import EmuleBB.Tcp.Duplex
import EmuleBB.Server.OfferLaws
import EmuleBB.Kad.TcpRecheck
import EmuleBB.Kad.UdpCheck
import EmuleBB.Reask.UdpFit
import EmuleBB.Catalog.UploadCounters
import EmuleBB.Transfer.ServedBytes
import EmuleBB.Transfer.Progress
import EmuleBB.Transfer.Verdicts
import EmuleBB.Delivery.Stranded
import EmuleBB.Delivery.Once
import EmuleBB.Monitor.Reload
import EmuleBB.Monitor.Ingress
import EmuleBB.Monitor.Memberships
import EmuleBB.Monitor.Invalidations
import EmuleBB.Kad.LocalStore
import EmuleBB.Kad.NodesDat
import EmuleBB.Kad.Outbound
import EmuleBB.Kad.Tracker
import EmuleBB.Aich.Salvage
import EmuleBB.Aich.AnswerCache
