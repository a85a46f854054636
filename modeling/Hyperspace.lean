import Hyperspace.Machine
import Hyperspace.Key
import Hyperspace.NamedMap
import Hyperspace.ByteStream
import Hyperspace.ByteStreamCursor
import Hyperspace.Corestore
import Hyperspace.CorestoreEvents
import Hyperspace.CorestoreInstances
import Hyperspace.Peer
import Hyperspace.PeerAnnounce
import Hyperspace.PeerSync
import Hyperspace.RemoteCorestore
import Hyperspace.RemoteLength
import Hyperspace.ReplicateCorestore
import Hyperspace.ReplicateLock
import Hyperspace.ReplicatorConnection
import Hyperspace.CorestoreRestart
import Hyperspace.Network
import Hyperspace.PeerDrain
import Hyperspace.PeerHolds
import Hyperspace.PeerWindow
import Hyperspace.ReadStream
import Hyperspace.ReadStreamWake
import Hyperspace.RemoteOpen
import Hyperspace.Session
import Hyperspace.SessionAppend
import Hyperspace.SessionDownload
import Hyperspace.SessionNotify
import Hyperspace.SessionOpen
import Hyperspace.SessionReturn
import Hyperspace.PeerHave
import Hyperspace.ReadStreamRange
import Hyperspace.ReadStreamLive
import Hyperspace.ByteStreamEnd
import Hyperspace.ByteStreamPosition
import Hyperspace.ByteStreamPending
import Hyperspace.SessionBatch
import Hyperspace.CorestoreDelivery
import Hyperspace.ReplicatorPeers
import Hyperspace.PeerRequests
import Hyperspace.FeedMapRemoval
import Hyperspace.NamedMapIds
import Hyperspace.FeedNetwork
import Hyperspace.FeedNetworkMoves
import Hyperspace.FeedNetworkSync
import Hyperspace.FeedNetworkRest
import Hyperspace.FeedNetworkStats
import Hyperspace.SessionLinear
import Hyperspace.ReadStreamOrder
import Hyperspace.ClientMain
import Hyperspace.ClientCopy
import Hyperspace.ReplicatorPair
import Hyperspace.CorestoreWritable
import Hyperspace.ReplicateDiscovery
import Hyperspace.Broadcast
import Hyperspace.ClientEvents
import Hyperspace.FeedNetworkHostile
import Hyperspace.ServerSocket
