import TransferEngine.Lib.Runs
import TransferEngine.Lib.Lists
import TransferEngine.Bitfield
import TransferEngine.Torrent
import TransferEngine.TorrentFile.RootScan
import TransferEngine.TorrentFile.WellFormed
import TransferEngine.TorrentFile.Containment
import TransferEngine.PieceSizes
import TransferEngine.PieceManager.Blocks
import TransferEngine.PieceManager.Model
import TransferEngine.PieceManager.Operations
import TransferEngine.PieceManager.Count
import TransferEngine.PieceManager.Delivery
import TransferEngine.Lib.Bytes
import TransferEngine.PeerConnection
import TransferEngine.FrameDecoding
import TransferEngine.Coordinator.Model
import TransferEngine.Coordinator.Basic
import TransferEngine.Coordinator.Moves
import TransferEngine.Coordinator.Completion
import TransferEngine.PieceManager.Engaged
import TransferEngine.Coordinator.Orphans
import TransferEngine.Coordinator.Duplicates
import TransferEngine.Coordinator.Durability
import TransferEngine.Coordinator.Range
import TransferEngine.Coordinator.Blame
import TransferEngine.Coordinator.Removal
import TransferEngine.Coordinator.Stall
import TransferEngine.Lib.Segments
import TransferEngine.FlatStore
import TransferEngine.Bencode.RoundTrip
import TransferEngine.Receiving.Frames
import TransferEngine.Receiving.Reassembly
import TransferEngine.Receiving.Closing
import TransferEngine.Receiving.Handshake
import TransferEngine.Codec
import TransferEngine.Client.Model
import TransferEngine.Client.Slots
import TransferEngine.Client.Handshakes
import TransferEngine.Coordinator.Calm
import TransferEngine.Coordinator.Availability
import TransferEngine.Coordinator.Requests
import TransferEngine.Coordinator.Asking
import TransferEngine.EventLoop.Model
import TransferEngine.EventLoop.Timers
import TransferEngine.Connection.Model
import TransferEngine.Connection.Lifecycle
import TransferEngine.Connection.Stream
import TransferEngine.PeerManager.Model
import TransferEngine.PeerManager.Admission
import TransferEngine.BitfieldSet
import TransferEngine.Tracker.Query
import TransferEngine.Tracker.Fallback
import TransferEngine.Tracker.Peers
import TransferEngine.Coordinator.Filling
import TransferEngine.Coordinator.Picking
import TransferEngine.TorrentFile.Traps
import TransferEngine.PartialWrites
import TransferEngine.Coordinator.Integrity
import TransferEngine.PieceManager.Progress
import TransferEngine.Coordinator.Swarm
import TransferEngine.Coordinator.Seeder
import TransferEngine.Connection.Conversation
import TransferEngine.EventLoop.Descriptors
import TransferEngine.Connection.Hub
import TransferEngine.Tracker.Udp
import TransferEngine.Tracker.Http
import TransferEngine.TorrentFile.Publication
import TransferEngine.Main.Model
import TransferEngine.Main.Timers
import TransferEngine.Main.Completion
import TransferEngine.Main.Delivery
import TransferEngine.Coordinator.Speech
