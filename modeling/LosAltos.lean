import LosAltos.Lib.LittleEndian
import LosAltos.Lib.Memory
import LosAltos.Lib.Turns
import LosAltos.Lib.Locks
import LosAltos.Lib.Cells
import LosAltos.Commons.Lists
import LosAltos.Commons.ListView
import LosAltos.Commons.ListLoops
import LosAltos.Commons.ListRuns
import LosAltos.Commons.QueueRuns
import LosAltos.Lib.Bubble
import LosAltos.Lib.BubbleMark
import LosAltos.Lib.Intervals
import LosAltos.Nipc.Packet
import LosAltos.Nipc.Responses
import LosAltos.Nipc.Send
import LosAltos.Nipc.Receive
import LosAltos.Nipc.Requests
import LosAltos.Nipc.Query
import LosAltos.Nipc.ReaddirResponse
import LosAltos.Fsc.RemoteWrite
import LosAltos.Fsc.RemoteRead
import LosAltos.Fsc.Packets
import LosAltos.Fsc.PacketRuns
import LosAltos.Rc.Vector
import LosAltos.Rc.Engine
import LosAltos.Rc.Stable
import LosAltos.Rc.Sorting
import LosAltos.Rc.Disjoint
import LosAltos.Rc.Conservation
import LosAltos.Rc.SearchTurns
import LosAltos.Rc.Victim
import LosAltos.Rc.Coalescing
import LosAltos.Rc.Halves
import LosAltos.Rc.Halving
import LosAltos.Rc.Labels
import LosAltos.Rc.Lookup
import LosAltos.Rc.SearchResults
import LosAltos.Rc.SearchEnds
import LosAltos.Rc.SearchFit
import LosAltos.Rc.Frequency
import LosAltos.Rc.Semantics
import LosAltos.Rc.Replies
import LosAltos.Rc.Compaction
import LosAltos.Rc.KeyAreas
import LosAltos.Rc.Handles
import LosAltos.Lib.Forest
import LosAltos.Lib.Cells
import LosAltos.Commons.Lists
import LosAltos.Commons.ListView
import LosAltos.Commons.ListLoops
import LosAltos.Commons.ListRuns
import LosAltos.Commons.QueueRuns
import LosAltos.Lib.Chain
import LosAltos.Lib.ChainTable
import LosAltos.Lib.Links
import LosAltos.Rfs.Disk
import LosAltos.Rfs.Truncate
import LosAltos.Rfs.Directory
import LosAltos.Rfs.Trace
import LosAltos.Rfs.Positions
import LosAltos.Rfs.PositionLists
import LosAltos.Rfs.Ledger
import LosAltos.Rfs.LockOrder
import LosAltos.Rfs.Growth
import LosAltos.Rfs.Resize
import LosAltos.Rfs.Ownership
import LosAltos.Rfs.Runs
import LosAltos.Rfs.FailedCreation
import LosAltos.Rfs.FreeBlocks
import LosAltos.Rfs.Inodes
import LosAltos.Rfs.FreeInodes
import LosAltos.Rfs.Entries
import LosAltos.Rfs.Directories
import LosAltos.Rfs.DirectoryShape
import LosAltos.Rfs.OpenFiles
import LosAltos.Rfs.Paths
import LosAltos.Rfs.BlockCount
import LosAltos.Rfs.BlockAccounts
import LosAltos.Rfs.Listing
import LosAltos.Rfs.Links
import LosAltos.Rfs.LinkCounts
import LosAltos.Rfs.Server
import LosAltos.Rfs.Sessions
import LosAltos.Rfs.CachePurge
import LosAltos.Rfs.ClientLists
import LosAltos.Fsc.Metadata
import LosAltos.Fsc.Transparency
import LosAltos.Fsc.Race
import LosAltos.Rfs.Dispatch
import LosAltos.Rfs.Packets
import LosAltos.Rfs.EmptyDirectory
import LosAltos.Rfs.EmptyDirectoryRuns
import LosAltos.Rfs.FileBytes
import LosAltos.Rfs.Translation
import LosAltos.Rfs.FileWrites
import LosAltos.Rfs.BlockCache
import LosAltos.Rfs.FileView
import LosAltos.Rfs.WriteGrowth
import LosAltos.Rfs.EntrySequence
import LosAltos.Rfs.EntryRemoval
import LosAltos.Rfs.Addresses
import LosAltos.Rfs.Allocation
import LosAltos.Rfs.FileTree
import LosAltos.Rfs.Shrink
import LosAltos.Rfs.Expand
import LosAltos.Rfs.GrownFile
import LosAltos.Rfs.WriteExhaustion
import LosAltos.Rfs.Watcher
import LosAltos.Rc.Splitting
import LosAltos.Rc.Indices
import LosAltos.Rc.Bounds
