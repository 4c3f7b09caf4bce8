import StorageStack.Dfs.BlockPaths
import StorageStack.Dfs.Catalogue
import StorageStack.Dfs.Concurrent
import StorageStack.Dfs.DroppedReply
import StorageStack.Dfs.FileTable
import StorageStack.Dfs.Framing
import StorageStack.Dfs.Leftovers
import StorageStack.Dfs.Locations
import StorageStack.Dfs.Modify
import StorageStack.Dfs.Readers
import StorageStack.Dfs.BlockBound
import StorageStack.Dfs.RoundTrip
import StorageStack.Dfs.SfsStore
import StorageStack.Dfs.Streams
import StorageStack.Lib.Runs
import StorageStack.Mydisk.Cache
import StorageStack.Mydisk.FlatArray
import StorageStack.Mydisk.Read
import StorageStack.Mydisk.Ring
import StorageStack.Sfs.Accounting
import StorageStack.Sfs.Allocator
import StorageStack.Sfs.ArrayRoom
import StorageStack.Sfs.Calls
import StorageStack.Sfs.DirectoryList
import StorageStack.Sfs.EndOfFile
import StorageStack.Sfs.FreemapBlocks
import StorageStack.Sfs.FreeFile
import StorageStack.Sfs.FullDisk
import StorageStack.Sfs.Isolation
import StorageStack.Sfs.Leaks
import StorageStack.Sfs.LifeCycle
import StorageStack.Sfs.LongNames
import StorageStack.Sfs.Namespace
import StorageStack.Sfs.Follow
import StorageStack.Sfs.OpenFailure
import StorageStack.Sfs.ReadFile
import StorageStack.Sfs.ReadEnds
import StorageStack.Sfs.ReadOnly
import StorageStack.Sfs.ReadStops
import StorageStack.Sfs.Reload
import StorageStack.Sfs.RemoveDir
import StorageStack.Sfs.RemoveFile
import StorageStack.Sfs.RoundTrip
import StorageStack.Sfs.Scan
import StorageStack.Sfs.Sharing
import StorageStack.Sfs.Storage
import StorageStack.Sfs.Superblock
