import Xfsd.Foundation.Memory
import Xfsd.Foundation.Stdio
import Xfsd.Foundation.ByteOrder
import Xfsd.Foundation.Probe
import Xfsd.Foundation.KeyedList
import Xfsd.Foundation.Loop
import Xfsd.Foundation.Spelling
import Xfsd.Foundation.Word
import Xfsd.Foundation.PathLookup
import Xfsd.Foundation.Runs
import Xfsd.Foundation.Store
import Xfsd.Foundation.Pieces
import Xfsd.Foundation.Codec
import Xfsd.Foundation.View
import Xfsd.Foundation.Copy
import Xfsd.Foundation.EarlyExit
import Xfsd.Foundation.Cursor
import Xfsd.Foundation.ColorTree
import Xfsd.Foundation.RedBlack
import Xfsd.Types
import Xfsd.Unaligned
import Xfsd.Division
import Xfsd.OnDisk.Superblock
import Xfsd.OnDisk.Dinode
import Xfsd.OnDisk.BmapBtree
import Xfsd.OnDisk.Dir2Sf
import Xfsd.OnDisk.Dir2SfFormat
import Xfsd.OnDisk.Encode
import Xfsd.OnDisk.Dir2Block
import Xfsd.OnDisk.Dir2BlockFormat
import Xfsd.OnDisk.Dir2BlockSize
import Xfsd.OnDisk.BmapRecord
import Xfsd.OnDisk.BmapSetters
import Xfsd.OnDisk.BmapRoot
import Xfsd.OnDisk.Lossless
import Xfsd.Tslib.Syscall
import Xfsd.Tslib.ReadSuper
import Xfsd.Tslib.ReadFile
import Xfsd.Reader.Blocks
import Xfsd.Reader.Extents
import Xfsd.Reader.Calls
import Xfsd.Reader.Addressing
import Xfsd.Reader.Directory
import Xfsd.Reader.PathResolution
import Xfsd.Reader.BufferSafety
import Xfsd.Reader.Placement
import Xfsd.Reader.SparseData
import Xfsd.Reader.Delivery
import Xfsd.Reader.Footprint
import Xfsd.Reader.Independence
import Xfsd.Reader.ExtentReads
import Xfsd.Reader.Outcomes
import Xfsd.Reader.ScanBounds
import Xfsd.Reader.FreeList
import Xfsd.Reader.BlockCache
import Xfsd.Driver.ReadRoutine
import Xfsd.Linux.Rbtree
import Xfsd.Linux.RbtreeShape
import Xfsd.Linux.RbtreeRules
import Xfsd.Linux.RbtreeInsert
import Xfsd.Linux.RbtreeErase
import Xfsd.Linux.RbtreeUnlink
import Xfsd.Linux.RbtreeWalk
import Xfsd.Linux.RbtreeRuns
import Xfsd.OnDisk.Dir2SfUpdate
import Xfsd.OnDisk.Dir2SfImage
import Xfsd.OnDisk.Dir2SfStores
import Xfsd.OnDisk.Dir2SfAdd
import Xfsd.OnDisk.Dir2SfAddname
import Xfsd.OnDisk.Dir2SfRemove
import Xfsd.OnDisk.Dir2SfReplace
import Xfsd.OnDisk.Dir2SfRuns
import Xfsd.OnDisk.Dir2SfLookup
import Xfsd.OnDisk.Dir2SfGetdents
