import MakeExt4fs.Utils.Reread
import MakeExt4fs.Utils.Fs
import MakeExt4fs.Lib.Spans
import MakeExt4fs.Lib.Arena
import MakeExt4fs.Utils.SuperBlock
import MakeExt4fs.Layout.Header
import MakeExt4fs.Contents.Dentries
import MakeExt4fs.Contents.Directory
import MakeExt4fs.Allocate.Blocks
import MakeExt4fs.Allocate.Chains
import MakeExt4fs.Allocate.Group
import MakeExt4fs.Allocate.Init
import MakeExt4fs.Allocate.Inodes
import MakeExt4fs.Allocate.LastGroup
import MakeExt4fs.Allocate.Ownership
import MakeExt4fs.Allocate.Regions
import MakeExt4fs.Allocate.Safety
import MakeExt4fs.Contents.Resize
import MakeExt4fs.Utils.Backups
import MakeExt4fs.Contents.Reserved
import MakeExt4fs.Contents.ResizeMap
import MakeExt4fs.Libsparse.BackedBlock
import MakeExt4fs.Libsparse.Merging
import MakeExt4fs.Libsparse.Queue
import MakeExt4fs.Libsparse.ListRuns
import MakeExt4fs.Contents.Extents
import MakeExt4fs.Contents.Indirect
import MakeExt4fs.Contents.Journal
import MakeExt4fs.Contents.Xattr
import MakeExt4fs.Contents.Files
import MakeExt4fs.Tree.Host
import MakeExt4fs.Lib.Disk
import MakeExt4fs.Libsparse.Sparse
import MakeExt4fs.Libsparse.Crc32
import MakeExt4fs.Libsparse.CrcChunk
import MakeExt4fs.Tree.Build
import MakeExt4fs.Tree.BlockList
import MakeExt4fs.Tree.Make
import MakeExt4fs.Tree.Parameters
import MakeExt4fs.Tree.SameTree
import MakeExt4fs.Tree.Failures
import MakeExt4fs.Tree.Reproducible
import MakeExt4fs.Fixup.Restart
import MakeExt4fs.Fixup.DirTree
import MakeExt4fs.Fixup.Walk
import MakeExt4fs.Fixup.Recurse
import MakeExt4fs.Fixup.Shape
import MakeExt4fs.Fixup.Renumber
import MakeExt4fs.Fixup.Complete
import MakeExt4fs.Fixup.Device
import MakeExt4fs.Fixup.Reads
import MakeExt4fs.Fixup.Writes
import MakeExt4fs.Libsparse.SparseRead
import MakeExt4fs.Lib.Buffer
import MakeExt4fs.Libsparse.Import
import MakeExt4fs.Libsparse.Accepted
import MakeExt4fs.Libsparse.Stretches
import MakeExt4fs.Contents.Mapping
import MakeExt4fs.Utils.Params
import MakeExt4fs.Contents.Lengths
import MakeExt4fs.Tree.Scan
import MakeExt4fs.Contents.XattrRange
import MakeExt4fs.Allocate.Numbers
import MakeExt4fs.Allocate.InodeRuns
import MakeExt4fs.Allocate.Frames
import MakeExt4fs.Contents.XattrReturns
import MakeExt4fs.Contents.XattrWalk
import MakeExt4fs.Lib.Evolves
import MakeExt4fs.Utils.Uuid
import MakeExt4fs.Tree.CannedFsConfig
import MakeExt4fs.Fixup.Passes
import MakeExt4fs.Fixup.SanityPass
import MakeExt4fs.Fixup.Prepare
import MakeExt4fs.Fixup.Directories
import MakeExt4fs.Utils.Crc16
import MakeExt4fs.Fixup.Untouched
import MakeExt4fs.Lib.Image
import MakeExt4fs.Libsparse.Output
import MakeExt4fs.Libsparse.Expand
import MakeExt4fs.Libsparse.ReadNormal
import MakeExt4fs.Libsparse.Written
import MakeExt4fs.Libsparse.CrcOff
import MakeExt4fs.Libsparse.NormalRoundTrip
import MakeExt4fs.Libsparse.Landings
import MakeExt4fs.Libsparse.FillChunks
import MakeExt4fs.Libsparse.Images
import MakeExt4fs.Allocate.Carve
import MakeExt4fs.Lib.Interrupt
import MakeExt4fs.Contents.MadeDirectory
import MakeExt4fs.Contents.DirectoryRuns
import MakeExt4fs.Utils.Geometry
import MakeExt4fs.Fixup.InPlace
import MakeExt4fs.Lib.Words
import MakeExt4fs.Contents.Linked
import MakeExt4fs.Lib.ErrorLog
import MakeExt4fs.Contents.IndirectBlocks
import MakeExt4fs.Contents.Advance
import MakeExt4fs.Fixup.EntryWalk
import MakeExt4fs.Contents.FirstRegion
import MakeExt4fs.Contents.RegionRuns
import MakeExt4fs.Allocate.BestFit
import MakeExt4fs.Libsparse.Resparse
import MakeExt4fs.Allocate.Choice
import MakeExt4fs.Utils.InodeCounts
import MakeExt4fs.Contents.ResizeTables
import MakeExt4fs.Contents.RegionViews
import MakeExt4fs.Libsparse.InOrder
import MakeExt4fs.Allocate.ReserveBlocks
import MakeExt4fs.Fixup.Calm
import MakeExt4fs.Fixup.DirBlocks
import MakeExt4fs.Fixup.ReadExt
import MakeExt4fs.Fixup.ExtentTree
import MakeExt4fs.Contents.Placed
import MakeExt4fs.Allocate.Pool
import MakeExt4fs.Libsparse.Turns
import MakeExt4fs.Contents.IndirectMap
import MakeExt4fs.Fixup.Checksums
import MakeExt4fs.Utils.Types
import MakeExt4fs.Allocate.Start
import MakeExt4fs.Fixup.ReadsBack
import MakeExt4fs.Fixup.Survives
import MakeExt4fs.Contents.Makes
import MakeExt4fs.Contents.MakesLinks
import MakeExt4fs.Tree.Nodes
import MakeExt4fs.Contents.FreeCounts
import MakeExt4fs.Tree.Finished
import MakeExt4fs.Lib.Numbering
import MakeExt4fs.Tree.Consistent
import MakeExt4fs.Contents.Fills
import MakeExt4fs.Contents.NewData
import MakeExt4fs.Tree.Special
import MakeExt4fs.Tree.Planned
import MakeExt4fs.Tree.WholeImage
import MakeExt4fs.Tree.Prepared
import MakeExt4fs.Contents.NewInodes
import MakeExt4fs.Contents.Links
import MakeExt4fs.Tree.NewNodes
import MakeExt4fs.Contents.MakesInodes
