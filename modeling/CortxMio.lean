import CortxMio.Lib.Loop
import CortxMio.Lib.Run
import CortxMio.Lib.Batches
import CortxMio.Lib.Fallible
import CortxMio.Lib.Account
import CortxMio.Lib.Traced
import CortxMio.Lib.Program
import CortxMio.Lib.Cells
import CortxMio.Lib.AssocList
import CortxMio.Lib.BoundedMap
import CortxMio.Lib.Cursor
import CortxMio.Lib.CString
import CortxMio.Lib.Text
import CortxMio.Lib.CNumber
import CortxMio.Lib.HexNumber
import CortxMio.Lib.SelectionSort
import CortxMio.Basic
import CortxMio.Hint.Lookup
import CortxMio.Hint.Store
import CortxMio.Pool.Pools
import CortxMio.Conf.Table
import CortxMio.Conf.Scan
import CortxMio.Conf.Limit
import CortxMio.Conf.Accepted
import CortxMio.Conf.ScanLoop
import CortxMio.Conf.PoolEntries
import CortxMio.Conf.Spelling
import CortxMio.Conf.Names
import CortxMio.Conf.Strings
import CortxMio.Conf.SameFile
import CortxMio.Conf.SelfContained
import CortxMio.Conf.History
import CortxMio.Pool.Select
import CortxMio.Pool.Hotness
import CortxMio.Pool.Placement
import CortxMio.Pool.BlkSizes
import CortxMio.Obj.Id
import CortxMio.Obj.Handle
import CortxMio.Obj.Plan
import CortxMio.Obj.Attrs
import CortxMio.Obj.Chain
import CortxMio.Obj.Api
import CortxMio.Obj.Hints
import CortxMio.Obj.Wire
import CortxMio.Obj.Sort
import CortxMio.Obj.SortLoop
import CortxMio.Obj.Pieces
import CortxMio.Obj.Aligned
import CortxMio.Obj.Batch
import CortxMio.Obj.SortWrap
import CortxMio.Obj.PageAligned
import CortxMio.Obj.OpTrace
import CortxMio.Obj.Readv
import CortxMio.Obj.WritePlan
import CortxMio.Obj.Rbw
import CortxMio.Obj.Writev
import CortxMio.Obj.WriteSubmit
import CortxMio.Obj.PlanExec
import CortxMio.Obj.Optimise
import CortxMio.Obj.Tiling
import CortxMio.Obj.PlanSafe
import CortxMio.Obj.Spared
import CortxMio.Obj.WriteBytes
import CortxMio.Obj.Whole
import CortxMio.Obj.LateSize
import CortxMio.Obj.InFlight
import CortxMio.Obj.Sparse
import CortxMio.Obj.Shared
import CortxMio.Obj.Session
import CortxMio.Obj.Size
import CortxMio.Obj.Persist
import CortxMio.Obj.SizeCall
import CortxMio.Obj.Rejected
import CortxMio.Comp.Layers
import CortxMio.Comp.Extents
import CortxMio.Kvs.Sets
import CortxMio.Api.Entry
import CortxMio.Obj.Lock
import CortxMio.Log.Logger
import CortxMio.Telem.Rec
import CortxMio.Telem.Addb
import CortxMio.Telem.Advertise
import CortxMio.Telem.Payload
import CortxMio.Telem.Log
import CortxMio.Telem.LoadAll
import CortxMio.Telem.AddbLoad
import CortxMio.Telem.AddbDump
import CortxMio.Telem.Decode
import CortxMio.Telem.DecodeSafe
import CortxMio.Telem.DecodeText
import CortxMio.Telem.DecodeSlices
import CortxMio.Telem.DecodeStale
import CortxMio.Op.Driver
import CortxMio.Op.Poll
import CortxMio.Op.PollRun
import CortxMio.Op.Callback
import CortxMio.Obj.Store
import CortxMio.Obj.StoreSpec
import CortxMio.App.Blocks
import CortxMio.App.Copy
import CortxMio.App.Hsm
import CortxMio.App.Transfer
import CortxMio.Lib.Join
import CortxMio.App.Files
import CortxMio.App.Async
import CortxMio.App.IoThread
import CortxMio.App.Rwt
import CortxMio.App.RwtRun
import CortxMio.App.RwtData
