import RyuDB.Lib.Wire
import RyuDB.Lib.Dict
import RyuDB.Lib.Joins
import RyuDB.Lib.Kleene
import RyuDB.Lib.Proc
import RyuDB.Lib.Regex
import RyuDB.Lib.Run
import RyuDB.Lib.Versioned
import RyuDB.Frame
import RyuDB.Delta
import RyuDB.Wal
import RyuDB.WalFormat
import RyuDB.RWLock
import RyuDB.SqlText
import RyuDB.Catalog
import RyuDB.NatHost
import RyuDB.Engine
import RyuDB.Dml
import RyuDB.Scan
import RyuDB.View
import RyuDB.History
import RyuDB.Effect
import RyuDB.Visibility
import RyuDB.Sql
import RyuDB.Recovery
import RyuDB.Sound
import RyuDB.Reload
import RyuDB.TxnReplay
import RyuDB.Isolation
import RyuDB.Unique
import RyuDB.Removal
import RyuDB.Checkpoint
import RyuDB.Admin
import RyuDB.Restart
import RyuDB.Upkeep
import RyuDB.Crash
import RyuDB.Publish
import RyuDB.Atomic
import RyuDB.NotNull
import RyuDB.Touch
import RyuDB.Rewind
import RyuDB.LogOrder
import RyuDB.Plan
import RyuDB.Relational
import RyuDB.Columns
import RyuDB.Optimize
import RyuDB.PushDown
import RyuDB.Reorder
import RyuDB.Flip
import RyuDB.JoinSides
import RyuDB.Prune
import RyuDB.PgText
import RyuDB.PgWire
import RyuDB.PgFrame
import RyuDB.PgErrors
import RyuDB.PgEngine
import RyuDB.PgAborted
import RyuDB.PgParams
import RyuDB.PgCursors
import RyuDB.PgLimits
import RyuDB.Statements
import RyuDB.CursorNames
import RyuDB.PgPortals
import RyuDB.SelectList
import RyuDB.Lib.Grouping
import RyuDB.Fused
import RyuDB.GroupCodes
import RyuDB.FusedAgree
import RyuDB.NullKeys
import RyuDB.Implicit
import RyuDB.Update
import RyuDB.Merge
import RyuDB.Pipeline
import RyuDB.JoinKeys
import RyuDB.Lib.Lockstep
import RyuDB.Persist
import RyuDB.GroupingSets
import RyuDB.GroupBy
import RyuDB.QueryTree
import RyuDB.Exists
import RyuDB.SetOps
import RyuDB.SemiAnti
import RyuDB.Membership
import RyuDB.Like
import RyuDB.Predicate
import RyuDB.Conditional
import RyuDB.ScalarFuncs
import RyuDB.ScalarSubquery
import RyuDB.StarColumns
import RyuDB.OuterSteps
import RyuDB.OuterMerge
import RyuDB.OuterResidual
import RyuDB.Windows
import RyuDB.WindowRank
import RyuDB.WindowFrames
import RyuDB.WindowRunning
import RyuDB.WindowExtremes
import RyuDB.Profile
import RyuDB.JsText
import RyuDB.Diff
import RyuDB.PlanLayout
import RyuDB.Lib.Thrift
import RyuDB.PageHeaders
import RyuDB.PageSkips
import RyuDB.PageWalk
import RyuDB.Lib.Csv
import RyuDB.CsvExport
import RyuDB.Bundle
import RyuDB.Lib.Postfix
import RyuDB.Descriptors
import RyuDB.DescriptorTokens
import RyuDB.DescriptorsAgree
import RyuDB.Server
import RyuDB.StableReads
import RyuDB.CatalogActs
import RyuDB.CodeCaches
import RyuDB.Lib.Threads
import RyuDB.Lib.Probing
import RyuDB.Accumulators
import RyuDB.HashKernel
import RyuDB.CompactKernel
import RyuDB.JoinTables
import RyuDB.DenseKernel
import RyuDB.DenseGroups
import RyuDB.StarJoin
import RyuDB.Lib.Hybrid
import RyuDB.RunDecode
import RyuDB.PageColumns
import RyuDB.Dispatch
import RyuDB.Cancels
