import Kds.Catalog.ObjectOidRuns
import Kds.Catalog.RowIdRuns
import Kds.Exec.AssertionGroups
import Kds.Exec.AssertionVerdict
import Kds.Exec.CabinRuns
import Kds.Exec.DecimalText
import Kds.Exec.EqualityClasses
import Kds.Exec.InnerBuildEquiv
import Kds.Exec.OutputSort
import Kds.Exec.RowBytes
import Kds.Exec.SubqueryTruth
import Kds.Parser.IntLiterals
import Kds.Sched.ReactorRuns
import Kds.Server.AssertionBuildRuns
import Kds.Server.CommitRuns
import Kds.Server.FkRuns
import Kds.Server.IndexBuildRuns
import Kds.Server.InsertRuns
import Kds.Server.Isolation
import Kds.Server.LoserRuns
import Kds.Server.ShipRuns
import Kds.Server.StepDescriptorExact
import Kds.Server.StepEdgeRuns
import Kds.Server.WriteRuns
import Kds.Storage.BtreeAtomic
import Kds.Storage.BtreeChain
import Kds.Storage.BtreeDivision
import Kds.Storage.BufferPoolRuns
import Kds.Storage.PageAllocRuns
import Kds.Storage.VarHeapRuns
import Kds.Txn.TrxIdRuns
import Kds.Txn.UndoReuseRuns
import Kds.Wal.CheckpointRuns
import Kds.Wal.PayloadRoundTrip
import Kds.Wal.RedoRestart
import Kds.Wal.ScanEnd
import Kds.Wal.StreamCrashRuns
import Kds.Wal.StreamScan
import Kds.Wal.Verdicts
