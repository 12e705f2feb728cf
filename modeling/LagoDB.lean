import LagoDB.CleanupExact
import LagoDB.NetEffect
import LagoDB.ProviderFilters
import LagoDB.GroupByOffload
import LagoDB.SubPlanGuarantees
import LagoDB.RowIdentity
import LagoDB.MutationGuarantees
import LagoDB.DeletionVectorCommit
import LagoDB.StagedCreateGuarantees
import LagoDB.MaintenanceRequests
import LagoDB.RuntimePlanning
import LagoDB.RuntimeFilters
import LagoDB.ParquetPruning
import LagoDB.WorkerWakeups
import LagoDB.CoordinatorProtocol
import LagoDB.TransactionCleanup
import LagoDB.StorageCleanup
import LagoDB.FileReplay
import LagoDB.DeleteBatches
import LagoDB.CanceledFiles
import LagoDB.AdaptiveJoin
import LagoDB.AvroDecimal
import LagoDB.DatabaseScheduler
import LagoDB.FilterRebinding
import LagoDB.JsonLines
import LagoDB.NumericAggregate
import LagoDB.StorageVolumes
import LagoDB.StoreReconciler
import LagoDB.TaskBins
