import InfraStore.Lib.Cmd
import InfraStore.Platform
import InfraStore.Array
import InfraStore.Error
import InfraStore.ElementType
import InfraStore.Time
import InfraStore.Period
import InfraStore.Series
import InfraStore.Requests
import InfraStore.Storage
import InfraStore.WriteBuffer
import InfraStore.ArrayStore
import InfraStore.Catalog
import InfraStore.Connection
import InfraStore.Associations
import InfraStore.Store
import InfraStore.ArrayEffects
import InfraStore.Staging
import InfraStore.Transform
import InfraStore.StoreEffects
import InfraStore.Invariant
import InfraStore.CatalogEffects
import InfraStore.Collection
import InfraStore.DescriptorText
import InfraStore.Exclusivity
import InfraStore.FeatureSets
import InfraStore.Filing
import InfraStore.Identity
import InfraStore.Probe
import InfraStore.CatalogFile
import InfraStore.Lineage
import InfraStore.Removal
import InfraStore.Accounts
import InfraStore.CachedFile
import InfraStore.Durability
import InfraStore.Lib.Names
import InfraStore.Lib.Runs
import InfraStore.Tabular.Layout
import InfraStore.Tabular.MergeJoin
import InfraStore.Tabular.Partition
import InfraStore.Tabular.Readers
import InfraStore.Tabular.SqliteNames
import InfraStore.Calendar
import InfraStore.Lib.Binary
import InfraStore.Lib.Sorted
import InfraStore.Tabular.Cells
import InfraStore.Tabular.Forecast
import InfraStore.Tabular.Rebuild
import InfraStore.Tabular.Reimport
import InfraStore.Coherence
import InfraStore.ArrayReads
import InfraStore.DerivedReads
import InfraStore.Plans
import InfraStore.RowRoundTrip
import InfraStore.Selections
import InfraStore.BulkReads
import InfraStore.Codec
import InfraStore.CodecExact
import InfraStore.ForecastReader
import InfraStore.ForecastReads
import InfraStore.Hdf5
import InfraStore.Hdf5Reads
import InfraStore.StepFunctions
import InfraStore.Endpoints
import InfraStore.Cli.Stems
import InfraStore.Lib.Sql
import InfraStore.Migration
import InfraStore.Resumption
import InfraStore.Cli.Replace
import InfraStore.Cli.ReplaceBatch
import InfraStore.GridLaws
import InfraStore.Inference
import InfraStore.Lib.Fields
import InfraStore.OffsetBytes
import InfraStore.PeriodParsing
import InfraStore.PoolNames
import InfraStore.Cli.DebugText
import InfraStore.Cli.Diff
import InfraStore.BufferRuns
import InfraStore.Persist
import InfraStore.BackendRuns
import InfraStore.Hdf5Reopen
import InfraStore.StaticReads
import InfraStore.StaticBuild
import InfraStore.WindowReads
import InfraStore.ForecastBuild
import InfraStore.ManyReads
