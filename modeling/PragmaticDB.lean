import PragmaticDB.Lib.Machine
import PragmaticDB.Storage.BufferPoolPins
import PragmaticDB.Storage.BufferPoolRefinement
import PragmaticDB.Storage.BufferPoolResidency
import PragmaticDB.Storage.FetchedBytes
import PragmaticDB.Storage.RecordMap
import PragmaticDB.Storage.ForeignRecords
import PragmaticDB.Storage.InsertLimits
import PragmaticDB.Storage.InsertPlacement
import PragmaticDB.Storage.UpdateStep
import PragmaticDB.Table.ScanRuns
import PragmaticDB.Catalog.CatalogCodec
import PragmaticDB.Query.Restart
import PragmaticDB.Query.CatalogHistory
import PragmaticDB.Query.Durability
import PragmaticDB.Query.DeleteForms
import PragmaticDB.Query.DeletedRows
import PragmaticDB.Network.TcpServer
import PragmaticDB.Storage.HeapDisk
import PragmaticDB.Query.WriteOrder
import PragmaticDB.Query.Exceptions
import PragmaticDB.Query.Recovery
import PragmaticDB.Lib.CutStream
import PragmaticDB.Catalog.TornCatalog
import PragmaticDB.Query.InsertTruth
import PragmaticDB.Storage.Eviction
import PragmaticDB.Query.InsertionOrder
import PragmaticDB.Query.WhereValues
import PragmaticDB.Query.FailedStatements
import PragmaticDB.Query.DumpReload
import PragmaticDB.Query.TrailingSemicolon
import PragmaticDB.Query.LineBreaks
import PragmaticDB.Query.DocumentedForms
import PragmaticDB.Storage.PageRuns
import PragmaticDB.Storage.FrameLists
import PragmaticDB.Network.Response
import PragmaticDB.Network.Clients
import PragmaticDB.Query.TablesApart
import PragmaticDB.Query.Relations
import PragmaticDB.Query.Transactions
import PragmaticDB.Query.ReadOnly
import PragmaticDB.Query.PoolUse
import PragmaticDB.Table.CursorRuns
