import Identt.Lib.Radix
import Identt.Lib.Run
import Identt.Lib.PrefixScan
import Identt.Proto.Store
import Identt.Proto.Schema
import Identt.Query.ProtoJson
import Identt.Lib.Json
import Identt.Store.Represents
import Identt.Store.RecordItems
import Identt.Store.World
import Identt.Store.RecordCalls
import Identt.Store.StoreTrans
import Identt.Store.LastId
import Identt.Store.LogView
import Identt.Store.ConcurrentCache
import Identt.Store.ConcurrentCommit
import Identt.Store.Recovery
import Identt.Store.TableRuns
import Identt.Store.IndexScan
import Identt.Hrpc.SyncServer
import Identt.Hrpc.Replication
import Identt.Hrpc.Promotion
import Identt.Hrpc.Reopening
import Identt.Hrpc.CacheFailures
import Identt.Store.Tables
import Identt.Hrpc.MasterEndpoint
import Identt.Hrpc.TokenAddress
import Identt.Hrpc.Bindings
import Identt.Hrpc.SessionValidity
import Identt.Hrpc.Election
import Identt.Hrpc.HostMessages
import Identt.Hrpc.Forwarding
import Identt.Hrpc.BufferDrain
import Identt.Hrpc.HostUpdate
import Identt.Hrpc.AssocPairs
import Identt.Hrpc.SplitBrain
import Identt.Hrpc.InviteNotices
import Identt.Lib.Copies
import Identt.Lib.Projection
import Identt.Store.CacheFollow
import Identt.Store.CacheRuns
import Identt.Store.LookupService
import Identt.Store.AddressSpelling
import Identt.Hrpc.LookupAgreement
import Identt.Hrpc.WaitingRequests
import Identt.Hrpc.ConcurrentRequests
import Identt.Lib.JsonText
import Identt.Crypto.Ed25519
import Identt.Query.ProtoJsonSigned
import Identt.Query.Base64Loop
import Identt.Query.SignedJson
import Identt.Query.KeyScopes
import Identt.Query.JsonFailures
import Identt.Query.ArrayForm
import Identt.Store.BindSigning
import Identt.Hrpc.AccessKeys
import Identt.Hrpc.BlobRuns
import Identt.Query.BlobDataService
import Identt.Hrpc.BlobJson
import Identt.Hrpc.PendingPages
import Identt.Hrpc.MailAcks
import Identt.Hrpc.BulkLookups
import Identt.Hrpc.TokenRetries
import Identt.Hrpc.SessionExpiry
import Identt.Store.LogRead
import Identt.Store.KeyStream
import Identt.Hrpc.LogComparison
import Identt.Hrpc.LogPull
import Identt.Lib.Split
import Identt.Lib.Chain
import Identt.Utils.CfgFileOptions
import Identt.Utils.CfgInheritance
import Identt.Utils.CfgUpdates
import Identt.Query.ProtoForm
import Identt.Query.FormGrammar
import Identt.Query.FormRoundTrip
import Identt.Hrpc.LogAgreement
import Identt.Hrpc.Failover
import Identt.Hrpc.SyncFromMaster
import Identt.Hrpc.SlaveReads
import Identt.Hrpc.ReplicatedTables
import Identt.Hrpc.RemoteEndpoint
import Identt.Hrpc.Network
import Identt.Hrpc.OneServer
import Identt.Hrpc.EphemeralKeys
import Identt.Hrpc.Joining
