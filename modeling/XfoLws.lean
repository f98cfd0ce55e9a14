import XfoLws.Db.AccountIndexes
import XfoLws.Db.AccountSearch
import XfoLws.Db.Accounts
import XfoLws.Db.Agreement
import XfoLws.Db.BulkInsert
import XfoLws.Db.Chain
import XfoLws.Db.ChainSync
import XfoLws.Db.Checkpoints
import XfoLws.Db.Confirmations
import XfoLws.Db.Data
import XfoLws.Db.Events
import XfoLws.Db.ExactAddress
import XfoLws.Db.FiledAccounts
import XfoLws.Db.Frames
import XfoLws.Db.HeightMoves
import XfoLws.Db.HonestRuns
import XfoLws.Db.ImageRuns
import XfoLws.Db.Ledger
import XfoLws.Db.LookaheadLimits
import XfoLws.Db.LookaheadRuns
import XfoLws.Db.LookaheadScan
import XfoLws.Db.LookaheadStores
import XfoLws.Db.LookaheadWindows
import XfoLws.Db.Migration
import XfoLws.Db.MultisigLedger
import XfoLws.Db.MultisigStore
import XfoLws.Db.Operations
import XfoLws.Db.PowTable
import XfoLws.Db.Replacement
import XfoLws.Db.Requests
import XfoLws.Db.RolledBack
import XfoLws.Db.ScanAccount
import XfoLws.Db.ScannedRows
import XfoLws.Db.SpendHooks
import XfoLws.Db.SpendImages
import XfoLws.Db.StoredBatch
import XfoLws.Db.SubaddressAgreement
import XfoLws.Db.SubaddressOwners
import XfoLws.Db.SubaddressRanges
import XfoLws.Db.SubaddressViews
import XfoLws.Db.Subaddresses
import XfoLws.Db.Tables
import XfoLws.Db.Update
import XfoLws.Db.UpsertSets
import XfoLws.Db.UpsertTables
import XfoLws.Db.Webhooks
import XfoLws.Lib.Dealing
import XfoLws.Lib.LinkedChain
import XfoLws.Lib.LowerBound
import XfoLws.Lib.Mirrors
import XfoLws.Lib.Outcome
import XfoLws.Lib.Parsing
import XfoLws.Lib.PrefixCode
import XfoLws.Lib.Retention
import XfoLws.Lib.SortedRows
import XfoLws.Net.HttpClient
import XfoLws.Net.HttpConnections
import XfoLws.Rest.Balance
import XfoLws.Rest.Endpoints
import XfoLws.Rest.Evictions
import XfoLws.Rest.HandlerLoop
import XfoLws.Rest.ImportKeyImages
import XfoLws.Rest.ImportRequest
import XfoLws.Rest.KexRegistry
import XfoLws.Rest.KexRuns
import XfoLws.Rest.KexSnapshot
import XfoLws.Rest.ProvisionSubaddrs
import XfoLws.Rest.Service
import XfoLws.Rest.ServiceRuns
import XfoLws.Rest.SharedCalls
import XfoLws.Rest.SharedRuns
import XfoLws.Rest.StatusClients
import XfoLws.Rest.SubmitFrames
import XfoLws.Rest.SubmitRawTx
import XfoLws.Rest.SubmitRuns
import XfoLws.Rest.Txsets
import XfoLws.Rest.UnlockTime
import XfoLws.Rest.WalletRows
import XfoLws.Rest.WalletViews
import XfoLws.Rpc.DaemonWait
import XfoLws.Scanner.Balance
import XfoLws.Scanner.CheckLoop
import XfoLws.Scanner.CheckUsers
import XfoLws.Scanner.Commands
import XfoLws.Scanner.Connection
import XfoLws.Scanner.ConnectionRuns
import XfoLws.Scanner.Independence
import XfoLws.Scanner.Isolation
import XfoLws.Scanner.Link
import XfoLws.Scanner.Loop
import XfoLws.Scanner.LoopFrames
import XfoLws.Scanner.LoopLinks
import XfoLws.Scanner.LoopRuns
import XfoLws.Scanner.Queue
import XfoLws.Scanner.Remote
import XfoLws.Scanner.RemoteClient
import XfoLws.Scanner.SeedHashes
import XfoLws.Scanner.Server
import XfoLws.Scanner.Session
import XfoLws.Scanner.SyncFull
import XfoLws.Scanner.SyncLocator
import XfoLws.Scanner.Transaction
import XfoLws.Util.Blocks
import XfoLws.Util.GammaPicker
import XfoLws.Util.ProposedIndexes
import XfoLws.Util.RandomOutputs
import XfoLws.Wire.AccountBytes
import XfoLws.Wire.Json
import XfoLws.Wire.JsonPlain
import XfoLws.Wire.JsonReader
import XfoLws.Wire.JsonStyle
import XfoLws.Wire.Msgpack
import XfoLws.Wire.MsgpackObjects
import XfoLws.Wire.MsgpackReader
import XfoLws.Wire.MsgpackRoundTrip
import XfoLws.Wire.MsgpackSkip
import XfoLws.Wire.MsgpackStyle
import XfoLws.Wire.MsgpackTokens
import XfoLws.Wire.MsgpackTrees
import XfoLws.Wire.Object
import XfoLws.Wire.ObjectEntries
import XfoLws.Wire.ObjectOrder
import XfoLws.Wire.OutputPayment
import XfoLws.Wire.ReadObject
import XfoLws.Wire.ReadValue
import XfoLws.Wire.Records
import XfoLws.Wire.ScanAccount
import XfoLws.Wire.Styles
import XfoLws.Wire.WebhookRecords
import XfoLws.Db.CursorLoops
