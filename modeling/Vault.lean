import Vault.Lib.GoRuntime
import Vault.Lib.Interpolation
import Vault.Lib.StateFrame
import Vault.Lib.AEAD
import Vault.Lib.GoStrings
import Vault.Lib.Collections
import Vault.Lib.SortedStore
import Vault.Lib.Graphs
import Vault.Lib.Base64
import Vault.Lib.MachineArith
import Vault.Lib.Quorum
import Vault.Lib.RoundRobin
import Vault.Helper.Strutil
import Vault.Helper.ParseUtil
import Vault.Helper.StoragePacker
import Vault.Fairshare.JobManager
import Vault.Framework.Lease
import Vault.Shamir.Tables
import Vault.Shamir.Field
import Vault.Shamir.Polynomial
import Vault.Shamir.Split
import Vault.Seal.KeyShares
import Vault.Physical.Transactions
import Vault.Physical.Cache
import Vault.Barrier.Keyring
import Vault.Barrier.AESGCM
import Vault.Barrier.Storage
import Vault.Barrier.Run
import Vault.ACL.Policy
import Vault.ACL.NewACL
import Vault.Barrier.Reads
import Vault.Barrier.KeyringInvariant
import Vault.PKI.Names
import Vault.Mounts.Table
import Vault.Mounts.TTL
import Vault.Raft.Chunking
import Vault.Raft.ChunkingSpec
import Vault.Raft.ChunkingStores
import Vault.Physical.Listing
import Vault.Identity.Groups
import Vault.Identity.Aliases
import Vault.Token.Batch
import Vault.Token.Store
import Vault.Token.Uses
import Vault.Barrier.Lifecycle
import Vault.Lib.RadixTree
import Vault.Routing.Router
import Vault.Routing.Route
import Vault.Keysutil.Policy
import Vault.Token.RevokeTree
import Vault.Audit.HashStructure
import Vault.Helper.Identitytpl
import Vault.Approle.Login
import Vault.ACL.AllowOperation
import Vault.ACL.PolicyOrder
import Vault.Keysutil.Encryption
import Vault.Token.Create
import Vault.Token.CreateSafety
import Vault.Lib.Worklist
import Vault.Logical.StorageView
import Vault.Lib.Unwinding
import Vault.Logical.Isolation
