import FabricPeerExt.PvtData.V11Theorems
import FabricPeerExt.PvtData.CombinedTheorems
import FabricPeerExt.PvtData.CrashTheorems
import FabricPeerExt.PvtData.Bookkeeping
import FabricPeerExt.Validation.SignatureTheorems
import FabricPeerExt.Validation.Retention
import FabricPeerExt.Validation.ValidationCtx
import FabricPeerExt.Transientstore.StoreTheorems
import FabricPeerExt.Blkstorage.RollbackTheorems
import FabricPeerExt.Gossip.DispatcherTheorems
import FabricPeerExt.Offledger.LevelDBStoreTheorems
import FabricPeerExt.Transientdata.CacheTheorems
import FabricPeerExt.Idstore.StoreTheorems
import FabricPeerExt.Txn.CheckForCommit
import FabricPeerExt.Common.DbName
import FabricPeerExt.LedgerConfig.ServiceTheorems
import FabricPeerExt.Txn.Reload
import FabricPeerExt.Common.ReferenceCounter
import FabricPeerExt.Gossip.ForChannel
import FabricPeerExt.Offledger.Retriever
import FabricPeerExt.Collections.Resolvers
import FabricPeerExt.Offledger.CouchDBWriters
import FabricPeerExt.Offledger.FailedWrite
import FabricPeerExt.Chaincode.Ucc
