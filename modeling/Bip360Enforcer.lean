import Bip360Enforcer.Tapscript.Theorems
import Bip360Enforcer.Validator.Theorems.Ledger
import Bip360Enforcer.Validator.Theorems.Atomicity
import Bip360Enforcer.Validator.Theorems.Disconnects
import Bip360Enforcer.Validator.Lemmas.Chain
import Bip360Enforcer.Pqc.Lemmas.Spent
import Bip360Enforcer.Validator.Lemmas.FileSync
import Bip360Enforcer.Validator.Theorems.BlockFiles
import Bip360Enforcer.Validator.Lemmas.Events
import Bip360Enforcer.Validator.Theorems.Events
import Bip360Enforcer.Tapscript.Theorems.Triggers
import Bip360Enforcer.Pqc.Theorems.MerklePaths
import Bip360Enforcer.Validator.Theorems.ChainIndex
import Bip360Enforcer.Tapscript.Lemmas.Knowledge
import Bip360Enforcer.Pqc.Lemmas.Knowledge
import Bip360Enforcer.Validator.Theorems.DryRun
import Bip360Enforcer.Validator.Theorems.Mempool
import Bip360Enforcer.Pqc.Lemmas.Accept
import Bip360Enforcer.Pqc.Theorems.Signatures
import Bip360Enforcer.BlockProducer.Queue
import Bip360Enforcer.BlockProducer.Theorems.Template
import Bip360Enforcer.Pqc.Signer
import Bip360Enforcer.Wallet.P2mrStore
import Bip360Enforcer.Pqc.Lemmas.Signer
import Bip360Enforcer.Wallet.Theorems.Spends
import Bip360Enforcer.BlockProducer.Producer
import Bip360Enforcer.Wallet.Spend
import Bip360Enforcer.Wallet.Lemmas.Queue
import Bip360Enforcer.Wallet.Theorems.Queue
import Bip360Enforcer.Library.Demand
import Bip360Enforcer.Tapscript.Lookups
import Bip360Enforcer.Tapscript.Lemmas.Lookups
import Bip360Enforcer.Pqc.Lookups
import Bip360Enforcer.Pqc.Lemmas.Lookups
import Bip360Enforcer.Pqc.Lemmas.Supply
import Bip360Enforcer.Validator.Theorems.Prefetch
import Bip360Enforcer.Validator.Lemmas.Verdict
import Bip360Enforcer.Validator.Theorems.CatchUp
import Bip360Enforcer.Pqc.Theorems.SighashByte
import Bip360Enforcer.Pqc.LeafGrammar
import Bip360Enforcer.Pqc.Theorems.LeafGrammar
import Bip360Enforcer.Pqc.LeafReading
import Bip360Enforcer.Pqc.Theorems.LeafKeys
import Bip360Enforcer.Pqc.Theorems.Diffs
import Bip360Enforcer.Tapscript.Revealed
import Bip360Enforcer.Tapscript.Theorems.Revealed
import Bip360Enforcer.Tapscript.Witnesses
import Bip360Enforcer.Tapscript.Lemmas.Witnesses
import Bip360Enforcer.Tapscript.Theorems.Witnesses
import Bip360Enforcer.Bitcoin.Encoding
import Bip360Enforcer.Tapscript.Template
import Bip360Enforcer.Tapscript.Theorems.Template
import Bip360Enforcer.Wallet.Connect
import Bip360Enforcer.Wallet.Theorems.Mined
import Bip360Enforcer.Library.MayPanic
import Bip360Enforcer.Tapscript.Checked
import Bip360Enforcer.Tapscript.Lemmas.Checked
import Bip360Enforcer.Tapscript.Lemmas.CheckedRuns
import Bip360Enforcer.Tapscript.Theorems.NoPanic
import Bip360Enforcer.Validator.Theorems.Ancestry
import Bip360Enforcer.Validator.Theorems.BestAncestor
import Bip360Enforcer.Validator.Theorems.HeaderSync
import Bip360Enforcer.Validator.Theorems.ListHeaders
import Bip360Enforcer.Wallet.Theorems.FullScan
import Bip360Enforcer.Wallet.Theorems.Transactions
import Bip360Enforcer.Validator.ParseBlockFiles
import Bip360Enforcer.Validator.Lemmas.ParseBlockFiles
import Bip360Enforcer.Validator.Theorems.ParseBlockFiles
import Bip360Enforcer.Validator.Theorems.Reorg
import Bip360Enforcer.Validator.FileOrder
import Bip360Enforcer.Validator.Lemmas.FileOrder
import Bip360Enforcer.Library.Chunks
import Bip360Enforcer.Validator.Theorems.FileOrder
import Bip360Enforcer.Tapscript.Theorems.Scriptnum
import Bip360Enforcer.Library.Varint
import Bip360Enforcer.Validator.BlockIndex
import Bip360Enforcer.Validator.Lemmas.BlockIndex
import Bip360Enforcer.Validator.Theorems.BlockIndex
import Bip360Enforcer.Validator.BlockCache
import Bip360Enforcer.Validator.Theorems.BlockCache
import Bip360Enforcer.Library.Collect
import Bip360Enforcer.Wallet.Send
import Bip360Enforcer.Wallet.Theorems.Send
import Bip360Enforcer.Validator.Theorems.ReachesTip
import Bip360Enforcer.Validator.Theorems.Infos
import Bip360Enforcer.Wallet.LocalChain
import Bip360Enforcer.Wallet.Theorems.LocalChain
import Bip360Enforcer.Library.PastMedian
import Bip360Enforcer.BlockProducer.Mine
import Bip360Enforcer.BlockProducer.Theorems.Mine
import Bip360Enforcer.Library.SafeFile
import Bip360Enforcer.Wallet.SeedStore
import Bip360Enforcer.Wallet.Lemmas.SeedStore
import Bip360Enforcer.Wallet.Theorems.SeedStore
import Bip360Enforcer.Wallet.P2mrFile
import Bip360Enforcer.Wallet.Lemmas.P2mrFile
import Bip360Enforcer.Wallet.Theorems.P2mrFile
import Bip360Enforcer.Library.SortedTable
import Bip360Enforcer.Library.Hex
import Bip360Enforcer.Validator.Summary
import Bip360Enforcer.Validator.Theorems.Summary
import Bip360Enforcer.Wallet.P2mrOutputs
import Bip360Enforcer.Pqc.Unspent
import Bip360Enforcer.Wallet.Lemmas.Settles
import Bip360Enforcer.Wallet.Theorems.Lifecycle
import Bip360Enforcer.Wallet.Lemmas.Lives
import Bip360Enforcer.Wallet.Theorems.Listed
import Bip360Enforcer.Validator.Theorems.Moments
