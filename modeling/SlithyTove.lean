import SlithyTove.Mining.GetBlockTemplate
import SlithyTove.Validation.Replay
import SlithyTove.Validation.ChainEvents
import SlithyTove.Mining.CpuMinerShutdown
import SlithyTove.Mining.CpuWork
import SlithyTove.Mining.SubmitSolution
import SlithyTove.Consensus.TimeLock
import SlithyTove.Orphanage.Sanity
import SlithyTove.Relay.TxRequestCalls
import SlithyTove.Pow.TargetBounds
import SlithyTove.Coins.CacheRuns
import SlithyTove.Desktop.RecoveryWalletLock
import SlithyTove.Services.TreasuryBalance
import SlithyTove.Install.UpdateAtomicity
import SlithyTove.Desktop.UpdateHandoffSafety
import SlithyTove.Consensus.MerkleBlockProofs
import SlithyTove.Primitives.CompareChunks
import SlithyTove.Cluster.ChunkLinearization
import SlithyTove.Coins.Compressor
import SlithyTove.Validation.VersionBits
import SlithyTove.Cluster.Dependencies
