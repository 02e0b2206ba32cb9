import StellarFlow.Orders.Volume
import StellarFlow.Orders.Solvency
import StellarFlow.Orders.Expiry
import StellarFlow.Orders.Conservation
import StellarFlow.Orders.Priority
import StellarFlow.Amm.Positions
import StellarFlow.Amm.PairCustody
import StellarFlow.LpPool.Growth
import StellarFlow.Settlement.Dilution
import StellarFlow.Staking.Backing
import StellarFlow.Vaults.Custody
import StellarFlow.Vaults.Drawdown
import StellarFlow.Vaults.FarmRewards
import StellarFlow.Vaults.FarmPrincipal
import StellarFlow.Vaults.GuardReserves
import StellarFlow.Vaults.GuardWindow
import StellarFlow.Vaults.DebtShare
import StellarFlow.Combined.Isolation
import StellarFlow.Governance.Entitlement
import StellarFlow.Settlement.AnchorPause
import StellarFlow.Settlement.Htlc
import StellarFlow.Settlement.RewardSplitter
import StellarFlow.Orders.BondCustody
import StellarFlow.Orders.StopLoss
import StellarFlow.Fees.ActionQueue
import StellarFlow.Admin.Approval
import StellarFlow.Admin.Recovery
import StellarFlow.Admin.Revocation
import StellarFlow.Admin.WeightRotation
import StellarFlow.Governance.Veto
import StellarFlow.Governance.Ballots
import StellarFlow.Governance.EarlyExecution
import StellarFlow.Escrow.Merkle
import StellarFlow.Escrow.SplitBooks
import StellarFlow.Zk.BatchAgreement
import StellarFlow.Zk.Withdrawals
import StellarFlow.Zk.RootWindow
import StellarFlow.Bridge.RateLimit
import StellarFlow.Bridge.Relayer
import StellarFlow.Bridge.Mint
import StellarFlow.Bridge.VaultLiveness
import StellarFlow.Bridge.Remittances
import StellarFlow.Bridge.CapGuard
import StellarFlow.Bridge.Slashing
import StellarFlow.Amm.PriceDrift
import StellarFlow.Amm.AdaptiveFee
import StellarFlow.Foundation.BestSearch
import StellarFlow.Router.Dynamic
import StellarFlow.Router.Multihop
import StellarFlow.Router.Simulation
import StellarFlow.Oracle.Consensus
import StellarFlow.Oracle.Authority
import StellarFlow.Oracle.QueryFees
import StellarFlow.Oracle.Executions
import StellarFlow.Combined.Rescue
import StellarFlow.Archive.Finality
import StellarFlow.Archive.Commitment
import StellarFlow.Orders.Purge
import StellarFlow.Amm.CrossedLiquidity
import StellarFlow.Amm.EffectiveReserves
import StellarFlow.Settlement.SingleDeposit
import StellarFlow.Settlement.BackingRatio
import StellarFlow.RatioComparison
import StellarFlow.Vaults.PriceTrend
import StellarFlow.Vaults.Liquidation
import StellarFlow.Vaults.Accrual
import StellarFlow.Governance.SyncWeight
import StellarFlow.Orders.CommitmentBinding
import StellarFlow.Amm.BitmapSearch
import StellarFlow.Amm.TickPriceQ64
import StellarFlow.Amm.TickSearch
import StellarFlow.SquareRoots
import StellarFlow.WeightedConsensus
import StellarFlow.Oracle.MedianAgreement
import StellarFlow.Bridge.CapArithmetic
import StellarFlow.Archive.Packing
import StellarFlow.Fees.Distribution
import StellarFlow.Fees.Buyback
import StellarFlow.Oracle.ImpactGuard
import StellarFlow.Events.Compression
import StellarFlow.Shielded.SpentTree
import StellarFlow.Zk.PublicInputs
import StellarFlow.Settlement.LinearVesting
import StellarFlow.Vaults.HarvestCompound
import StellarFlow.Router.DynamicExecution
import StellarFlow.Orders.Heartbeat
import StellarFlow.Admin.KeyRecovery
import StellarFlow.Staking.YieldEmission
import StellarFlow.Settlement.PayoutDispute
import StellarFlow.Archive.Proofs
import StellarFlow.Bridge.LockRescue
import StellarFlow.Zk.KeyUpdate
import StellarFlow.Admin.Roles
import StellarFlow.Vaults.BorrowRate
import StellarFlow.Foundation.Crossing
import StellarFlow.Settlement.CooldownGateway
import StellarFlow.Vaults.OptimalSwap
import StellarFlow.Vaults.YieldStrategy
import StellarFlow.Vaults.UnwindAccounts
