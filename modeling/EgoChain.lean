import EgoChain.Consensus.CommitteeAgreement
import EgoChain.Consensus.ForkAccountability
import EgoChain.Consensus.RoundPace
import EgoChain.Consensus.LockDiscipline
import EgoChain.Consensus.CommitCertificate
import EgoChain.Consensus.SigningBytes
import EgoChain.Contracts.Amm
import EgoChain.Contracts.Multisig
import EgoChain.Contracts.Vesting
import EgoChain.Evm.EscrowSolvency
import EgoChain.Vm.Abi
import EgoChain.Vm.CallFuel
import EgoChain.Vm.Parallel
import EgoChain.Storage.PriceReports
import EgoChain.Ledger.EscrowSources
import EgoChain.Ledger.PaymentBytes
import EgoChain.Ledger.TxRoots
import EgoChain.Consensus.DecisionCompleteness
import EgoChain.Nodes.UndoRecords
import EgoChain.Market.BlockOrder
import EgoChain.Nodes.CommitteeFacts
import EgoChain.Chain.StakeCover
import EgoChain.Nodes.WeightFacts
import EgoChain.Chain.StateCert
import EgoChain.Chain.HistoryFloor
import EgoChain.Shielded.TreeAgreement
import EgoChain.Nodes.Rotas
import EgoChain.Nodes.Members
import EgoChain.Bft.Agreement
import EgoChain.Shielded.Rollback
