import Kardia.Types
import Kardia.SlotArray
import Kardia.Runs
import Kardia.KeyedFold
import Kardia.MerkleTree
import Kardia.BitArray
import Kardia.Canonical
import Kardia.VoteSet
import Kardia.VoteSetInvariant
import Kardia.CommitCertificate
import Kardia.Evidence
import Kardia.Block
import Kardia.BlockValidation
import Kardia.PartSet
import Kardia.Scheduler
import Kardia.EvidencePool
import Kardia.HeightVoteSet
import Kardia.ConsensusState
import Kardia.ConsensusSteps
import Kardia.ConsensusInvariant
import Kardia.ConsensusSafety
import Kardia.ConsensusEvidence
import Kardia.ConsensusAgreement
import Kardia.PeerState
import Kardia.SchedulerInvariant
import Kardia.SortSearch
import Kardia.StateDB
import Kardia.StateWorld
import Kardia.StateJournal
import Kardia.ConsensusProposal
import Kardia.FastSync
import Kardia.ValidatorSetUpdate
import Kardia.ValidatorSetPriority
import Kardia.KeyedList
import Kardia.ValidatorSetChanges
import Kardia.ValidatorSetReachable
import Kardia.GoStrings
import Kardia.Ksml
import Kardia.KsmlRuns
import Kardia.TrieNode
import Kardia.TrieCanonical
import Kardia.TrieUpdate
import Kardia.TrieHash
import Kardia.TrieRuns
import Kardia.JumpDest
import Kardia.MemoryGas
import Kardia.PartSetRuns
import Kardia.TxPoolQueue
import Kardia.Wal
import Kardia.ContainerHeap
import Kardia.TxSortedMap
import Kardia.TxList
import Kardia.Branching
import Kardia.Rlp
import Kardia.StackTrie
import Kardia.StackTrieRuns
import Kardia.RlpRaw
import Kardia.TrieDecode
import Kardia.TrieProof
import Kardia.Instructions
import Kardia.KvmRuns
