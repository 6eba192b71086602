import Pharos.Slashing.ImportSafety
import Pharos.Slashing.Spellings
import Pharos.Node.RestartHead
import Pharos.Node.VoteWeights
import Pharos.Gossip.ForgedCopies
import Pharos.Validator.SigningFork
import Pharos.Production.Attestations
import Pharos.Api.Liveness
import Pharos.Api.BlockLookup
import Pharos.Stf.SlotSchedule
import Pharos.Stf.Squareroot
import Pharos.Ssz.StoredValues
import Pharos.Node.CheckpointStates
import Pharos.Node.ConcurrentImports
import Pharos.Stf.Committees
import Pharos.ForkChoice.FailedBlocks
import Pharos.Node.VerifiedAncestors
import Pharos.Network.BlockResponses
import Pharos.Stf.Electra.ChurnRuns
import Pharos.ForkChoice.LatestMessages
import Pharos.ForkChoice.Invalidation
import Pharos.Stf.Electra.DepositQueue
import Pharos.Stf.ProposerLookahead
import Pharos.Stf.Participation
import Pharos.Ssz.OtherSequences
import Pharos.Stf.Custody
import Pharos.Stf.ExitQueue
import Pharos.Stf.Projections
import Pharos.Node.ColumnSidecars
import Pharos.Network.BlocksByHead
import Pharos.Validator.Doppelganger
import Pharos.Network.PeerPruning
import Pharos.Node.PendingBlocks
import Pharos.Node.SlasherReplay
import Pharos.Pools.Coverage
import Pharos.Ssz.ByteLists
import Pharos.Storage.Migrations
import Pharos.Node.BlobPruning
import Pharos.Node.StateSearch
import Pharos.Node.RestorePoints
