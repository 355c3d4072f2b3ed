import Unawait.Main
import Unawait.Proofs.ConflictDetection
import Unawait.Proofs.ConflictFreedom
import Unawait.Proofs.EditRendering
import Unawait.Proofs.EmittedCopies
import Unawait.Proofs.FastSkip
import Unawait.Proofs.FileIndependence
import Unawait.Proofs.FileWrites
import Unawait.Proofs.Fixpoints
import Unawait.Proofs.LeadingParentheses
import Unawait.Proofs.MappedPlaces
import Unawait.Proofs.MarkErasure
import Unawait.Proofs.ScopeChain
import Unawait.Proofs.SuperAccessors
import Unawait.Proofs.SyntaxDirected
import Unawait.Proofs.MappingRoundTrip
import Unawait.Proofs.RunCalls
import Unawait.Proofs.AwaitedLines
import Unawait.Proofs.SuperTargets
import Unawait.Proofs.SuperReceivers
import Unawait.Proofs.UnsupportedConstructs
import Unawait.Proofs.LoopMoves
import Unawait.Proofs.LoopNames
import Unawait.Proofs.LabelChains
import Unawait.Proofs.TokenSearch
import Unawait.Proofs.OutputPlaces
import Unawait.Proofs.ReceiverNames
