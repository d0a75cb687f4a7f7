import ParetoFront.Archive.Shared
import ParetoFront.Json.Archive
import ParetoFront.Json.Config
import ParetoFront.Json.Solution
import ParetoFront.Population
import ParetoFront.Proofs.Archive.Content
import ParetoFront.Proofs.Archive.FirstFront
import ParetoFront.Proofs.Archive.Improvement
import ParetoFront.Proofs.Archive.Incomparable
import ParetoFront.Proofs.Archive.Interleavings
import ParetoFront.Proofs.Archive.Ledger
import ParetoFront.Proofs.Archive.Separation
import ParetoFront.Proofs.Archive.Sharing
import ParetoFront.Proofs.Archive.Size
import ParetoFront.Proofs.Archive.UndefinedOffers
import ParetoFront.Proofs.Dominance.Outcomes
import ParetoFront.Proofs.ExtendedEpsilons
import ParetoFront.Proofs.Fronts.DenseRanks
import ParetoFront.Proofs.Fronts.Growth
import ParetoFront.Proofs.Json.RoundTrip
import ParetoFront.Proofs.LeftoverEpsilons
import ParetoFront.Proofs.Ranking.Boundaries
import ParetoFront.Proofs.Ranking.Elitism
import ParetoFront.Proofs.Ranking.Equivariance
import ParetoFront.Proofs.Ranking.Failures
import ParetoFront.Proofs.Ranking.Shares
import ParetoFront.Proofs.Ranking.Ties
import ParetoFront.Proofs.Ranking.Tournament
import ParetoFront.Proofs.Ranking.Truncation
