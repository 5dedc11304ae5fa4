import RankedQuery.Engine
import RankedQuery.Proofs.Ranking.Scores
import RankedQuery.Proofs.Scan
import RankedQuery.Proofs.Cache.Routing
import RankedQuery.Proofs.Registration
import RankedQuery.Proofs.Cache.Following
import RankedQuery.Proofs.Cache.Coherence
import RankedQuery.Proofs.Cache.Building
import RankedQuery.Proofs.Engine.Run
import RankedQuery.Proofs.Cache.Transparency
import RankedQuery.Proofs.Plan
import RankedQuery.Proofs.Plan.Drivers
import RankedQuery.Proofs.Pool
import RankedQuery.Proofs.Engine.Answers
import RankedQuery.Proofs.Cache.Frame
import RankedQuery.Proofs.Engine.Calls
import RankedQuery.Proofs.Condition.Mentions
import RankedQuery.Proofs.Engine.Failures
import RankedQuery.Proofs.Engine.Pages
import RankedQuery.Proofs.Engine.Hits
import RankedQuery.Proofs.Ranking.Alike
import RankedQuery.Proofs.Engine.Interchange
import RankedQuery.Proofs.Cache.Consistency
import RankedQuery.Proofs.Cache.Sweeping
import RankedQuery.Proofs.Engine.Consistency
import RankedQuery.Proofs.Engine.CacheCalls
import RankedQuery.Proofs.Engine.Recency
import RankedQuery.Proofs.Totals
import RankedQuery.Proofs.Ranking.Reading
import RankedQuery.Proofs.Engine.Lending
import RankedQuery.Proofs.Engine.Selections
import RankedQuery.Proofs.Cache.Counting
import RankedQuery.Proofs.Engine.Accounting
import RankedQuery.Proofs.Condition.Ranked
import RankedQuery.Proofs.Scan.Words
import RankedQuery.Proofs.Scan.Outdated
import RankedQuery.Proofs.Engine.Windows
import RankedQuery.Proofs.Engine.Sweeps
import RankedQuery.Proofs.Cache.Limits
import RankedQuery.Proofs.Cache.Invalidation
import RankedQuery.Proofs.Ranking.Withdrawal
import RankedQuery.Proofs.Engine.Staleness
import RankedQuery.Proofs.Engine.Builds
import RankedQuery.Proofs.Engine.Seclusion
import RankedQuery.Proofs.Engine.Results
import RankedQuery.Proofs.Engine.Rollback
import RankedQuery.Proofs.Engine.Documents
import RankedQuery.Proofs.Engine.Absence
