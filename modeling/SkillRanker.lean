import SkillRanker.Allowance.Charges
import SkillRanker.Coordination.Fencing
import SkillRanker.Jev.SendSessions
import SkillRanker.Roster.Concurrency
import SkillRanker.Jev.Equivariance
import SkillRanker.Learning.LedgerAlarms
import SkillRanker.Learning.RollbackRuns
import SkillRanker.Learning.Selection
import SkillRanker.Learning.CaseDecision
import SkillRanker.Context.ForkResolution
import SkillRanker.Context.TranscriptProgress
import SkillRanker.Context.TranscriptRuns
import SkillRanker.Storage.Lifecycle
import SkillRanker.Storage.CandidateRows
import SkillRanker.Storage.Evidence
import SkillRanker.Evaluation.AlphaSplit
import SkillRanker.Evaluation.Rates
import SkillRanker.Context.ToolConflicts
import SkillRanker.Config.Authority
import SkillRanker.Storage.Retention
import SkillRanker.Storage.CutoffExactness
import SkillRanker.Storage.StatsAgreement
import SkillRanker.Context.EqualRenderings
import SkillRanker.Files.Confinement
import SkillRanker.Output.Paging
import SkillRanker.Roster.Requirements
import SkillRanker.Roster.Drift
import SkillRanker.Jev.DiagnosticLeaks
import SkillRanker.Installer.Budget
import SkillRanker.Jev.Origins
import SkillRanker.Roster.Retrieval
import SkillRanker.Breaker.Cooldown
import SkillRanker.Roster.FrontmatterKeys
import SkillRanker.Roster.Dependencies
import SkillRanker.Jev.AttemptOrder
import SkillRanker.Jev.Validation
import SkillRanker.Recommendation.Normalization
import SkillRanker.Cache.Response
import SkillRanker.Recommendation.LoadSuppression
import SkillRanker.Snooze
import SkillRanker.Jev.Trimming
import SkillRanker.Context.ByteCuts
import SkillRanker.Evaluation.Replay
import SkillRanker.Jev.ProviderStage
