import CodeAudit.Command.Analysis
import CodeAudit.Command.Archive
import CodeAudit.Command.Assistance
import CodeAudit.Command.Outcome
import CodeAudit.Command.Rights
import CodeAudit.Data.Versioned
import CodeAudit.Proofs.AddressWait
import CodeAudit.Proofs.AlertHistory
import CodeAudit.Proofs.AnalysisNames
import CodeAudit.Proofs.AnswerSource
import CodeAudit.Proofs.BearerGuard
import CodeAudit.Proofs.TrackedCache
import CodeAudit.Proofs.ClientRemaining
import CodeAudit.Proofs.CodeReview
import CodeAudit.Proofs.EnvironmentOrder
import CodeAudit.Proofs.EventLog
import CodeAudit.Proofs.ExtensionCalls
import CodeAudit.Proofs.FieldForms
import CodeAudit.Proofs.MetricsAgreement
import CodeAudit.Proofs.PackedValue
import CodeAudit.Proofs.PageCleaning
import CodeAudit.Proofs.PluginHooks
import CodeAudit.Proofs.ProgressWorker
import CodeAudit.Proofs.PromptFilling
import CodeAudit.Proofs.QualityCounts
import CodeAudit.Proofs.UsageFigures
import CodeAudit.Proofs.Redaction
import CodeAudit.Proofs.QualityAudit
import CodeAudit.Proofs.RoleTable
import CodeAudit.Proofs.ScoreBounds
import CodeAudit.Proofs.ScoreChange
import CodeAudit.Proofs.ScriptLines
import CodeAudit.Proofs.SeriesTrend
import CodeAudit.Proofs.ServerLimit
import CodeAudit.Proofs.SessionExpiry
import CodeAudit.Proofs.SessionRace
import CodeAudit.Proofs.SettingsUpdate
import CodeAudit.Proofs.SeverityCounts
import CodeAudit.Proofs.TokenLife
import CodeAudit.Proofs.TypeScriptIssues
import CodeAudit.Proofs.UnusedItems
import CodeAudit.Proofs.UserTrail
import CodeAudit.Proofs.WholeAnalysis
