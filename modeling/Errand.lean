import Errand.Evals.Matrix
import Errand.Evals.MatrixProfiles
import Errand.Evals.ProfileNames
import Errand.Frontend.Board
import Errand.Frontend.Session
import Errand.Frontend.TaskList
import Errand.Gateway.Datetime
import Errand.Gateway.DirtyEntry
import Errand.Gateway.IsoTimes
import Errand.Gateway.Moments
import Errand.Gateway.QuarantineMoves
import Errand.Gateway.Reconcile
import Errand.Gateway.ReconcileFrame
import Errand.Gateway.RecordedTimes
import Errand.Gateway.RemoteProbe
import Errand.Gateway.TimeFormats
import Errand.Gateway.TokenConfig
import Errand.Gateway.UploadSize
import Errand.Gateway.WriteBack
import Errand.Lib.Alternatives
import Errand.Lib.AsyncLock
import Errand.Lib.Backoff
import Errand.Lib.Crossings
import Errand.Lib.Dict
import Errand.Lib.Directories
import Errand.Lib.ExpiringKey
import Errand.Lib.FileTree
import Errand.Lib.Flagged
import Errand.Lib.FreeNames
import Errand.Lib.Imap
import Errand.Lib.InOrder
import Errand.Lib.Json
import Errand.Lib.JsonCut
import Errand.Lib.JsonExtract
import Errand.Lib.JsonParse
import Errand.Lib.JsonRoundTrip
import Errand.Lib.JsonTagged
import Errand.Lib.Like
import Errand.Lib.Lines
import Errand.Lib.LockTable
import Errand.Lib.Machine
import Errand.Lib.Numbered
import Errand.Lib.Pages
import Errand.Lib.Pairing
import Errand.Lib.Places
import Errand.Lib.Precedence
import Errand.Lib.PyStr
import Errand.Lib.Regex
import Errand.Lib.Replica
import Errand.Lib.Rotation
import Errand.Lib.Search
import Errand.Lib.Slots
import Errand.Lib.Streak
import Errand.Lib.Substring
import Errand.Lib.Transaction
import Errand.Lib.Utf8
import Errand.Lib.Watermark
import Errand.Runner.Attempts
import Errand.Runner.Compaction
import Errand.Runner.CompactionBackoff
import Errand.Runner.CompactionCuts
import Errand.Runner.ContextPressure
import Errand.Runner.EditFile
import Errand.Runner.FileLists
import Errand.Runner.FileOperations
import Errand.Runner.FilterErrors
import Errand.Runner.HeldSummary
import Errand.Runner.MessageErrors
import Errand.Runner.Messages
import Errand.Runner.MutationQueue
import Errand.Runner.Output
import Errand.Runner.Python
import Errand.Runner.RecoveredCalls
import Errand.Runner.RenderedCalls
import Errand.Runner.SanitizedCopy
import Errand.Runner.Stall
import Errand.Runner.SummaryPrompt
import Errand.Runner.TokenRefresh
import Errand.Runner.ToolRegistry
import Errand.Runner.TruncatedArguments
import Errand.Runner.XmlRecovery
import Errand.Server.Announcements
import Errand.Server.Auth
import Errand.Server.Callback
import Errand.Server.Clarifications
import Errand.Server.ClassifierAnswers
import Errand.Server.CloudConnection
import Errand.Server.CloudStorage
import Errand.Server.CloudTokens
import Errand.Server.ColumnOrder
import Errand.Server.Concurrency
import Errand.Server.Containers
import Errand.Server.DefaultProvider
import Errand.Server.DeviceGrants
import Errand.Server.Dispatch
import Errand.Server.DockerLogs
import Errand.Server.Drafts
import Errand.Server.DueTimes
import Errand.Server.EmailIdentifiers
import Errand.Server.EmailMoves
import Errand.Server.EmailPasses
import Errand.Server.EvalMarking
import Errand.Server.EvalRuns
import Errand.Server.ExternalTasks
import Errand.Server.FailureReports
import Errand.Server.GitFailures
import Errand.Server.Integrations
import Errand.Server.Intervals
import Errand.Server.LeaderLock
import Errand.Server.Leases
import Errand.Server.Lifecycle
import Errand.Server.LocalScans
import Errand.Server.LogStamps
import Errand.Server.LogStream
import Errand.Server.ModelLookups
import Errand.Server.ModelReferences
import Errand.Server.ModelSettings
import Errand.Server.Occurrences
import Errand.Server.Orphans
import Errand.Server.PendingResponses
import Errand.Server.PluginFiles
import Errand.Server.PluginLoading
import Errand.Server.PluginTrees
import Errand.Server.PodLogs
import Errand.Server.Previews
import Errand.Server.Providers
import Errand.Server.RefreshAuth
import Errand.Server.Relay
import Errand.Server.RelayedWebhooks
import Errand.Server.ResultPosts
import Errand.Server.RetryBudget
import Errand.Server.Reviews
import Errand.Server.RunTask
import Errand.Server.RunnerSettings
import Errand.Server.SavedPage
import Errand.Server.SettingsRegistry
import Errand.Server.SettingsSave
import Errand.Server.SettingsUpdate
import Errand.Server.SkillArchives
import Errand.Server.SkillDirectories
import Errand.Server.Skills
import Errand.Server.SlackListings
import Errand.Server.SlackOutbound
import Errand.Server.SlackQuestions
import Errand.Server.SlackTargets
import Errand.Server.SlackUpdates
import Errand.Server.Startup
import Errand.Server.StorageTokens
import Errand.Server.Subscriptions
import Errand.Server.Sweeps
import Errand.Server.TaskCreation
import Errand.Server.TaskEdits
import Errand.Server.TaskOutput
import Errand.Server.TokenDisclosure
import Errand.Server.TriggerEndpoints
import Errand.Server.UrlGuard
import Errand.Server.UrlReports
import Errand.Server.Webhooks
