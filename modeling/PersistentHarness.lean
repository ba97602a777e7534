import PersistentHarness.Soundness.SignatureScan
import PersistentHarness.Soundness.Omission
import PersistentHarness.Soundness.Cron.Handoff
import PersistentHarness.Soundness.Cron.Creation
import PersistentHarness.Soundness.Notification.Quiet
import PersistentHarness.Soundness.Notification.Closures
import PersistentHarness.Soundness.Session.Admission
import PersistentHarness.Soundness.Session.Messages
import PersistentHarness.Soundness.Framing
import PersistentHarness.Soundness.RootOutput
import PersistentHarness.Soundness.Locks
import PersistentHarness.Soundness.Cron.Intervals
import PersistentHarness.Soundness.Session.Activity
import PersistentHarness.Soundness.Supervisor.Eviction
import PersistentHarness.Soundness.Supervisor.Replies
import PersistentHarness.Soundness.Kernel.Attribution
import PersistentHarness.Soundness.TurnFailure.Runs
import PersistentHarness.Soundness.Inbox
import PersistentHarness.Soundness.SkillGrants.Reconciled
import PersistentHarness.Soundness.Retry
import PersistentHarness.Soundness.Wake
import PersistentHarness.Soundness.ActorEvents
import PersistentHarness.Soundness.Connection.Requests
import PersistentHarness.Soundness.Connection.Peer
import PersistentHarness.Soundness.Kernel.SnapshotStore
import PersistentHarness.Soundness.Kernel.StreamText
import PersistentHarness.Soundness.BackgroundNotifier
import PersistentHarness.Soundness.PostRestart
import PersistentHarness.Soundness.PresentationDirective
import PersistentHarness.Soundness.EventStream
import PersistentHarness.Soundness.SkillArtifacts
import PersistentHarness.Soundness.ValueDigest
import PersistentHarness.Soundness.FinishContext
import PersistentHarness.Soundness.BirthClock
import PersistentHarness.Soundness.Compaction.Driver
import PersistentHarness.Soundness.Compaction.Preparation
import PersistentHarness.Soundness.BackgroundJob
import PersistentHarness.Soundness.Retirement
import PersistentHarness.Soundness.ColdResidency
import PersistentHarness.Soundness.InferenceRetry
import PersistentHarness.Soundness.Session.Usage
import PersistentHarness.Soundness.Session.Navigator
import PersistentHarness.Soundness.Session.Retarget
import PersistentHarness.Soundness.VisibleHistory
import PersistentHarness.Soundness.SessionHistory
import PersistentHarness.Soundness.SessionHistory.Query
import PersistentHarness.Soundness.LiveConversation
import PersistentHarness.Soundness.EventLog
import PersistentHarness.Soundness.GrokUsage
import PersistentHarness.Soundness.FileSearch
import PersistentHarness.Soundness.ProgressHeadings
import PersistentHarness.Soundness.ShellOutput
import PersistentHarness.Soundness.FilesEdit
import PersistentHarness.Soundness.ToolDispatch
import PersistentHarness.Soundness.Navigation
import PersistentHarness.Soundness.InputImages
