import AegisHoneypot.SessionArchive
import AegisHoneypot.LogRotation
import AegisHoneypot.AdmissionIndependence
import AegisHoneypot.AdmissionServer
import AegisHoneypot.SessionIsolation
import AegisHoneypot.EvidenceCleanup
import AegisHoneypot.SessionSilence
import AegisHoneypot.SessionScores
import AegisHoneypot.SessionMoves
import AegisHoneypot.DashboardAuth
import AegisHoneypot.TailerHistory
import AegisHoneypot.LogGenerations
import AegisHoneypot.SessionEnding
import AegisHoneypot.EgressSafety
import AegisHoneypot.VfsNesting
import AegisHoneypot.SessionPast
import AegisHoneypot.PacketBoundaries
import AegisHoneypot.LineEditing
import AegisHoneypot.ReplayFidelity
import AegisHoneypot.EventInterleaving
import AegisHoneypot.ArchiveListing
import AegisHoneypot.CollectorFaults
import AegisHoneypot.Library.TreeShape
import AegisHoneypot.VfsTree
import AegisHoneypot.CommandAnswers
import AegisHoneypot.RedirectedWrites
import AegisHoneypot.LayeredRemoval
import AegisHoneypot.LayeredCreation
import AegisHoneypot.CommandLists
import AegisHoneypot.RotationFaults
import AegisHoneypot.ArtifactRecords
import AegisHoneypot.FetchOutcomes
import AegisHoneypot.AddressText
import AegisHoneypot.Library.Ranking
import AegisHoneypot.DashboardSummary
import AegisHoneypot.HeavyHitters
import AegisHoneypot.OperandLists
import AegisHoneypot.InputAutomaton
import AegisHoneypot.SingleTeardown
import AegisHoneypot.Library.Checked
import AegisHoneypot.RedirectTransparency
import AegisHoneypot.PanicFreedom
import AegisHoneypot.BoundedStore
import AegisHoneypot.AdmissionBudget
import AegisHoneypot.RecordingLimit
import AegisHoneypot.IocAgreement
import AegisHoneypot.Library.FloatText
import AegisHoneypot.ConsoleEscaping
import AegisHoneypot.Library.Markup
import AegisHoneypot.FeedMarkup
import AegisHoneypot.AnnouncedDownload
import AegisHoneypot.StringCarving
import AegisHoneypot.BodyCap
import AegisHoneypot.SudoTransparency
import AegisHoneypot.PathComposition
import AegisHoneypot.AdmissionEntries
import AegisHoneypot.ArchivePaging
import AegisHoneypot.Library.JsonValue
import AegisHoneypot.EventJson
import AegisHoneypot.EventPipeline
import AegisHoneypot.Library.Broadcast
import AegisHoneypot.FeedPage
import AegisHoneypot.LiveFeed
import AegisHoneypot.FeedBadges
import AegisHoneypot.Library.BufferedFile
import AegisHoneypot.RecordingDurability
import AegisHoneypot.ReplayPlayer
import AegisHoneypot.SessionAttribution
import AegisHoneypot.SessionTimelines
import AegisHoneypot.VfsListing
import AegisHoneypot.VfsMap
import AegisHoneypot.DashboardPanels
import AegisHoneypot.GoldenRootfs
import AegisHoneypot.GoldenSessions
import AegisHoneypot.KeptSecrets
