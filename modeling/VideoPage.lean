import VideoPage.Command.Disk
import VideoPage.Main
import VideoPage.Page.Markup
import VideoPage.Page.Visit
import VideoPage.Proofs.SheetScan
import VideoPage.Proofs.SelectorLists
import VideoPage.Proofs.ListReading
import VideoPage.Proofs.ScopedScan
import VideoPage.Proofs.SelectorLines
import VideoPage.Proofs.ScopingIdempotence
import VideoPage.Proofs.ScopingErrors
import VideoPage.Proofs.CssSyntax
import VideoPage.Proofs.SheetLayout
import VideoPage.Proofs.GroupNames
import VideoPage.Proofs.LineRuns
import VideoPage.Proofs.SelectorLayout
import VideoPage.Proofs.ScopingLayout
import VideoPage.Proofs.SheetRules
import VideoPage.Proofs.PreludeReading
import VideoPage.Proofs.MarkedReading
import VideoPage.Proofs.MarkedLists
import VideoPage.Proofs.ScopingReach
import VideoPage.Proofs.SheetPositions
import VideoPage.Proofs.SheetRegions
import VideoPage.Proofs.LexedLines
import VideoPage.Proofs.SheetJoins
import VideoPage.Proofs.ScopingFrame
import VideoPage.Proofs.SelectorSeparators
import VideoPage.Proofs.ScopingSeparators
import VideoPage.Proofs.PageRuns
import VideoPage.Proofs.WrittenContents
import VideoPage.Proofs.PagePlayers
import VideoPage.Proofs.PlayButtons
import VideoPage.Proofs.NearestRank
import VideoPage.Proofs.PercentRange
import VideoPage.Proofs.ReportedState
import VideoPage.Proofs.ComponentPlans
import VideoPage.Proofs.WillingPlayers
import VideoPage.Proofs.CompleteLog
import VideoPage.Proofs.Lockstep
import VideoPage.Proofs.BindingSteps
import VideoPage.Proofs.FoundParts
import VideoPage.Proofs.BindingTurns
import VideoPage.Proofs.BindingRefusals
import VideoPage.Proofs.BindingRecord
import VideoPage.Proofs.BindingParts
import VideoPage.Proofs.PageTree
import VideoPage.Proofs.PageUpdates
import VideoPage.Proofs.HungTooltips
import VideoPage.Proofs.TooltipNodes
import VideoPage.Proofs.BoundComponents
import VideoPage.Proofs.PageSessions
import VideoPage.Proofs.SharedSinks
import VideoPage.Proofs.VideoTracks
import VideoPage.Proofs.IndependentSteps
import VideoPage.Proofs.ShownAnswers
import VideoPage.Proofs.BarFills
import VideoPage.Proofs.SessionSinks
import VideoPage.Proofs.CorrectRounding
import VideoPage.Proofs.ExactDecimals
import VideoPage.Proofs.NumberTexts
import VideoPage.Proofs.NumberBytes
import VideoPage.Proofs.ReadPercentages
import VideoPage.Proofs.ExportedDocuments
import VideoPage.Proofs.PrintedSessions
import VideoPage.Proofs.NumberOrder
import VideoPage.Proofs.PercentConversions
import VideoPage.Proofs.RateSteps
import VideoPage.Proofs.RunningClock
import VideoPage.Proofs.SafePlayback
import VideoPage.Proofs.HoverHandlers
import VideoPage.Proofs.PointedTooltips
import VideoPage.Proofs.ClockLabels
import VideoPage.Proofs.WholeNames
import VideoPage.Proofs.WrittenFiles
import VideoPage.Proofs.ScopedFiles
