import PressCalendar.Main
import PressCalendar.Storage.Tree
import PressCalendar.Proofs.Course.Invariant
import PressCalendar.Proofs.Course.Acceptance
import PressCalendar.Proofs.Course.Partition
import PressCalendar.Proofs.CourseDocument.Written
import PressCalendar.Proofs.Editor.Caches
import PressCalendar.Proofs.Editor.Failure
import PressCalendar.Proofs.Editor.Exchange
import PressCalendar.Proofs.Course.Bare
import PressCalendar.Proofs.Editor.Parallel
import PressCalendar.Proofs.Editor.Twins
import PressCalendar.Proofs.Command.Change
import PressCalendar.Proofs.Storage.Tree
import PressCalendar.Proofs.Workspace.Store
import PressCalendar.Proofs.Workspace.Session
import PressCalendar.Proofs.Course.Redating
import PressCalendar.Proofs.Editor.Leaves
import PressCalendar.Proofs.Editor.Showing
import PressCalendar.Proofs.Editor.Promise
import PressCalendar.Proofs.Editor.Selection
import PressCalendar.Proofs.Workspace.Splits
import PressCalendar.Proofs.Workspace.Failure
import PressCalendar.Proofs.Course.Daily
import PressCalendar.Proofs.Course.Refinement
import PressCalendar.Proofs.Editor.Sheet
import PressCalendar.Proofs.Editor.Marked
import PressCalendar.Proofs.Course.Marking
import PressCalendar.Proofs.Editor.Marking
import PressCalendar.Proofs.Date.Typed
import PressCalendar.Proofs.Editor.Editing
import PressCalendar.Proofs.Command.Issues
import PressCalendar.Proofs.Workspace.Change
import PressCalendar.Proofs.Workspace.Issues
import PressCalendar.Proofs.Editor.Notices
import PressCalendar.Proofs.Command.Dates
import PressCalendar.Proofs.Workspace.Notices
import PressCalendar.Proofs.Editor.Download
import PressCalendar.Proofs.Editor.Copying
import PressCalendar.Proofs.Course.Extent
import PressCalendar.Proofs.Issue.History
import PressCalendar.Proofs.Date.Completed
import PressCalendar.Proofs.Editor.Label
import PressCalendar.Proofs.Editor.Plausibility
import PressCalendar.Proofs.Settings.Canonical
import PressCalendar.Proofs.Workspace.Settings
import PressCalendar.Proofs.Block.Days
import PressCalendar.Proofs.Storage.Faulty
import PressCalendar.Proofs.Text.Table
import PressCalendar.Proofs.Workspace.Interruption
import PressCalendar.Proofs.Report.Sheet
