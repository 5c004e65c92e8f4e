import LineShell.Governor.Steps
import LineShell.Group.Steps
import LineShell.Main
import LineShell.Proofs.Shell.Chain
import LineShell.Proofs.Shell.Reaped
import LineShell.Proofs.Shell.Released
import LineShell.Proofs.Tree.Printer
import LineShell.Shell.Steps
import LineShell.Proofs.Governor.Calls
import LineShell.Proofs.Governor.Records
import LineShell.Proofs.Governor.Invariant
import LineShell.Proofs.Action.Meets
import LineShell.Proofs.Shell.Fulfils
import LineShell.Proofs.Shell.Bracket
import LineShell.Proofs.Group.Silent
import LineShell.Proofs.Pipeline.Interrupts
import LineShell.Proofs.Shell.Interrupted
import LineShell.Proofs.Group.Reported
import LineShell.Proofs.Pipeline.Reported
import LineShell.Proofs.Shell.Reported
import LineShell.Proofs.ReadLoop.Inversion
import LineShell.Proofs.Group.Settled
import LineShell.Proofs.Shell.Exposure
import LineShell.Proofs.ReadLoop.Reference
import LineShell.Proofs.CommandLine.Restored
import LineShell.Proofs.CommandLine.OneLine
import LineShell.Proofs.Shell.External
import LineShell.Proofs.Group.Launched
import LineShell.Proofs.Pipeline.Wired
import LineShell.Proofs.Shell.Candid
import LineShell.Proofs.Shell.Decisive
import LineShell.Proofs.CommandLine.Status
import LineShell.Proofs.Group.Turns
import LineShell.Proofs.Pipeline.Undone
import LineShell.Proofs.Action.Carried
import LineShell.Proofs.Redirect.Replaced
import LineShell.Proofs.Tree.Conserved
import LineShell.Proofs.Tree.Composed
import LineShell.Proofs.Group.Recycled
import LineShell.Proofs.Shell.OneStage
import LineShell.Proofs.Shell.Output
import LineShell.Proofs.Shell.Echo
import LineShell.Proofs.Shell.Starts
import LineShell.Proofs.Shell.Kills
import LineShell.Proofs.Shell.Registered
import LineShell.Proofs.Group.Retried
