import MarkupMachine.Main
import MarkupMachine.Settings.Codec
import MarkupMachine.Proofs.Machine.Catching
import MarkupMachine.Proofs.Machine.Entrance
import MarkupMachine.Proofs.Machine.Visits
import MarkupMachine.Proofs.Scheduler.Waits
import MarkupMachine.Proofs.Scheduler.Exceptions
import MarkupMachine.Proofs.Scheduler.Faults
import MarkupMachine.Proofs.Scheduler.Frames
import MarkupMachine.Proofs.Scheduler.Idle
import MarkupMachine.Proofs.Scheduler.Lifecycle
import MarkupMachine.Proofs.Scheduler.Refusals
import MarkupMachine.Proofs.Scheduler.Drive
import MarkupMachine.Proofs.Scheduler.Isolation
import MarkupMachine.Proofs.Scheduler.Accounts
import MarkupMachine.Proofs.Scheduler.Bindings
import MarkupMachine.Proofs.Scheduler.Answers
import MarkupMachine.Proofs.Scheduler.Attribution
import MarkupMachine.Proofs.Tree.Reading
import MarkupMachine.Proofs.Host.Rounds
import MarkupMachine.Proofs.Host.Finish
import MarkupMachine.Proofs.Codec.RoundTrip
import MarkupMachine.Proofs.Scheduler.Line
import MarkupMachine.Proofs.Scheduler.Turns
import MarkupMachine.Proofs.Machine.Evaluation
import MarkupMachine.Proofs.Scheduler.Posting
import MarkupMachine.Proofs.Machine.Caught
import MarkupMachine.Proofs.Machine.Footprint
import MarkupMachine.Proofs.Machine.Slots
import MarkupMachine.Proofs.Scheduler.Slots
import MarkupMachine.Proofs.Duration.Notation
import MarkupMachine.Proofs.Machine.Variables
import MarkupMachine.Proofs.Number.Rounding
import MarkupMachine.Proofs.Value.Plain
import MarkupMachine.Proofs.Value.Text
