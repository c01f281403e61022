import JobShell.Main
import JobShell.Scratch.Session
import JobShell.Interp.TrackerRun
import JobShell.Proofs.Line.RoundTrip
import JobShell.Proofs.Chronicle.Reaping
import JobShell.Proofs.Chronicle.Interrupt
import JobShell.Proofs.Chronicle.Foresight
import JobShell.Proofs.Wiring.Programs
import JobShell.Proofs.Wiring.Stages
import JobShell.Proofs.Chronicle.Forwarding
import JobShell.Proofs.Tracking.Pass
import JobShell.Proofs.Tracking.Conservation
import JobShell.Proofs.Reading.Lines
import JobShell.Proofs.Reading.Transcript
import JobShell.Proofs.Reading.Course
import JobShell.Proofs.Line.Encoding
import JobShell.Proofs.Line.Segments
import JobShell.Proofs.Line.Arguments
import JobShell.Proofs.Line.Rejection
import JobShell.Proofs.Line.Composition
import JobShell.Proofs.Line.Joining
import JobShell.Proofs.Isolation.Guards
import JobShell.Proofs.Isolation.Runs
import JobShell.Proofs.Isolation.Trace
import JobShell.Proofs.Isolation.Muster
import JobShell.Proofs.Isolation.Insertion
import JobShell.Proofs.Isolation.Turns
import JobShell.Proofs.Isolation.Lineage
import JobShell.Proofs.Isolation.Sight
import JobShell.Proofs.Isolation.Verdict
import JobShell.Proofs.Isolation.Incidents
import JobShell.Proofs.Isolation.Attendance
import JobShell.Proofs.Isolation.Opening
import JobShell.Proofs.Isolation.Conclusion
import JobShell.Proofs.Isolation.Rest
import JobShell.Proofs.Isolation.Failure
import JobShell.Proofs.Chronicle.Unwritten
import JobShell.Proofs.Wiring.Attempts
import JobShell.Proofs.Isolation.Crew
import JobShell.Proofs.Wiring.Fates
import JobShell.Proofs.Isolation.Advance
import JobShell.Proofs.Isolation.Told
import JobShell.Proofs.Isolation.Alone
import JobShell.Proofs.Isolation.Seats
import JobShell.Proofs.Isolation.Groups
import JobShell.Proofs.Isolation.Teams
import JobShell.Proofs.Isolation.Output
import JobShell.Proofs.Isolation.Soundness
import JobShell.Proofs.Isolation.Contents
import JobShell.Proofs.Isolation.Redirection
import JobShell.Proofs.Isolation.Bound
import JobShell.Proofs.Isolation.Carrying
import JobShell.Proofs.Isolation.Errand
import JobShell.Proofs.Isolation.Agenda
import JobShell.Proofs.Tracking.Interruption
