import Stmdsp.Proofs.AbortPoints
import Stmdsp.Proofs.Atomicity
import Stmdsp.Proofs.Confinement
import Stmdsp.Proofs.Counts
import Stmdsp.Proofs.Events
import Stmdsp.Proofs.Framing
import Stmdsp.Proofs.Freshness
import Stmdsp.Proofs.Isolation
import Stmdsp.Proofs.Measurement
import Stmdsp.Proofs.Overrun
import Stmdsp.Proofs.Passes
import Stmdsp.Proofs.PlainCopy
import Stmdsp.Proofs.Stopwatch
import Stmdsp.Model.SerialUSB
import Stmdsp.Proofs.TimedRuns
import Stmdsp.Proofs.Preemption
import Stmdsp.Proofs.SerialProgress
import Stmdsp.Proofs.Streaming
import Stmdsp.Proofs.ZeroFill
