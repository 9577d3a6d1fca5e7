import Wanbond.Bond.Receipts
import Wanbond.Bond.Conservation
import Wanbond.Bond.Leases
import Wanbond.Frame.RoundTrip
import Wanbond.Device.FailoverRuns
import Wanbond.Device.Promotion
import Wanbond.Device.Ownership
import Wanbond.Device.Reprobe
import Wanbond.Bind.Admission
import Wanbond.Bind.HubSwitch
import Wanbond.Bind.StaleProbes
import Wanbond.Bind.Restarts
import Wanbond.Bind.FairShare
import Wanbond.Telemetry.RestartReports
import Wanbond.Device.ReloadWarnings
import Wanbond.Bond.LateAck
import Wanbond.Bond.TargetRange
import Wanbond.Bond.Pulses
import Wanbond.Bond.FeedbackArithmetic
import Wanbond.Bond.IterationOrder
import Wanbond.Bond.Reservation
import Wanbond.Bond.Coalescing
import Wanbond.Telemetry.Liveness
import Wanbond.Bond.Agreement
import Wanbond.Device.Session
