import NishroTftp.AclParity
import NishroTftp.Admission
import NishroTftp.CCore.BlockSizes
import NishroTftp.CCore.CapturedFrames
import NishroTftp.CCore.PacketSafety
import NishroTftp.CCore.Responders
import NishroTftp.CCore.RoundDownload
import NishroTftp.CCore.Staging
import NishroTftp.CCore.Timers
import NishroTftp.CCore.UploadFiles
import NishroTftp.Counters
import NishroTftp.Credentials
import NishroTftp.Dashboard
import NishroTftp.DayTotals
import NishroTftp.PartialConfig
import NishroTftp.PrefixParity
import NishroTftp.Py.Coherence
import NishroTftp.Py.DailyRestart
import NishroTftp.Py.Invalidation
import NishroTftp.Py.LogRing
import NishroTftp.Py.Reader
import NishroTftp.Py.ReceiveBuffer
import NishroTftp.Py.RequestWire
import NishroTftp.Py.ServerFaults
import NishroTftp.Py.SingleFlight
import NishroTftp.Py.UploadLocks
import NishroTftp.Py.UploadOutcome
import NishroTftp.Py.Waits
import NishroTftp.Routing
