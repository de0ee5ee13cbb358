import Elkeid.Wire.RoundTrip
import Elkeid.Wire.Message
import Elkeid.Wire.FrameSafety
import Elkeid.Trace.Stream
import Elkeid.FileNotify.Refinement
import Elkeid.FileNotify.Policy
import Elkeid.Allowlist.History
import Elkeid.Transformer.Integrity
import Elkeid.Transformer.Connect
import Elkeid.Kmod.Agreement
import Elkeid.Kmod.Locks
import Elkeid.Agent.Buffer
import Elkeid.Agent.Frame
import Elkeid.Agent.ReceiveLoop
import Elkeid.Agent.Sync
import Elkeid.Discovery.Convergence
import Elkeid.Discovery.Fetch
import Elkeid.Discovery.Ageing
import Elkeid.Auth.Signature
import Elkeid.Center.Commands
import Elkeid.Manager.Cancel
import Elkeid.Manager.Independence
import Elkeid.Manager.Whitelist.Screening
import Elkeid.Rasp.Framing
import Elkeid.Rasp.Hooks
import Elkeid.Rasp.Cleanup
import Elkeid.Rasp.Isolation
import Elkeid.Rasp.Environ
import Elkeid.Golang.FuncTable
import Elkeid.Golang.PcValue
import Elkeid.Golang.BuildInfo
import Elkeid.Job.Delivery
import Elkeid.Job.Replication
import Elkeid.Journal.Source
import Elkeid.Scanner.FullScan
import Elkeid.Scanner.Updater
import Elkeid.Probe.Registration
import Elkeid.Probe.Environment
import Elkeid.Probe.Dns
import Elkeid.Rasp.Channels
import Elkeid.Rasp.Attach
import Elkeid.Center.RawData
import Elkeid.Manager.TwoWays
import Elkeid.Scanner.Monitor
import Elkeid.Agent.Upload
