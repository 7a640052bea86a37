import Csptp.Message.Bounds
import Csptp.Wire.RoundTrip
import Csptp.Attempt
import Csptp.Socket
import Csptp.Service.Main
import Csptp.Service.Answer
import Csptp.Placed
import Csptp.Service.Replies
import Csptp.Service.Amplification
import Csptp.Service.Contents
import Csptp.Service.Correction
import Csptp.Determined
import Csptp.Exchange
import Csptp.Client.Numbers
import Csptp.Client.Prepared
import Csptp.Exact
import Csptp.Client.Offset
import Csptp.Client.Pacing
import Csptp.Thread
import Csptp.Wire.Layout
import Csptp.Wire.Timestamp
import Csptp.Builder.Sendable
import Csptp.Builder.Failures
import Csptp.Builder.Once
import Csptp.Builder.Lengths
import Csptp.List.Concurrent
import Csptp.List.Release
import Csptp.Store.Interleaved
import Csptp.Cfg.RoundTrip
import Csptp.Cfg.Files
import Csptp.Opt.Loop
import Csptp.Opt.Ledger
import Csptp.Opt.Grammar
import Csptp.Opt.Duplicates
import Csptp.Startup
import Csptp.Cmdl.Strings
import Csptp.Cmdl.Written
import Csptp.Traffic.Clocks
import Csptp.Traffic.Load
import Csptp.Buffers
import Csptp.Descriptors
import Csptp.Traffic.Programs
import Csptp.Traffic.Serving
