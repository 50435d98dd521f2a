import PtsTools.Lib.Replace
import PtsTools.Lib.Pthread
import PtsTools.Lib.PthreadEnds
import PtsTools.Lib.PthreadShared
import PtsTools.Lib.PthreadSpurious
import PtsTools.Lib.Scanf
import PtsTools.Lib.Inet
import PtsTools.Lib.Network
import PtsTools.Lib.While
import PtsTools.Lib.Find
import PtsTools.Lib.Sed
import PtsTools.Lib.Xargs
import PtsTools.Python.Str
import PtsTools.Python.Shlex
import PtsTools.Python.Ntpath
import PtsTools.Python.Getopt
import PtsTools.Listener.Model
import PtsTools.Listener.Survival
import PtsTools.Listener.Tokens
import PtsTools.Listener.Strangers
import PtsTools.Listener.Oversize
import PtsTools.Clients.Model
import PtsTools.Clients.Resolve
import PtsTools.Wire.Receive
import PtsTools.Wire.Arguments
import PtsTools.Wire.Reach
import PtsTools.Wire.Share
import PtsTools.Wire.Configure
import PtsTools.Remote.Model
import PtsTools.Remote.Requests
import PtsTools.PingPong.Model
import PtsTools.PingPong.Alternation
import PtsTools.PingPong.Deadlock
import PtsTools.PingPong.Outcomes
import PtsTools.PingPong.Spurious
import PtsTools.WriteRead.Model
import PtsTools.WriteRead.Snapshots
import PtsTools.WriteRead.Spurious
import PtsTools.Echo.Model
import PtsTools.Echo.Safety
import PtsTools.Rsa.Model
import PtsTools.Rsa.RoundTrip
import PtsTools.Sreport.Model
import PtsTools.Sreport.Diff
import PtsTools.Sreport.Reading
import PtsTools.Sreport.Faithful
import PtsTools.Sreport.Headers
import PtsTools.Sreport.Edits
import PtsTools.Eemacs.Model
import PtsTools.Eemacs.Files
import PtsTools.Config.Model
import PtsTools.Config.Options
import PtsTools.Config.Order
import PtsTools.Config.Agree
import PtsTools.Config.Outcome
import PtsTools.Launcher.Model
import PtsTools.Launcher.Options
import PtsTools.Project.Model
import PtsTools.Project.Switch
import PtsTools.Project.Settle
import PtsTools.Project.Extract
import PtsTools.Project.Terminals
import PtsTools.Project.ModelId
import PtsTools.Search.Model
import PtsTools.Search.Exact
import PtsTools.Search.Listing
import PtsTools.Xmltt.Model
import PtsTools.Xmltt.Parse
import PtsTools.Xmltt.Main
import PtsTools.Exported.Model
import PtsTools.Exported.Salt
