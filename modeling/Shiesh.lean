import Shiesh.Auth.NoOracle
import Shiesh.Channels.Backpressure
import Shiesh.Channels.CloseProtocol
import Shiesh.Channels.ExitStatus
import Shiesh.Channels.FlowControl
import Shiesh.Channels.OpenHandshake
import Shiesh.Channels.Requests
import Shiesh.Channels.Sleep
import Shiesh.Channels.WindowBound
import Shiesh.Connection.Kexinit
import Shiesh.Connection.Switch
import Shiesh.Kex.Agreement
import Shiesh.Kex.Expand
import Shiesh.Kex.HashInput
import Shiesh.Match.Pattern
import Shiesh.Sftp.Accounting
import Shiesh.Sftp.Confined
import Shiesh.Sftp.LongReply
import Shiesh.Sftp.Mkdir
import Shiesh.Sftp.Rename
import Shiesh.Sftp.SetAttributes
import Shiesh.Subsystems.ShellInput
import Shiesh.Subsystems.ShellOutput
import Shiesh.Transport.RoundTrip
import Shiesh.BufferQueue
import Shiesh.ObjectIds
