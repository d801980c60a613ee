import Swayward.Keeps.Sessions
import Swayward.Keeps.Conservation
import Swayward.Layout.SubtreeTransfer
import Swayward.Session.Timers
import Swayward.Session.Secrecy
import Swayward.Session.Frames
import Swayward.Session.Screencopy
import Swayward.Command.ForWindow
import Swayward.Command.Execute
import Swayward.Command.Quoted
import Swayward.Input.Keyboard
import Swayward.Ipc.Connection
import Swayward.Ipc.Framing
import Swayward.Command.Candidates
import Swayward.Ipc.MirrorRefresh
import Swayward.Keeps.FocusInside
import Swayward.Keeps.Geometry
import Swayward.Keeps.Drop
