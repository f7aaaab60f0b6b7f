import Picolibs.Loop
import Picolibs.Text
import Picolibs.Http
import Picolibs.HttpPost
import Picolibs.Escapes
import Picolibs.Request
import Picolibs.Message
import Picolibs.Resync
import Picolibs.Ws
import Picolibs.WsFrame
import Picolibs.WsBounds
import Picolibs.Txt
import Picolibs.TxtOps
import Picolibs.SendQueue
import Picolibs.SendBuf
import Picolibs.Client
import Picolibs.Forms
import Picolibs.Lookup
import Picolibs.Query
import Picolibs.FormData
import Picolibs.Multipart
import Picolibs.Serve
import Picolibs.Conn
import Picolibs.Registry
import Picolibs.Moves
import Picolibs.Paths
import Picolibs.Runs
import Picolibs.Delivery
import Picolibs.Register
import Picolibs.Passes
import Picolibs.Dangling
import Picolibs.Frames
import Picolibs.Stream
import Picolibs.Sends
import Picolibs.Broadcast
import Picolibs.Spoken
import Picolibs.LastWord
import Picolibs.Enroll
import Picolibs.Scan
import Picolibs.Countdown
import Picolibs.Wifi
import Picolibs.IrReceiver
import Picolibs.IrCodes
import Picolibs.Sony
import Picolibs.Repeats
import Picolibs.IrLed
import Picolibs.Alarms
import Picolibs.Button
import Picolibs.Clicks
import Picolibs.Debounce
import Picolibs.FileLogger
import Picolibs.TrimFile
import Picolibs.JsonString
import Picolibs.Reconnect
import Picolibs.Sound
import Picolibs.Tokens
import Picolibs.FindLine
import Picolibs.Substitute
import Picolibs.Packet
import Picolibs.LengthHeader
import Picolibs.Cookies
import Picolibs.Locality
import Picolibs.JsonPairs
import Picolibs.JsonMap
import Picolibs.Literals
import Picolibs.WebFiles
import Picolibs.Pwm
import Picolibs.Levels
import Picolibs.Waiting
import Picolibs.Segments
import Picolibs.WebsocketJs
import Picolibs.Tagged
import Picolibs.Dhcp
import Picolibs.DhcpReply
import Picolibs.Leasing
import Picolibs.DhcpLeases
import Picolibs.DhcpClients
import Picolibs.Flash
import Picolibs.DbgFlag
import Picolibs.Signal
import Picolibs.OnAir
import Picolibs.Remote
import Picolibs.RawTimes
import Picolibs.Constants
import Picolibs.StaticFiles
import Picolibs.AccessPoint
import Picolibs.Listeners
import Picolibs.Url
