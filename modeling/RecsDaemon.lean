import RecsDaemon.Base.Bytes
import RecsDaemon.Base.Memory
import RecsDaemon.Base.CString
import RecsDaemon.Base.Access
import RecsDaemon.Base.System
import RecsDaemon.Base.Except
import RecsDaemon.Base.Mailbox
import RecsDaemon.Base.Paging
import RecsDaemon.Base.Map
import RecsDaemon.Double
import RecsDaemon.Messages
import RecsDaemon.Sensor
import RecsDaemon.Json
import RecsDaemon.JSONSensorsParser
import RecsDaemon.SensorSet
import RecsDaemon.SensorSet.Size
import RecsDaemon.SensorSet.Pages
import RecsDaemon.JSONSensorsParser.Encoding
import RecsDaemon.Communicator
import RecsDaemon.Node
import RecsDaemon.TelnetServer
import RecsDaemon.Daemon.Command
import RecsDaemon.Daemon.Startup
import RecsDaemon.Daemon.Loop
import RecsDaemon.Daemon.Statemachine
import RecsDaemon.Daemon.Segment
import RecsDaemon.Daemon.FailedRead
import RecsDaemon.Daemon.SharedMemory
import RecsDaemon.Daemon.CommandRace
import RecsDaemon.Daemon.Handover
import RecsDaemon.Base.Walk
import RecsDaemon.Node.Chunks
import RecsDaemon.Node.Monitoring
import RecsDaemon.Node.Leftover
import RecsDaemon.Daemon.PageArithmetic
import RecsDaemon.Base.First
import RecsDaemon.BaseSensor
import RecsDaemon.JSONSensorsParser.Kinds
import RecsDaemon.JSONSensorsParser.Positions
import RecsDaemon.SensorSet.Groups
import RecsDaemon.Base.Framing
import RecsDaemon.CommunicatorTCP
import RecsDaemon.CommunicatorTCP.Reassembly
import RecsDaemon.CommunicatorTCP.Bounds
import RecsDaemon.CommunicatorTCP.Sending
import RecsDaemon.Daemon.CommandOverTCP
import RecsDaemon.TelnetServer.LowerCase
import RecsDaemon.TelnetServer.Readline
import RecsDaemon.SensorSet.Names
import RecsDaemon.SensorProviderZynqModule
import RecsDaemon.SensorProviderZynqModule.Answer
import RecsDaemon.CommunicatorAdlink
import RecsDaemon.Base.Decimal
import RecsDaemon.JSONSensorsParser.Description
import RecsDaemon.SensorBean
import RecsDaemon.PluginManager
import RecsDaemon.PluginManager.LoadByPath
import RecsDaemon.PluginManager.CreateObject
import RecsDaemon.Node.Adapters
import RecsDaemon.Thread
import RecsDaemon.Base.Distinct
import RecsDaemon.SensorSet.Numbering
import RecsDaemon.Base.Counter
import RecsDaemon.SensorSet.Loops
import RecsDaemon.Base.Number
import RecsDaemon.Base.Keyed
import RecsDaemon.Json.Deserialize
import RecsDaemon.Json.Progress
import RecsDaemon.Json.Lexical
import RecsDaemon.Json.Grammar
import RecsDaemon.Json.RoundTrip
import RecsDaemon.Json.Library
import RecsDaemon.IniManage
import RecsDaemon.IniManage.Reload
import RecsDaemon.Config
import RecsDaemon.Daemon.Management
import RecsDaemon.Base.Fair
import RecsDaemon.Daemon.Completion
import RecsDaemon.CommunicatorDummy
import RecsDaemon.Daemon.OverDummy
import RecsDaemon.PluginManager.LoadAll
import RecsDaemon.Node.Document
