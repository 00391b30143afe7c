import UiServer.Lib.Lts
import UiServer.Lib.Progress
import UiServer.Lib.Family
import UiServer.Lib.Settled
import UiServer.Lib.Uv
import UiServer.Lib.CMem
import UiServer.Lib.Writer
import UiServer.Lib.Room
import UiServer.Lib.Spare
import UiServer.Lib.Replace
import UiServer.Lib.Blind
import UiServer.Lib.Ledger
import UiServer.Lib.Cyclic
import UiServer.Lib.Tokens
import UiServer.Lib.Codes
import UiServer.Lib.Json
import UiServer.Lib.Grouping
import UiServer.Lib.TwoPass
import UiServer.Lib.Search
import UiServer.Lib.Gbk
import UiServer.Lib.Words
import UiServer.Lib.Register
import UiServer.Lib.Intervals
import UiServer.Lib.Lines
import UiServer.Lib.Region
import UiServer.Lib.Selection
import UiServer.Lib.Marking
import UiServer.Wire
import UiServer.Template.Load
import UiServer.Template.Page
import UiServer.Template.Res
import UiServer.Template.Table
import UiServer.Template.Layout
import UiServer.Template.Result
import UiServer.Template.Itoa
import UiServer.Util.Escape
import UiServer.Util.Text
import UiServer.Template.Query
import UiServer.Template.Cutdown
import UiServer.Template.HighLight
import UiServer.Template.TitleMarks
import UiServer.Conf.Line
import UiServer.Conf.Pointer
import UiServer.Conf.Settings
import UiServer.Template.Conf
import UiServer.Server.Context
import UiServer.Conf.Servers
import UiServer.Core.Worker
import UiServer.Server.Upstream
import UiServer.Server.Request
import UiServer.Server.Loop
import UiServer.Server.Owner
import UiServer.Server.Process
import UiServer.Server.Command
import UiServer.Proofs.PageText
import UiServer.Proofs.PageNums
import UiServer.Proofs.Scan
import UiServer.Proofs.Overrun
import UiServer.Proofs.Methods
import UiServer.Proofs.Results
import UiServer.Proofs.Itoa
import UiServer.Proofs.Defined
import UiServer.Proofs.Room
import UiServer.Proofs.SamePage
import UiServer.Proofs.CharValue
import UiServer.Proofs.Escape
import UiServer.Proofs.EscapeRoom
import UiServer.Proofs.Xml
import UiServer.Proofs.Callbacks
import UiServer.Proofs.Serving
import UiServer.Proofs.Distribute
import UiServer.Proofs.Completion
import UiServer.Proofs.Merge
import UiServer.Proofs.Reads
import UiServer.Proofs.Books
import UiServer.Proofs.NewConnection
import UiServer.Proofs.OpenStep
import UiServer.Proofs.Closing
import UiServer.Proofs.NeedClose
import UiServer.Proofs.ClosedOnce
import UiServer.Proofs.Busy
import UiServer.Proofs.History
import UiServer.Proofs.Requests
import UiServer.Proofs.Groups
import UiServer.Proofs.Pick
import UiServer.Proofs.Window
import UiServer.Proofs.Leftovers
import UiServer.Proofs.XmlRoom
import UiServer.Proofs.Gbk
import UiServer.Proofs.Query
import UiServer.Proofs.ConfLine
import UiServer.Proofs.ConfRange
import UiServer.Proofs.ConfKey
import UiServer.Proofs.ServerTables
import UiServer.Proofs.Lines
import UiServer.Proofs.Loaders
import UiServer.Proofs.Cutdown
import UiServer.Proofs.HighLight
import UiServer.Proofs.HighLightText
import UiServer.Proofs.TitleMarks
import UiServer.Proofs.ConfPointer
import UiServer.Proofs.BodyCopy
import UiServer.Proofs.Shutdown
import UiServer.Proofs.Session
import UiServer.Proofs.Turns
import UiServer.Proofs.Process
import UiServer.Proofs.Written
import UiServer.Proofs.ConfWritten
import UiServer.Proofs.Rates
import UiServer.Proofs.ServersWritten
import UiServer.Proofs.Shown
import UiServer.Proofs.Replaced
import UiServer.Proofs.TemplateConf
import UiServer.Proofs.Answer
import UiServer.Proofs.Served
import UiServer.Proofs.Command
import UiServer.Proofs.Rendered
import UiServer.Proofs.Gathers
