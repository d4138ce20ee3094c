import SimpleServer.Lib.CString
import SimpleServer.Lib.Pathname
import SimpleServer.Lib.FileTree
import SimpleServer.Types
import SimpleServer.Logging
import SimpleServer.Requests.ParseRequest
import SimpleServer.Requests.ResolvePath
import SimpleServer.Response.BuildResponse
import SimpleServer.ClientConn.DoRead
import SimpleServer.ClientConn.DoWrite
import SimpleServer.ClientConn.Connections
import SimpleServer.Main
import SimpleServer.Lib.SlotArray
import SimpleServer.EventLoop
import SimpleServer.ServeSpec
import SimpleServer.Lib.Run
import SimpleServer.PollRound
import SimpleServer.Dispatch
import SimpleServer.Unstamped
import SimpleServer.ConnectionMap
import SimpleServer.ClientStates
import SimpleServer.FaultIsolation
import SimpleServer.Chunking
import SimpleServer.StagedResponse
import SimpleServer.Containment
import SimpleServer.Listing
import SimpleServer.FileHandles
import SimpleServer.ClosedTwice
import SimpleServer.Requests.Grammar
import SimpleServer.ResolvedNames
import SimpleServer.CgiRouting
import SimpleServer.Lib.HeaderBlock
import SimpleServer.ContentLength
import SimpleServer.HeadRequests
import SimpleServer.Transmission
import SimpleServer.UnreadMembers
import SimpleServer.SoloRun
import SimpleServer.Configuration
import SimpleServer.CgiDirectory
import SimpleServer.ResolveContract
import SimpleServer.BuildLedger
import SimpleServer.ScriptOutput
import SimpleServer.ReceiveErrors
import SimpleServer.HeaderEnd
import SimpleServer.Lib.Markup
import SimpleServer.ListingRoundTrip
import SimpleServer.InputBuffer
import SimpleServer.Lib.Fields
import SimpleServer.LogDecoding
import SimpleServer.Holdings
import SimpleServer.Lib.Sessions
import SimpleServer.Conversations
import SimpleServer.Descriptors
import SimpleServer.Process
import SimpleServer.Lib.Service
import SimpleServer.Refinement
import SimpleServer.Lib.HttpMessage
import SimpleServer.Messages
import SimpleServer.OutsideCalls
import SimpleServer.RequestLine
import SimpleServer.StaticSite
import SimpleServer.Waiting
import SimpleServer.OptionsInForce
import SimpleServer.Capacity
import SimpleServer.Refusals
import SimpleServer.ScriptsServed
import SimpleServer.ListingsServed
import SimpleServer.Leaks
import SimpleServer.LoggedSizes
import SimpleServer.Attribution
