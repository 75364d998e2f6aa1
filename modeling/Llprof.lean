import Llprof.Wire.Network
import Llprof.Wire.Framing
import Llprof.Wire.NameQuery
import Llprof.Wire.NameBuffer
import Llprof.Wire.WholeMessages
import Llprof.Link.RecordLoops
import Llprof.Wire.MessageCursor
import Llprof.Profiler.Context
import Llprof.Profiler.Interleaving
import Llprof.Profiler.DrainedBuffers
import Llprof.Profiler.RecordString
import Llprof.Profiler.RecordVector
import Llprof.Profiler.RubyMethods
import Llprof.Profiler.Sections
import Llprof.Monitor.RunTotals
import Llprof.Monitor.RunningFlags
import Llprof.Monitor.Telescope
import Llprof.Monitor.StrippedNodes
import Llprof.Monitor.Turns
import Llprof.Monitor.Conservation
import Llprof.Monitor.AttrTotals
import Llprof.Link.Mirror
import Llprof.Link.Attach
import Llprof.Link.Metadata
import Llprof.Link.ProfileRequest
import Llprof.Link.NameTables
import Llprof.Link.ReplyTexts
import Llprof.Link.ReceiveLoop
import Llprof.Link.RangeView
import Llprof.Web.Chunking
import Llprof.Web.Documents
import Llprof.Web.ReadOnlyQueries
import Llprof.Web.BlankLine
import Llprof.Web.RequestPaths
import Llprof.Web.FormDecoding
import Llprof.Web.RequestHeaders
import Llprof.Web.ParentsBeforeChildren
import Llprof.Viewer.LiveList
