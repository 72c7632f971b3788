import RustCfml.Async.PoolProofs
import RustCfml.Async.ScheduleWheel
import RustCfml.Collector.Relog
import RustCfml.Common.DeepEqual
import RustCfml.Common.KeyHash
import RustCfml.Common.MethodTable
import RustCfml.Common.Name
import RustCfml.Common.ObjCodecSafety
import RustCfml.Common.QueryAppend
import RustCfml.Common.StructArray
import RustCfml.Crypto.Encrypt
import RustCfml.Ehcache.Runs
import RustCfml.Files.Chunks
import RustCfml.Files.Csv
import RustCfml.Locks.Extension
import RustCfml.Mcp.ToolFilter
import RustCfml.Qoq.Arithmetic
import RustCfml.Qoq.Fused
import RustCfml.Qoq.JoinSemantics
import RustCfml.Qoq.Like
import RustCfml.Qoq.OrderLimit
import RustCfml.Qoq.ParserDepth
import RustCfml.Realtime.Presence
import RustCfml.Realtime.Resume
import RustCfml.Realtime.RoomIsolation
import RustCfml.Rewrite.Substitution
import RustCfml.Sanitize.CssRules
import RustCfml.Sanitize.FastPath
import RustCfml.Sanitize.StyleFilter
import RustCfml.Sanitize.WholeMatch
import RustCfml.Serialize.DateFields
import RustCfml.Serialize.RoundTrip
import RustCfml.Session.Adoption
import RustCfml.Session.Json
import RustCfml.Session.LastWrite
import RustCfml.Session.RemovalFinal
import RustCfml.Vm.FinallyRuns
import RustCfml.Vm.FlowCorrect
import RustCfml.Vm.Handlers
import RustCfml.Vm.LocalSync
import RustCfml.Web.Cookies
