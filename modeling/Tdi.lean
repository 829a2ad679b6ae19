import Tdi.Foundation.KeyedMap
import Tdi.Foundation.Claims
import Tdi.Json.Cjson
import Tdi.Json.TableInfo
import Tdi.Json.Document
import Tdi.Json.InfoParser
import Tdi.Json.ParseTable
import Tdi.Json.DataFieldLookup
import Tdi.Foundation.Tails
import Tdi.Info.QualifiedName
import Tdi.Info.TdiInfo
import Tdi.Info.NameResolution
import Tdi.Data.ActiveFields
import Tdi.Pool.ThreadPool
import Tdi.Foundation.Mutex
import Tdi.Pool.Conservation
import Tdi.Pool.WakeUps
import Tdi.Foundation.JsonText
import Tdi.Cli.Value
import Tdi.Cli.Field
import Tdi.Cli.Reread
import Tdi.Cli.Entry
import Tdi.Cli.Readd
import Tdi.Cli.JsonDump
import Tdi.Foundation.BigEndian
import Tdi.Utils.FieldBytes
import Tdi.Cli.ByteArr
import Tdi.Foundation.LastEntry
import Tdi.Info.SchemaFiles
import Tdi.Json.FieldAgreement
import Tdi.Info.LoadOrder
import Tdi.CFrontend.Session
import Tdi.CFrontend.TableInfoC
import Tdi.Foundation.HandleBalance
import Tdi.Foundation.Traced
import Tdi.Cli.SetFields
import Tdi.Cli.Handles
import Tdi.Cli.Dump
import Tdi.Cli.DumpBalance
import Tdi.Foundation.NamedTree
import Tdi.Cli.CommandTree
import Tdi.Cli.CommandTreeSteps
import Tdi.Foundation.Separated
import Tdi.Cli.CommandPaths
import Tdi.CFrontend.StrArray
import Tdi.CFrontend.KeyValues
import Tdi.Data.OneofRuns
import Tdi.Cli.CallFlags
import Tdi.Cli.UnsignedInput
import Tdi.Cli.DumpVisits
import Tdi.Cli.NestedTables
import Tdi.Data.Target
import Tdi.CFrontend.InfoC
import Tdi.Utils.KeyFieldGuard
import Tdi.Json.Annotations
import Tdi.Json.Defaults
import Tdi.Json.TypeNames
import Tdi.CFrontend.SizedString
import Tdi.Cli.AddFromJson
import Tdi.Foundation.Components
import Tdi.Cli.ParamNames
import Tdi.Cli.ParamDepth
import Tdi.Foundation.Parameters
import Tdi.Cli.MethodParams
import Tdi.Cli.PruneFields
import Tdi.Cli.ProgramName
import Tdi.Cli.Context
import Tdi.Cli.TreeWalks
import Tdi.Foundation.Buffers
import Tdi.Foundation.FirstHolder
import Tdi.Info.Devices
import Tdi.CFrontend.Devices
import Tdi.Cli.Programs
import Tdi.Info.Instance
import Tdi.Cli.PythonSessions
import Tdi.Cli.EntryCalls
import Tdi.Cli.EntryHandles
import Tdi.Foundation.GroundedOrder
import Tdi.Cli.DepTester
import Tdi.Foundation.Settling
import Tdi.Foundation.DictLoops
import Tdi.Foundation.Guarded
import Tdi.Cli.TableInit
import Tdi.Cli.TableViews
