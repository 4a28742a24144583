import PyLinda.Partition.Delivery
import PyLinda.Partition.Conserve
import PyLinda.Server.Reply
import PyLinda.Server.Deadlock
import PyLinda.Server.Depart
import PyLinda.Server.Tables
import PyLinda.Server.Collect
import PyLinda.Server.Garbage
import PyLinda.Net.Rendezvous
import PyLinda.Server.KillLock
import PyLinda.Server.Removal
import PyLinda.Wire.ServerMsg
import PyLinda.Net.Verdict
import PyLinda.Net.Membership
import PyLinda.Net.Stale
import PyLinda.Net.Broadcast
import PyLinda.Wire.Frame
import PyLinda.Minimal.ValueXml
import PyLinda.Minimal.GraphXml
import PyLinda.Minimal.SyntaxTree
import PyLinda.Minimal.TypeSpecXml
import PyLinda.Minimal.CodeXml
import PyLinda.Wire.Strings
import PyLinda.Types.Compare
import PyLinda.Types.Iso
import PyLinda.Types.Total
import PyLinda.Types.SumExact
import PyLinda.Client.Retype
import PyLinda.Client.RegisterType
import PyLinda.Types.Frame
import PyLinda.Match.Structural
import PyLinda.Match.Removal
import PyLinda.Minimal.NameMap
import PyLinda.Minimal.References
import PyLinda.Minimal.ValueFuncs
import PyLinda.Minimal.ValueOrder
import PyLinda.Types.IsoCache
import PyLinda.Minimal.CyclicExact
import PyLinda.Lib.Record
import PyLinda.Lib.Buffer
import PyLinda.Lib.ShiftReduce
import PyLinda.Minimal.Evaluate
import PyLinda.Minimal.EvaluateSafe
import PyLinda.Minimal.TreeTotal
import PyLinda.Minimal.Integers
import PyLinda.Minimal.Concat
import PyLinda.Minimal.Grammar
import PyLinda.Minimal.TypeParser
import PyLinda.Minimal.ExprParser
import PyLinda.Minimal.Arithmetic
import PyLinda.Lib.TwoRuns
import PyLinda.Minimal.Scope
import PyLinda.Minimal.Twins
import PyLinda.Minimal.Programs
import PyLinda.Minimal.Lexical
import PyLinda.Minimal.Apply
import PyLinda.Lib.Memo
import PyLinda.Minimal.Copy
import PyLinda.Minimal.CopyGraph
import PyLinda.Minimal.CopyExact
import PyLinda.Wire.Scan
import PyLinda.Wire.ScanExact
import PyLinda.Wire.ScanTree
import PyLinda.Types.Wrapped
import PyLinda.Types.ForeignExact
import PyLinda.Types.AutoExact
import PyLinda.Minimal.ParserRuns
import PyLinda.Server.Names
import PyLinda.Net.Relay
import PyLinda.Partition.Linda
import PyLinda.Server.Rest
import PyLinda.Minimal.ValueRuns
