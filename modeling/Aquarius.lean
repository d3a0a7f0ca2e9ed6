import Aquarius.Library.Decoder
import Aquarius.Library.ByteOrder
import Aquarius.Library.Decimal
import Aquarius.Library.ByteStream
import Aquarius.Library.Text
import Aquarius.Library.OrderedMap
import Aquarius.Library.Transition
import Aquarius.Varint
import Aquarius.Binary
import Aquarius.Serialization
import Aquarius.TcpProtocol
import Aquarius.TcpFraming
import Aquarius.TcpWriters
import Aquarius.TcpClient
import Aquarius.TcpCorrelation
import Aquarius.TcpCompletion
import Aquarius.HttpProtocol
import Aquarius.HttpRecv
import Aquarius.HandlerVisit
import Aquarius.Library.Members
import Aquarius.HandlerCode
import Aquarius.TcpContext
import Aquarius.BinaryPrefix
import Aquarius.HttpAccept
import Aquarius.Convert
import Aquarius.ClientPool
import Aquarius.RelayTransparency
import Aquarius.TopicRouting
import Aquarius.Library.Quoted
import Aquarius.TblViews
import Aquarius.MysqlBatch
import Aquarius.ResultRows
import Aquarius.AuthModule
import Aquarius.Library.CharStream
import Aquarius.SchemaParser
import Aquarius.CppGenerator
import Aquarius.GeneratedBodies
import Aquarius.CommandInterface
import Aquarius.HttpQuery
import Aquarius.HttpClient
import Aquarius.TcpAccept
import Aquarius.TcpPending
import Aquarius.SessionLifecycle
import Aquarius.Library.SqlTokens
import Aquarius.Library.SqlExpr
import Aquarius.TblStatements
import Aquarius.GrepViews
import Aquarius.HttpHeaderBlock
import Aquarius.ContentLengthReaders
import Aquarius.HttpCommit
import Aquarius.HttpDispatch
import Aquarius.HttpOptions
import Aquarius.KvFields
import Aquarius.PoolSelection
import Aquarius.TopicAnnouncement
import Aquarius.HostAndPort
import Aquarius.SchemaMaps
import Aquarius.SchemaBlanks
import Aquarius.SchemaMessages
import Aquarius.VarintCanonical
import Aquarius.JsonArrays
import Aquarius.ModuleRouter
import Aquarius.AsyncSchedule
import Aquarius.RejectedSchemas
import Aquarius.Library.Loop
import Aquarius.SchemaTermination
