import MGServer.Verified.ByteString
import MGServer.Verified.SqlText
import MGServer.Verified.TextStream
import MGServer.Verified.DecimalText
import MGServer.Verified.DecimalBytes
import MGServer.Verified.Assignments
import MGServer.Verified.BlockHeap
import MGServer.Verified.Incremental
import MGServer.Verified.Outcomes
import MGServer.Verified.Ownership
import MGServer.Verified.Lifetimes
import MGServer.Verified.Transition
import MGServer.Ports.DBConnector
import MGServer.Ports.DBConnectorHandles
import MGServer.Ports.DBConnectorResults
import MGServer.Ports.CommonClass
import MGServer.Ports.CommonClassRoundTrip
import MGServer.Ports.CommonClassBroken
import MGServer.Ports.CommonClassGrammar
import MGServer.Ports.CommonClassDigits
import MGServer.Ports.EchoServer
import MGServer.Ports.EchoServerEffect
import MGServer.Ports.EchoServerOwnership
import MGServer.Ports.EchoServerLedger
import MGServer.Ports.EchoServerIntegrity
import MGServer.Ports.EchoServerDrain
import MGServer.Ports.EchoServerHandles
import MGServer.Ports.TinyXml
import MGServer.Ports.TinyXmlParser
import MGServer.Ports.TinyXmlAccepted
import MGServer.Ports.TinyXmlGrammar
import MGServer.Ports.TinyXmlWritten
import MGServer.Ports.TinyXmlPrint
import MGServer.Ports.ServerConf
import MGServer.Ports.ServerConfLoad
import MGServer.Ports.ServerConfMeaning
import MGServer.Ports.ServerConfReload
import MGServer.Ports.ServerConfSnapshot
import MGServer.Ports.ServerConfTotal
import MGServer.Ports.ServerConfForeign
import MGServer.Ports.ServerConfNumbers
import MGServer.Ports.Spdlog
import MGServer.Ports.ServerLog
import MGServer.Ports.Hiredis
import MGServer.Ports.RedisHandle
import MGServer.Ports.RedisOutcome
import MGServer.Ports.RedisPairing
import MGServer.Ports.RedisReadBack
import MGServer.Ports.RedisOwnership
import MGServer.Ports.RedisTruth
import MGServer.Ports.RedisNull
import MGServer.Ports.RedisReader
import MGServer.Ports.RedisProtocol
import MGServer.Ports.RedisReaderStack
import MGServer.Ports.RedisReaderRuns
import MGServer.Ports.RedisFormat
import MGServer.Ports.RedisContext
import MGServer.Ports.RedisConnection
import MGServer.Ports.RedisRefinement
