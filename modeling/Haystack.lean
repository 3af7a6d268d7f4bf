import Haystack.Calls.Program
import Haystack.Calls.Pool
import Haystack.Calls.Assertion
import Haystack.Calls.Serial
import Haystack.Calls.Rely
import Haystack.Calls.Simulation
import Haystack.Calls.Connection
import Haystack.Cql.Lexer
import Haystack.Cql.Statement
import Haystack.Cql.Suffix
import Haystack.Java
import Haystack.Backend
import Haystack.WebServer
import Haystack.CacheServer
import Haystack.Texts
import Haystack.Effects
import Haystack.Handlers
import Haystack.Placement
import Haystack.System
import Haystack.Coherence
import Haystack.EndToEnd
import Haystack.ImageSafety
import Haystack.Uploads
import Haystack.Stages
import Haystack.DeleteRace
import Haystack.Sequential
import Haystack.RedirectCache
import Haystack.UploadAtomicity
import Haystack.Deletion
import Haystack.Independence
import Haystack.Startup
import Haystack.Deployment
import Haystack.CacheDeletion
import Haystack.ImageCache
import Haystack.PidText
import Haystack.Numbering
import Haystack.LvidText
import Haystack.Http
import Haystack.StoredText
import Haystack.OneRedis
import Haystack.Replication
import Haystack.SharedJedis
import Haystack.Calls.Moments
import Haystack.Operation
import Haystack.Durability
import Haystack.ConcurrentStart
import Haystack.Redis.DictMap
import Haystack.Redis.Numbers
import Haystack.Redis.Protocol
import Haystack.Redis.Framing
import Haystack.Redis.Server
import Haystack.Redis.Histories
import Haystack.RedisBackend
