import MessagesApp.Lib.Run
import MessagesApp.Lib.Keyset
import MessagesApp.Lib.Linearize
import MessagesApp.Py.Text
import MessagesApp.Py.Datetime
import MessagesApp.Py.Uuid
import MessagesApp.Db.Queries
import MessagesApp.Service.Controller
import MessagesApp.Service.Linearizable
import MessagesApp.Py.Value
import MessagesApp.Service.Api
import MessagesApp.Service.RowHistory
import MessagesApp.Service.Listing
import MessagesApp.Service.Pagination
import MessagesApp.Service.Deleted
import MessagesApp.Service.KeysetWalk
import MessagesApp.Service.Cache
import MessagesApp.Service.Handlers
import MessagesApp.Service.Coherence
import MessagesApp.Service.CacheAgreement
import MessagesApp.Clients.Redis
import MessagesApp.Clients.Rabbitmq
import MessagesApp.Clients.Outbox
import MessagesApp.Service.Atomicity
import MessagesApp.Interfaz.Composer
import MessagesApp.Clients.SendEvent
import MessagesApp.Interfaz.Names
import MessagesApp.Interfaz.PlainPages
import MessagesApp.Lib.Interference
import MessagesApp.Service.Authors
import MessagesApp.Service.Cursors
import MessagesApp.Service.HasMore
import MessagesApp.Service.Snapshots
import MessagesApp.Interfaz.Chatbot
import MessagesApp.Interfaz.Navigation
import MessagesApp.Lib.Pattern
import MessagesApp.Lib.Stream
import MessagesApp.Lib.WorkPool
import MessagesApp.Db.Pool
import MessagesApp.Db.Prepare
import MessagesApp.Tools.LatencyStats
import MessagesApp.Tools.Seed
import MessagesApp.Tools.Consume
import MessagesApp.Interfaz.Archivos
import MessagesApp.Interfaz.Mensajes
import MessagesApp.Interfaz.Markdown
import MessagesApp.Interfaz.PutBack
import MessagesApp.Interfaz.Html
import MessagesApp.Interfaz.CodeBlocks
import MessagesApp.Interfaz.ChatPage
import MessagesApp.Service.Uncached
import MessagesApp.Service.Cached
import MessagesApp.Service.Delivery
import MessagesApp.Interfaz.Servicio
import MessagesApp.Interfaz.Sessions
import MessagesApp.Interfaz.Canales
import MessagesApp.Interfaz.Formularios
import MessagesApp.Interfaz.Reach
