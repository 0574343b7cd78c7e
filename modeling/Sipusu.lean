import Sipusu.Ds.LinkedList
import Sipusu.MessageBroker.Client.Clients
import Sipusu.MessageBroker.Message
import Sipusu.MessageBroker.Router
import Sipusu.Foundation.Text
import Sipusu.MessageBroker.Client.Storage.Wall
import Sipusu.MessageBroker.Client.Storage.WallReading
import Sipusu.MessageBroker.Client.Storage.Subscribed
import Sipusu.MessageBroker.Client.Storage
import Sipusu.MessageBroker.SpawnClient
import Sipusu.MessageBroker.KeepAlive
import Sipusu.Protocol.V5.PublishFrame
import Sipusu.Protocol.V5.SubscribeFrame
import Sipusu.MessageBroker.Framing
import Sipusu.MessageBroker.Client.ClidOrder
import Sipusu.MessageBroker.Client.Restore
import Sipusu.Protocol.V5.PublishEncode
import Sipusu.MessageBroker.Forward
import Sipusu.MessageBroker.Acknowledge
import Sipusu.Foundation.Stream
import Sipusu.MessageBroker.Delivery
import Sipusu.MessageBroker.Reconnect
import Sipusu.MessageBroker.OneTask
import Sipusu.MessageBroker.LogAgreement
import Sipusu.Foundation.Layout
import Sipusu.Protocol.V5.Connect
import Sipusu.Protocol.V5.Fields
import Sipusu.Protocol.CutShort
import Sipusu.Connection.Collect
import Sipusu.Foundation.Path
import Sipusu.Connection.Isolation
import Sipusu.Connection.Handler
import Sipusu.MessageBroker.Client.RestoreAbort
import Sipusu.Connection.Response
import Sipusu.Connection.Registration
import Sipusu.Connection.Survival
import Sipusu.MessageBroker.Asked
import Sipusu.Connection.Agreement
import Sipusu.Protocol.V5.LengthCodec
import Sipusu.Protocol.V5.PublishRoundTrip
import Sipusu.Protocol.V5.ConnectFrame
import Sipusu.Protocol.V5.AckParser
import Sipusu.Protocol.V5.PubackReading
import Sipusu.Protocol.V5.SubackReading
import Sipusu.Protocol.V5.ConnackEntries
import Sipusu.Protocol.V5.ConnackRoundTrip
import Sipusu.Protocol.V5.ConnackFormat
import Sipusu.Foundation.Suffix
import Sipusu.Protocol.V5.Delimited
import Sipusu.MessageBroker.Client.RestoreAtomic
import Sipusu.MessageBroker.Client.Deadlines
import Sipusu.MessageBroker.MsgState
import Sipusu.MessageBroker.MsgStateRuns
import Sipusu.Ds.AppendOnly
import Sipusu.Ds.CleanBranch
import Sipusu.Authentication
import Sipusu.Authentication.Record
import Sipusu.Authentication.Scan
import Sipusu.Authentication.Decode
import Sipusu.Foundation.Murmur3
import Sipusu.MessageBroker.Client.ClidHash
import Sipusu.Protocol.V5.PublishSize
import Sipusu.Authentication.Store
import Sipusu.Ds.Atomic
import Sipusu.Ds.TakeOrder
import Sipusu.MessageBroker.Client.SessionLife
import Sipusu.MessageBroker.Exchange
import Sipusu.Connection.Service
import Sipusu.Ds.TrieBoxes
import Sipusu.MessageBroker.SharedQueue
import Sipusu.MessageBroker.Client.Boxes
