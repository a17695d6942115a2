import OCServer.Lib.MachineInt
import OCServer.Lib.Block
import OCServer.Lib.Loop
import OCServer.Lib.BigEndian
import OCServer.Lib.ByteIO
import OCServer.Lib.Fuel
import OCServer.Lib.Growable
import OCServer.Lib.FieldScan
import OCServer.Lib.Incremental
import OCServer.Lib.Machine
import OCServer.Lib.SqlLex
import OCServer.Lib.Progress
import OCServer.Lib.Merge
import OCServer.NetBase
import OCServer.PacketSync.Model
import OCServer.PacketSync.Scan
import OCServer.PacketSync.Step
import OCServer.PacketSync.Run
import OCServer.PacketSync.Bounds
import OCServer.PacketSync.Resume
import OCServer.UvNet.Model
import OCServer.UvNet.Pool
import OCServer.UvNet.Own
import OCServer.UvNet.Reuse
import OCServer.UvNet.Lookup
import OCServer.UvNet.Send
import OCServer.Proto.Value
import OCServer.Proto.Format
import OCServer.Proto.JavaIn
import OCServer.Proto.JavaRead
import OCServer.Proto.JavaSkip
import OCServer.Proto.Message
import OCServer.Proto.JavaAccept
import OCServer.Proto.JavaOut
import OCServer.Proto.JavaInteger
import OCServer.Proto.JavaObject
import OCServer.Proto.JavaBuffer
import OCServer.Proto.JavaGrow
import OCServer.Proto.JavaForward
import OCServer.Proto.JavaTotal
import OCServer.Proto.JavaAlloc
import OCServer.Proto.JavaDisplay
import OCServer.Proto.SkipTag
import OCServer.Proto.CppOut
import OCServer.Proto.CppIn
import OCServer.Proto.Interop
import OCServer.Proto.CppSigned
import OCServer.Proto.CppRead
import OCServer.Proto.CppRound
import OCServer.Proto.CppContainer
import OCServer.Proto.CppSkip
import OCServer.Proto.CppTotal
import OCServer.Proto.CppDisplay
import OCServer.GameProto.Model
import OCServer.GameProto.Walk
import OCServer.GameProto.Follow
import OCServer.GameProto.Message
import OCServer.GameProto.Whole
import OCServer.GameProto.Header
import OCServer.Dispatch.Queue
import OCServer.Dispatch.Service
import OCServer.Dispatch.Lifetime
import OCServer.Dispatch.Sender
import OCServer.Dispatch.Requests
import OCServer.Channel.Reply
import OCServer.Database.Password
import OCServer.Database.Digest
import OCServer.Database.Sql
import OCServer.Database.Account
import OCServer.Database.Table
import OCServer.Database.Create
import OCServer.Database.Reference
import OCServer.Database.Codes
import OCServer.Channel.Login
import OCServer.Channel.Client
import OCServer.Database.History
import OCServer.Util.Hex
import OCServer.Proto.CppError
import OCServer.Proto.JavaHex
import OCServer.Proto.JavaList
import OCServer.Main.Arguments
import OCServer.Main.Settings
import OCServer.Util.Base64
import OCServer.Lib.Undo
import OCServer.Lib.LittleEndian
import OCServer.Lib.Ring
import OCServer.Lib.Sextets
import OCServer.Crypto.Xxtea
import OCServer.Crypto.XxteaBytes
import OCServer.Crypto.Ecdh
import OCServer.Tls.Queue
import OCServer.Tls.Context
import OCServer.Tls.Adapter
import OCServer.Tls.Stream
import OCServer.Lib.Backlog
import OCServer.Tls.Records
