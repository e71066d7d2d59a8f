import Grpcgi.Incremental.Decoder
import Grpcgi.Pipeline.Consumer
import Grpcgi.Data.Bytes
import Grpcgi.Data.Text
import Grpcgi.Data.Proto
import Grpcgi.WebSocket.Frame
import Grpcgi.WebSocket.Message
import Grpcgi.Envoy.Codec
import Grpcgi.Envoy.Filter
import Grpcgi.Envoy.Relay
import Grpcgi.Envoy.Lifecycle
import Grpcgi.Envoy.Failure
import Grpcgi.Wasm.Codec
import Grpcgi.Wasm.FrameProto
import Grpcgi.Wasm.Filter
import Grpcgi.Wasm.Relay
import Grpcgi.Wasm.HostBuffer
import Grpcgi.Wasm.Handshake
import Grpcgi.Wasm.HttpBridge
import Grpcgi.Fragmentation
import Grpcgi.Python.Scope
import Grpcgi.Upgrade
import Grpcgi.Python.Process
import Grpcgi.Python.Response
import Grpcgi.Python.Completeness
import Grpcgi.Wasm.Dispatch
import Grpcgi.Wasm.Segmentation
import Grpcgi.Wasm.Lifecycle
import Grpcgi.Pipeline.Reader
import Grpcgi.Python.Connect
import Grpcgi.Python.Echo
import Grpcgi.Python.Handle
import Grpcgi.Python.Agreement
import Grpcgi.Python.RequestBody
import Grpcgi.Wasm.HttpResponse
import Grpcgi.HeaderValues
import Grpcgi.Envoy.EndOfStream
import Grpcgi.Wasm.Injection
import Grpcgi.WebSocket.Declared
import Grpcgi.Wasm.FrameParser
import Grpcgi.Envoy.FrameParser
import Grpcgi.CodecAgreement
import Grpcgi.Protobuf.Wire
import Grpcgi.Incremental.Cursor
import Grpcgi.Wasm.FrameTotal
import Grpcgi.Wasm.HttpDecode
import Grpcgi.Data.ProtoWire
import Grpcgi.Wasm.HttpEncode
import Grpcgi.Wasm.HttpTotal
import Grpcgi.Wasm.FailedOpen
import Grpcgi.Wasm.Varint
import Grpcgi.Protobuf.Extension
import Grpcgi.Wasm.UnknownFields
import Grpcgi.Data.Percent
import Grpcgi.Python.AsgiScope
import Grpcgi.Python.Server
import Grpcgi.HeaderTable.Layout
import Grpcgi.Wasm.UpgradeRequest
import Grpcgi.Incremental.Steps
import Grpcgi.Envoy.Conservation
import Grpcgi.Search.Cut
import Grpcgi.Search.Separated
import Grpcgi.Wasm.PluginConfig
import Grpcgi.Search.Marks
import Grpcgi.Search.Regions
import Grpcgi.Search.Pieces
import Grpcgi.Search.Refresh
import Grpcgi.HeaderTable.Tables
import Grpcgi.HeaderTable.Splice
import Grpcgi.Pipeline.Line
import Grpcgi.Python.Schedule
import Grpcgi.Python.Outbound
import Grpcgi.Pipeline.Rounds
import Grpcgi.Wasm.HttpReply
import Grpcgi.Exchange
import Grpcgi.Envoy.Reentry
import Grpcgi.Envoy.Downstream
import Grpcgi.Envoy.Phase
import Grpcgi.FilterAgreement
import Grpcgi.Python.Arrival
import Grpcgi.Bridge.System
import Grpcgi.Bridge.Order
import Grpcgi.Bridge.Acceptance
import Grpcgi.Bridge.Delivery
