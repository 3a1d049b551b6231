import FingerprintBridge.Lib.Action
import FingerprintBridge.Lib.Lists
import FingerprintBridge.Lib.Distinct
import FingerprintBridge.Lib.StableSort
import FingerprintBridge.Lib.Lines
import FingerprintBridge.Lib.Separated
import FingerprintBridge.Lib.Text
import FingerprintBridge.Lib.Parser
import FingerprintBridge.Lib.PrefixCode
import FingerprintBridge.Lib.Octets
import FingerprintBridge.Lib.Gcm
import FingerprintBridge.Lib.Buffered
import FingerprintBridge.Lib.Incremental
import FingerprintBridge.Lib.Fairness
import FingerprintBridge.Lib.Json
import FingerprintBridge.Lib.Relay
import FingerprintBridge.Lib.Written
import FingerprintBridge.Lib.Guarded
import FingerprintBridge.Lib.KeyExchange
import FingerprintBridge.Lib.Slots
import FingerprintBridge.Hpack.DynamicTable
import FingerprintBridge.Hpack.Survivors
import FingerprintBridge.Hpack.Representation
import FingerprintBridge.Rewrite.Mapping
import FingerprintBridge.Rewrite.Facts
import FingerprintBridge.Rewrite.Authority
import FingerprintBridge.Rewrite.Whitespace
import FingerprintBridge.Rewrite.Head
import FingerprintBridge.Rewrite.Cookie
import FingerprintBridge.Rewrite.Navigation
import FingerprintBridge.Rewrite.SetCookie
import FingerprintBridge.Wire.HuffmanCodes
import FingerprintBridge.Wire.HpackWire
import FingerprintBridge.Wire.Codec
import FingerprintBridge.Wire.OutboundTable
import FingerprintBridge.Wire.Trace
import FingerprintBridge.Wire.Huffman
import FingerprintBridge.Wire.Transparency
import FingerprintBridge.Wire.Lockstep
import FingerprintBridge.Wire.Confinement
import FingerprintBridge.Wire.Panics
import FingerprintBridge.Wire.Integers
import FingerprintBridge.Wire.TableHistory
import FingerprintBridge.Wire.Rejection
import FingerprintBridge.H1.Message
import FingerprintBridge.H1.Reading
import FingerprintBridge.H1.Framing
import FingerprintBridge.H1.Forward
import FingerprintBridge.H1.Strict
import FingerprintBridge.H1.Grammar
import FingerprintBridge.H1.Confinement
import FingerprintBridge.H1.Chunked
import FingerprintBridge.H1.Bridge
import FingerprintBridge.H1.Exchange
import FingerprintBridge.H1.Pairing
import FingerprintBridge.H2.Frame
import FingerprintBridge.H2.Direction
import FingerprintBridge.H2.Group
import FingerprintBridge.H2.Reframe
import FingerprintBridge.H2.Forward
import FingerprintBridge.H2.Atomic
import FingerprintBridge.H2.Bridge
import FingerprintBridge.H2.Confinement
import FingerprintBridge.H2.Rejection
import FingerprintBridge.H2.Race
import FingerprintBridge.H2.Channel
import FingerprintBridge.H2.Window
import FingerprintBridge.Tls.Reader
import FingerprintBridge.Tls.Hello
import FingerprintBridge.Tls.Records
import FingerprintBridge.Tls.Tap
import FingerprintBridge.Tls.Replay
import FingerprintBridge.Tls.Grammar
import FingerprintBridge.Tls.Layout
import FingerprintBridge.Tls.Evidence
import FingerprintBridge.Tls.ExtensionOrder
import FingerprintBridge.Tls.Zstd
import FingerprintBridge.Fingerprint.Compare
import FingerprintBridge.Fingerprint.Syn
import FingerprintBridge.Fingerprint.Pcap
import FingerprintBridge.Fingerprint.Ja4
import FingerprintBridge.Fingerprint.Evidence
import FingerprintBridge.Tls.Mirror
import FingerprintBridge.Serve.Capture
import FingerprintBridge.Serve.Connection
import FingerprintBridge.Serve.Loop
import FingerprintBridge.Serve.Alpn
import FingerprintBridge.Confinement
import FingerprintBridge.Rejection
import FingerprintBridge.Ssl.Etm
import FingerprintBridge.Ssl.EtmOracle
import FingerprintBridge.Ssl.Ghash
import FingerprintBridge.Ssl.AriaGcm
import FingerprintBridge.Ssl.AriaRecords
import FingerprintBridge.Ssl.AriaNonces
import FingerprintBridge.Ssl.Profile
import FingerprintBridge.Ssl.KeyShare
import FingerprintBridge.Ssl.Char2
import FingerprintBridge.Ssl.X448
import FingerprintBridge.Ssl.Providers
import FingerprintBridge.Ssl.StatusV2
import FingerprintBridge.Scripts.OrderPolicy
import FingerprintBridge.Scripts.OrderProof
import FingerprintBridge.Scripts.OrderVariance
import FingerprintBridge.Scripts.TlsOrder
import FingerprintBridge.Scripts.PairedHttp
import FingerprintBridge.Scripts.PairedMapping
import FingerprintBridge.Scripts.PairedHeads
import FingerprintBridge.Scripts.PairedBlocks
import FingerprintBridge.Scripts.PairedTokens
import FingerprintBridge.Scripts.PairedFrames
import FingerprintBridge.Scripts.PairedConnection
