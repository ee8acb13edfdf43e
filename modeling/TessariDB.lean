import TessariDB.ByteCodec
import TessariDB.Credit
import TessariDB.OrderCode
import TessariDB.BigEndian
import TessariDB.Utf8
import TessariDB.Dict
import TessariDB.Errors
import TessariDB.Primitives
import TessariDB.Value
import TessariDB.Encode
import TessariDB.Decode
import TessariDB.Codec
import TessariDB.Canonical
import TessariDB.Positions
import TessariDB.Fits
import TessariDB.KeyOrder
import TessariDB.ByteStream
import TessariDB.Frames
import TessariDB.FrameLayer
import TessariDB.Answer
import TessariDB.AnswerIsolation
import TessariDB.DeclaredCounts
import TessariDB.OlderRecords
import TessariDB.Bodies
import TessariDB.Connection
import TessariDB.Conversation
import TessariDB.Follow
import TessariDB.Settlement
import TessariDB.Session
import TessariDB.Credentials
import TessariDB.LogReplay
import TessariDB.Subscription
import TessariDB.FailedFeeds
import TessariDB.Text
import TessariDB.Doubles
import TessariDB.Hex
import TessariDB.Calendar
import TessariDB.Numerals
import TessariDB.Timestamps
import TessariDB.Literals
import TessariDB.Valid
import TessariDB.Sequences
import TessariDB.Events
import TessariDB.Json
import TessariDB.Integers
import TessariDB.JsonValues
import TessariDB.JsonSpelling
import TessariDB.JsonScalars
import TessariDB.JsonRestored
import TessariDB.DecimalTexts
import TessariDB.InstantTexts
import TessariDB.SpanTexts
import TessariDB.VaultStatus
import TessariDB.JsonFaults
import TessariDB.EventSpellings
import TessariDB.EventTroubles
import TessariDB.Quoting
import TessariDB.Script
import TessariDB.Transports
import TessariDB.Http
import TessariDB.Effects
import TessariDB.HttpSession
import TessariDB.HttpRequests
import TessariDB.DocumentFaults
import TessariDB.HttpAnswers
import TessariDB.HttpThreads
import TessariDB.References
import TessariDB.Infix
import TessariDB.Measures
import TessariDB.Query
import TessariDB.FilterReading
import TessariDB.Statement
import TessariDB.Handles
import TessariDB.FieldOrder
import TessariDB.StatementText
import TessariDB.ClosedScripts
import TessariDB.NameForms
import TessariDB.CacheRenderers
import TessariDB.Renderers
import TessariDB.Expiring
import TessariDB.Lease
import TessariDB.Interleaving
import TessariDB.GetOrSet
import TessariDB.Triples
import TessariDB.Consumer
import TessariDB.Queue
import TessariDB.Grammar
import TessariDB.StatementReading
import TessariDB.Heard
import TessariDB.HttpReading
import TessariDB.SplitLog
import TessariDB.SplitFeeds
import TessariDB.Stopping
import TessariDB.Backoff
import TessariDB.BackingOff
import TessariDB.Lockstep
import TessariDB.VaultHandle
import TessariDB.Passphrases
import TessariDB.OpenSockets
import TessariDB.Templates
import TessariDB.CacheReading
import TessariDB.CacheHandle
import TessariDB.CacheHeard
import TessariDB.CacheServed
