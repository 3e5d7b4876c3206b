import Cpp2tnt.Library.Imperative
import Cpp2tnt.Msgpuck
import Cpp2tnt.MpReader
import Cpp2tnt.MpWriter
import Cpp2tnt.Documents
import Cpp2tnt.TypedValues
import Cpp2tnt.TypedRoundTrip
import Cpp2tnt.Frames
import Cpp2tnt.IprotoWriter
import Cpp2tnt.RequestFraming
import Cpp2tnt.Library.Transition
import Cpp2tnt.OwnedBuffer
import Cpp2tnt.ConnectionState
import Cpp2tnt.Connection
import Cpp2tnt.OutputStream
import Cpp2tnt.InputDelivery
import Cpp2tnt.ConnectionTurns
import Cpp2tnt.OutputProgress
import Cpp2tnt.ConnectionControl
import Cpp2tnt.HandshakeTimeout
import Cpp2tnt.ConnectionEvents
import Cpp2tnt.SessionCourse
import Cpp2tnt.SessionStart
import Cpp2tnt.Authentication
import Cpp2tnt.HandshakeOutput
import Cpp2tnt.GreetingOrigin
import Cpp2tnt.Notifications
import Cpp2tnt.RequestErrors
import Cpp2tnt.Library.Patches
import Cpp2tnt.WriterLedger
import Cpp2tnt.LedgerSimulation
import Cpp2tnt.WriterUndo
import Cpp2tnt.Library.WellFormed
import Cpp2tnt.ReaderOps
import Cpp2tnt.ReadBounds
import Cpp2tnt.BulkAppend
import Cpp2tnt.CsParser
import Cpp2tnt.SpanViews
import Cpp2tnt.WatcherRegistry
import Cpp2tnt.CorkedTail
import Cpp2tnt.BufferMemory
import Cpp2tnt.Library.Binary64
import Cpp2tnt.NumericReads
import Cpp2tnt.ErrorStack
import Cpp2tnt.ItemIndex
import Cpp2tnt.OpenSession
import Cpp2tnt.StreamEnd
import Cpp2tnt.FramerAgreement
import Cpp2tnt.RequestIds
import Cpp2tnt.CleanFinalize
import Cpp2tnt.DatetimeArithmetic
import Cpp2tnt.KeyComparison
import Cpp2tnt.MapLookup
import Cpp2tnt.CursorOps
import Cpp2tnt.CursorIndex
import Cpp2tnt.NextItem
import Cpp2tnt.PrintedExtensions
import Cpp2tnt.FailedReads
import Cpp2tnt.Overwriting
import Cpp2tnt.Library.Chain
import Cpp2tnt.CsCalls
import Cpp2tnt.CsBounds
import Cpp2tnt.FillContainer
import Cpp2tnt.StackBounds
import Cpp2tnt.ReceiveRoom
import Cpp2tnt.SlotSimulation
import Cpp2tnt.Library.BlockHash
import Cpp2tnt.Sha1
import Cpp2tnt.MessageDigest
import Cpp2tnt.Base64
import Cpp2tnt.Base64RoundTrip
import Cpp2tnt.Challenge
import Cpp2tnt.Negotiation
import Cpp2tnt.LoginStages
import Cpp2tnt.AnsweredLogin
import Cpp2tnt.Exchange
import Cpp2tnt.ResponseHandlers
import Cpp2tnt.WrittenResponses
import Cpp2tnt.Transcoding
import Cpp2tnt.EventLoop
