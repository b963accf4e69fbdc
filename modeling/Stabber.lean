import Stabber.XmlDocument
import Stabber.XmlReader
import Stabber.Stanza
import Stabber.StanzaParse
import Stabber.XmlReading
import Stabber.StanzaRoundTrip
import Stabber.Fnmatch
import Stabber.Stanzas
import Stabber.TreeEmbedding
import Stabber.StanzaMatching
import Stabber.StanzaHistory
import Stabber.StreamParser
import Stabber.StreamParsing
import Stabber.StreamTree
import Stabber.Callbacks
import Stabber.Replies
import Stabber.Priming
import Stabber.Verbatim
import Stabber.StubReplies
import Stabber.XmlCost
import Stabber.XmlSoundness
import Stabber.Utf8
import Stabber.XmlNesting
import Stabber.ReadStream
import Stabber.StreamEnd
import Stabber.Transition
import Stabber.WriteStream
import Stabber.Server
import Stabber.ServerSteps
import Stabber.SendQueue
import Stabber.Retention
import Stabber.StreamHeader
import Stabber.ServerReading
import Stabber.FnmatchComposition
import Stabber.StanzaTemplates
import Stabber.Waiting
import Stabber.XmlTree
import Stabber.XmlContext
import Stabber.TreeBuilders
import Stabber.XmlAttributes
import Stabber.XmlClosing
import Stabber.ReplyIds
import Stabber.Lifecycle
import Stabber.Stopping
import Stabber.Listening
import Stabber.FailedStart
import Stabber.Settings
import Stabber.StanzaLifetime
import Stabber.StanzaDispatch
import Stabber.ServerThread
import Stabber.MalformedTexts
import Stabber.StubSequences
import Stabber.PatternChoice
import Stabber.StubSelection
import Stabber.Authentication
import Stabber.NullIds
import Stabber.Verification
import Stabber.LastReceived
import Stabber.DiscoReplies
import Stabber.PrimedTexts
import Stabber.KeyedHistory
import Stabber.HarmlessTexts
import Stabber.WriteLoop
import Stabber.OutputStream
import Stabber.HttpApi
import Stabber.HttpRequests
import Stabber.SessionSteps
import Stabber.Answers
import Stabber.ReplyStanzas
import Stabber.AuthReplies
import Stabber.StubBook
import Stabber.StanzaReplies
import Stabber.WrittenReplies
import Stabber.XmlStreams
import Stabber.ClientView
import Stabber.Conversation
import Stabber.FairRuns
import Stabber.Termination
import Stabber.HttpAnswers
import Stabber.FirstFit
import Stabber.SpecificFirst
import Stabber.CriticalSections
import Stabber.StoreSections
import Stabber.LogFile
import Stabber.Restarts
import Stabber.PointerForests
import Stabber.StanzaMemory
