import Ifupdown.Base.Text
import Ifupdown.Base.Decimal
import Ifupdown.Base.Dict
import Ifupdown.Base.Successors
import Ifupdown.Base.DepthWalk
import Ifupdown.Base.Buckets
import Ifupdown.Base.AtEach
import Ifupdown.Base.Schedule
import Ifupdown.Model.LineReader
import Ifupdown.Model.Interface
import Ifupdown.Model.State
import Ifupdown.Model.StateFile
import Ifupdown.Model.Lifecycle
import Ifupdown.Model.Command
import Ifupdown.Model.Processes
import Ifupdown.Model.Rdepends
import Ifupdown.Resolver.Trace
import Ifupdown.Resolver.Relations
import Ifupdown.Resolver.Books
import Ifupdown.Resolver.BringUp
import Ifupdown.Resolver.BringUpOrder
import Ifupdown.Resolver.TearDown
import Ifupdown.Resolver.ExactCounts
import Ifupdown.Resolver.Undo
import Ifupdown.Resolver.RetryUp
import Ifupdown.Resolver.RetryDown
import Ifupdown.Resolver.Repeats
import Ifupdown.Resolver.VisitOnce
import Ifupdown.Resolver.Stops
import Ifupdown.Resolver.Progress
import Ifupdown.Resolver.Unwinding
import Ifupdown.Resolver.Recovery
import Ifupdown.Resolver.Simulation
import Ifupdown.Resolver.Termination
import Ifupdown.Resolver.Survey
import Ifupdown.Resolver.Ledger
import Ifupdown.Session.Memory
import Ifupdown.Session.Calls
import Ifupdown.Session.Requests
import Ifupdown.Session.BringUps
import Ifupdown.Session.Tally
import Ifupdown.Session.Single
import Ifupdown.Session.Forced
import Ifupdown.Session.Turns
import Ifupdown.Session.Contention
import Ifupdown.Session.Stanzas
import Ifupdown.Properties.StateFile
import Ifupdown.Properties.StateRoundTrip
import Ifupdown.Properties.Restart
import Ifupdown.Properties.Forgotten
import Ifupdown.Properties.DependenciesFirst
import Ifupdown.Properties.BringUpOnce
import Ifupdown.Properties.Refcounts
import Ifupdown.Properties.DownUndoesUp
import Ifupdown.Properties.TeardownOrder
import Ifupdown.Properties.TeardownOnce
import Ifupdown.Properties.CollectionOrder
import Ifupdown.Properties.ExplicitStays
import Ifupdown.Properties.Retry
import Ifupdown.Properties.ForcedUp
import Ifupdown.Properties.Recovery
import Ifupdown.Properties.LostUpdate
import Ifupdown.Properties.LockedBringUp
import Ifupdown.Base.Search
import Ifupdown.Model.Address
import Ifupdown.Model.Edits
import Ifupdown.Model.InterfaceFile
import Ifupdown.Parser.Traced
import Ifupdown.Parser.Inheritance
import Ifupdown.Properties.FlagsMatch
import Ifupdown.Base.Words
import Ifupdown.Resolver.Learning
import Ifupdown.Resolver.Counting
import Ifupdown.Properties.DependenciesHonoured
import Ifupdown.Model.TokenLoops
import Ifupdown.Model.Execute
import Ifupdown.Properties.QueryAgain
import Ifupdown.Properties.MergedNames
import Ifupdown.Properties.LongLists
import Ifupdown.Properties.CapturedOutput
import Ifupdown.Base.History
import Ifupdown.Properties.TemplatesNotAuto
import Ifupdown.Parser.Visits
import Ifupdown.Parser.Variables
import Ifupdown.Properties.ConfiguredHostname
import Ifupdown.Parser.Reading
import Ifupdown.Parser.Handling
import Ifupdown.Properties.LineIsolation
import Ifupdown.Properties.NamedInterfaces
import Ifupdown.Properties.InclusionEnds
import Ifupdown.Parser.Addresses
import Ifupdown.Properties.StanzaNetmasks
import Ifupdown.Properties.OptionLookup
import Ifupdown.Properties.InheritOnce
import Ifupdown.Model.LogicalLines
import Ifupdown.Model.LineCalls
import Ifupdown.Properties.LineGrammar
import Ifupdown.Properties.EscapedHash
import Ifupdown.Properties.FinalNewline
import Ifupdown.Properties.LongLines
import Ifupdown.Properties.UndefinedParents
import Ifupdown.Parser.Lockstep
import Ifupdown.Parser.Isolation
import Ifupdown.Parser.Agreement
import Ifupdown.Model.WholeLines
import Ifupdown.Parser.Lines
import Ifupdown.Properties.TextualInclusion
import Ifupdown.Model.LineEnds
import Ifupdown.Parser.Walks
import Ifupdown.Parser.Counterparts
import Ifupdown.Parser.Trailing
import Ifupdown.Properties.TrailingBlanks
import Ifupdown.Properties.CarriageReturns
import Ifupdown.Properties.AddressSyntax
import Ifupdown.Properties.AddressText
import Ifupdown.Model.Environment
import Ifupdown.Properties.EnvironmentLists
import Ifupdown.Executors.Environment
import Ifupdown.Properties.BridgePorts
import Ifupdown.Model.Compat
import Ifupdown.Properties.VlanInheritance
import Ifupdown.Parser.Executors
import Ifupdown.Properties.ExecutorOrder
import Ifupdown.Executors.Link
import Ifupdown.Properties.LinkDepends
import Ifupdown.Base.Segments
import Ifupdown.Model.Lists
import Ifupdown.Resolver.Nodes
import Ifupdown.Properties.StableOrder
import Ifupdown.Resolver.Closure
import Ifupdown.Properties.CountingEnds
import Ifupdown.Base.Cells
import Ifupdown.Model.LineBuffer
import Ifupdown.Parser.LineStores
import Ifupdown.Properties.LineBounds
import Ifupdown.Model.GrowingBuffer
import Ifupdown.Executors.Growth
import Ifupdown.Properties.BufferGrowth
import Ifupdown.Base.LeadingOnes
import Ifupdown.Properties.NetmaskBits
import Ifupdown.Model.ListCalls
import Ifupdown.Properties.ListShape
import Ifupdown.Base.Outline
import Ifupdown.Model.Yaml
import Ifupdown.Model.Ifparse
import Ifupdown.Properties.YamlRoundTrip
import Ifupdown.Properties.YamlOutput
import Ifupdown.Parser.Keyed
import Ifupdown.Properties.WordedCollections
import Ifupdown.Model.ConfigFile
import Ifupdown.Properties.ConfigFile
import Ifupdown.Model.DictMemory
import Ifupdown.Dictionary.Blocks
import Ifupdown.Dictionary.Operations
import Ifupdown.Dictionary.FindAll
import Ifupdown.Properties.DictMemory
import Ifupdown.Base.Branches
import Ifupdown.Model.Ifquery
import Ifupdown.Resolver.Drawing
import Ifupdown.Properties.DependencyGraph
import Ifupdown.Session.Standing
import Ifupdown.Properties.RepeatedUp
import Ifupdown.Properties.OrderOfUps
import Ifupdown.Parser.Buffered
import Ifupdown.Properties.LoadedInterfaces
import Ifupdown.Model.Launches
import Ifupdown.Properties.SessionOnDisk
import Ifupdown.Parser.PrintedLines
import Ifupdown.Parser.PrintedStanzas
import Ifupdown.Parser.Orderly
import Ifupdown.Parser.OrderlyLines
import Ifupdown.Properties.EniOutput
import Ifupdown.Properties.EniRoundTrip
import Ifupdown.Model.Wraparound
import Ifupdown.Resolver.Wraparound
import Ifupdown.Session.Wraparound
import Ifupdown.Resolver.Queries
