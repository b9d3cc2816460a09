import RadixRouter.Cache
import RadixRouter.CleanPath
import RadixRouter.CommandLine.Arguments
import RadixRouter.CommandLine.Files
import RadixRouter.CommandLine.Program
import RadixRouter.Config
import RadixRouter.Document.Basic
import RadixRouter.Document.Config
import RadixRouter.Document.Cursor
import RadixRouter.Document.Json
import RadixRouter.Document.Scalar
import RadixRouter.Document.Token
import RadixRouter.Document.Tree
import RadixRouter.Event
import RadixRouter.Handler
import RadixRouter.Params
import RadixRouter.Pattern.Grammar
import RadixRouter.Pattern.Token
import RadixRouter.Resolution
import RadixRouter.RouteError
import RadixRouter.RouteTable
import RadixRouter.Router.Basic
import RadixRouter.Router.Lookup
import RadixRouter.Router.Resolve
import RadixRouter.Router.Serve
import RadixRouter.Router.Sweeping
import RadixRouter.Scripted
import RadixRouter.StringMap
import RadixRouter.Sweeper
import RadixRouter.Telemetry
import RadixRouter.Text.Invisible
import RadixRouter.Text.Quoted
import RadixRouter.Text.SimpleCase
import RadixRouter.Text.Split
import RadixRouter.Text.Utf8
import RadixRouter.Tree.Basic
import RadixRouter.Tree.Insert
import RadixRouter.Tree.Respell
import RadixRouter.Tree.Search
import RadixRouter.Main
import RadixRouter.Proofs.Encoding
import RadixRouter.Proofs.Decoding
import RadixRouter.Proofs.CaseMapping
import RadixRouter.Proofs.PatternShape
import RadixRouter.Proofs.Rivalry
import RadixRouter.Proofs.NewNodes
import RadixRouter.Proofs.Grafting
import RadixRouter.Proofs.Fitting
import RadixRouter.Proofs.TreeSearch
import RadixRouter.Proofs.Respelling
import RadixRouter.Proofs.Insertion
import RadixRouter.Proofs.MapOrder
import RadixRouter.Proofs.RouteCounts
import RadixRouter.Proofs.Registration
import RadixRouter.Proofs.Session
import RadixRouter.Proofs.Coherence
import RadixRouter.Proofs.CorrectedPaths
import RadixRouter.Proofs.PatternMatching
import RadixRouter.Proofs.Exactness
import RadixRouter.Proofs.Conflict
import RadixRouter.Proofs.TreeGrowth
import RadixRouter.Proofs.Acceptance
import RadixRouter.Proofs.CacheTransparency
import RadixRouter.Proofs.SameWalk
import RadixRouter.Proofs.LabelCut
import RadixRouter.Proofs.Doorways
import RadixRouter.Proofs.RefusedGraft
import RadixRouter.Proofs.RefusedRegistration
import RadixRouter.Proofs.SlashHint
import RadixRouter.Proofs.TreeHistory
import RadixRouter.Proofs.SlashRecommendation
import RadixRouter.Proofs.PlainPartings
import RadixRouter.Proofs.CaseVariants
import RadixRouter.Proofs.CorrectedCase
import RadixRouter.Proofs.TrailingSlash
import RadixRouter.Proofs.HintSoundness
import RadixRouter.Proofs.Outcomes
import RadixRouter.Proofs.SlashRedirects
import RadixRouter.Proofs.AllowLists
import RadixRouter.Proofs.AsciiCase
import RadixRouter.Proofs.MatchingUpToCase
import RadixRouter.Proofs.CaseSoundness
import RadixRouter.Proofs.CaseCompleteness
import RadixRouter.Proofs.CaseExactness
import RadixRouter.Proofs.TableRoutes
import RadixRouter.Proofs.LookupHistory
import RadixRouter.Proofs.TableOrder
import RadixRouter.Proofs.TableReports
import RadixRouter.Proofs.SweepSchedule
import RadixRouter.Proofs.WildcardNodes
import RadixRouter.Proofs.WildcardGrafts
import RadixRouter.Proofs.HitCounters
import RadixRouter.Proofs.Tallies
import RadixRouter.Proofs.Promotion
import RadixRouter.Proofs.SlashFixing
import RadixRouter.Proofs.TextSpans
import RadixRouter.Proofs.CasePartings
import RadixRouter.Proofs.FixedSlashes
import RadixRouter.Proofs.OwnForms
import RadixRouter.Proofs.WholeAnswers
import RadixRouter.Proofs.FoundPaths
import RadixRouter.Proofs.ServerOptions
import RadixRouter.Proofs.Serving
import RadixRouter.Proofs.PatternGrammar
import RadixRouter.Proofs.WildcardPrefixes
import RadixRouter.Proofs.TrackedCounters
import RadixRouter.Proofs.Culprits
import RadixRouter.Proofs.SpreadLabels
import RadixRouter.Proofs.ChildOrder
import RadixRouter.Proofs.CleanPaths
import RadixRouter.Proofs.CacheHistory
import RadixRouter.Proofs.Guards
import RadixRouter.Proofs.Records
import RadixRouter.Proofs.RecordWalk
import RadixRouter.Proofs.RecordRespelling
import RadixRouter.Proofs.RecordGrammar
import RadixRouter.Proofs.RecordGrowth
import RadixRouter.Proofs.RecordOrder
import RadixRouter.Proofs.RecordDescent
import RadixRouter.Proofs.RecordInsertion
import RadixRouter.Proofs.GuardedCalls
import RadixRouter.Proofs.RecordInvariant
import RadixRouter.Proofs.StoreCalls
