import StylePurge.CommandLine.Program
import StylePurge.Content.Progress
import StylePurge.Main
import StylePurge.Proofs.CommentDeletion
import StylePurge.Proofs.RelevantClasses
import StylePurge.Proofs.RulePieces
import StylePurge.Proofs.StylesheetExtension
import StylePurge.Proofs.UsedClasses
import StylePurge.Proofs.RuleLexing
import StylePurge.Proofs.RuleShape
import StylePurge.Proofs.PathWalk
import StylePurge.Proofs.TreeChange
import StylePurge.Proofs.InputKept
import StylePurge.Proofs.JsonWords
import StylePurge.Proofs.TextEncoding
import StylePurge.Proofs.JsonRoundTrip
import StylePurge.Proofs.WhitelistFile
import StylePurge.Proofs.ContentNames
import StylePurge.Proofs.ListedNames
import StylePurge.Proofs.FirstAppearance
import StylePurge.Proofs.ReportClasses
import StylePurge.Proofs.ReportNumbers
import StylePurge.Proofs.PurgedSize
import StylePurge.Proofs.SelectorPositions
import StylePurge.Proofs.PurgeSources
import StylePurge.Proofs.PurgeRoutes
import StylePurge.Proofs.PathFronts
import StylePurge.Proofs.SelectedFiles
import StylePurge.Proofs.FileSelection
import StylePurge.Content.Pool
import StylePurge.Proofs.MarkupPages
import StylePurge.Proofs.ParallelScan
import StylePurge.Proofs.PathTargets
import StylePurge.Proofs.PathSpellings
import StylePurge.Proofs.GlobSearch
import StylePurge.Proofs.GlobPaths
import StylePurge.Proofs.GlobStar
import StylePurge.Proofs.FirstSpelling
import StylePurge.Proofs.StandingTree
import StylePurge.Proofs.FileReplacement
import StylePurge.Proofs.CommentCode
import StylePurge.Proofs.CommentedRules
import StylePurge.Proofs.StandingRun
import StylePurge.Proofs.SelectorBlocks
import StylePurge.Proofs.ConfigMerge
import StylePurge.Proofs.MarkupPositions
import StylePurge.Proofs.ByteSplit
import StylePurge.Proofs.WhitelistArrays
import StylePurge.Proofs.ReportRoundTrip
import StylePurge.Proofs.PurgeCommandLine
import StylePurge.Proofs.WhitelistRuns
