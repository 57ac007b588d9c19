import CalcBasic.Main
import CalcBasic.Proofs.ArenaBuilding
import CalcBasic.Proofs.Labels
import CalcBasic.Proofs.LineByLine
import CalcBasic.Proofs.NestingLimit
import CalcBasic.Proofs.ReadBack
import CalcBasic.Proofs.BoundedRuns
import CalcBasic.Proofs.Variables
import CalcBasic.Proofs.ExecutionRules
import CalcBasic.Proofs.InputQueue
import CalcBasic.Proofs.FaultPlaces
import CalcBasic.Proofs.Truncation
import CalcBasic.Proofs.Frame
import CalcBasic.Proofs.KindSoundness
import CalcBasic.Proofs.Relocation
import CalcBasic.Proofs.Sequencing
import CalcBasic.Proofs.OpenBlocks
import CalcBasic.Proofs.MissingEnds
import CalcBasic.Proofs.Enclosing
import CalcBasic.Proofs.Noninterference
import CalcBasic.Proofs.Loading
import CalcBasic.Proofs.Interaction
import CalcBasic.Proofs.ListElements
import CalcBasic.Proofs.CountingLoops
import CalcBasic.Proofs.FailingStatements
import CalcBasic.Proofs.FilledLoops
import CalcBasic.Proofs.SpacedWords
import CalcBasic.Proofs.ExactSpans
import CalcBasic.Proofs.LayoutTolerance
import CalcBasic.Proofs.EditDistance
import CalcBasic.Proofs.Snapshots
import CalcBasic.Proofs.LabelHints
import CalcBasic.Proofs.NameDiscipline
import CalcBasic.Proofs.CommandLines
import CalcBasic.Proofs.LineTokens
