import FrameCode.Main
import FrameCode.Proofs.AlikeRuns
import FrameCode.Proofs.CheckedDocuments
import FrameCode.Proofs.Confinement
import FrameCode.Proofs.Correspondence
import FrameCode.Proofs.DefinedLabels
import FrameCode.Proofs.FailedInstructions
import FrameCode.Proofs.FreshRuns
import FrameCode.Proofs.Legibility
import FrameCode.Proofs.Outlets
import FrameCode.Proofs.StringInvariant
import FrameCode.Proofs.Renumbering
import FrameCode.Proofs.IdleInstructions
import FrameCode.Proofs.Transparency
import FrameCode.Proofs.Nesting
import FrameCode.Proofs.FrameHistory
import FrameCode.Proofs.Isolation
import FrameCode.Proofs.ForwardPrograms
import FrameCode.Proofs.Blame
import FrameCode.Proofs.OperandForms
import FrameCode.Proofs.ReadOrder
import FrameCode.Proofs.WrittenLines
import FrameCode.Proofs.InputLines
import FrameCode.Proofs.Concatenation
import FrameCode.Proofs.Characters
import FrameCode.Proofs.Comparison
import FrameCode.Proofs.NumeralForms
import FrameCode.Proofs.SourceLines
import FrameCode.Proofs.MissingHeader
import FrameCode.Proofs.Layout
import FrameCode.Proofs.ProgramForms
import FrameCode.Proofs.OperandSlots
import FrameCode.Proofs.MnemonicSpellings
import FrameCode.Proofs.UndefinedTargets
import FrameCode.Proofs.WordArithmetic
import FrameCode.Proofs.OperandAccess
import FrameCode.Proofs.CodeBoundaries
import FrameCode.Proofs.Redefinitions
import FrameCode.Proofs.FrameTables
import FrameCode.Proofs.OrderRange
