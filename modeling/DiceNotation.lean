import DiceNotation.Decimal.Binary
import DiceNotation.Decimal.Shortest
import DiceNotation.Dice
import DiceNotation.Dice.Roll
import DiceNotation.Dice.Spelling
import DiceNotation.Error
import DiceNotation.Expression
import DiceNotation.Expression.Fault
import DiceNotation.Expression.Number
import DiceNotation.Expression.Operation
import DiceNotation.Expression.Reader
import DiceNotation.Expression.Token
import DiceNotation.Journal
import DiceNotation.Pattern
import DiceNotation.Pattern.Offsets
import DiceNotation.Pattern.Outcome
import DiceNotation.Proofs.Agreement
import DiceNotation.Proofs.ByteOffsets
import DiceNotation.Proofs.CallReports
import DiceNotation.Proofs.DecimalReading
import DiceNotation.Proofs.DecimalText
import DiceNotation.Proofs.DepthCounter
import DiceNotation.Proofs.DiceChanges
import DiceNotation.Proofs.DiceText
import DiceNotation.Proofs.DirectRolls
import DiceNotation.Proofs.DoubleBits
import DiceNotation.Proofs.Drops
import DiceNotation.Proofs.Extraction
import DiceNotation.Proofs.Extremes
import DiceNotation.Proofs.Faces
import DiceNotation.Proofs.FaultPlaces
import DiceNotation.Proofs.Faults
import DiceNotation.Proofs.Grammar
import DiceNotation.Proofs.GrammarCompleteness
import DiceNotation.Proofs.GrammarSoundness
import DiceNotation.Proofs.IntegerDoubles
import DiceNotation.Proofs.IntegerEvaluation
import DiceNotation.Proofs.IntegerRange
import DiceNotation.Proofs.Lifecycle
import DiceNotation.Proofs.LowerCase
import DiceNotation.Proofs.NearestDouble
import DiceNotation.Proofs.NegativeNumbers
import DiceNotation.Proofs.Neighbours
import DiceNotation.Proofs.Nesting
import DiceNotation.Proofs.NormalForm
import DiceNotation.Proofs.OffsetSearch
import DiceNotation.Proofs.OneOperand
import DiceNotation.Proofs.ParallelReadings
import DiceNotation.Proofs.Parsing
import DiceNotation.Proofs.PatternCalls
import DiceNotation.Proofs.PatternEquality
import DiceNotation.Proofs.PatternText
import DiceNotation.Proofs.Percentile
import DiceNotation.Proofs.Placeholders
import DiceNotation.Proofs.Printing
import DiceNotation.Proofs.Reading
import DiceNotation.Proofs.ReadingInvariants
import DiceNotation.Proofs.RepeatedReading
import DiceNotation.Proofs.Reprinting
import DiceNotation.Proofs.RollOrder
import DiceNotation.Proofs.RollRange
import DiceNotation.Proofs.RollTotals
import DiceNotation.Proofs.Rounds
import DiceNotation.Proofs.Runs
import DiceNotation.Proofs.Scanning
import DiceNotation.Proofs.ShortestDecimal
import DiceNotation.Proofs.Spacing
import DiceNotation.Proofs.Substitution
import DiceNotation.Proofs.TemplateGrowth
import DiceNotation.Proofs.TemplatePushes
import DiceNotation.Proofs.TemplateText
import DiceNotation.Proofs.TextCuts
import DiceNotation.Proofs.TextEnds
import DiceNotation.Proofs.ThrowText
import DiceNotation.Proofs.TokenSequence
import DiceNotation.Proofs.Vocabulary
import DiceNotation.Record
import DiceNotation.Template
import DiceNotation.Text.Blank
import DiceNotation.Text.Json
import DiceNotation.Text.Lowercase
import DiceNotation.Text.Normal
import DiceNotation.Throw
import DiceNotation.Total
import DiceNotation.Words
