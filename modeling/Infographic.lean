import Infographic.Attribute.Number
import Infographic.Binding.Lookup
import Infographic.Binding.Paint
import Infographic.Binding.Registry
import Infographic.Binding.Transform
import Infographic.Binding.TransformKind
import Infographic.Binding.Wording
import Infographic.Colour.Basic
import Infographic.Colour.Names
import Infographic.Colour.Reader
import Infographic.Directive.Basic
import Infographic.Directive.Escape
import Infographic.Directive.OptionList
import Infographic.Directive.Range
import Infographic.Directive.StatsLabel
import Infographic.Directive.Tag
import Infographic.Geometry.Box
import Infographic.Geometry.Point
import Infographic.Geometry.TransformList
import Infographic.Json.Number
import Infographic.Json.Value
import Infographic.Locale.Basic
import Infographic.Locale.Grouping
import Infographic.Locale.NumberFormat
import Infographic.Locale.Numbers
import Infographic.Markup.Cleanup
import Infographic.Markup.Document
import Infographic.Markup.Name
import Infographic.Markup.Namespace
import Infographic.Markup.Reader
import Infographic.Markup.Style
import Infographic.Markup.Writer
import Infographic.Message.Basic
import Infographic.Message.Reader
import Infographic.Message.Table
import Infographic.Motion.Easing
import Infographic.Motion.Guide
import Infographic.Number.Dyadic
import Infographic.Number.Hypotenuse
import Infographic.Number.Literal
import Infographic.Number.Numeral
import Infographic.Number.Scalar
import Infographic.Number.Shortest
import Infographic.Path.Arc
import Infographic.Path.Basic
import Infographic.Path.Command
import Infographic.Path.Curve
import Infographic.Path.Length
import Infographic.Path.Outline
import Infographic.Proofs.AcceptedNumerals
import Infographic.Proofs.AlikeReading
import Infographic.Proofs.Arena
import Infographic.Proofs.AttributeValues
import Infographic.Proofs.CellNumerals
import Infographic.Proofs.CleanedSpans
import Infographic.Proofs.ColumnNames
import Infographic.Proofs.CompactUnits
import Infographic.Proofs.Descendants
import Infographic.Proofs.DigitValues
import Infographic.Proofs.DirectiveGrammar
import Infographic.Proofs.DisplayedCells
import Infographic.Proofs.DocumentOfTree
import Infographic.Proofs.Durations
import Infographic.Proofs.EasedCarriers
import Infographic.Proofs.EasingRuns
import Infographic.Proofs.ElementNames
import Infographic.Proofs.EnclosingBoxes
import Infographic.Proofs.EscapedText
import Infographic.Proofs.ExactScalar
import Infographic.Proofs.FiniteStyles
import Infographic.Proofs.FirstTag
import Infographic.Proofs.FloatFields
import Infographic.Proofs.FloatOrder
import Infographic.Proofs.FloatRounding
import Infographic.Proofs.FractionDigits
import Infographic.Proofs.GatheredBody
import Infographic.Proofs.GroupedDigits
import Infographic.Proofs.Grouping
import Infographic.Proofs.GuideForms
import Infographic.Proofs.GuidePoints
import Infographic.Proofs.InertDeclarations
import Infographic.Proofs.InlineStyle
import Infographic.Proofs.LabelReading
import Infographic.Proofs.LabelSteps
import Infographic.Proofs.LastingTexts
import Infographic.Proofs.LatestMessage
import Infographic.Proofs.LeastBoxes
import Infographic.Proofs.LeftCarriers
import Infographic.Proofs.LeftmostCuts
import Infographic.Proofs.LoadedTree
import Infographic.Proofs.ManualStats
import Infographic.Proofs.MarkupRoundTrip
import Infographic.Proofs.MessageTable
import Infographic.Proofs.NameIndex
import Infographic.Proofs.NamedCells
import Infographic.Proofs.NamesReadAgain
import Infographic.Proofs.NearestFloats
import Infographic.Proofs.NormalizedRange
import Infographic.Proofs.PaintBesideTransforms
import Infographic.Proofs.PaintPass
import Infographic.Proofs.PlainNumbers
import Infographic.Proofs.PolylineWalks
import Infographic.Proofs.QuotedText
import Infographic.Proofs.RangeSpellings
import Infographic.Proofs.ReaderSteps
import Infographic.Proofs.RegisteredElements
import Infographic.Proofs.Regrouping
import Infographic.Proofs.RepeatedNames
import Infographic.Proofs.RepeatedTables
import Infographic.Proofs.ResolvedTree
import Infographic.Proofs.RootDeclaration
import Infographic.Proofs.RoundedArithmetic
import Infographic.Proofs.RoundedNumerals
import Infographic.Proofs.ScopeRules
import Infographic.Proofs.SessionRuns
import Infographic.Proofs.ShortestDigits
import Infographic.Proofs.SignedArithmetic
import Infographic.Proofs.SignificantDigits
import Infographic.Proofs.SplicedTree
import Infographic.Proofs.StandingNames
import Infographic.Proofs.StatsPresence
import Infographic.Proofs.StatsScan
import Infographic.Proofs.StyleEdits
import Infographic.Proofs.StyleValues
import Infographic.Proofs.StyleWrites
import Infographic.Proofs.TableInStep
import Infographic.Proofs.TakenEscapes
import Infographic.Proofs.TakenTags
import Infographic.Proofs.TemplateMaking
import Infographic.Proofs.TemplateRuns
import Infographic.Proofs.TextContent
import Infographic.Proofs.TextPass
import Infographic.Proofs.TextPieces
import Infographic.Proofs.Ticking
import Infographic.Proofs.TransformPass
import Infographic.Proofs.TransformReading
import Infographic.Proofs.TreeEdits
import Infographic.Proofs.TreeHeight
import Infographic.Proofs.TreeWalk
import Infographic.Proofs.UnreadableCells
import Infographic.Proofs.Unstyled
import Infographic.Proofs.UpdateFrame
import Infographic.Proofs.WholeNumbers
import Infographic.Proofs.WithoutAttribute
import Infographic.Proofs.WordedParts
import Infographic.Proofs.WrittenMarkup
import Infographic.Proofs.WrittenNumbers
import Infographic.Proofs.WrittenOptions
import Infographic.Session.Basic
import Infographic.Session.Settings
import Infographic.Session.Template
import Infographic.Shape.Extent
import Infographic.Table.Basic
import Infographic.Table.Cell
import Infographic.Table.Column
import Infographic.Table.DisplayFormat
import Infographic.Table.NameIndex
import Infographic.Table.Row
import Infographic.Text.Blank
import Infographic.Text.Cut
