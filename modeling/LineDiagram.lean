import LineDiagram.Main
import LineDiagram.Service.Basic
import LineDiagram.Proofs.Comment
import LineDiagram.Proofs.LineParts
import LineDiagram.Proofs.Graph
import LineDiagram.Proofs.Scanner
import LineDiagram.Proofs.Draft
import LineDiagram.Proofs.Addresses
import LineDiagram.Proofs.Nesting
import LineDiagram.Proofs.BoxLists
import LineDiagram.Proofs.BoxForest
import LineDiagram.Proofs.Frame
import LineDiagram.Proofs.Document
import LineDiagram.Proofs.NodeLabel
import LineDiagram.Proofs.Bracket
import LineDiagram.Proofs.EdgeLayout
import LineDiagram.Proofs.EdgeLabel
import LineDiagram.Proofs.EdgeView
import LineDiagram.Proofs.SingleLine
import LineDiagram.Proofs.DrawingLines
import LineDiagram.Proofs.BoxBlocks
import LineDiagram.Proofs.ScanOrder
import LineDiagram.Proofs.Outline
import LineDiagram.Proofs.NestRemoval
import LineDiagram.Proofs.BoxRemoval
import LineDiagram.Proofs.EdgeSides
import LineDiagram.Proofs.NodeRemoval
import LineDiagram.Proofs.WholeNumbers
import LineDiagram.Proofs.ColourForms
import LineDiagram.Proofs.SettingsBlock
import LineDiagram.Proofs.Membership
import LineDiagram.Proofs.Description
import LineDiagram.Proofs.SilentLines
import LineDiagram.Proofs.Statements
import LineDiagram.Proofs.BoxLabel
import LineDiagram.Proofs.DefinitionCut
import LineDiagram.Proofs.NodeStyle
import LineDiagram.Proofs.Integrity
import LineDiagram.Proofs.StyleView
import LineDiagram.Proofs.Ungrouping
import LineDiagram.Proofs.EdgeReading
import LineDiagram.Proofs.EdgeSelections
import LineDiagram.Proofs.EdgeBorder
import LineDiagram.Proofs.EdgeFields
import LineDiagram.Proofs.FreshNames
import LineDiagram.Proofs.WordLines
import LineDiagram.Proofs.NewLinks
import LineDiagram.Proofs.EdgeEnds
import LineDiagram.Proofs.KeyedChanges
import LineDiagram.Proofs.StyleEdits
import LineDiagram.Proofs.StyleReadback
import LineDiagram.Proofs.NodeDefinitions
import LineDiagram.Proofs.DefaultStyles
import LineDiagram.Proofs.SettingsRewrite
import LineDiagram.Proofs.BracketCut
import LineDiagram.Proofs.EdgeLines
import LineDiagram.Proofs.Elements
import LineDiagram.Proofs.QuotedStrings
import LineDiagram.Proofs.Slugs
import LineDiagram.Proofs.ScanInvariant
import LineDiagram.Proofs.Spellings
import LineDiagram.Proofs.LabelLines
import LineDiagram.Proofs.LineBreaks
