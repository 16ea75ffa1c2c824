import BlockLang.Archive
import BlockLang.Block.Basic
import BlockLang.Block.Fold
import BlockLang.Block.Layout
import BlockLang.Block.Logic
import BlockLang.Bytes.Crc32
import BlockLang.Bytes.Huffman
import BlockLang.Bytes.Inflate
import BlockLang.Bytes.Md5
import BlockLang.Bytes.Order
import BlockLang.Command.Build
import BlockLang.Command.Reach
import BlockLang.Command.Request
import BlockLang.Command.Run
import BlockLang.Command.Session
import BlockLang.Command.Starter
import BlockLang.Costume.Basic
import BlockLang.Costume.Load
import BlockLang.Diagnostic
import BlockLang.Document
import BlockLang.Fault
import BlockLang.Files.Disk
import BlockLang.Files.Glob
import BlockLang.Files.Memory
import BlockLang.Files.Source
import BlockLang.Graph.Document
import BlockLang.Graph.Flatten
import BlockLang.Graph.Record
import BlockLang.Image.Png.Chunk
import BlockLang.Image.Png.Header
import BlockLang.Image.Png.Pixels
import BlockLang.Image.Svg
import BlockLang.Image.Xml
import BlockLang.Include.Directive
import BlockLang.Include.Merge
import BlockLang.Include.Merged
import BlockLang.Macro.Expand
import BlockLang.Main
import BlockLang.Number.Binary
import BlockLang.Number.Decimal
import BlockLang.Number.Layout
import BlockLang.Number.Shortest
import BlockLang.Path
import BlockLang.Project.Basic
import BlockLang.Project.Compile
import BlockLang.Project.Document
import BlockLang.Project.Package
import BlockLang.Project.Progress
import BlockLang.Proofs.Block.Literals
import BlockLang.Proofs.Block.Logic
import BlockLang.Proofs.Block.Negation
import BlockLang.Proofs.Block.Parts
import BlockLang.Proofs.Block.Procedures
import BlockLang.Proofs.Block.Refs
import BlockLang.Proofs.Block.Run
import BlockLang.Proofs.Block.Shape
import BlockLang.Proofs.Block.Shells
import BlockLang.Proofs.Block.Tidy
import BlockLang.Proofs.Block.Truth
import BlockLang.Proofs.Costume.Center
import BlockLang.Proofs.Document.Members
import BlockLang.Proofs.Document.Texts
import BlockLang.Proofs.Except
import BlockLang.Proofs.Fault
import BlockLang.Proofs.Files.Memory
import BlockLang.Proofs.Files.Regex
import BlockLang.Proofs.Files.Search
import BlockLang.Proofs.Files.Segments
import BlockLang.Proofs.Files.Straight
import BlockLang.Proofs.Graph.Document
import BlockLang.Proofs.Graph.Flatten
import BlockLang.Proofs.Graph.Links
import BlockLang.Proofs.Graph.Slots
import BlockLang.Proofs.Graph.Tree
import BlockLang.Proofs.Include.Circular
import BlockLang.Proofs.Include.Copies
import BlockLang.Proofs.Include.Fails
import BlockLang.Proofs.Include.Locate
import BlockLang.Proofs.Include.Merge
import BlockLang.Proofs.Include.Points
import BlockLang.Proofs.Include.Tokens
import BlockLang.Proofs.Lookup
import BlockLang.Proofs.Macro.Becomes
import BlockLang.Proofs.Macro.Bind
import BlockLang.Proofs.Macro.Blame
import BlockLang.Proofs.Macro.CallByName
import BlockLang.Proofs.Macro.Expand
import BlockLang.Proofs.Macro.Expanded
import BlockLang.Proofs.Macro.Mention
import BlockLang.Proofs.Macro.Recursion
import BlockLang.Proofs.Macro.Refused
import BlockLang.Proofs.Macro.Spliced
import BlockLang.Proofs.Macro.Unfold
import BlockLang.Proofs.Number.Binary
import BlockLang.Proofs.Project.Compile
import BlockLang.Proofs.Project.Diagnosed
import BlockLang.Proofs.Project.Document
import BlockLang.Proofs.Project.Links
import BlockLang.Proofs.Project.Package
import BlockLang.Proofs.Project.Procedures
import BlockLang.Proofs.Project.Shadow
import BlockLang.Proofs.Project.Sprites
import BlockLang.Proofs.Project.Summary
import BlockLang.Proofs.Project.Trees
import BlockLang.Proofs.Prototype.Row
import BlockLang.Proofs.Sprite.Basic
import BlockLang.Proofs.Sprite.Blame
import BlockLang.Proofs.Sprite.Chain
import BlockLang.Proofs.Sprite.Comparison
import BlockLang.Proofs.Sprite.Compound
import BlockLang.Proofs.Sprite.Fill
import BlockLang.Proofs.Sprite.Forever
import BlockLang.Proofs.Sprite.Locals
import BlockLang.Proofs.Sprite.Procedures.Basic
import BlockLang.Proofs.Sprite.Procedures.Reporter
import BlockLang.Proofs.Sprite.Scope
import BlockLang.Proofs.Sprite.Script
import BlockLang.Proofs.Sprite.Shadow
import BlockLang.Proofs.Steps
import BlockLang.Proofs.Symbols.Blame
import BlockLang.Proofs.Symbols.Collect
import BlockLang.Proofs.Symbols.Declared
import BlockLang.Proofs.Symbols.Expand
import BlockLang.Proofs.Symbols.Functions
import BlockLang.Proofs.Symbols.Shared
import BlockLang.Proofs.Symbols.Tables
import BlockLang.Proofs.Text.Suggest
import BlockLang.Proofs.Token.Cover
import BlockLang.Proofs.Token.Lexer
import BlockLang.Proofs.Token.Numbers
import BlockLang.Proofs.Token.Positions
import BlockLang.Proofs.Token.Spacing
import BlockLang.Proofs.Token.Strings
import BlockLang.Proofs.Tree.Exprs
import BlockLang.Proofs.Tree.MadeOf
import BlockLang.Proofs.Tree.Names
import BlockLang.Proofs.Tree.Parser.Advance.Decl
import BlockLang.Proofs.Tree.Parser.Advance.Expr
import BlockLang.Proofs.Tree.Parser.Advance.Sprite
import BlockLang.Proofs.Tree.Parser.Decl
import BlockLang.Proofs.Tree.Parser.Expr
import BlockLang.Proofs.Tree.Parser.Reads
import BlockLang.Proofs.Tree.Parser.Stmt
import BlockLang.Proofs.Tree.Printed
import BlockLang.Proofs.Tree.Reread.Decl
import BlockLang.Proofs.Tree.Reread.Expr
import BlockLang.Proofs.Tree.Reread.Sprite
import BlockLang.Proofs.Tree.Reread.Stmt
import BlockLang.Prototype.Basic
import BlockLang.Prototype.Builtin
import BlockLang.Prototype.Row
import BlockLang.Rest
import BlockLang.Span
import BlockLang.Sprite.Basic
import BlockLang.Sprite.Reporter
import BlockLang.Sprite.Scope
import BlockLang.Sprite.Script
import BlockLang.Symbols.Basic
import BlockLang.Symbols.Collect
import BlockLang.Symbols.Mention
import BlockLang.Text.Blank
import BlockLang.Text.CaseTable
import BlockLang.Text.Distance
import BlockLang.Text.Lines
import BlockLang.Text.Lowercase
import BlockLang.Text.Quoted
import BlockLang.Text.Ranges
import BlockLang.Text.ShownTable
import BlockLang.Text.Utf8
import BlockLang.Token.Basic
import BlockLang.Token.Lexer
import BlockLang.Token.Literal
import BlockLang.Tree.Basic
import BlockLang.Tree.Parser.Decl
import BlockLang.Tree.Parser.Expr
import BlockLang.Tree.Parser.Lexeme
import BlockLang.Tree.Parser.Reads
import BlockLang.Tree.Parser.Stmt
import BlockLang.Tree.Substitution
import BlockLang.Vocabulary
