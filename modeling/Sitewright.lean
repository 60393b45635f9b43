import Sitewright.Binary64.Arithmetic
import Sitewright.Binary64.Basic
import Sitewright.Binary64.Read
import Sitewright.Binary64.Shortest
import Sitewright.Calendar.Date
import Sitewright.Calendar.Iso
import Sitewright.Calendar.Moment
import Sitewright.Catalog
import Sitewright.Child
import Sitewright.CodeStyle
import Sitewright.CommandLine
import Sitewright.Component.Markup
import Sitewright.Component.Registry
import Sitewright.Config
import Sitewright.Digest
import Sitewright.Fence
import Sitewright.FileTree
import Sitewright.Fragment
import Sitewright.Header
import Sitewright.Hypermedia
import Sitewright.Layouts
import Sitewright.Lineage
import Sitewright.Main
import Sitewright.Markdown.Block
import Sitewright.Markdown.Compile
import Sitewright.Markdown.Element
import Sitewright.Markdown.Emphasis
import Sitewright.Markdown.FencedCode
import Sitewright.Markdown.Highlight
import Sitewright.Markdown.Html
import Sitewright.Markdown.Inline
import Sitewright.Markdown.Kept
import Sitewright.Markdown.Layout
import Sitewright.Markdown.Link
import Sitewright.Markdown.Mark
import Sitewright.Markdown.RawHtml
import Sitewright.Markdown.Reference
import Sitewright.Markdown.Source
import Sitewright.Markdown.Table
import Sitewright.Markdown.Tag
import Sitewright.Navigation
import Sitewright.Page
import Sitewright.Path
import Sitewright.Place
import Sitewright.Proofs.Lineage
import Sitewright.Proofs.Ordering
import Sitewright.Proofs.Tree
import Sitewright.RawBlock
import Sitewright.Reading
import Sitewright.Shield
import Sitewright.Site.Build
import Sitewright.Site.Document
import Sitewright.Site.Index
import Sitewright.Site.Render
import Sitewright.Sitemap
import Sitewright.Slug
import Sitewright.Template
import Sitewright.Text.Base64
import Sitewright.Text.Basic
import Sitewright.Text.Blank
import Sitewright.Text.Casing
import Sitewright.Text.Digit
import Sitewright.Text.EntityName
import Sitewright.Text.Escape
import Sitewright.Text.Lines
import Sitewright.Text.Number
import Sitewright.Text.Printable
import Sitewright.Text.Quoted
import Sitewright.Text.Ranges
import Sitewright.Text.Scan
import Sitewright.Text.Word
import Sitewright.Tree
import Sitewright.Value
import Sitewright.Yaml.Cursor
import Sitewright.Yaml.Load
import Sitewright.Yaml.Node
import Sitewright.Yaml.Number
import Sitewright.Yaml.Scalar
import Sitewright.Yaml.Tag
import Sitewright.Yaml.Timestamp
import Sitewright.Yaml.Token
import Sitewright.Proofs.Result
import Sitewright.Proofs.Scan
import Sitewright.Proofs.Escape
import Sitewright.Proofs.Link
import Sitewright.Proofs.Region
import Sitewright.Proofs.Token
import Sitewright.Proofs.Segments
import Sitewright.Proofs.Masking
import Sitewright.Proofs.TokenScan
import Sitewright.Proofs.Restoring
import Sitewright.Proofs.Mark
import Sitewright.Proofs.Recovery
import Sitewright.Proofs.Rewriting
import Sitewright.Proofs.BlockMark
import Sitewright.Proofs.InlineMark
import Sitewright.Proofs.LayoutMark
import Sitewright.Proofs.KeptMark
import Sitewright.Proofs.RawHtmlScan
import Sitewright.Proofs.Prose
import Sitewright.Proofs.Source
import Sitewright.Proofs.Compile
import Sitewright.Proofs.Association
import Sitewright.Proofs.Catalog
import Sitewright.Proofs.Index
import Sitewright.Proofs.Splitting
import Sitewright.Proofs.Place
import Sitewright.Proofs.Path
import Sitewright.Proofs.FileTree
import Sitewright.Proofs.Build
import Sitewright.Proofs.Slug
import Sitewright.Proofs.Listing
import Sitewright.Proofs.Hypermedia
import Sitewright.Proofs.LinkAttribute
import Sitewright.Proofs.LinkElement
import Sitewright.Proofs.LinkRequest
import Sitewright.Proofs.LinkTag
import Sitewright.Proofs.CodeToken
import Sitewright.Proofs.Placeholder
import Sitewright.Proofs.Template
import Sitewright.Proofs.Yaml.Reading
import Sitewright.Proofs.Yaml.Load
import Sitewright.Proofs.Header
import Sitewright.Proofs.Directive
import Sitewright.Proofs.RegionLocal
import Sitewright.Proofs.ChildListing
import Sitewright.Proofs.Expansion
import Sitewright.Proofs.StoredListing
import Sitewright.Proofs.Confinement
import Sitewright.Proofs.Address
import Sitewright.Proofs.CodeSign
import Sitewright.Proofs.LinkSign
import Sitewright.Proofs.CalmHtml
import Sitewright.Proofs.CodeHtml
import Sitewright.Proofs.CodeTree
import Sitewright.Proofs.BracketFree
import Sitewright.Proofs.BlockText
import Sitewright.Proofs.BlockCode
import Sitewright.Proofs.InlineCode
import Sitewright.Proofs.LinkInCode
import Sitewright.Proofs.Trail
import Sitewright.Proofs.Cycle
import Sitewright.Proofs.Reordering
import Sitewright.Proofs.PageFields
import Sitewright.Proofs.Blame
import Sitewright.Proofs.Loading
import Sitewright.Proofs.Validation
import Sitewright.Proofs.Agreement
import Sitewright.Proofs.Unlisted
import Sitewright.Proofs.Number
import Sitewright.Proofs.Iso
import Sitewright.Proofs.Json
import Sitewright.Proofs.CatalogFile
import Sitewright.Proofs.Component
import Sitewright.Proofs.ChildOrder
import Sitewright.Proofs.FenceOutline
import Sitewright.Proofs.DirectiveLines
import Sitewright.Proofs.KeptRun
import Sitewright.Proofs.Labelling
import Sitewright.Proofs.BlockTag
import Sitewright.Proofs.FencedBlock
import Sitewright.Proofs.BlockLabel
import Sitewright.Proofs.ActiveLink
import Sitewright.Proofs.UtcDay
import Sitewright.Proofs.Writable
import Sitewright.Proofs.PageFailure
import Sitewright.Proofs.Settings
import Sitewright.Proofs.HeaderBody
import Sitewright.Proofs.FreshSlug
import Sitewright.Proofs.Identifier
import Sitewright.Proofs.FreshPage
import Sitewright.Proofs.ForeignToken
import Sitewright.Proofs.MarkupReading
import Sitewright.Proofs.SitemapReading
import Sitewright.Proofs.DayNumber
import Sitewright.Proofs.HeaderDay
import Sitewright.Proofs.Rereading
import Sitewright.Proofs.MomentText
import Sitewright.Proofs.InstantDay
import Sitewright.Proofs.SlugRuns
import Sitewright.Proofs.Interleaving
import Sitewright.Proofs.Remasking
