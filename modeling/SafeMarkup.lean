import SafeMarkup.Value.Describe
import SafeMarkup.Writer.Describe
import SafeMarkup.Proofs.EscapedText
import SafeMarkup.Proofs.HtmlEscape
import SafeMarkup.Proofs.Containment
import SafeMarkup.Proofs.Runs
import SafeMarkup.Proofs.Cuts
import SafeMarkup.Proofs.EndTags
import SafeMarkup.Proofs.Reread
import SafeMarkup.Proofs.Replacement
import SafeMarkup.Proofs.AddedQuotes
import SafeMarkup.Proofs.SelfDescription
import SafeMarkup.Proofs.Coherence
import SafeMarkup.Proofs.Regions
import SafeMarkup.Proofs.UrlText
import SafeMarkup.Proofs.UrlScheme
import SafeMarkup.Proofs.Template
import SafeMarkup.Proofs.HeldShapes
import SafeMarkup.Proofs.HeldMarkup
import SafeMarkup.Proofs.SlashAfterValue
import SafeMarkup.Proofs.CommentEnd
import SafeMarkup.Proofs.CommentValues
import SafeMarkup.Proofs.Copying
import SafeMarkup.Proofs.MemoryLimit
import SafeMarkup.Proofs.Closing
import SafeMarkup.Proofs.OpenReference
import SafeMarkup.Proofs.BytePositions
import SafeMarkup.Proofs.ReferenceGrammar
import SafeMarkup.Proofs.JsPattern
import SafeMarkup.Proofs.CssUnescape
import SafeMarkup.Proofs.JsUnescape
import SafeMarkup.Proofs.UrlDecode
import SafeMarkup.Proofs.LiteralEnds
import SafeMarkup.Proofs.NormalForm
import SafeMarkup.Proofs.FieldOrder
import SafeMarkup.Proofs.TagNames
import SafeMarkup.Proofs.AttrNames
import SafeMarkup.Proofs.Refusals
import SafeMarkup.Proofs.Flushing
import SafeMarkup.Proofs.MemoryAccount
import SafeMarkup.Proofs.SinkFailures
import SafeMarkup.Proofs.ClosedWriter
import SafeMarkup.Proofs.Transcoding
import SafeMarkup.Proofs.JsBlanks
import SafeMarkup.Proofs.Keywords
import SafeMarkup.Proofs.UrlForms
