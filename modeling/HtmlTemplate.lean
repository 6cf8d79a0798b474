import HtmlTemplate.Main
import HtmlTemplate.Proofs.Grammar
import HtmlTemplate.Proofs.Meaning
import HtmlTemplate.Proofs.References
import HtmlTemplate.Proofs.RoundTrip
import HtmlTemplate.Proofs.Lexed
import HtmlTemplate.Proofs.Plain
import HtmlTemplate.Proofs.Mentions
import HtmlTemplate.Proofs.Access
import HtmlTemplate.Proofs.Confinement
import HtmlTemplate.Proofs.Limits
import HtmlTemplate.Proofs.Failing
import HtmlTemplate.Proofs.Origins
import HtmlTemplate.Proofs.Blame
import HtmlTemplate.Proofs.Cycles
import HtmlTemplate.Proofs.Encoded
import HtmlTemplate.Proofs.Slots
import HtmlTemplate.Proofs.Hidden
import HtmlTemplate.Proofs.Openings
import HtmlTemplate.Proofs.Inserted
import HtmlTemplate.Proofs.Settling
import HtmlTemplate.Proofs.Legible
import HtmlTemplate.Proofs.Rereading
import HtmlTemplate.Proofs.Siblings
import HtmlTemplate.Proofs.Leftmost
import HtmlTemplate.Proofs.Spans
import HtmlTemplate.Proofs.Output
import HtmlTemplate.Proofs.Spellings
import HtmlTemplate.Proofs.Growing
import HtmlTemplate.Proofs.RawText
import HtmlTemplate.Proofs.JsonValues
import HtmlTemplate.Proofs.Occurrences
import HtmlTemplate.Proofs.Resolution
import HtmlTemplate.Proofs.Forwarding
import HtmlTemplate.Proofs.Headers
import HtmlTemplate.Proofs.Chains
import HtmlTemplate.Proofs.Finished
import HtmlTemplate.Proofs.Rendering
import HtmlTemplate.Proofs.Tokens
import HtmlTemplate.Proofs.NewDirectories
import HtmlTemplate.Proofs.SampleProject
