import LiveMarkup.Demo.Log
import LiveMarkup.Main
import LiveMarkup.Markup.Progress
import LiveMarkup.Proofs.Accepting
import LiveMarkup.Proofs.Accounts
import LiveMarkup.Proofs.Accounting
import LiveMarkup.Proofs.Drawing
import LiveMarkup.Proofs.Telling
import LiveMarkup.Proofs.Destruction
import LiveMarkup.Proofs.Caching
import LiveMarkup.Proofs.Tracking
import LiveMarkup.Proofs.Nesting
import LiveMarkup.Proofs.Traversal
import LiveMarkup.Proofs.Renders
import LiveMarkup.Proofs.Attribution
import LiveMarkup.Proofs.Balance
import LiveMarkup.Proofs.Binding
import LiveMarkup.Proofs.Bubbling
import LiveMarkup.Proofs.Eager
import LiveMarkup.Proofs.Emission
import LiveMarkup.Proofs.Sheltering
import LiveMarkup.Proofs.Preorder
import LiveMarkup.Proofs.Building
import LiveMarkup.Proofs.Cascade
import LiveMarkup.Proofs.Chains
import LiveMarkup.Proofs.Climbing
import LiveMarkup.Proofs.Conduct
import LiveMarkup.Proofs.Consistency
import LiveMarkup.Proofs.Contents
import LiveMarkup.Proofs.Decoding
import LiveMarkup.Proofs.Decomposing
import LiveMarkup.Proofs.Demonstration
import LiveMarkup.Proofs.Directives
import LiveMarkup.Proofs.Display
import LiveMarkup.Proofs.Displaying
import LiveMarkup.Proofs.Edits
import LiveMarkup.Proofs.Embedding
import LiveMarkup.Proofs.Enclosing
import LiveMarkup.Proofs.Establishing
import LiveMarkup.Proofs.Escaping
import LiveMarkup.Proofs.Exactness
import LiveMarkup.Proofs.Finality
import LiveMarkup.Proofs.Forms
import LiveMarkup.Proofs.HostMarkup
import LiveMarkup.Proofs.Incremental
import LiveMarkup.Proofs.Injection
import LiveMarkup.Proofs.Interchange
import LiveMarkup.Proofs.Lasting
import LiveMarkup.Proofs.Later
import LiveMarkup.Proofs.Lawful
import LiveMarkup.Proofs.Lexemes
import LiveMarkup.Proofs.Lifetime
import LiveMarkup.Proofs.Moving
import LiveMarkup.Proofs.Normal
import LiveMarkup.Proofs.Notification
import LiveMarkup.Proofs.NumericInput
import LiveMarkup.Proofs.Observation
import LiveMarkup.Proofs.Orderly
import LiveMarkup.Proofs.Parsing
import LiveMarkup.Proofs.Playing
import LiveMarkup.Proofs.Primitive
import LiveMarkup.Proofs.Privacy
import LiveMarkup.Proofs.Readers
import LiveMarkup.Proofs.Rearranging
import LiveMarkup.Proofs.Recounting
import LiveMarkup.Proofs.References
import LiveMarkup.Proofs.Refusals
import LiveMarkup.Proofs.Rendering
import LiveMarkup.Proofs.RoundTrip
import LiveMarkup.Proofs.Running
import LiveMarkup.Proofs.Scanning
import LiveMarkup.Proofs.Secluded
import LiveMarkup.Proofs.Settled
import LiveMarkup.Proofs.Skeleton
import LiveMarkup.Proofs.Spelling
import LiveMarkup.Proofs.Staging
import LiveMarkup.Proofs.Standing
import LiveMarkup.Proofs.Stories
import LiveMarkup.Proofs.Subscription
import LiveMarkup.Proofs.Surviving
import LiveMarkup.Proofs.Trace
import LiveMarkup.Proofs.Undisturbed
import LiveMarkup.Proofs.Unseen
import LiveMarkup.Proofs.Writes
