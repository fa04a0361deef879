import AnimeFeedFlux.Auth.Backoff
import AnimeFeedFlux.Auth.OneTime
import AnimeFeedFlux.Auth.RecoveryCodes
import AnimeFeedFlux.Auth.ResetTokens
import AnimeFeedFlux.Auth.Revocation
import AnimeFeedFlux.Auth.Scope
import AnimeFeedFlux.Generate.Excerpt
import AnimeFeedFlux.Ops.Backups
import AnimeFeedFlux.Ops.Offsite
import AnimeFeedFlux.Ops.Retention
import AnimeFeedFlux.Publish.Aliases
import AnimeFeedFlux.Publish.Conditional
import AnimeFeedFlux.Publish.ReadModel
import AnimeFeedFlux.Publish.Window
import AnimeFeedFlux.Publishing.DeadAnchors
import AnimeFeedFlux.Publishing.EditStamps
import AnimeFeedFlux.Publishing.Edits
import AnimeFeedFlux.Publishing.Links
import AnimeFeedFlux.Publishing.Preview
import AnimeFeedFlux.Publishing.Slugs
import AnimeFeedFlux.Publishing.Spoilers
import AnimeFeedFlux.Publishing.UndoLog
import AnimeFeedFlux.Publishing.Versions
import AnimeFeedFlux.Rpc.Recipe
import AnimeFeedFlux.Sanitize.Nesting
import AnimeFeedFlux.Schedule.Displayed
import AnimeFeedFlux.Schedule.Fields
import AnimeFeedFlux.Schedule.Liveness
import AnimeFeedFlux.Schedule.Shutdown
import AnimeFeedFlux.Sources.Guard
import AnimeFeedFlux.Store.Lifecycle
import AnimeFeedFlux.Store.Promotion
import AnimeFeedFlux.Store.SingleFlight
import AnimeFeedFlux.Web.Connection
import AnimeFeedFlux.Web.Diff
import AnimeFeedFlux.Web.OpenAndSave
import AnimeFeedFlux.Wire.AutoDisable
import AnimeFeedFlux.Wire.Embeddings
import AnimeFeedFlux.Wire.SpendGate
import AnimeFeedFlux.Wire.SpendRecord
