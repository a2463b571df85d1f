import OpencodeA2a.Client.Outbound
import OpencodeA2a.Client.Polling
import OpencodeA2a.Execution.Aborts
import OpencodeA2a.Execution.BindingKeys
import OpencodeA2a.Execution.InputParts
import OpencodeA2a.Execution.InterruptStatuses
import OpencodeA2a.Execution.Metrics
import OpencodeA2a.Execution.Persistence
import OpencodeA2a.Execution.Sequences
import OpencodeA2a.Execution.StreamTask
import OpencodeA2a.Execution.Turns
import OpencodeA2a.Extension.Authorisation
import OpencodeA2a.Extension.ClaimBracket
import OpencodeA2a.Extension.Confinement
import OpencodeA2a.Extension.Escapes
import OpencodeA2a.Extension.Results
import OpencodeA2a.Extension.ShellAudit
import OpencodeA2a.Extension.UpstreamBudget
import OpencodeA2a.Jsonrpc.CallbackAuthorisation
import OpencodeA2a.Jsonrpc.NestedRedaction
import OpencodeA2a.Jsonrpc.StreamErrors
import OpencodeA2a.Redact.RemoteUrls
import OpencodeA2a.Server.BorrowedClients
import OpencodeA2a.Server.MetadataExposure
import OpencodeA2a.Server.ModeDurability
import OpencodeA2a.Server.OutputFiltering
import OpencodeA2a.Server.StreamArtifacts
import OpencodeA2a.Server.StreamBudgets
import OpencodeA2a.Server.StructMetadata
import OpencodeA2a.Server.Traffic
import OpencodeA2a.Session.Failures
import OpencodeA2a.Session.OwnClaims
import OpencodeA2a.Store.Retention
import OpencodeA2a.Store.SchemaMigration
import OpencodeA2a.Store.TtlCaches
import OpencodeA2a.Stream.EventDecoding
