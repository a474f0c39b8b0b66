import SeapathWebui.Foundation.Transition
import SeapathWebui.Foundation.Threads
import SeapathWebui.Foundation.Dict
import SeapathWebui.Foundation.Text
import SeapathWebui.Foundation.Decimal
import SeapathWebui.Foundation.Ranges
import SeapathWebui.Foundation.Lines
import SeapathWebui.Runs.Models
import SeapathWebui.Runs.Store
import SeapathWebui.Runs.Service
import SeapathWebui.Runs.Lifecycle
import SeapathWebui.Runs.Progress
import SeapathWebui.Runs.Tally
import SeapathWebui.Runs.Reduction
import SeapathWebui.Runs.LockSafety
import SeapathWebui.Runs.History
import SeapathWebui.Runs.Exits
import SeapathWebui.Runs.Recovery
import SeapathWebui.Inventory.CommandLines
import SeapathWebui.Inventory.Concurrent
import SeapathWebui.Inventory.FailedWrites
import SeapathWebui.Foundation.Value
import SeapathWebui.Inventory.Model
import SeapathWebui.Inventory.Renderer
import SeapathWebui.Inventory.Parser
import SeapathWebui.Inventory.RoundTrip
import SeapathWebui.Inventory.Stability
import SeapathWebui.Inventory.Adoption
import SeapathWebui.Foundation.IpAddress
import SeapathWebui.Inventory.Shadowing
import SeapathWebui.Inventory.Patch
import SeapathWebui.Inventory.Agreement
import SeapathWebui.Hosts.Reading
import SeapathWebui.Inventory.Discovery
import SeapathWebui.Inventory.CpuLists
import SeapathWebui.Hosts.Cpu
import SeapathWebui.Inventory.Isolation
import SeapathWebui.Inventory.Validation
import SeapathWebui.Inventory.Rules
import SeapathWebui.Inventory.IsolatedChunks
import SeapathWebui.Inventory.Addresses
import SeapathWebui.Inventory.Service
import SeapathWebui.Inventory.Validity
import SeapathWebui.Inventory.AuditTrail
import SeapathWebui.Inventory.Preview
import SeapathWebui.Inventory.GitLog
import SeapathWebui.Runs.Catalogue
import SeapathWebui.Runs.Launch
import SeapathWebui.Runs.Trace
import SeapathWebui.Inventory.Readable
import SeapathWebui.Runs.BrokenFiles
import SeapathWebui.Trust.AuthorizedKeys
import SeapathWebui.Trust.Revocation
import SeapathWebui.Trust.SelfTrust
import SeapathWebui.Runs.EventStream
import SeapathWebui.Runs.Resume
import SeapathWebui.Runs.Verdict
import SeapathWebui.Core.Sessions
import SeapathWebui.Core.Security
import SeapathWebui.Foundation.Files
import SeapathWebui.Trust.Keys
import SeapathWebui.Trust.Provisioning
import SeapathWebui.Trust.TrustView
import SeapathWebui.Trust.Generation
import SeapathWebui.Trust.KnownHosts
import SeapathWebui.Runs.Reconcile
import SeapathWebui.Hosts.Local
import SeapathWebui.Core.Bootstrap
import SeapathWebui.Foundation.Raising
import SeapathWebui.Inventory.Roles
import SeapathWebui.Hosts.Disks
import SeapathWebui.Runs.Variables
import SeapathWebui.Core.HostileHeaders
import SeapathWebui.Foundation.FixedWidth
import SeapathWebui.Runs.Recent
import SeapathWebui.Inventory.CpuChunks
import SeapathWebui.Foundation.Hexadecimal
import SeapathWebui.Hosts.Routes
import SeapathWebui.Runs.Relaunch
import SeapathWebui.Foundation.Assignments
import SeapathWebui.Core.Audit
import SeapathWebui.Foundation.Doubles
import SeapathWebui.Ui.NodeForm
import SeapathWebui.Foundation.Trimming
import SeapathWebui.Runs.Adapter
import SeapathWebui.Runs.Cancel
import SeapathWebui.Runs.Cancelled
import SeapathWebui.Foundation.Replace
import SeapathWebui.Trust.Replacing
import SeapathWebui.Foundation.WriteOnce
import SeapathWebui.Core.Tls
import SeapathWebui.Foundation.Potential
import SeapathWebui.Runs.Rest
import SeapathWebui.Core.Accounts
import SeapathWebui.Core.Server
import SeapathWebui.Ui.Pages
import SeapathWebui.Ui.Submission
import SeapathWebui.Ui.Saving
import SeapathWebui.Foundation.EventSource
import SeapathWebui.Runs.Wire
import SeapathWebui.Ui.RunPage
