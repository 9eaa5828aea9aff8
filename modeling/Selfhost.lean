import Selfhost.Admin.Audit
import Selfhost.Admin.Invite
import Selfhost.Admin.Lemmas.Invite
import Selfhost.Admin.Theorems.Ended
import Selfhost.ConfigFile.Edit
import Selfhost.ConfigFile.Lemmas.Blocks
import Selfhost.ConfigFile.Lemmas.Lines
import Selfhost.ConfigFile.Lemmas.Plain
import Selfhost.ConfigFile.Lemmas.Rendered
import Selfhost.ConfigFile.Schema
import Selfhost.ConfigFile.Theorems.Added
import Selfhost.ConfigFile.Validate
import Selfhost.Converge.Lemmas.Ledger
import Selfhost.Converge.Loop
import Selfhost.Converge.Theorems.Escalation
import Selfhost.Desk.Codec
import Selfhost.Desk.Grant
import Selfhost.Desk.Lemmas.Drawing
import Selfhost.Desk.Lemmas.Held
import Selfhost.Desk.Lemmas.Picture
import Selfhost.Desk.Lemmas.Strokes
import Selfhost.Desk.Lemmas.Tiles
import Selfhost.Desk.Relay
import Selfhost.Desk.State
import Selfhost.Desk.Theorems.Budget
import Selfhost.Desk.Theorems.Codec
import Selfhost.Desk.Theorems.Cursor
import Selfhost.Desk.Theorems.Gate
import Selfhost.Desk.Theorems.Grant
import Selfhost.Desk.Theorems.Held
import Selfhost.Desk.Theorems.Picture
import Selfhost.Desk.Theorems.Relay
import Selfhost.Desk.Theorems.Tiles
import Selfhost.Desk.Tiles
import Selfhost.Desk.Viewer
import Selfhost.Desk.Wire
import Selfhost.Dns.Authority
import Selfhost.Dns.Cache
import Selfhost.Dns.Lemmas.Build
import Selfhost.Dns.Lemmas.Cache
import Selfhost.Dns.Lemmas.Held
import Selfhost.Dns.Lemmas.Message
import Selfhost.Dns.Lemmas.Name
import Selfhost.Dns.Lemmas.Resolve
import Selfhost.Dns.Lemmas.Text
import Selfhost.Dns.Server
import Selfhost.Dns.Theorems.Cache
import Selfhost.Dns.Theorems.Cached
import Selfhost.Dns.Theorems.Codec
import Selfhost.Dns.Theorems.Exchange
import Selfhost.Dns.Theorems.Fidelity
import Selfhost.Dns.Theorems.Follow
import Selfhost.Dns.Theorems.Horizon
import Selfhost.Dns.Theorems.Negative
import Selfhost.Dns.Theorems.ReadBack
import Selfhost.Dns.Theorems.Reply
import Selfhost.Dns.Theorems.Serials
import Selfhost.Dns.Theorems.Served
import Selfhost.Dns.Theorems.Specific
import Selfhost.Dns.Wire
import Selfhost.Dns.Zone
import Selfhost.Http.Client
import Selfhost.Http.Lemmas.Framing
import Selfhost.Http.Lemmas.Request
import Selfhost.Http.Request
import Selfhost.Http.Response
import Selfhost.Http.Theorems.Head
import Selfhost.Identity.Capability
import Selfhost.Identity.Email
import Selfhost.Identity.Lemmas.Registry
import Selfhost.Identity.Lemmas.Stored
import Selfhost.Identity.Name
import Selfhost.Identity.Policy
import Selfhost.Identity.Registry
import Selfhost.Identity.Theorems.Policy
import Selfhost.Identity.Theorems.Registry
import Selfhost.Identity.Theorems.Reload
import Selfhost.Json.Lemmas.RoundTrip
import Selfhost.Json.Parser
import Selfhost.Json.Value
import Selfhost.Lib.Base64Url
import Selfhost.Lib.Blanks
import Selfhost.Lib.Buffer
import Selfhost.Lib.Cached
import Selfhost.Lib.Fallible
import Selfhost.Lib.Forest
import Selfhost.Lib.Ip
import Selfhost.Lib.Machine
import Selfhost.Lib.Raster
import Selfhost.Lib.Run
import Selfhost.Lib.Scan
import Selfhost.Lib.Slice
import Selfhost.Lib.Stream
import Selfhost.Lib.Toml
import Selfhost.Login.Lemmas.Session
import Selfhost.Login.Session
import Selfhost.Mail.Client
import Selfhost.Mail.Dkim
import Selfhost.Mail.Folder
import Selfhost.Mail.Imap
import Selfhost.Mail.Inbound
import Selfhost.Mail.Lemmas.Address
import Selfhost.Mail.Lemmas.Client
import Selfhost.Mail.Lemmas.Content
import Selfhost.Mail.Lemmas.Mime
import Selfhost.Mail.Lemmas.Outbound
import Selfhost.Mail.Lemmas.Receive
import Selfhost.Mail.Lemmas.Smtp
import Selfhost.Mail.Lemmas.Stuffing
import Selfhost.Mail.Mailboxes
import Selfhost.Mail.Maildir
import Selfhost.Mail.Mime
import Selfhost.Mail.Outbound
import Selfhost.Mail.Receive
import Selfhost.Mail.Smtp
import Selfhost.Mail.Store
import Selfhost.Mail.Theorems.Buffers
import Selfhost.Mail.Theorems.Delivery
import Selfhost.Mail.Theorems.Exchanger
import Selfhost.Mail.Theorems.Mailboxes
import Selfhost.Mail.Theorems.Mime
import Selfhost.Mail.Theorems.Outbound
import Selfhost.Mail.Theorems.Panic
import Selfhost.Mail.Theorems.Relay
import Selfhost.Mail.Theorems.Smuggling
import Selfhost.Mail.Theorems.Uids
import Selfhost.Mail.Wbxml
import Selfhost.Mesh.Channel
import Selfhost.Mesh.Credit
import Selfhost.Mesh.Enroll
import Selfhost.Mesh.Mux
import Selfhost.Mesh.Registry
import Selfhost.Mesh.Splice
import Selfhost.Mesh.Theorems.Accept
import Selfhost.Mesh.Theorems.Channel
import Selfhost.Mesh.Theorems.Credit
import Selfhost.Mesh.Theorems.Enroll
import Selfhost.Mesh.Theorems.Link
import Selfhost.Mesh.Theorems.Mux
import Selfhost.Mesh.Theorems.Splice
import Selfhost.Proxy.Dispatch
import Selfhost.Proxy.Forward
import Selfhost.Proxy.Lemmas.Dispatch
import Selfhost.Proxy.Lemmas.Forward
import Selfhost.Proxy.Lemmas.Written
import Selfhost.Proxy.Theorems.Connection
import Selfhost.Proxy.Theorems.Forward
import Selfhost.Proxy.Upstream
import Selfhost.Storage.Dav
import Selfhost.Storage.Fs
import Selfhost.Storage.Ledger
import Selfhost.Storage.Lemmas.Bookkeeping
import Selfhost.Storage.Lemmas.Copy
import Selfhost.Storage.Lemmas.Frame
import Selfhost.Storage.Lemmas.Fs
import Selfhost.Storage.Lemmas.Ledger
import Selfhost.Storage.Lemmas.Locks
import Selfhost.Storage.Lemmas.Measure
import Selfhost.Storage.Lemmas.Receive
import Selfhost.Storage.Lemmas.Requests
import Selfhost.Storage.Lemmas.Resolve
import Selfhost.Storage.Lemmas.Shares
import Selfhost.Storage.Lemmas.Transfer
import Selfhost.Storage.Lemmas.Uploads
import Selfhost.Storage.Locks
import Selfhost.Storage.Path
import Selfhost.Storage.Quota
import Selfhost.Storage.Sessions
import Selfhost.Storage.Theorems.Locks
import Selfhost.Storage.Theorems.Path
import Selfhost.Storage.Theorems.Sessions
import Selfhost.Storage.Theorems.Uploads
import Selfhost.Storage.Uploads
import Selfhost.Storage.Volume
import Selfhost.Supervisor.Lemmas.Services
import Selfhost.Supervisor.Logs
import Selfhost.Supervisor.Task
import Selfhost.Supervisor.Theorems.CrashLoop
import Selfhost.Supervisor.Theorems.Logs
import Selfhost.Supervisor.Theorems.Processes
import Selfhost.Supervisor.Theorems.States
import Selfhost.Webauthn.Lemmas.Stores
import Selfhost.Webauthn.Stores
import Selfhost.Webauthn.Theorems.Stores
import Selfhost.Ws.Duplex
import Selfhost.Ws.Frame
import Selfhost.Ws.Lemmas.Frame
import Selfhost.Ws.Theorems.Stream
import Selfhost.Ws.Theorems.Codec
