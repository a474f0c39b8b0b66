/-
  Ui/Pages.lean --- configuration pages open on one node.

  Source: `loadInventory` and `save` of app/ui/static/setup.js, the elements of
  app/ui/templates/setup.html, and `patch_host` of app/api/v1/inventory.py.

  Pages are open side by side, each with the inventory and the commit it was answered when it
  last loaded.  A save sends what reads differently from that inventory, and the commit; the
  server puts it into the inventory of the file, and refuses where HEAD is another commit.
  Other clients write in between.  A request is one step: the runs are those in which the server
  answers one request at a time (a write that is alone is `commit`, `write_alone`), and what its
  threads may do to one another is in Inventory/Concurrent.lean.
-/
import SeapathWebui.Inventory.Agreement
import SeapathWebui.Inventory.FailedWrites
import SeapathWebui.Inventory.Service
import SeapathWebui.Ui.NodeForm

set_option autoImplicit false

namespace SeapathWebui.Ui

open SeapathWebui.Foundation SeapathWebui.Inventory

/-! ## The request -/

/-- The name of a field in the inventory, and of its element. -/
def Field.name : Field → String
  | .ansibleHost => "ansible_host"
  | .networkInterface => "network_interface"
  | .subnet => "subnet"
  | .gatewayAddr => "gateway_addr"
  | .dnsServers => "dns_servers"
  | .ptpInterface => "ptp_interface"
  | .ptpDomainNumber => "ptp_domain_number"
  | .ntpServers => "ntp_servers"
  | .adminUser => "admin_user"
  | .isolcpus => "isolcpus"

/-- `type="number"` with its `min` and `max`: the whole numbers between them. -/
def inRange (low high : Int) (raw : String) : Bool :=
  match Double.readNumber (trim raw).toList with
  | .finite q => q.den = 1 && low ≤ q.num && q.num ≤ high
  | .infinite _ | .nan => false

/-- The elements let the form be submitted. -/
def submittable (form : Form) : Bool :=
  form .ansibleHost ≠ "" && form .networkInterface ≠ "" && inRange 1 32 (form .subnet) &&
    (trim (form .ptpDomainNumber) = "" || inRange 0 255 (form .ptpDomainNumber))

/-- A value of the body, as the server has it.  A number of a form that could be submitted is
whole. -/
def FieldValue.toValue : FieldValue → Value
  | .null => .null
  | .text s => .str s
  | .list items => ofTexts items
  | .number (.finite q) => .scalar (.int q.num)
  | .number (.infinite _) | .number .nan => .null

/-- What `patch_host` changes: the values of the body, and the password as `hash_password` made
it. -/
def HostPatch.values (patch : HostPatch) (hashed : String) : Dict String Value :=
  let changes := Dict.ofList (patch.changes.map fun change => (change.1.name, change.2.toValue))
  match patch.grubPasswordPlain with
  | none | some "" => changes
  | some _ => changes.set "grub_password" (.str hashed)

/-! ## Pages -/

/-- `state` of a page that has loaded an inventory. -/
structure Shown where
  inventory : Inventory
  commit : Option Hash
  host : String

/-- A page, and what its elements read. -/
structure Page where
  shown : Option Shown := none
  form : Form := fun _ => ""
  /-- `grub_password_plain` -/
  password : String := ""

/-- `save`: the host, the commit and the body of the request, if there is one. -/
def Page.request (page : Page) : Option (Shown × HostPatch) := do
  let shown ← page.shown
  let node ← shown.inventory.hosts.get? shown.host
  if submittable page.form then
    let patch ← (save node page.form page.password).toOption
    some (shown, patch)
  else none

variable (rt : Runtime)

/-- `patch_host`: the document that it hands to the repository, if it comes to that. -/
def patchedDocument (repo : Repo) (f : Faults) (host : String) (changes : Dict String Value) :
    Option Value := do
  let answer ← (state rt repo f.revParse).toOption
  let stored ← answer.inventory
  -- an inventory of a cluster is not rendered
  if stored.mode = .standalone then patchHost rt stored host changes else none

/-- What comes to a request from elsewhere: who is logged in, the message of the commit, the
hash of the password, and what git makes of it. -/
structure SaveCall where
  author : String
  message : String
  hashed : String
  hash : Hash
  faults : Faults := {}

namespace Page

variable (page : Page) (repo : Repo) (call : SaveCall)

/-- The document that a save writes. -/
def document : Option Value := do
  let (shown, patch) ← page.request
  patchedDocument rt repo call.faults shown.host (patch.values call.hashed)

/-- The arguments that a save calls `commit` with.  `If-Match` is the commit of the page. -/
def writeRequest : Option WriteRequest := do
  let shown ← page.shown
  let document ← page.document rt repo call
  some
    { content := documentText rt document
      message := call.message
      author := call.author
      expectedHead := some (shown.commit.getD "") }

/-- What a save comes to in the repository. -/
def operation : Option Operation :=
  (page.writeRequest rt repo call).map fun q => .commit q call.hash call.faults

end Page

/-! ## The site -/

/-- The repository of the node, and the pages. -/
structure Site where
  repo : Repo
  pages : Nat → Page

/-- The node with pages that have loaded nothing yet. -/
def Site.boot (repo : Repo) : Site where
  repo := repo
  pages := fun _ => {}

def Site.setPage (s : Site) (p : Nat) (page : Page) : Site :=
  { s with pages := Function.update s.pages p page }

@[simp] theorem Site.pages_setPage (s : Site) (p : Nat) (page : Page) :
    (s.setPage p page).pages p = page := Function.update_self ..

@[simp] theorem Site.setPage_setPage (s : Site) (p : Nat) (page page' : Page) :
    (s.setPage p page).setPage p page' = s.setPage p page' := by
  simp [Site.setPage]

inductive SiteLabel
  /-- `loadInventory`; `host` is the key that the browser has first, if there is one -/
  | load (p : Nat) (host : Option String) (revParseFails : Bool)
  /-- a field is edited -/
  | edit (p : Nat) (field : Field) (value : String)
  /-- a password is typed -/
  | password (p : Nat) (text : String)
  | save (p : Nat) (call : SaveCall)
  /-- any other call of `commit` or `revert` -/
  | write (op : Operation)

variable (seen : Nat → List InterfaceCandidate)

/-- `loadInventory` of a page, from what `GET /inventory` answered. -/
def Page.load (page : Page) (interfaces : List InterfaceCandidate) (answer : InventoryState)
    (host : Option String) : Option Page :=
  match answer.inventory with
  | none => some page
  | some inventory =>
      match host with
      | none => if inventory.hosts.keys = [] then some { page with shown := none } else none
      | some host => (inventory.hosts.get? host).map fun node =>
          { page with
            shown := some ⟨inventory, answer.commit, host⟩
            form := writeForm interfaces node }

/-- The page after its save was answered. -/
def Page.answered (page : Page) (result : Except RepoError (Option Commit)) : Page :=
  match result with
  | .ok _ => { page with password := "" }
  | .error _ => page

/-- What a step does in the repository. -/
def Site.operation (s : Site) : SiteLabel → Option Operation
  | .save p call => (s.pages p).operation rt s.repo call
  | .write op => some op
  | .load _ _ _ | .edit _ _ _ | .password _ _ => none

/-- One step, a request and its answer together.  `seen p` are the interfaces that page `p` has
discovered. -/
def siteStep (s : Site) : SiteLabel → Option Site
  | .load p host revParseFails =>
      match state rt s.repo revParseFails with
      | .error _ => some s
      | .ok answer => ((s.pages p).load (seen p) answer host).map (s.setPage p)
  | .edit p field value =>
      let page := s.pages p
      some (s.setPage p { page with
        form := Function.update page.form field ((element (seen p) field).reads value) })
  | .password p text => some (s.setPage p { s.pages p with password := text })
  | .save p call =>
      match (s.pages p).operation rt s.repo call with
      | none => some s
      | some op => (op.step s.repo).map fun repo =>
          { (s.setPage p ((s.pages p).answered (op.run s.repo).2)) with repo := repo }
  | .write op => (op.step s.repo).map fun repo => { s with repo := repo }

/-- The step does the repository no harm. -/
def Harmless (s : Site) (label : SiteLabel) : Prop :=
  ∀ op, s.operation rt label = some op → ¬ op.Breaks s.repo

end SeapathWebui.Ui
