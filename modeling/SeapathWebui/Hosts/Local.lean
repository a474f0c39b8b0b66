/-
  Hosts/Local.lean --- the network of the machine, off its file system.

  Source: `network`, `_interface_kind` and `_default_route` of app/hosts/local.py, and
  `node_addresses` of app/core/bootstrap.py.

  Every text of an interface is read by a helper that catches what it raises.  Its kind is
  not: it is told by which markers exist, and that question may fail
  (`returns_nodeAddresses`).  What the kind is does not show in the addresses
  (`nodeAddresses_eq_ok`).
-/
import SeapathWebui.Foundation.Files
import SeapathWebui.Foundation.Lines
import SeapathWebui.Hosts.Reading

set_option autoImplicit false

namespace SeapathWebui.Hosts

open SeapathWebui.Foundation SeapathWebui.Foundation.Text

/-- An entry of `/sys/class/net`: the answers to the `stat` of each marker, and what
`_read_text` and `_symlink_name` return. -/
structure InterfaceFiles where
  name : String
  bridge : Answer Unit
  bonding : Answer Unit
  tunFlags : Answer Unit
  device : Answer Unit
  address : Option String := none
  operstate : Option String := none
  speed : Option String := none
  driver : Option String := none

/-- What `network` reads. -/
structure NetworkFiles (σ : Type) where
  /-- what `_interface_addresses` makes of the output of `ip`, which is not a file -/
  addresses : Except (Exc σ) (Dict String (List InterfaceAddress))
  /-- `iterdir` of `/sys/class/net` -/
  interfaces : Answer (List InterfaceFiles)
  /-- `/proc/net/route` -/
  route : Option String := none

variable {σ : Type}

/-- The kind of the first marker that exists. -/
def firstMarker : List (Answer Unit × String) → Except (Exc σ) (Option String)
  | [] => .ok none
  | (stat, kind) :: rest => do
      let present ← pathExists stat
      if present then pure (some kind) else firstMarker rest

/-- The markers `_interface_kind` looks for, in this order. -/
def InterfaceFiles.markers (files : InterfaceFiles) : List (Answer Unit × String) :=
  [(files.bridge, "bridge"), (files.bonding, "bond"), (files.tunFlags, "tun"),
    (files.device, "physical")]

/-- `_interface_kind` -/
def interfaceKind (files : InterfaceFiles) : Except (Exc σ) String := do
  let marker ← firstMarker files.markers
  pure (marker.getD (if files.name = "lo" then "loopback" else "virtual"))

/-- One round of `network`. -/
def networkInterface (addresses : Dict String (List InterfaceAddress))
    (files : InterfaceFiles) : Except (Exc σ) NetworkInterface := do
  let kind ← interfaceKind files
  pure
    { name := files.name
      kind := some kind
      mac := files.address
      operstate := files.operstate
      -- virtual devices report -1, which is not a speed
      speedMbps := (files.speed.bind readInt).filter fun speed => 0 < speed
      driver := files.driver
      addresses := (addresses.get? files.name).getD [] }

/-- `_default_route`, as far as the interface goes. -/
def defaultRoute (route : Option String) : Option String :=
  ((splitlines (route.getD "")).drop 1).findSome? fun line =>
    match fields line with
    | name :: "00000000" :: _ :: _ => some name
    | _ => none

/-- `sorted(entry.name for entry in ...)` -/
def byName (interfaces : List InterfaceFiles) : List InterfaceFiles :=
  interfaces.insertionSort fun a b => a.name ≤ b.name

/-- `network`, as far as the interfaces and the one of the default route go. -/
def network (files : NetworkFiles σ) :
    Except (Exc σ) (List NetworkInterface × Option String) := do
  let addresses ← files.addresses
  match files.interfaces with
  | .error _ => pure ([], none)
  | .ok interfaces => do
      let interfaces ← (byName interfaces).mapM (networkInterface addresses)
      pure (interfaces, defaultRoute files.route)

/-- The addresses of a connection from an interface. -/
def inetAddresses (addresses : List InterfaceAddress) : List String :=
  (addresses.filter fun address => address.family = "inet").map (·.address)

/-- `node_addresses` -/
def nodeAddresses (files : NetworkFiles σ) : Except (Exc σ) (List String) := do
  let (interfaces, route) ← network files
  pure ((interfaces.filter fun interface => some interface.name = route).flatMap
    fun interface => inetAddresses interface.addresses)

/-! ## What it raises -/

/-- No question is asked that has no answer: the first marker that is not absent is
there. -/
def Marked : List (Answer Unit × String) → Prop
  | [] => True
  | (stat, _) :: rest => Answered stat ∧ (stat ≠ .ok () → Marked rest)

/-- The addresses can be had, and the kind of every interface. -/
structure NetworkFiles.Readable (files : NetworkFiles σ) : Prop where
  addresses : Returns files.addresses
  kinds : ∀ interfaces, files.interfaces = .ok interfaces →
    ∀ interface ∈ interfaces, Marked interface.markers

/-- The addresses of the interface that carries the default route. -/
def NetworkFiles.inet (files : NetworkFiles σ) : List String :=
  match files.addresses, files.interfaces with
  | .ok addresses, .ok interfaces =>
      ((byName interfaces).filter fun interface =>
        some interface.name = defaultRoute files.route).flatMap fun interface =>
          inetAddresses ((addresses.get? interface.name).getD [])
  | .ok _, .error _ => []
  | .error _, _ => []

theorem returns_firstMarker {markers : List (Answer Unit × String)} :
    Returns (firstMarker markers : Except (Exc σ) (Option String)) ↔ Marked markers := by
  induction markers with
  | nil => exact iff_of_true (returns_ok none) trivial
  | cons marker rest ih =>
      obtain ⟨stat, kind⟩ := marker
      rw [firstMarker, returns_bind, returns_pathExists, Marked, ← ih]
      refine and_congr_right fun hanswered => ?_
      constructor
      · intro h habsent
        exact h false (pathExists_eq_false.mpr ⟨hanswered, habsent⟩)
      · intro h present hpresent
        cases present with
        | true => exact returns_ok (some kind)
        | false => exact h (pathExists_eq_false.mp hpresent).2

theorem returns_networkInterface {addresses : Dict String (List InterfaceAddress)}
    {files : InterfaceFiles} :
    Returns (networkInterface addresses files : Except (Exc σ) NetworkInterface) ↔
      Marked files.markers := by
  rw [networkInterface, returns_bind_pure, interfaceKind, returns_bind_pure,
    returns_firstMarker]

/-- What is read of an interface has its name, and the addresses it was given. -/
theorem networkInterface_eq_ok {addresses : Dict String (List InterfaceAddress)}
    {files : InterfaceFiles} {interface : NetworkInterface}
    (h : (networkInterface addresses files : Except (Exc σ) _) = .ok interface) :
    interface.name = files.name ∧
      interface.addresses = (addresses.get? files.name).getD [] := by
  obtain ⟨kind, -, rfl⟩ := bind_pure_eq_ok.mp h
  exact ⟨rfl, rfl⟩

theorem returns_nodeAddresses {files : NetworkFiles σ} :
    Returns (nodeAddresses files) ↔ files.Readable := by
  have hloop : ∀ addresses interfaces,
      Returns ((byName interfaces).mapM (networkInterface addresses) :
        Except (Exc σ) (List NetworkInterface)) ↔
          ∀ interface ∈ interfaces, Marked interface.markers := by
    intro addresses interfaces
    simp only [returns_mapM, returns_networkInterface, byName, List.mem_insertionSort]
  rw [nodeAddresses, returns_bind_pure, network, returns_bind]
  cases hinterfaces : files.interfaces with
  | error e =>
      constructor
      · rintro ⟨haddresses, -⟩
        exact ⟨haddresses, fun interfaces h => by rw [hinterfaces] at h; cases h⟩
      · intro h
        exact ⟨h.addresses, fun _ _ => returns_ok _⟩
  | ok interfaces =>
      simp only [returns_bind_pure, hloop]
      constructor
      · rintro ⟨⟨addresses, haddresses⟩, h⟩
        refine ⟨⟨addresses, haddresses⟩, fun others hothers => ?_⟩
        rw [hinterfaces] at hothers
        obtain rfl := Except.ok.inj hothers
        exact h addresses haddresses
      · intro h
        exact ⟨h.addresses, fun _ _ => h.kinds interfaces hinterfaces⟩

theorem flatMap_networkInterfaces {addresses : Dict String (List InterfaceAddress)}
    {files : List InterfaceFiles} {interfaces : List NetworkInterface} (route : Option String)
    (h : (files.mapM (networkInterface addresses) : Except (Exc σ) _) = .ok interfaces) :
    (interfaces.filter fun interface => some interface.name = route).flatMap
        (fun interface => inetAddresses interface.addresses) =
      (files.filter fun interface => some interface.name = route).flatMap
        fun interface => inetAddresses ((addresses.get? interface.name).getD []) := by
  have hrounds := mapM_eq_ok.mp h
  clear h
  induction hrounds with
  | nil => rfl
  | cons hround _ ih =>
      obtain ⟨hname, haddresses⟩ := networkInterface_eq_ok hround
      simp only [List.filter_cons, hname]
      split
      · rw [List.flatMap_cons, List.flatMap_cons, haddresses, ih]
      · exact ih

/-- The addresses do not depend on what else is read of the interfaces. -/
theorem nodeAddresses_eq_ok {files : NetworkFiles σ} {addresses : List String}
    (h : nodeAddresses files = .ok addresses) : addresses = files.inet := by
  obtain ⟨⟨interfaces, route⟩, hnetwork, rfl⟩ := bind_pure_eq_ok.mp h
  obtain ⟨known, hknown, hnetwork⟩ := bind_eq_ok.mp hnetwork
  unfold NetworkFiles.inet
  cases hinterfaces : files.interfaces with
  | error e =>
      rw [hinterfaces] at hnetwork
      obtain ⟨rfl, rfl⟩ := Prod.mk.inj (Except.ok.inj hnetwork)
      rw [hknown]
      rfl
  | ok entries =>
      rw [hinterfaces] at hnetwork
      obtain ⟨results, hresults, heq⟩ := bind_pure_eq_ok.mp hnetwork
      obtain ⟨rfl, rfl⟩ := Prod.mk.inj heq
      rw [hknown]
      exact flatMap_networkInterfaces _ hresults

end SeapathWebui.Hosts
