/-
  Hosts/Disks.lean --- the disks of the machine, and their stable names.

  Source: `_by_path_index` and `disks` of app/hosts/local.py.

  A by-path name is a link, and the name of the device it belongs to is the last component
  of its target.  The links are taken in the order of their names and the first one of a
  device wins, so the index is the least link of every device (`get?_byPathIndex`).  The
  link of a partition has the name of the partition there, which no disk has.
-/
import Mathlib.Data.List.Sort
import Mathlib.Data.String.Basic
import SeapathWebui.Foundation.Dict
import SeapathWebui.Foundation.Files
import SeapathWebui.Hosts.Reading

set_option autoImplicit false

namespace SeapathWebui.Hosts

open SeapathWebui.Foundation

/-! ## The links -/

/-- An entry of `/dev/disk/by-path`; no target where `readlink` fails. -/
structure Link where
  name : String
  target : Option String
  deriving DecidableEq, Repr

/-- `Path(target).name`: the last component, of those that are not empty and not a dot. -/
def lastComponent (target : String) : String :=
  ((Text.split '/' target).filter fun part => part ≠ "" ∧ part ≠ ".").getLastD ""

/-- The name under which the link is entered. -/
def Link.path (link : Link) : String := "/dev/disk/by-path/" ++ link.name

/-- The link is one of this device. -/
def Link.PointsTo (link : Link) (device : String) : Prop :=
  link.target.map lastComponent = some device

instance (link : Link) (device : String) : Decidable (link.PointsTo device) :=
  inferInstanceAs (Decidable (_ = _))

/-- `sorted(_iterdir(directory), key=lambda path: path.name)` -/
def sortedLinks (links : List Link) : List Link :=
  links.insertionSort fun a b => a.name ≤ b.name

/-- `_by_path_index` -/
def byPathIndex (links : List Link) : Dict String String :=
  ((sortedLinks links).filterMap fun link =>
    link.target.map fun target => (lastComponent target, link.path)).foldl
      (fun index entry => index.setDefault entry.1 entry.2) ∅

/-- The last component of a path is the name of the entry there. -/
theorem lastComponent_append (directory : String) {name : String} (hname : '/' ∉ name.toList)
    (hne : name ≠ "") (hdot : name ≠ ".") : lastComponent (directory ++ "/" ++ name) = name := by
  have hsplit : Text.split '/' (directory ++ "/" ++ name) = Text.split '/' directory ++ [name] := by
    rw [Text.split, String.append_assoc, String.toList_append, String.toList_append,
      show "/".toList = ['/'] from rfl, List.singleton_append, List.splitOn_append_cons_self,
      List.splitOn_eq_singleton hname, List.map_append, List.map_singleton, String.ofList_toList]
    rfl
  have hkept : ([name].filter fun part => part ≠ "" ∧ part ≠ ".") = [name] := by
    simp [hne, hdot]
  rw [lastComponent, hsplit, List.filter_append, hkept, List.getLastD_concat]

/-! ## What the index holds -/

/-- The path of a link is its name, in its place. -/
theorem Link.path_eq_iff {a b : Link} : a.path = b.path ↔ a.name = b.name := by
  unfold Link.path
  exact String.append_right_inj _

/-- The first entry of a device is the first link of it. -/
theorem lookup_entries (links : List Link) (device : String) :
    (links.filterMap fun link =>
        link.target.map fun target => (lastComponent target, link.path)).lookup device =
      (links.find? fun link => link.PointsTo device).map (·.path) := by
  induction links with
  | nil => rfl
  | cons link links ih =>
      cases htarget : link.target with
      | none =>
          have hnot : ¬ link.PointsTo device := by simp [Link.PointsTo, htarget]
          simpa [htarget, hnot] using ih
      | some target =>
          by_cases hdevice : lastComponent target = device
          · have hpoints : link.PointsTo device := by simp [Link.PointsTo, htarget, hdevice]
            simp [htarget, hpoints, hdevice]
          · have hnot : ¬ link.PointsTo device := by simp [Link.PointsTo, htarget, hdevice]
            simpa [htarget, hnot, Dict.lookup_cons_ite, hdevice] using ih

theorem get?_byPathIndex_eq (links : List Link) (device : String) :
    (byPathIndex links).get? device =
      ((sortedLinks links).find? fun link => link.PointsTo device).map (·.path) := by
  rw [byPathIndex, Dict.get?_foldl_setDefault, Dict.get?_empty, Option.none_or, lookup_entries]

/-- What is found first in a sorted list is least among what could be found. -/
theorem le_of_find {α : Type} {r : α → α → Prop} [Std.Refl r] {p : α → Bool} {l : List α}
    (hsorted : l.Pairwise r) {a b : α} (ha : l.find? p = some a) (hb : b ∈ l)
    (hp : p b = true) : r a b := by
  obtain ⟨-, before, after, rfl, hbefore⟩ := List.find?_eq_some_iff_append.mp ha
  rcases List.mem_append.mp hb with hb | hb
  · have hnot := hbefore b hb
    rw [hp] at hnot
    cases hnot
  · rcases List.mem_cons.mp hb with rfl | hb
    · exact Std.Refl.refl b
    · exact (List.pairwise_cons.mp (List.pairwise_append.mp hsorted).2.1).1 b hb

/-- The link is one of the device, and no other link of it has a lesser name. -/
def Least (links : List Link) (device : String) (link : Link) : Prop :=
  link ∈ links ∧ link.PointsTo device ∧
    ∀ other ∈ links, other.PointsTo device → link.name ≤ other.name

/-- The links that are entered are sorted by their names. -/
theorem pairwise_sortedLinks (links : List Link) :
    (sortedLinks links).Pairwise fun a b => a.name ≤ b.name :=
  List.pairwise_insertionSort _ _

@[simp] theorem mem_sortedLinks {links : List Link} {link : Link} :
    link ∈ sortedLinks links ↔ link ∈ links :=
  List.mem_insertionSort _

theorem least_of_find {links : List Link} {device : String} {link : Link}
    (h : (sortedLinks links).find? (fun link => link.PointsTo device) = some link) :
    Least links device link := by
  refine ⟨mem_sortedLinks.mp (List.mem_of_find?_eq_some h), ?_, fun other hother hpoints => ?_⟩
  · simpa using List.find?_some h
  · exact le_of_find (pairwise_sortedLinks links) h (mem_sortedLinks.mpr hother)
      (decide_eq_true hpoints)

theorem exists_find {links : List Link} {device : String} {link : Link} (hlink : link ∈ links)
    (hpoints : link.PointsTo device) :
    ∃ first, (sortedLinks links).find? (fun link => link.PointsTo device) = some first :=
  Option.isSome_iff_exists.mp
    (List.find?_isSome.mpr ⟨link, mem_sortedLinks.mpr hlink, by simpa using hpoints⟩)

/-- A device has the path of its least link. -/
theorem get?_byPathIndex {links : List Link} {device path : String} :
    (byPathIndex links).get? device = some path ↔
      ∃ link, Least links device link ∧ link.path = path := by
  rw [get?_byPathIndex_eq, Option.map_eq_some_iff]
  constructor
  · rintro ⟨link, hfind, rfl⟩
    exact ⟨link, least_of_find hfind, rfl⟩
  · rintro ⟨link, ⟨hlink, hpoints, hle⟩, rfl⟩
    obtain ⟨first, hfirst⟩ := exists_find hlink hpoints
    obtain ⟨hmem, hpointsFirst, hleFirst⟩ := least_of_find hfirst
    have hname : first.name = link.name :=
      le_antisymm (hleFirst link hlink hpoints) (hle first hmem hpointsFirst)
    exact ⟨first, hfirst, Link.path_eq_iff.mpr hname⟩

/-- Where a device has a link, it has a least one. -/
theorem isSome_byPathIndex {links : List Link} {device : String} :
    (∃ path, (byPathIndex links).get? device = some path) ↔
      ∃ link ∈ links, link.PointsTo device := by
  constructor
  · rintro ⟨path, hpath⟩
    obtain ⟨link, ⟨hlink, hpoints, -⟩, -⟩ := get?_byPathIndex.mp hpath
    exact ⟨link, hlink, hpoints⟩
  · rintro ⟨link, hlink, hpoints⟩
    obtain ⟨first, hfirst⟩ := exists_find hlink hpoints
    exact ⟨first.path, get?_byPathIndex.mpr ⟨first, least_of_find hfirst, rfl⟩⟩

/-- A link whose path a device was given is a link of that device. -/
theorem pointsTo_of_get? {links : List Link} (hnames : (links.map (·.name)).Nodup)
    {link : Link} (hlink : link ∈ links) {device : String}
    (h : (byPathIndex links).get? device = some link.path) : link.PointsTo device := by
  obtain ⟨least, ⟨hleast, hpoints, -⟩, hpath⟩ := get?_byPathIndex.mp h
  rwa [List.inj_on_of_nodup_map hnames hlink hleast (Link.path_eq_iff.mp hpath.symm)]

/-- A link is one of at most one device. -/
theorem Link.PointsTo.unique {link : Link} {d e : String} (hd : link.PointsTo d)
    (he : link.PointsTo e) : d = e :=
  Option.some.inj (hd.symm.trans he)

/-- No two devices are given the same path. -/
theorem unique_byPathIndex {links : List Link} (hnames : (links.map (·.name)).Nodup)
    {d e path : String} (hd : (byPathIndex links).get? d = some path)
    (he : (byPathIndex links).get? e = some path) : d = e := by
  obtain ⟨link, ⟨hlink, hpoints, -⟩, rfl⟩ := get?_byPathIndex.mp hd
  exact Link.PointsTo.unique hpoints (pointsTo_of_get? hnames hlink he)

/-- **A device has a by-path name exactly if a link of it is there, and then its least one; no
two devices have the same, and none has one that is another device's, as a partition's is.** -/
theorem byPath_names_own_device {links : List Link} (hnames : (links.map (·.name)).Nodup)
    (d : String) :
    ((∃ path, (byPathIndex links).get? d = some path) ↔ ∃ link ∈ links, link.PointsTo d) ∧
      (∀ path, (byPathIndex links).get? d = some path ↔
        ∃ link, Least links d link ∧ link.path = path) ∧
      (∀ e path, (byPathIndex links).get? d = some path →
        (byPathIndex links).get? e = some path → d = e) ∧
      ∀ link ∈ links, ∀ part, link.PointsTo part → part ≠ d →
        (byPathIndex links).get? d ≠ some link.path := by
  refine ⟨isSome_byPathIndex, fun path => get?_byPathIndex,
    fun e path hd he => unique_byPathIndex hnames hd he,
    fun link hlink part hpart hne hget => ?_⟩
  exact hne (Link.PointsTo.unique hpart (pointsTo_of_get? hnames hlink hget))

/-- Two names of one disk, and one of its partition between them. -/
def diskLinks : List Link :=
  [{ name := "pci-0000:03:00.0-scsi-0:2:0:0-part1", target := some "../../sda1" },
   { name := "pci-0000:03:00.0-scsi-0:2:0:0", target := some "../../sda" },
   { name := "pci-0000:03:00.0-scsi-0:2:1:0", target := some "../../sdb" },
   { name := "pci-0000:03:00.0-sas-phy1-lun-0", target := some "../../sda" },
   { name := "README", target := none }]

theorem byPath_names_own_device_sda :
    ((∃ path, (byPathIndex diskLinks).get? "sda" = some path) ↔
        ∃ link ∈ diskLinks, link.PointsTo "sda") ∧
      (∀ path, (byPathIndex diskLinks).get? "sda" = some path ↔
        ∃ link, Least diskLinks "sda" link ∧ link.path = path) ∧
      (∀ e path, (byPathIndex diskLinks).get? "sda" = some path →
        (byPathIndex diskLinks).get? e = some path → "sda" = e) ∧
      ∀ link ∈ diskLinks, ∀ part, link.PointsTo part → part ≠ "sda" →
        (byPathIndex diskLinks).get? "sda" ≠ some link.path :=
  byPath_names_own_device (by decide) "sda"

example : (byPathIndex diskLinks).get? "sda" =
    some "/dev/disk/by-path/pci-0000:03:00.0-sas-phy1-lun-0" := by decide +kernel

/-! ## The disks -/

/-- An entry of `/sys/block`. -/
structure BlockEntry where
  name : String
  /-- what is under it, with the answer to the `stat` of its `partition` -/
  children : List (String × Answer Unit) := []
  holders : List String := []
  size : Option Int := none
  model : Option String := none

/-- What `disks` reads. -/
structure DiskFiles where
  links : List Link := []
  /-- `iterdir` of `/sys/block` -/
  block : Answer (List BlockEntry)

/-- `_IGNORED_BLOCK_PREFIXES` -/
def ignoredBlockPrefixes : List String := ["loop", "ram", "zram", "sr", "dm-", "md"]

/-- `name.startswith(_IGNORED_BLOCK_PREFIXES)` -/
def ignoredBlock (name : String) : Bool :=
  ignoredBlockPrefixes.any fun start => start.toList.isPrefixOf name.toList

/-- `_SECTOR_BYTES` -/
def sectorBytes : Int := 512

variable {σ : Type}

/-- The partitions of an entry. -/
def partitions (entry : BlockEntry) : Except (Exc σ) (List String) := do
  let marked ← entry.children.mapM fun child => do
    let present ← pathExists child.2
    pure (child.1, present)
  pure (((marked.filter (·.2)).map (·.1)).insertionSort (· ≤ ·))

/-- One round of `disks`. -/
def blockDevice (index : Dict String String) (entry : BlockEntry) :
    Except (Exc σ) BlockDevice := do
  let parts ← partitions entry
  let holders := entry.holders.insertionSort (· ≤ ·)
  pure
    { path := "/dev/" ++ entry.name
      byPath := index.get? entry.name
      sizeBytes := (entry.size.filter (· ≠ 0)).map (· * sectorBytes)
      model := entry.model
      claimed := some (!parts.isEmpty || !holders.isEmpty)
      claimReason :=
        if !parts.isEmpty then some "The device carries partitions."
        else if !holders.isEmpty then
          some ("The device is held by " ++ ", ".intercalate holders ++ ".")
        else none }

/-- `disks` -/
def disks (files : DiskFiles) : Except (Exc σ) DisksReading :=
  let index := byPathIndex files.links
  match files.block with
  | .error _ => .ok { warnings := ["/sys/block is not readable."] }
  | .ok entries => do
      let entries := (entries.insertionSort fun a b => a.name ≤ b.name).filter fun entry =>
        !ignoredBlock entry.name
      let devices ← entries.mapM (blockDevice index)
      pure
        { devices := devices
          warnings :=
            if index.keys.isEmpty then
              ["Stable /dev/disk/by-path names are unavailable, and those are " ++
                "the names ceph_osd_disks must use."]
            else [] }

/-- A disk is listed with what the index has for its name. -/
theorem byPath_of_disks {files : DiskFiles} {reading : DisksReading}
    (h : (disks files : Except (Exc σ) _) = .ok reading) :
    ∀ device ∈ reading.devices, ∃ name, device.path = "/dev/" ++ name ∧
      device.byPath = (byPathIndex files.links).get? name := by
  unfold disks at h
  intro device hdevice
  cases hblock : files.block with
  | error e =>
      simp only [hblock] at h
      obtain rfl := Except.ok.inj h
      simp at hdevice
  | ok entries =>
      simp only [hblock] at h
      obtain ⟨devices, hdevices, rfl⟩ := bind_pure_eq_ok.mp h
      obtain ⟨entry, -, hentry⟩ := mem_of_mapM_eq_ok hdevices device hdevice
      obtain ⟨parts, -, rfl⟩ := bind_pure_eq_ok.mp hentry
      exact ⟨entry.name, rfl, rfl⟩

/-- Two disks of one reading with the same stable name are one disk. -/
theorem path_of_byPath {files : DiskFiles} {reading : DisksReading}
    (hnames : (files.links.map (·.name)).Nodup)
    (h : (disks files : Except (Exc σ) _) = .ok reading) {a b : BlockDevice}
    (ha : a ∈ reading.devices) (hb : b ∈ reading.devices) {path : String}
    (hpath : a.byPath = some path) (hsame : b.byPath = some path) : a.path = b.path := by
  obtain ⟨d, hd, hindex⟩ := byPath_of_disks h a ha
  obtain ⟨e, he, hindex'⟩ := byPath_of_disks h b hb
  rw [hindex] at hpath
  rw [hindex'] at hsame
  rw [hd, he, unique_byPathIndex hnames hpath hsame]

end SeapathWebui.Hosts
