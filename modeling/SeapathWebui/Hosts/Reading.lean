/-
  Hosts/Reading.lean --- what the read only adapter returns.

  Source: app/hosts/models.py, as far as discovery looks at it, and the CPU list
  syntax of app/hosts/local.py.
-/
import Mathlib.Algebra.GroupWithZero.Nat
import Mathlib.Data.List.Dedup
import Mathlib.Data.List.Sort
import SeapathWebui.Foundation.Text

set_option autoImplicit false

namespace SeapathWebui.Hosts

open SeapathWebui.Foundation

/-- `NodeMode` -/
inductive NodeMode
  | standalone
  | cluster
  | unknown
  deriving DecidableEq, Repr

/-- `NodeIdentity` -/
structure NodeIdentity where
  hostname : String
  mode : NodeMode := .unknown
  warnings : List String := []
  deriving DecidableEq, Repr

/-- `CpuReading` -/
structure CpuReading where
  online : Option Int := none
  isolated : List Int := []
  warnings : List String := []
  deriving DecidableEq, Repr

/-- `InterfaceAddress` -/
structure InterfaceAddress where
  address : String
  prefixLength : Option Int := none
  family : String
  deriving DecidableEq, Repr

/-- `NetworkInterface` -/
structure NetworkInterface where
  name : String
  kind : Option String := none
  mac : Option String := none
  operstate : Option String := none
  speedMbps : Option Int := none
  driver : Option String := none
  addresses : List InterfaceAddress := []
  deriving DecidableEq, Repr

/-- `NetworkReading` -/
structure NetworkReading where
  interfaces : List NetworkInterface := []
  defaultRouteInterface : Option String := none
  defaultGateway : Option String := none
  warnings : List String := []
  deriving DecidableEq, Repr

/-- `PtpClock` -/
structure PtpClock where
  device : String
  deriving DecidableEq, Repr

/-- `BlockDevice` -/
structure BlockDevice where
  path : String
  byPath : Option String := none
  sizeBytes : Option Int := none
  model : Option String := none
  claimed : Option Bool := none
  claimReason : Option String := none
  deriving DecidableEq, Repr

/-- `DisksReading` -/
structure DisksReading where
  devices : List BlockDevice := []
  warnings : List String := []
  deriving DecidableEq, Repr

/-- What a `HostReader` answers, one reading of each kind. -/
structure HostReading where
  nodeIdentity : NodeIdentity
  network : NetworkReading := {}
  cpu : CpuReading := {}
  disks : DisksReading := {}
  ptpClocks : List PtpClock := []
  deriving DecidableEq, Repr

/-! ## CPU lists -/

/-- `range(first, last + 1)` -/
def cpuRange (first last : Int) : List Int :=
  (List.range (last + 1 - first).toNat).map fun i => first + i

/-- The CPUs a chunk of the list names; none where it is a flag. -/
def parseCpuChunk (chunk : String) : List Int :=
  match Text.partition '-' chunk with
  | (first, none) => (Text.readInt first).toList
  | (first, some last) =>
      match Text.readInt first, Text.readInt last with
      | some first, some last => cpuRange first last
      | _, _ => []

/-- `parse_cpu_list` -/
def parseCpuList (raw : String) : List Int :=
  (((Text.split ',' raw).map Text.strip).flatMap parseCpuChunk).dedup.insertionSort (· ≤ ·)

/-- How many CPUs a chunk of the list names. -/
def cpuChunkCount (chunk : String) : Nat :=
  match Text.partition '-' chunk with
  | (first, none) => (Text.readInt first).toList.length
  | (first, some last) =>
      match Text.readInt first, Text.readInt last with
      | some first, some last => (last + 1 - first).toNat
      | _, _ => 0

/-- How many numbers `parse_cpu_list` puts into its list. -/
def cpuCount (raw : String) : Nat :=
  (((Text.split ',' raw).map Text.strip).map cpuChunkCount).sum

theorem length_parseCpuChunk (chunk : String) :
    (parseCpuChunk chunk).length = cpuChunkCount chunk := by
  unfold parseCpuChunk cpuChunkCount
  split
  · rfl
  · split
    · simp [cpuRange]
    · rfl

/-- The list before it is sorted and stripped of repetitions. -/
theorem cpuCount_eq_length (raw : String) :
    cpuCount raw = (((Text.split ',' raw).map Text.strip).flatMap parseCpuChunk).length := by
  simp [cpuCount, List.length_flatMap, length_parseCpuChunk]

end SeapathWebui.Hosts
