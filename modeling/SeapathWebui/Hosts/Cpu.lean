/-
  Hosts/Cpu.lean --- the CPUs of the machine, off its file system.

  Source: `LocalHostReader.cpu` and `_kernel_parameter` of app/hosts/local.py, as far as
  discovery looks at the reading.

  The isolated CPUs are those of the kernel's own list, or else of the `isolcpus` of its
  command line.  Of the CPUs that are online the reading has the number only.
-/
import SeapathWebui.Foundation.Lines
import SeapathWebui.Hosts.Reading

set_option autoImplicit false

namespace SeapathWebui.Hosts

open SeapathWebui.Foundation SeapathWebui.Foundation.Text

/-- What `_read_text` returns of the files `cpu` reads. -/
structure CpuFiles where
  /-- `present`, `online` and `isolated` of `/sys/devices/system/cpu` -/
  present : Option String := none
  online : Option String := none
  isolated : Option String := none
  /-- `/proc/cmdline` -/
  cmdline : Option String := none
  /-- the first three fields of `/proc/loadavg` are numbers, if there are any -/
  loadParses : Bool := true
  deriving DecidableEq, Repr

/-- `_kernel_parameter` -/
def kernelParameter (cmdline name : String) : Option String :=
  (fields cmdline).findSome? fun token =>
    match partition '=' token with
    | (key, some value) => if key = name then some value else none
    | (_, none) => none

/-- `parse_cpu_list`, of what a file may not have. -/
def CpuFiles.cpus (text : Option String) : List Int := parseCpuList (text.getD "")

/-- The CPUs that are online. -/
def CpuFiles.onlineCpus (files : CpuFiles) : List Int := CpuFiles.cpus files.online

/-- The isolated CPUs, from the kernel's list or from its command line. -/
def CpuFiles.isolatedCpus (files : CpuFiles) : List Int :=
  match CpuFiles.cpus files.isolated, files.cmdline.filter (· ≠ "") with
  | [], some cmdline => CpuFiles.cpus (kernelParameter cmdline "isolcpus")
  | [], none => []
  | cpu :: rest, _ => cpu :: rest

/-- `LocalHostReader.cpu` -/
def cpu (files : CpuFiles) : CpuReading where
  online := some (files.onlineCpus.length : Int) |>.filter (· ≠ 0)
  isolated := files.isolatedCpus
  warnings :=
    (if files.isolatedCpus = [] then
      ["No isolated CPUs. On a hypervisor this usually means seapath_setup_main.yaml has not " ++
        "been applied yet."]
    else []) ++
    (if CpuFiles.cpus files.present = [] ∧ files.onlineCpus = [] then
      ["CPU topology is not readable under /sys."]
    else []) ++
    (if files.loadParses then [] else ["/proc/loadavg could not be parsed."])

/-- Either list is one that `parse_cpu_list` has read. -/
theorem isolatedCpus_eq (files : CpuFiles) :
    ∃ text, files.isolatedCpus = parseCpuList text := by
  have hnone : parseCpuList "" = [] := by decide +kernel
  unfold CpuFiles.isolatedCpus
  split
  · exact ⟨_, rfl⟩
  · exact ⟨"", hnone.symm⟩
  · rename_i heq
    exact ⟨_, heq.symm⟩

end SeapathWebui.Hosts
