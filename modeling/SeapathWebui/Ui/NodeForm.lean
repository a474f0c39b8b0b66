/-
  Ui/NodeForm.lean --- the form that edits a machine.

  Source: `fillInterfaces`, `readForm`, `writeForm` and `save` of app/ui/static/setup.js.

  A node goes into the elements of the page as texts and is read back from them.  A select
  whose value is set to none of its options reads as the empty text, an input reads as it was
  written.  `save` sends what reads differently from the node.
-/
import SeapathWebui.Foundation.Doubles
import SeapathWebui.Foundation.Trimming
import SeapathWebui.Inventory.Discovery

set_option autoImplicit false

namespace SeapathWebui.Ui

open SeapathWebui.Foundation SeapathWebui.Inventory

/-! ## Fields -/

/-- A field of the form, and the element of the same name. -/
inductive Field
  | ansibleHost
  | networkInterface
  | subnet
  | gatewayAddr
  | dnsServers
  | ptpInterface
  | ptpDomainNumber
  | ntpServers
  | adminUser
  | isolcpus
  deriving DecidableEq, Repr

/-- `fields` -/
def fields : List Field :=
  [.ansibleHost, .networkInterface, .subnet, .gatewayAddr, .dnsServers, .ptpInterface,
    .ptpDomainNumber, .ntpServers, .adminUser, .isolcpus]

/-- `listFields` -/
def listFields : List Field := [.dnsServers, .ntpServers]

/-- `numberFields` -/
def numberFields : List Field := [.subnet, .ptpDomainNumber]

/-- A value of a node, as the API sends it. -/
inductive NodeValue
  | null
  | text (s : String)
  | list (items : List String)
  | integer (n : Int)
  deriving DecidableEq

/-- A text, or `null`. -/
def NodeValue.ofText? : Option String → NodeValue
  | none => .null
  | some s => .text s

/-- `node[name]` -/
def valueOf (node : NodeConfig) : Field → NodeValue
  | .ansibleHost => .text node.ansibleHost
  | .networkInterface => .text node.networkInterface
  | .subnet => .integer node.subnet
  | .gatewayAddr => .ofText? node.gatewayAddr
  | .dnsServers => .list node.dnsServers
  | .ptpInterface => .ofText? node.ptpInterface
  | .ptpDomainNumber =>
      match node.ptpDomainNumber with
      | none => .null
      | some n => .integer n
  | .ntpServers => .list node.ntpServers
  | .adminUser => .ofText? node.adminUser
  | .isolcpus => .ofText? node.isolcpus

/-! ## Elements -/

/-- An input, or a select with the values of its options. -/
inductive Element
  | input
  | select (options : List String)

/-- What an element reads when its value was set. -/
def Element.reads : Element → String → String
  | .input, s => s
  | .select options, s => if s ∈ options then s else ""

/-- `fillInterfaces` -/
def fillInterfaces (interfaces : List InterfaceCandidate) (allowEmpty : Bool) : Element :=
  .select ((if allowEmpty then [""] else []) ++ interfaces.map (·.name))

/-- The elements, once `loadDiscovery` filled the two selects. -/
def element (interfaces : List InterfaceCandidate) : Field → Element
  | .networkInterface => fillInterfaces interfaces false
  | .ptpInterface => fillInterfaces interfaces true
  | _ => .input

/-- What the elements read. -/
abbrev Form : Type := Field → String

/-- What the value of an element is set to. -/
def NodeValue.written : NodeValue → String
  | .null => ""
  | .list items => ", ".intercalate items
  | .text s => s
  | .integer n => toString n

/-- `writeForm` -/
def writeForm (interfaces : List InterfaceCandidate) (node : NodeConfig) : Form :=
  fun field => (element interfaces field).reads (valueOf node field).written

/-! ## Reading -/

/-- The characters that `trim` takes away. -/
def isWhiteSpace (c : Char) : Bool :=
  let n := c.toNat
  (0x9 ≤ n && n ≤ 0xD) || n == 0x20 || n == 0xA0 || n == 0x1680 ||
    (0x2000 ≤ n && n ≤ 0x200A) || n == 0x2028 || n == 0x2029 || n == 0x202F || n == 0x205F ||
    n == 0x3000 || n == 0xFEFF

/-- `trim` -/
def trim (s : String) : String := String.ofList (trimBoth isWhiteSpace s.toList)

/-- A value that `readForm` reads. -/
inductive FieldValue
  | null
  | text (s : String)
  | list (items : List String)
  | number (d : Double)
  deriving DecidableEq

/-- What `readForm` makes of what an element reads. -/
def readField (field : Field) (value : String) : FieldValue :=
  let raw := trim value
  if field ∈ listFields then
    .list (if raw = "" then [] else (Text.split ',' raw).map trim)
  else if field ∈ numberFields then
    if raw = "" then .null else .number (Double.readNumber raw.toList)
  else
    if raw = "" then .null else .text raw

/-- `readForm`: `node[name]` of what it returns. -/
def readForm (form : Form) (field : Field) : FieldValue :=
  let value := readField field (form field)
  -- subnet is not optional
  if field = .subnet ∧ value = .null then .number (.finite 24) else value

/-! ## Saving -/

/-- The same value, as if it was read. -/
def NodeValue.read : NodeValue → FieldValue
  | .null => .null
  | .text s => .text s
  | .list items => .list items
  | .integer n => .number (.finite n)

/-- What `JSON.stringify` writes of a value: what is no finite number is `null`. -/
def FieldValue.json : FieldValue → FieldValue
  | .number .nan | .number (.infinite _) => .null
  | value => value

/-- The body of `PATCH /inventory/hosts/{name}`. -/
structure HostPatch where
  changes : List (Field × FieldValue)
  grubPasswordPlain : Option String := none

/-- `save`: what it sends, or what it says instead. -/
def save (node : NodeConfig) (form : Form) (password : String) : Except String HostPatch :=
  let changed := fields.filter fun field =>
    (readForm form field).json ≠ (valueOf node field).read.json
  if changed = [] ∧ password = "" then .error "Nothing changed."
  else .ok
    { changes := changed.map fun field => (field, (readForm form field).json)
      grubPasswordPlain := if password = "" then none else some password }

/-! ## What comes back -/

/-- A text as it comes back from an input: it is not empty, and has no white space around it. -/
def Plain (s : String) : Prop := s ≠ "" ∧ trim s = s

instance (s : String) : Decidable (Plain s) := inferInstanceAs (Decidable (_ ∧ _))

/-- Items as they come back from an input. -/
def PlainItems (items : List String) : Prop :=
  items ≠ [""] ∧ ∀ item ∈ items, ',' ∉ item.toList ∧ trim item = item

instance (items : List String) : Decidable (PlainItems items) :=
  inferInstanceAs (Decidable (_ ∧ _))

/-- `readField` of the fields that are neither lists nor numbers. -/
def readText (value : String) : FieldValue := if trim value = "" then .null else .text (trim value)

/-- `readField` of a list. -/
def readList (value : String) : FieldValue :=
  .list (if trim value = "" then [] else (Text.split ',' (trim value)).map trim)

theorem readText_eq_text_iff {s : String} : readText s = .text s ↔ Plain s := by
  unfold readText Plain
  split
  · rename_i hempty
    refine iff_of_false nofun ?_
    rintro ⟨hne, htrim⟩
    exact hne (htrim.symm.trans hempty)
  · rename_i hne
    constructor
    · intro h
      have htrim := FieldValue.text.inj h
      exact ⟨htrim ▸ hne, htrim⟩
    · rintro ⟨-, htrim⟩
      rw [htrim]

theorem readText_empty : readText "" = .null := rfl

/-- An optional text comes back from an input if it is plain. -/
theorem readText_ofText?_iff {value : Option String} :
    readText (NodeValue.ofText? value).written = (NodeValue.ofText? value).read ↔
      ∀ s ∈ value, Plain s := by
  cases value with
  | none => simp [NodeValue.ofText?, NodeValue.written, NodeValue.read, readText_empty]
  | some s =>
      simp only [NodeValue.ofText?, NodeValue.written, NodeValue.read, Option.mem_some_iff,
        forall_eq']
      exact readText_eq_text_iff

/-- A text comes back from a select if it is plain and one of its options. -/
theorem readText_select_iff {options : List String} {s : String} :
    readText ((Element.select options).reads s) = .text s ↔ s ∈ options ∧ Plain s := by
  rw [Element.reads]
  split
  · rename_i hmem
    rw [readText_eq_text_iff, and_iff_right hmem]
  · rename_i hmem
    exact iff_of_false nofun fun h => hmem h.1

/-- An optional text comes back from a select with an empty option if it is plain and one of the
others. -/
theorem readText_select_ofText?_iff {names : List String} {value : Option String} :
    readText ((Element.select ("" :: names)).reads (NodeValue.ofText? value).written) =
      (NodeValue.ofText? value).read ↔ ∀ s ∈ value, s ∈ names ∧ Plain s := by
  cases value with
  | none =>
      simp [NodeValue.ofText?, NodeValue.written, NodeValue.read, Element.reads, readText_empty]
  | some s =>
      have hoption : s ∈ "" :: names ∧ Plain s ↔ s ∈ names ∧ Plain s := by
        refine and_congr_left fun hplain => ?_
        rw [List.mem_cons, or_iff_right hplain.1]
      simp only [Option.mem_some_iff, forall_eq']
      rw [← hoption]
      exact readText_select_iff

theorem trim_eq_empty_iff {s : String} : trim s = "" ↔ trimBoth isWhiteSpace s.toList = [] := by
  rw [trim, String.ofList_eq_empty_iff]

theorem trim_eq_self_iff {s : String} :
    trim s = s ↔ trimBoth isWhiteSpace s.toList = s.toList := by
  rw [trim, ← String.toList_inj, String.toList_ofList]

theorem readList_eq (s : String) :
    readList s = .list ((readItems isWhiteSpace ',' s.toList).map String.ofList) := by
  unfold readList readItems
  by_cases hempty : trim s = ""
  · rw [if_pos hempty, if_pos (trim_eq_empty_iff.mp hempty), List.map_nil]
  · rw [if_neg hempty, if_neg (mt trim_eq_empty_iff.mpr hempty), Text.split, List.map_map,
      List.map_map, trim, String.toList_ofList]
    simp [Function.comp_def, trim]

/-- Items come back from an input if they are plain. -/
theorem readList_eq_list_iff {items : List String} :
    readList (", ".intercalate items) = .list items ↔ PlainItems items := by
  have hwritten : (", ".intercalate items).toList =
      writeItems ',' [' '] (items.map String.toList) := String.toList_intercalate
  have hgap : ∀ c ∈ [' '], isWhiteSpace c = true := List.forall_mem_singleton.mpr (by decide)
  have hback : ∀ l : List (List Char),
      l.map String.ofList = items ↔ l = items.map String.toList := by
    intro l
    constructor
    · rintro rfl
      simp [Function.comp_def]
    · rintro rfl
      simp [Function.comp_def]
  rw [readList_eq, FieldValue.list.injEq, hback, hwritten,
    readItems_writeItems_iff (by decide) hgap, PlainItems]
  refine and_congr (not_congr ?_) ?_
  · rw [eq_comm, ← hback]
    simp [eq_comm]
  · rw [List.forall_mem_map]
    exact forall₂_congr fun item _ => and_congr_right fun _ => trim_eq_self_iff.symm

theorem isWhiteSpace_of_isDigit {c : Char} (h : c.isDigit = true) : isWhiteSpace c = false := by
  obtain ⟨hlow, hhigh⟩ := Text.toNat_of_isDigit h
  simp only [isWhiteSpace, Bool.or_eq_false_iff, Bool.and_eq_false_iff, beq_eq_false_iff_ne,
    decide_eq_false_iff_not]
  omega

/-- A small number comes back from an input. -/
theorem readNumber_toString {n : Int} (hn : 0 ≤ n) (h : n < 2 ^ 53) :
    trim (toString n) = toString n ∧ toString n ≠ "" ∧
      Double.readNumber (toString n).toList = .finite n := by
  obtain ⟨m, rfl⟩ := Int.eq_ofNat_of_zero_le hn
  have hdecimal := Text.isDecimal_toString m
  have hblank : ∀ c ∈ (toString (m : Int)).toList, isWhiteSpace c = false := fun c hc =>
    isWhiteSpace_of_isDigit (hdecimal.2 c hc)
  refine ⟨?_, hdecimal.1, ?_⟩
  · rw [trim, trimBoth_eq_self hblank, String.ofList_toList]
  · rw [Text.toList_toString, Double.readNumber_toDigits (by omega)]
    rfl

/-! ## Filling the form and reading it -/

section

variable (interfaces : List InterfaceCandidate) (node : NodeConfig)

/-- The field of the form, as it was filled, reads back as the node has it. -/
def ReadsBack (field : Field) : Prop :=
  readForm (writeForm interfaces node) field = (valueOf node field).read

/-- The form as it was filled reads back as the node, and after an edit of one field nothing else
is sent. -/
structure OnlyEdits : Prop where
  readBack : ∀ field, ReadsBack interfaces node field
  onlyEdited : ∀ edited form, (∀ field, field ≠ edited →
    form field = writeForm interfaces node field) → ∀ password patch,
    save node form password = .ok patch → ∀ change ∈ patch.changes, change.1 = edited

/-- The texts are plain, the items are, and the interfaces are discovered. -/
structure Displayable : Prop where
  ansibleHost : Plain node.ansibleHost
  networkInterface : node.networkInterface ∈ interfaces.map (·.name) ∧ Plain node.networkInterface
  gatewayAddr : ∀ s ∈ node.gatewayAddr, Plain s
  dnsServers : PlainItems node.dnsServers
  ptpInterface : ∀ s ∈ node.ptpInterface, s ∈ interfaces.map (·.name) ∧ Plain s
  ntpServers : PlainItems node.ntpServers
  adminUser : ∀ s ∈ node.adminUser, Plain s
  isolcpus : ∀ s ∈ node.isolcpus, Plain s

variable {interfaces node}

/-- The fields that are neither lists nor numbers read as texts. -/
theorem readForm_of_text {field : Field} (hlist : field ∉ listFields)
    (hnumber : field ∉ numberFields) (form : Form) :
    readForm form field = readText (form field) := by
  have hsubnet : field ≠ .subnet := by
    rintro rfl
    exact hnumber (by decide)
  rw [readForm, if_neg fun h => hsubnet h.1, readField, if_neg hlist, if_neg hnumber, readText]

theorem readForm_of_list {field : Field} (hlist : field ∈ listFields) (form : Form) :
    readForm form field = readList (form field) := by
  have hsubnet : field ≠ .subnet := by
    rintro rfl
    exact absurd hlist (by decide)
  rw [readForm, if_neg fun h => hsubnet h.1, readField, if_pos hlist, readList]

/-- A number that was written is read again. -/
theorem readForm_of_number {field : Field} (hnumber : field ∈ numberFields) {form : Form} {n : Int}
    (hn : 0 ≤ n) (h : n < 2 ^ 53) (hform : form field = toString n) :
    readForm form field = .number (.finite n) := by
  have hlist : field ∉ listFields := by
    intro hlist
    have hnone : ∀ f ∈ listFields, f ∉ numberFields := by decide
    exact hnone field hlist hnumber
  obtain ⟨htrim, hne, hread⟩ := readNumber_toString hn h
  have hfield : readField field (form field) = .number (.finite n) := by
    rw [readField, if_neg hlist, if_pos hnumber, hform, htrim, if_neg hne, hread]
  rw [readForm, hfield, if_neg (fun h => nomatch h.2)]

theorem readsBack_subnet : ReadsBack interfaces node .subnet :=
  readForm_of_number (by decide) (by have := node.subnet.2; omega)
    (by have := node.subnet.2; omega) rfl

theorem readsBack_ptpDomainNumber : ReadsBack interfaces node .ptpDomainNumber := by
  unfold ReadsBack
  cases hdomain : node.ptpDomainNumber with
  | none =>
      have hempty : writeForm interfaces node .ptpDomainNumber = "" := by
        simp [writeForm, element, Element.reads, valueOf, hdomain, NodeValue.written]
      rw [readForm, hempty, valueOf, hdomain]
      rfl
  | some n =>
      have hvalue : valueOf node .ptpDomainNumber = .integer n := by rw [valueOf, hdomain]
      rw [hvalue]
      refine readForm_of_number (by decide) n.2.1 (by have := n.2.2; omega) ?_
      rw [writeForm, hvalue]
      rfl

theorem readsBack_text_iff {field : Field} (hlist : field ∉ listFields)
    (hnumber : field ∉ numberFields) :
    ReadsBack interfaces node field ↔
      readText (writeForm interfaces node field) = (valueOf node field).read := by
  rw [ReadsBack, readForm_of_text hlist hnumber]

theorem readsBack_list_iff {field : Field} (hlist : field ∈ listFields) :
    ReadsBack interfaces node field ↔
      readList (writeForm interfaces node field) = (valueOf node field).read := by
  rw [ReadsBack, readForm_of_list hlist]

/-- The form reads back as the node exactly if the node's texts and items are plain and its
interfaces are discovered. -/
theorem readsBack_iff :
    (∀ field, ReadsBack interfaces node field) ↔ Displayable interfaces node := by
  have hansibleHost : ReadsBack interfaces node .ansibleHost ↔ Plain node.ansibleHost :=
    (readsBack_text_iff (by decide) (by decide)).trans readText_eq_text_iff
  have hnetworkInterface : ReadsBack interfaces node .networkInterface ↔
      node.networkInterface ∈ interfaces.map (·.name) ∧ Plain node.networkInterface :=
    (readsBack_text_iff (by decide) (by decide)).trans readText_select_iff
  have hgatewayAddr : ReadsBack interfaces node .gatewayAddr ↔ ∀ s ∈ node.gatewayAddr, Plain s :=
    (readsBack_text_iff (by decide) (by decide)).trans readText_ofText?_iff
  have hdnsServers : ReadsBack interfaces node .dnsServers ↔ PlainItems node.dnsServers :=
    (readsBack_list_iff (by decide)).trans readList_eq_list_iff
  have hptpInterface : ReadsBack interfaces node .ptpInterface ↔
      ∀ s ∈ node.ptpInterface, s ∈ interfaces.map (·.name) ∧ Plain s :=
    (readsBack_text_iff (by decide) (by decide)).trans readText_select_ofText?_iff
  have hntpServers : ReadsBack interfaces node .ntpServers ↔ PlainItems node.ntpServers :=
    (readsBack_list_iff (by decide)).trans readList_eq_list_iff
  have hadminUser : ReadsBack interfaces node .adminUser ↔ ∀ s ∈ node.adminUser, Plain s :=
    (readsBack_text_iff (by decide) (by decide)).trans readText_ofText?_iff
  have hisolcpus : ReadsBack interfaces node .isolcpus ↔ ∀ s ∈ node.isolcpus, Plain s :=
    (readsBack_text_iff (by decide) (by decide)).trans readText_ofText?_iff
  constructor
  · intro h
    exact ⟨hansibleHost.mp (h _), hnetworkInterface.mp (h _), hgatewayAddr.mp (h _),
      hdnsServers.mp (h _), hptpInterface.mp (h _), hntpServers.mp (h _), hadminUser.mp (h _),
      hisolcpus.mp (h _)⟩
  · intro h field
    cases field with
    | ansibleHost => exact hansibleHost.mpr h.ansibleHost
    | networkInterface => exact hnetworkInterface.mpr h.networkInterface
    | subnet => exact readsBack_subnet
    | gatewayAddr => exact hgatewayAddr.mpr h.gatewayAddr
    | dnsServers => exact hdnsServers.mpr h.dnsServers
    | ptpInterface => exact hptpInterface.mpr h.ptpInterface
    | ptpDomainNumber => exact readsBack_ptpDomainNumber
    | ntpServers => exact hntpServers.mpr h.ntpServers
    | adminUser => exact hadminUser.mpr h.adminUser
    | isolcpus => exact hisolcpus.mpr h.isolcpus

/-- What is sent reads differently from the node. -/
theorem mem_changes {form : Form} {password : String} {patch : HostPatch}
    (h : save node form password = .ok patch) {change : Field × FieldValue}
    (hchange : change ∈ patch.changes) :
    readForm form change.1 ≠ (valueOf node change.1).read := by
  unfold save at h
  simp only at h
  split at h
  · cases h
  · obtain rfl := Except.ok.inj h
    obtain ⟨field, hfield, rfl⟩ := List.mem_map.mp hchange
    have hdiffers := (List.mem_filter.mp hfield).2
    rw [decide_eq_true_eq] at hdiffers
    exact fun heq => hdiffers (congrArg FieldValue.json heq)

/-- Where the form reads back as the node, saving it as it was filled sends nothing. -/
theorem save_unedited (h : Displayable interfaces node) :
    save node (writeForm interfaces node) "" = .error "Nothing changed." := by
  have hback := readsBack_iff.mpr h
  have hunchanged : (fields.filter fun field =>
      (readForm (writeForm interfaces node) field).json ≠ (valueOf node field).read.json) = [] := by
    rw [List.filter_eq_nil_iff]
    intro field _
    rw [hback field]
    simp
  rw [save, hunchanged]
  rfl

/-- A field reads from its own element. -/
theorem readForm_congr {form form' : Form} {field : Field} (h : form field = form' field) :
    readForm form field = readForm form' field := by
  rw [readForm, readForm, h]

/-- **The form changes only what is edited exactly if every text in it is plain, so is every item,
and the interfaces are discovered.** -/
theorem onlyEdits_iff : OnlyEdits interfaces node ↔ Displayable interfaces node := by
  constructor
  · exact fun h => readsBack_iff.mp h.readBack
  · intro h
    have hback := readsBack_iff.mpr h
    refine ⟨hback, fun edited form hform password patch hsave change hchange => ?_⟩
    by_contra hne
    refine mem_changes hsave hchange ?_
    rw [readForm_congr (hform change.1 hne)]
    exact hback change.1

end

/-! ### An interface that is not there yet -/

/-- What discovery saw. -/
def seen : List InterfaceCandidate :=
  [{ name := "eno1", mac := none, operstate := some "up", speedMbps := none, driver := none
     carriesDefaultRoute := true, ptpCapable := false, addresses := [] }]

/-- A machine that is to take its time from an interface that it does not have yet. -/
def planned : NodeConfig where
  ansibleHost := "192.168.200.11"
  networkInterface := "eno1"
  ptpInterface := some "team0"

/-- A save of its gateway takes that interface away. -/
theorem planned_interface_lost :
    ¬ OnlyEdits seen planned ∧
      (save planned (Function.update (writeForm seen planned) .gatewayAddr "192.168.200.1")
        "").map (·.changes) =
        .ok [(.gatewayAddr, .text "192.168.200.1"), (.ptpInterface, .null)] := by
  refine ⟨fun h => ?_, by decide +kernel⟩
  have hback := h.readBack .ptpInterface
  exact absurd hback (by unfold ReadsBack; decide)

end SeapathWebui.Ui
