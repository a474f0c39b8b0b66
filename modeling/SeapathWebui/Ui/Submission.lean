/-
  Ui/Submission.lean --- what the server reads of a form that was submitted.

  The form gives texts, lists and whole numbers, and the request model has a place for each.
  So where the rules let a change of the form through, the attributes that `patch_host` ends up
  with are those of a machine (`exists_readAs`), and in every field it is what the form reads.
-/
import SeapathWebui.Ui.Pages

set_option autoImplicit false

namespace SeapathWebui.Ui

open SeapathWebui.Foundation SeapathWebui.Inventory

/-! ## What the form reads -/

/-- In every field the machine is what the form reads. -/
def Reads (form : Form) (node : NodeConfig) : Prop :=
  ∀ field, (valueOf node field).read = readForm form field

section Form

variable {form : Form}

theorem exists_text (value : String) :
    ∃ text, readText value = (NodeValue.ofText? text).read ∧ ∀ s ∈ text, Plain s := by
  unfold readText
  split
  · exact ⟨none, rfl, fun s hs => nomatch hs⟩
  · rename_i hne
    refine ⟨some (trim value), rfl, fun s hs => ?_⟩
    obtain rfl := Option.mem_some_iff.mp hs
    exact ⟨hne, trim_eq_self_iff.mpr (by rw [trim, String.toList_ofList, trimBoth_trimBoth])⟩

theorem inRange_eq_true {low high : Int} {raw : String} (h : inRange low high raw = true) :
    ∃ n : Int, low ≤ n ∧ n ≤ high ∧ Double.readNumber (trim raw).toList = .finite n := by
  unfold inRange at h
  split at h
  · rename_i q hread
    simp only [Bool.and_eq_true, decide_eq_true_eq] at h
    obtain ⟨⟨hden, hlow⟩, hhigh⟩ := h
    refine ⟨q.num, hlow, hhigh, ?_⟩
    rw [hread, (Rat.den_eq_one_iff q).mp hden]
  · cases h
  · cases h

theorem submittable_eq_true : submittable form = true ↔
    form .ansibleHost ≠ "" ∧ form .networkInterface ≠ "" ∧ inRange 1 32 (form .subnet) = true ∧
      (trim (form .ptpDomainNumber) = "" ∨ inRange 0 255 (form .ptpDomainNumber) = true) := by
  simp [submittable, and_assoc]

/-- A form that could be submitted has a prefix length. -/
theorem exists_subnet (h : submittable form = true) :
    ∃ n : Subnet, readForm form .subnet = .number (.finite ((n : Int) : ℚ)) := by
  obtain ⟨-, -, hrange, -⟩ := submittable_eq_true.mp h
  obtain ⟨n, hlow, hhigh, hread⟩ := inRange_eq_true hrange
  refine ⟨⟨n, hlow, hhigh⟩, ?_⟩
  have hne : trim (form .subnet) ≠ "" := by
    intro hempty
    rw [hempty] at hread
    have hzero : (0 : ℚ) = n := Double.finite.inj hread
    have : n = 0 := by exact_mod_cast hzero.symm
    omega
  have hfield : readField .subnet (form .subnet) = .number (.finite (n : ℚ)) := by
    rw [readField, if_neg (by decide), if_pos (by decide), if_neg hne, hread]
  rw [readForm, hfield, if_neg (by simp)]

/-- A PTP domain, as the API sends it. -/
def domainValue : Option PtpDomain → NodeValue
  | none => .null
  | some n => .integer n

theorem valueOf_ptpDomainNumber (node : NodeConfig) :
    valueOf node .ptpDomainNumber = domainValue node.ptpDomainNumber := by
  cases h : node.ptpDomainNumber <;> simp [valueOf, domainValue, h]

theorem domainValue_inj {domain domain' : Option PtpDomain}
    (h : (domainValue domain).read.json = (domainValue domain').read.json) : domain = domain' := by
  cases domain with
  | none => cases domain' with
    | none => rfl
    | some n => cases h
  | some n => cases domain' with
    | none => cases h
    | some m =>
        have hcast : ((n : Int) : ℚ) = ((m : Int) : ℚ) :=
          Double.finite.inj (FieldValue.number.inj h)
        exact congrArg some (Subtype.ext (by exact_mod_cast hcast))

/-- And a PTP domain or none. -/
theorem exists_ptpDomainNumber (h : submittable form = true) :
    ∃ domain, readForm form .ptpDomainNumber = (domainValue domain).read := by
  obtain ⟨-, -, -, hdomain⟩ := submittable_eq_true.mp h
  have hform : readForm form .ptpDomainNumber =
      if trim (form .ptpDomainNumber) = "" then .null
      else .number (Double.readNumber (trim (form .ptpDomainNumber)).toList) := by
    rw [readForm, if_neg (by simp), readField, if_neg (by decide), if_pos (by decide)]
  by_cases hempty : trim (form .ptpDomainNumber) = ""
  · exact ⟨none, by rw [hform, if_pos hempty]; rfl⟩
  · obtain ⟨n, hlow, hhigh, hread⟩ := inRange_eq_true (hdomain.resolve_left hempty)
    exact ⟨some ⟨n, hlow, hhigh⟩, by rw [hform, if_neg hempty, hread]; rfl⟩

/-- The items of a list come back from an input. -/
theorem plainItems_of_readList {value : String} {items : List String}
    (h : readList value = .list items) : PlainItems items := by
  rw [readList_eq] at h
  obtain rfl := FieldValue.list.inj h
  refine ⟨fun hsingle => readItems_ne_singleton_nil (p := isWhiteSpace) (c := ',') value.toList ?_,
    fun item hitem => ?_⟩
  · obtain ⟨x, hx, hempty⟩ := List.map_eq_singleton_iff.mp hsingle
    rw [hx, String.ofList_eq_empty_iff.mp hempty]
  · obtain ⟨x, hx, rfl⟩ := List.mem_map.mp hitem
    obtain ⟨hcomma, htrim⟩ := of_mem_readItems hx
    rw [trim_eq_self_iff, String.toList_ofList]
    exact ⟨hcomma, htrim⟩

theorem exists_list (form : Form) {field : Field} (h : field ∈ listFields) :
    ∃ items, readForm form field = .list items := by
  rw [readForm_of_list h]
  exact ⟨_, rfl⟩

end Form

/-! ## What the server reads -/

theorem find?_name (field : Field) : fields.find? (fun f => f.name = field.name) = some field := by
  cases field <;> decide

theorem name_injective : Function.Injective Field.name := by
  intro a b h
  have hfind := find?_name a
  rw [h, find?_name] at hfind
  exact (Option.some.inj hfind).symm

theorem mem_fields (field : Field) : field ∈ fields := List.mem_of_find?_eq_some (find?_name field)

theorem name_mem_nodeFields : ∀ field : Field, field.name ∈ nodeFields := by
  intro field
  cases field <;> decide

/-- The role, the password and the other variables are in no field. -/
theorem name_ne (field : Field) :
    field.name ≠ "role" ∧ field.name ≠ "grub_password" ∧ field.name ≠ "extra" := by
  cases field <;> decide

section Server

variable {node : NodeConfig} {form : Form} {password : String} {patch : HostPatch}

/-- The fields that read differently from the node. -/
def changed (node : NodeConfig) (form : Form) : List Field :=
  fields.filter fun field => (readForm form field).json ≠ (valueOf node field).read.json

theorem save_eq_ok (h : save node form password = .ok patch) :
    patch.changes = (changed node form).map (fun field => (field, (readForm form field).json)) ∧
      patch.grubPasswordPlain = if password = "" then none else some password := by
  unfold save at h
  simp only at h
  split at h
  · cases h
  · obtain rfl := Except.ok.inj h
    exact ⟨rfl, rfl⟩

/-- The fields that are sent, under their names. -/
def sent (node : NodeConfig) (form : Form) : List (String × Value) :=
  (changed node form).map fun field => (field.name, (readForm form field).json.toValue)

theorem nodup_sent : ((sent node form).map Prod.fst).Nodup := by
  have hfields : fields.Nodup := by decide
  have hnames : (sent node form).map Prod.fst = (changed node form).map Field.name := by
    simp [sent]
  rw [hnames]
  exact (hfields.filter _).map name_injective

theorem lookup_sent (field : Field) :
    (sent node form).lookup field.name =
      if (readForm form field).json ≠ (valueOf node field).read.json then
        some (readForm form field).json.toValue
      else none := by
  split
  · rename_i hdiffers
    refine Dict.lookup_of_mem nodup_sent ?_
    exact List.mem_map.mpr
      ⟨field, List.mem_filter.mpr ⟨mem_fields field, by simpa using hdiffers⟩, rfl⟩
  · rename_i hsame
    refine Dict.lookup_eq_none_iff_not_mem.mpr fun hmem => ?_
    obtain ⟨e, he, hname⟩ := List.mem_map.mp hmem
    obtain ⟨other, hother, rfl⟩ := List.mem_map.mp he
    obtain rfl := name_injective hname
    exact hsame (by simpa using (List.mem_filter.mp hother).2)

theorem lookup_sent_of_ne {k : String} (h : ∀ field : Field, field.name ≠ k) :
    (sent node form).lookup k = none := by
  refine Dict.lookup_eq_none_iff_not_mem.mpr fun hmem => ?_
  obtain ⟨e, he, hname⟩ := List.mem_map.mp hmem
  obtain ⟨field, -, rfl⟩ := List.mem_map.mp he
  exact h field hname

variable (hashed : String)

/-- What stands under a name in the changes. -/
theorem get?_values (h : save node form password = .ok patch) (k : String) :
    (patch.values hashed).get? k =
      if k = "grub_password" ∧ password ≠ "" then some (.str hashed)
      else (sent node form).lookup k := by
  obtain ⟨hchanges, hpassword⟩ := save_eq_ok h
  have hsent : patch.changes.map (fun change => (change.1.name, change.2.toValue)) =
      sent node form := by
    rw [hchanges, List.map_map]
    rfl
  unfold HostPatch.values
  rw [hsent, hpassword]
  by_cases hempty : password = ""
  · simp only [hempty, if_true, ne_eq, not_true, and_false, if_false]
    exact Dict.get?_ofList nodup_sent k
  · simp only [hempty, if_false, ne_eq, not_false_eq_true, and_true, Dict.get?_set,
      Dict.get?_ofList nodup_sent]
    exact if_congr eq_comm rfl rfl

theorem get?_values_field (h : save node form password = .ok patch) (field : Field) :
    (patch.values hashed).get? field.name =
      if (readForm form field).json ≠ (valueOf node field).read.json then
        some (readForm form field).json.toValue
      else none := by
  rw [get?_values hashed h, if_neg fun hgrub => (name_ne field).2.1 hgrub.1, lookup_sent]

/-- No other field than those of a machine is sent. -/
theorem keys_values (h : save node form password = .ok patch) :
    ∀ k ∈ (patch.values hashed).keys, k ∈ nodeFields := by
  intro k hk
  have hsome : (patch.values hashed).get? k ≠ none := mt Dict.get?_eq_none_iff.mp (not_not.mpr hk)
  rw [get?_values hashed h] at hsome
  split at hsome
  · rename_i hgrub
    rw [hgrub.1]
    decide
  · by_contra hnot
    refine hsome (lookup_sent_of_ne fun field hname => hnot ?_)
    exact hname ▸ name_mem_nodeFields field

/-- A field that the form reads is read by the server: as it came, or it is what is stored. -/
theorem readField_values {α : Type} {read : Value → Option α} {stored a : α} {field : Field}
    (h : save node form password = .ok patch)
    (hread : read (readForm form field).json.toValue = some a)
    (hstored : (readForm form field).json = (valueOf node field).read.json → stored = a) :
    RequestModel.readField (patch.values hashed) field.name read stored = some a := by
  unfold RequestModel.readField
  rw [get?_values_field hashed h]
  split
  · rename_i hget
    split at hget
    · cases hget
    · rename_i hsame
      rw [hstored (not_not.mp hsame)]
  · rename_i v hget
    split at hget
    · rw [← Option.some.inj hget, hread]
    · cases hget

/-- A name that is none of a field's is not among the changes. -/
theorem readField_values_of_ne {α : Type} {read : Value → Option α} {stored : α} {k : String}
    (h : save node form password = .ok patch) (hgrub : k ≠ "grub_password")
    (hk : ∀ field : Field, field.name ≠ k) :
    RequestModel.readField (patch.values hashed) k read stored = some stored := by
  have hget : (patch.values hashed).get? k = none := by
    rw [get?_values hashed h, if_neg fun h => hgrub h.1, lookup_sent_of_ne hk]
  rw [RequestModel.readField, hget]

/-- The password is the hash of what was typed, or what is stored. -/
theorem readField_grubPassword (h : save node form password = .ok patch) :
    RequestModel.readField (patch.values hashed) "grub_password" readOptionalText
        node.grubPassword =
      some (if password = "" then node.grubPassword else some hashed) := by
  have hlookup : (sent node form).lookup "grub_password" = none :=
    lookup_sent_of_ne fun field => (name_ne field).2.1
  unfold RequestModel.readField
  rw [get?_values hashed h, hlookup]
  by_cases hempty : password = "" <;> simp [hempty, readOptionalText, Inventory.readText]

/-- A text that must be there. -/
theorem readField_text {stored s : String} (field : Field) (h : save node form password = .ok patch)
    (hvalue : valueOf node field = .text stored) (hform : readForm form field = .text s) :
    RequestModel.readField (patch.values hashed) field.name Inventory.readText stored = some s := by
  refine readField_values hashed h ?_ fun heq => ?_
  · rw [hform]
    rfl
  · rw [hform, hvalue] at heq
    exact (FieldValue.text.inj heq).symm

theorem readField_optionalText {stored text : Option String} (field : Field)
    (h : save node form password = .ok patch) (hvalue : valueOf node field = .ofText? stored)
    (hform : readForm form field = (NodeValue.ofText? text).read) :
    RequestModel.readField (patch.values hashed) field.name readOptionalText stored =
      some text := by
  refine readField_values hashed h ?_ fun heq => ?_
  · rw [hform]
    cases text <;> rfl
  · rw [hform, hvalue] at heq
    cases stored <;> cases text <;>
      simp_all [NodeValue.ofText?, NodeValue.read, FieldValue.json]

theorem readTexts_ofTexts (texts : List String) : readTexts (ofTexts texts) = some texts := by
  rw [ofTexts, readTexts, Text.mapM_eq_some, List.forall₂_map_left_iff, List.forall₂_same]
  exact fun text _ => rfl

theorem readField_texts {stored items : List String} (field : Field)
    (h : save node form password = .ok patch) (hvalue : valueOf node field = .list stored)
    (hform : readForm form field = .list items) :
    RequestModel.readField (patch.values hashed) field.name readTexts stored = some items := by
  refine readField_values hashed h ?_ fun heq => ?_
  · rw [hform]
    exact readTexts_ofTexts items
  · rw [hform, hvalue] at heq
    exact (FieldValue.list.inj heq).symm

theorem readField_subnet {n : Subnet} (h : save node form password = .ok patch)
    (hform : readForm form .subnet = .number (.finite ((n : Int) : ℚ))) :
    RequestModel.readField (patch.values hashed) "subnet" integersOnly.readSubnet node.subnet =
      some n := by
  change RequestModel.readField _ (Field.name .subnet) _ _ = _
  refine readField_values hashed h ?_ fun heq => ?_
  · rw [hform]
    have hvalue : (FieldValue.number (.finite ((n : Int) : ℚ))).json.toValue =
        .scalar (.int n) := by simp [FieldValue.json, FieldValue.toValue]
    rw [hvalue, RequestModel.readSubnet, integersOnly]
    simp [n.2]
  · rw [hform] at heq
    have hcast : ((n : Int) : ℚ) = ((node.subnet : Int) : ℚ) :=
      Double.finite.inj (FieldValue.number.inj heq)
    exact Subtype.ext (by exact_mod_cast hcast.symm)

theorem readField_ptpDomainNumber {domain : Option PtpDomain}
    (h : save node form password = .ok patch)
    (hform : readForm form .ptpDomainNumber = (domainValue domain).read) :
    RequestModel.readField (patch.values hashed) "ptp_domain_number" integersOnly.readPtpDomain
      node.ptpDomainNumber = some domain := by
  change RequestModel.readField _ (Field.name .ptpDomainNumber) _ _ = _
  refine readField_values hashed h ?_ fun heq => ?_
  · rw [hform]
    cases domain with
    | none => rfl
    | some n =>
        have hvalue : (domainValue (some n)).read.json.toValue = .scalar (.int n) := by
          simp [domainValue, NodeValue.read, FieldValue.json, FieldValue.toValue]
        rw [hvalue, RequestModel.readPtpDomain, integersOnly]
        · simp [n.2]
        · simp
  · rw [hform, valueOf_ptpDomainNumber] at heq
    exact (domainValue_inj heq).symm

/-- The machine that the server makes of a stored one. -/
structure ReadAs (form : Form) (password : String) (stored read : NodeConfig) : Prop where
  reads : Reads form read
  role : read.role = stored.role
  grubPassword : read.grubPassword = if password = "" then stored.grubPassword else some hashed
  extra : read.extra = stored.extra

/-- A text of the form, of a field that is none of the lists and numbers. -/
theorem exists_readForm (form : Form) {field : Field} (hlist : field ∉ listFields)
    (hnumber : field ∉ numberFields) :
    ∃ text, readForm form field = (NodeValue.ofText? text).read ∧ ∀ s ∈ text, Plain s := by
  rw [readForm_of_text hlist hnumber]
  exact exists_text (form field)

/-- A text that the form reads is plain. -/
theorem plain_of_reads {field : Field} {text : Option String}
    (h : (NodeValue.ofText? text).read = readForm form field) (hlist : field ∉ listFields)
    (hnumber : field ∉ numberFields) : ∀ s ∈ text, Plain s := by
  obtain ⟨read, hread, hplain⟩ := exists_readForm form hlist hnumber
  have hsame : text = read := by
    rw [hread] at h
    cases text <;> cases read <;> simp_all [NodeValue.ofText?, NodeValue.read]
  exact hsame ▸ hplain

/-- A text that must be there is read where its rule lets it through. -/
theorem exists_required {stored : String} (field : Field) (h : save node form password = .ok patch)
    (hlist : field ∉ listFields) (hnumber : field ∉ numberFields)
    (hvalue : valueOf node field = .text stored)
    (hnull : (patch.values hashed).get? field.name ≠ some .null) :
    ∃ s, readForm form field = .text s := by
  obtain ⟨text, htext, -⟩ := exists_readForm form hlist hnumber
  cases text with
  | some s => exact ⟨s, htext⟩
  | none =>
      refine absurd ?_ hnull
      rw [get?_values_field hashed h, if_pos, htext]
      · rfl
      · rw [htext, hvalue]
        exact nofun

/-- What the server reads is the machine that the form reads. -/
theorem readNode_values {read : NodeConfig} (h : save node form password = .ok patch)
    (hread : ReadAs hashed form password node read) :
    integersOnly.readNode node (patch.values hashed) = some read := by
  have hform := fun field => (hread.reads field).symm
  have hrole' : RequestModel.readField (patch.values hashed) "role" readRole node.role =
      some read.role := by
    rw [hread.role]
    exact readField_values_of_ne hashed h (by decide) fun field => (name_ne field).1
  have hextra : RequestModel.readField (patch.values hashed) "extra" readExtra node.extra =
      some read.extra := by
    rw [hread.extra]
    exact readField_values_of_ne hashed h (by decide) fun field => (name_ne field).2.2
  have hgrub := readField_grubPassword hashed h
  rw [← hread.grubPassword] at hgrub
  have hdomain := readField_ptpDomainNumber hashed h
    ((hform .ptpDomainNumber).trans (by rw [valueOf_ptpDomainNumber]))
  have hsubnet := readField_subnet hashed h (hform .subnet)
  have hhost := readField_text hashed .ansibleHost h rfl (hform .ansibleHost)
  have hinterface :=
    readField_text hashed .networkInterface h rfl (hform .networkInterface)
  have hgateway := readField_optionalText hashed .gatewayAddr h rfl (hform .gatewayAddr)
  have hdns := readField_texts hashed .dnsServers h rfl (hform .dnsServers)
  have hptp := readField_optionalText hashed .ptpInterface h rfl (hform .ptpInterface)
  have hntp := readField_texts hashed .ntpServers h rfl (hform .ntpServers)
  have huser := readField_optionalText hashed .adminUser h rfl (hform .adminUser)
  have hcpus := readField_optionalText hashed .isolcpus h rfl (hform .isolcpus)
  simp only [Field.name] at hhost hinterface hgateway hdns hptp hntp huser hcpus
  simp only [RequestModel.readNode, hrole', hhost, hinterface, hsubnet, hgateway, hdns, hptp,
    hdomain, hntp, huser, hgrub, hcpus, hextra, Option.bind_eq_bind, Option.bind_some]

/-- What is sent of a field is what the machine that the form reads has there. -/
theorem eq_of_get?_values {read : NodeConfig} {v : Value} (h : save node form password = .ok patch)
    (hreads : Reads form read) (field : Field)
    (hv : (patch.values hashed).get? field.name = some v) :
    v = (valueOf read field).read.json.toValue := by
  rw [get?_values_field hashed h] at hv
  rw [hreads field]
  exact (Option.some.inj (Option.ite_none_right_eq_some.mp hv).2).symm

/-- Where its rules let the values of a form through, there is a machine that the form reads. -/
theorem exists_readAs {rt : Runtime} {name : String} (h : save node form password = .ok patch)
    (hsubmit : submittable form = true)
    (hpasses : Passes rt name (node.attributes.update (patch.values hashed))) :
    ∃ read, ReadAs hashed form password node read := by
  have haddress : (patch.values hashed).get? "ansible_host" ≠ some .null := by
    intro hnull
    obtain ⟨ip, hip, -⟩ := hpasses.address
    simp [Attributes.update, hnull, Attributes.address] at hip
  have hinterface : (patch.values hashed).get? "network_interface" ≠ some .null := by
    intro hnull
    have htruthy := hpasses.interface
    simp [Attributes.update, hnull] at htruthy
  obtain ⟨host, hhost⟩ :=
    exists_required hashed .ansibleHost h (by decide) (by decide) rfl haddress
  obtain ⟨interface, hinterface⟩ :=
    exists_required hashed .networkInterface h (by decide) (by decide) rfl hinterface
  obtain ⟨subnet, hsubnet⟩ := exists_subnet hsubmit
  obtain ⟨gateway, hgateway, -⟩ :=
    @exists_readForm form .gatewayAddr (by decide) (by decide)
  obtain ⟨dns, hdns⟩ := @exists_list form .dnsServers (by decide)
  obtain ⟨ptp, hptp, -⟩ :=
    @exists_readForm form .ptpInterface (by decide) (by decide)
  obtain ⟨domain, hdomain⟩ := exists_ptpDomainNumber hsubmit
  obtain ⟨ntp, hntp⟩ := @exists_list form .ntpServers (by decide)
  obtain ⟨user, huser, -⟩ :=
    @exists_readForm form .adminUser (by decide) (by decide)
  obtain ⟨cpus, hcpus, -⟩ :=
    @exists_readForm form .isolcpus (by decide) (by decide)
  refine ⟨⟨node.role, host, interface, subnet, gateway, dns, ptp, domain, ntp, user,
    if password = "" then node.grubPassword else some hashed, cpus, node.extra⟩, ?_, rfl, rfl, rfl⟩
  intro field
  cases field with
  | ansibleHost => exact hhost.symm
  | networkInterface => exact hinterface.symm
  | subnet => exact hsubnet.symm
  | gatewayAddr => exact hgateway.symm
  | dnsServers => exact hdns.symm
  | ptpInterface => exact hptp.symm
  | ptpDomainNumber =>
      rw [valueOf_ptpDomainNumber]
      exact hdomain.symm
  | ntpServers => exact hntp.symm
  | adminUser => exact huser.symm
  | isolcpus => exact hcpus.symm

end Server

end SeapathWebui.Ui
