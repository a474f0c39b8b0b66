/-
  Inventory/AuditTrail.lean --- whether a commit message names what changed.

  Source: `_message_for` and `_changed_fields` of app/inventory/service.py.

  The message of a change is put together from the fields in which a host differs, all
  but `extra`.  Whether there is a commit at all is decided on the rendered file, and that
  shows more: the variables in `extra`, the order of the hosts.  `audit_trail_iff` says
  when the message is exact.
-/
import SeapathWebui.Inventory.RoundTrip
import SeapathWebui.Inventory.Service

set_option autoImplicit false

namespace SeapathWebui.Inventory

open SeapathWebui.Foundation SeapathWebui.Foundation.Text

/-! ## What a message says -/

/-- What the message of a change names. -/
structure ChangeNote where
  sections : List String
  fields : List String
  hosts : List String

/-- Its text. -/
def ChangeNote.text (note : ChangeNote) : String :=
  ", ".intercalate note.sections ++ ": set " ++ ", ".intercalate note.fields ++ " on " ++
    ", ".intercalate note.hosts

/-- The sections a message may begin with. -/
def sectionNames : List String := "inventory" :: sections.map (·.2)

section Differences

-- `==` of two values of a document
variable (same : Value → Value → Bool)

/-- All fields of the model, and whether they differ; `extra` is compared as a dictionary, whatever
its order. -/
def allFieldsDiffer (before after : NodeConfig) : List (String × Bool) :=
  fieldsDiffer before after ++ [("extra", !before.extra.equals same after.extra)]

/-- The field differs. -/
def Differs (before after : NodeConfig) (field : String) : Prop :=
  (field, true) ∈ allFieldsDiffer same before after

/-- Both inventories have the host: it was like this, and is to be like that. -/
def Changes (previous candidate : Inventory) (name : String) (before after : NodeConfig) : Prop :=
  previous.hosts.get? name = some before ∧ candidate.hosts.get? name = some after

/-- The note names the fields in which some host differs, and the hosts that do, and no
others. -/
structure ChangeNote.Exact (note : ChangeNote) (previous candidate : Inventory) : Prop where
  sections : ∀ name ∈ note.sections, name ∈ sectionNames
  fields : ∀ field, field ∈ note.fields ↔
    ∃ name before after, Changes previous candidate name before after ∧
      Differs same before after field
  hosts : ∀ name, name ∈ note.hosts ↔
    ∃ before after, Changes previous candidate name before after ∧
      ∃ field, Differs same before after field

/-- The message names exactly what changed, and does not deny it. -/
def Audited (previous candidate : Inventory) (message : String) : Prop :=
  message ≠ "inventory: no change" ∧
    ∃ note : ChangeNote, note.Exact same previous candidate ∧ message = note.text

end Differences

/-! ### Reading a message -/

/-- A name of a field: no blank in it, and no comma. -/
def FieldName (field : String) : Prop := ' ' ∉ field.toList ∧ ',' ∉ field.toList

/-- The first of several names stands before the first blank, with a comma unless it is the
only one. -/
theorem cut_names {field : String} (h : FieldName field) (more : List String) (rest : String) :
    partition ' ' (", ".intercalate (field :: more) ++ " on " ++ rest) =
      if more = [] then (field, some ("on " ++ rest))
      else (field ++ ",", some (", ".intercalate more ++ " on " ++ rest)) := by
  split
  · rename_i hnil
    rw [hnil, String.intercalate_singleton]
    have hsame : field ++ " on " ++ rest = field ++ String.singleton ' ' ++ ("on " ++ rest) := by
      apply String.toList_inj.mp
      simp
    rw [hsame, partition_append h.1]
  · rename_i hne
    have hfirst : ' ' ∉ (field ++ ",").toList := by
      simp [h.1]
    rw [String.intercalate_cons_of_ne_nil hne]
    have hsame : field ++ ", " ++ ", ".intercalate more ++ " on " ++ rest =
        field ++ "," ++ String.singleton ' ' ++ (", ".intercalate more ++ " on " ++ rest) := by
      apply String.toList_inj.mp
      simp
    rw [hsame, partition_append hfirst]

/-- The names of the fields can be read off a message. -/
theorem names_injective {fields : List String} : ∀ {others : List String} {rest more : String},
    (∀ field ∈ fields, FieldName field) → (∀ field ∈ others, FieldName field) →
    fields ≠ [] → others ≠ [] →
    ", ".intercalate fields ++ " on " ++ rest = ", ".intercalate others ++ " on " ++ more →
    fields = others := by
  induction fields with
  | nil => exact fun _ _ hne => absurd rfl hne
  | cons field tail ih =>
      intro others rest more hfields hothers _ hne h
      cases others with
      | nil => exact absurd rfl hne
      | cons other tail' =>
          have hfield := hfields field List.mem_cons_self
          have hother := hothers other List.mem_cons_self
          have hcut := congrArg (partition ' ') h
          rw [cut_names hfield, cut_names hother] at hcut
          have hcomma : ∀ {a b : String}, FieldName a → a ≠ b ++ "," := by
            intro a b ha heq
            exact ha.2 (by rw [heq]; simp)
          by_cases htail : tail = []
          · by_cases htail' : tail' = []
            · rw [if_pos htail, if_pos htail'] at hcut
              rw [htail, htail', (Prod.mk.inj hcut).1]
            · rw [if_pos htail, if_neg htail'] at hcut
              exact absurd (Prod.mk.inj hcut).1 (hcomma hfield)
          · by_cases htail' : tail' = []
            · rw [if_neg htail, if_pos htail'] at hcut
              exact absurd (Prod.mk.inj hcut).1.symm (hcomma hother)
            · rw [if_neg htail, if_neg htail'] at hcut
              obtain ⟨hfirst, hrest⟩ := Prod.mk.inj hcut
              have hsame := ih (fun f hf => hfields f (List.mem_cons_of_mem _ hf))
                (fun f hf => hothers f (List.mem_cons_of_mem _ hf)) htail htail'
                (Option.some.inj hrest)
              rw [(String.append_left_inj ",").mp hfirst, hsame]

/-- What stands before the colon, and after it. -/
theorem cut_text {note : ChangeNote} (h : ∀ name ∈ note.sections, name ∈ sectionNames) :
    partition ':' note.text =
      (", ".intercalate note.sections,
        some (" set " ++
          (", ".intercalate note.fields ++ " on " ++ ", ".intercalate note.hosts))) := by
  have hnames : ∀ name ∈ sectionNames, ':' ∉ name.toList := by decide
  have hcolon : ∀ c ∈ (", ".intercalate note.sections).toList, c ≠ ':' := by
    refine forall_mem_intercalate ?_ fun name hname => ?_
    · rintro c hc rfl
      exact absurd hc (by decide)
    · rintro c hc rfl
      exact hnames name (h name hname) hc
  rw [← partition_append fun hmem => hcolon _ hmem rfl]
  congr 1
  apply String.toList_inj.mp
  simp [ChangeNote.text]

theorem text_ne_no_change {note : ChangeNote} (h : ∀ name ∈ note.sections, name ∈ sectionNames) :
    note.text ≠ "inventory: no change" := by
  intro heq
  have hdenied : partition ':' "inventory: no change" = ("inventory", some " no change") := by
    decide +kernel
  have hcut := cut_text h
  rw [heq, hdenied] at hcut
  have hrest := congrArg String.toList (Option.some.inj (Prod.mk.inj hcut).2)
  simp at hrest

theorem fields_of_text {note other : ChangeNote}
    (hnote : ∀ name ∈ note.sections, name ∈ sectionNames)
    (hother : ∀ name ∈ other.sections, name ∈ sectionNames)
    (hfields : ∀ field ∈ note.fields, FieldName field)
    (hothers : ∀ field ∈ other.fields, FieldName field)
    (hne : note.fields ≠ []) (hne' : other.fields ≠ []) (h : note.text = other.text) :
    note.fields = other.fields := by
  have hparts := congrArg (partition ':') h
  rw [cut_text hnote, cut_text hother] at hparts
  have hrest := (String.append_right_inj " set ").mp (Option.some.inj (Prod.mk.inj hparts).2)
  exact names_injective hfields hothers hne hne' hrest

/-! ## What the code writes -/

/-- The changes `_message_for` collects: section, field and host. -/
def collected (previous candidate : Inventory) : List (String × String × String) :=
  candidate.hosts.entries.flatMap fun e =>
    match previous.hosts.get? e.1 with
    | none => []
    | some before => (changedFields before e.2).map fun (change : String × String) =>
        (change.1, change.2, e.1)

/-- What the message of these changes names. -/
def noteOf (changes : List (String × String × String)) : ChangeNote where
  sections := sortedSet (changes.map (·.1))
  fields := sortedSet (changes.map (·.2.1))
  hosts := sortedSet (changes.map (·.2.2))

/-- The message of a change of hosts that stay. -/
theorem messageSince_eq {previous candidate : Inventory}
    (hsame : ∀ name, name ∈ candidate.hostNames ↔ name ∈ previous.hostNames) :
    messageSince (some previous) candidate =
      if collected previous candidate = [] then "inventory: no change"
      else (noteOf (collected previous candidate)).text := by
  have hadded : candidate.hostNames.filter (fun name => name ∉ previous.hostNames) = [] :=
    List.filter_eq_nil_iff.mpr fun name hname => by simp [(hsame name).mp hname]
  have hremoved : previous.hostNames.filter (fun name => name ∉ candidate.hostNames) = [] :=
    List.filter_eq_nil_iff.mpr fun name hname => by simp [(hsame name).mpr hname]
  have hchange : messageSince (some previous) candidate = changeMessage previous candidate := by
    unfold messageSince
    simp only [hadded, hremoved]
    rfl
  have hcollected : changeMessage previous candidate =
      let changes := collected previous candidate
      if changes = [] then "inventory: no change" else (noteOf changes).text := by
    unfold changeMessage collected
    rfl
  rw [hchange, hcollected]

theorem mem_collected {previous candidate : Inventory} {change : String × String × String} :
    change ∈ collected previous candidate ↔
      ∃ before after, Changes previous candidate change.2.2 before after ∧
        (change.2.1, true) ∈ fieldsDiffer before after ∧
        change.1 = (sections.lookup change.2.1).getD "inventory" := by
  obtain ⟨part, field, name⟩ := change
  rw [collected, List.mem_flatMap]
  constructor
  · rintro ⟨⟨host, after⟩, he, h⟩
    cases hbefore : previous.hosts.get? host with
    | none => simp [hbefore] at h
    | some before =>
        simp only [hbefore, changedFields, List.map_map, List.mem_map, List.mem_filter] at h
        obtain ⟨⟨f, differs⟩, ⟨hdiffers, htrue⟩, heq⟩ := h
        simp only [Function.comp_apply, Prod.mk.injEq] at heq htrue
        obtain ⟨rfl, rfl, rfl⟩ := heq
        exact ⟨before, after, ⟨hbefore, Dict.mem_entries_iff.mp he⟩, htrue ▸ hdiffers, rfl⟩
  · rintro ⟨before, after, ⟨hbefore, hafter⟩, hdiffers, hpart⟩
    refine ⟨(name, after), Dict.mem_entries_iff.mpr hafter, ?_⟩
    simp only [hbefore, changedFields, List.map_map, List.mem_map, List.mem_filter]
    refine ⟨(field, true), ⟨hdiffers, rfl⟩, ?_⟩
    simp only at hpart
    simp [hpart]

theorem collected_of_changes {previous candidate : Inventory} {name field : String}
    {before after : NodeConfig} (hchanges : Changes previous candidate name before after)
    (hdiffers : (field, true) ∈ fieldsDiffer before after) :
    ((sections.lookup field).getD "inventory", field, name) ∈ collected previous candidate :=
  mem_collected.mpr ⟨before, after, hchanges, hdiffers, rfl⟩

theorem section_mem_sectionNames (field : String) :
    (sections.lookup field).getD "inventory" ∈ sectionNames := by
  cases h : sections.lookup field with
  | none => exact List.mem_cons_self
  | some name => exact List.mem_cons_of_mem _ (List.mem_map_of_mem (Dict.mem_of_lookup h))

/-- The fields that are compared. -/
theorem field_of_fieldsDiffer {before after : NodeConfig} {e : String × Bool}
    (h : e ∈ fieldsDiffer before after) : e.1 ≠ "extra" ∧ FieldName e.1 := by
  have hnames : (fieldsDiffer before after).map (·.1) =
      ["role", "ansible_host", "network_interface", "subnet", "gateway_addr", "dns_servers",
        "ptp_interface", "ptp_domain_number", "ntp_servers", "admin_user", "grub_password",
        "isolcpus"] := rfl
  have hmem : e.1 ∈ (fieldsDiffer before after).map (·.1) := List.mem_map_of_mem h
  rw [hnames] at hmem
  revert hmem
  generalize e.1 = field
  unfold FieldName
  revert field
  decide

variable {same : Value → Value → Bool}

theorem differs_iff {before after : NodeConfig} {field : String} :
    Differs same before after field ↔ (field, true) ∈ fieldsDiffer before after ∨
      field = "extra" ∧ before.extra.equals same after.extra = false := by
  rw [Differs, allFieldsDiffer, List.mem_append, List.mem_singleton, Prod.mk.injEq]
  refine or_congr_right (and_congr_right fun _ => ?_)
  rw [eq_comm, Bool.not_eq_true']

/-- A difference the message does not come from: in the variables the model does not have. -/
def ExtraChanges (same : Value → Value → Bool) (previous candidate : Inventory) : Prop :=
  ∃ name before after, Changes previous candidate name before after ∧
    before.extra.equals same after.extra = false

/-- A difference it does come from. -/
def FieldChanges (previous candidate : Inventory) : Prop :=
  ∃ name before after field, Changes previous candidate name before after ∧
    (field, true) ∈ fieldsDiffer before after

theorem collected_ne_nil_iff {previous candidate : Inventory} :
    collected previous candidate ≠ [] ↔ FieldChanges previous candidate := by
  constructor
  · intro hne
    obtain ⟨change, hchange⟩ := List.exists_mem_of_ne_nil _ hne
    obtain ⟨before, after, hchanges, hdiffers, -⟩ := mem_collected.mp hchange
    exact ⟨_, before, after, _, hchanges, hdiffers⟩
  · rintro ⟨name, before, after, field, hchanges, hdiffers⟩
    exact List.ne_nil_of_mem (collected_of_changes hchanges hdiffers)

theorem mem_fields_noteOf {previous candidate : Inventory} {field : String} :
    field ∈ (noteOf (collected previous candidate)).fields ↔
      ∃ name before after, Changes previous candidate name before after ∧
        (field, true) ∈ fieldsDiffer before after := by
  rw [noteOf, mem_sortedSet, List.mem_map]
  constructor
  · rintro ⟨change, hchange, rfl⟩
    obtain ⟨before, after, hchanges, hdiffers, -⟩ := mem_collected.mp hchange
    exact ⟨_, before, after, hchanges, hdiffers⟩
  · rintro ⟨name, before, after, hchanges, hdiffers⟩
    exact ⟨_, collected_of_changes hchanges hdiffers, rfl⟩

theorem mem_hosts_noteOf {previous candidate : Inventory} {name : String} :
    name ∈ (noteOf (collected previous candidate)).hosts ↔
      ∃ before after, Changes previous candidate name before after ∧
        ∃ field, (field, true) ∈ fieldsDiffer before after := by
  rw [noteOf, mem_sortedSet, List.mem_map]
  constructor
  · rintro ⟨change, hchange, rfl⟩
    obtain ⟨before, after, hchanges, hdiffers, -⟩ := mem_collected.mp hchange
    exact ⟨before, after, hchanges, _, hdiffers⟩
  · rintro ⟨before, after, hchanges, field, hdiffers⟩
    exact ⟨_, collected_of_changes hchanges hdiffers, rfl⟩

theorem sections_noteOf {previous candidate : Inventory} :
    ∀ name ∈ (noteOf (collected previous candidate)).sections, name ∈ sectionNames := by
  intro name hname
  rw [noteOf, mem_sortedSet, List.mem_map] at hname
  obtain ⟨change, hchange, rfl⟩ := hname
  obtain ⟨before, after, -, -, hpart⟩ := mem_collected.mp hchange
  rw [hpart]
  exact section_mem_sectionNames _

/-- Where `extra` is as it was, the note of the code is exact. -/
theorem exact_noteOf {previous candidate : Inventory}
    (h : ¬ ExtraChanges same previous candidate) :
    (noteOf (collected previous candidate)).Exact same previous candidate where
  sections := sections_noteOf
  fields := by
    intro field
    rw [mem_fields_noteOf]
    refine exists_congr fun name => exists_congr fun before => exists_congr fun after => ?_
    refine and_congr_right fun hchanges => ?_
    rw [differs_iff]
    exact (or_iff_left fun hextra => h ⟨name, before, after, hchanges, hextra.2⟩).symm
  hosts := by
    intro name
    rw [mem_hosts_noteOf]
    refine exists_congr fun before => exists_congr fun after => and_congr_right fun hchanges => ?_
    refine exists_congr fun field => ?_
    rw [differs_iff]
    exact (or_iff_left fun hextra => h ⟨name, before, after, hchanges, hextra.2⟩).symm

/-- **The message of a change of hosts that stay is exact if and only if no host's `extra`
changes, as a dictionary, and some other field of some host does.** -/
theorem audit_trail_iff {previous candidate : Inventory}
    (hsame : ∀ name, name ∈ candidate.hostNames ↔ name ∈ previous.hostNames) :
    Audited same previous candidate (messageSince (some previous) candidate) ↔
      ¬ ExtraChanges same previous candidate ∧ FieldChanges previous candidate := by
  rw [messageSince_eq hsame, ← collected_ne_nil_iff]
  by_cases hnone : collected previous candidate = []
  · rw [if_pos hnone]
    exact iff_of_false (fun h => h.1 rfl) fun h => h.2 hnone
  rw [if_neg hnone]
  have hsome := collected_ne_nil_iff.mp hnone
  constructor
  · rintro ⟨-, note, hexact, htext⟩
    refine ⟨?_, hnone⟩
    rintro ⟨name, before, after, hchanges, hextra⟩
    have hnamed : "extra" ∈ note.fields :=
      (hexact.fields "extra").mpr
        ⟨name, before, after, hchanges, differs_iff.mpr (.inr ⟨rfl, hextra⟩)⟩
    have hwritten : (noteOf (collected previous candidate)).fields ≠ [] := by
      obtain ⟨host, was, is, field, hchanges, hdiffers⟩ := hsome
      exact List.ne_nil_of_mem (mem_fields_noteOf.mpr ⟨host, was, is, hchanges, hdiffers⟩)
    have hfields : ∀ field ∈ note.fields, FieldName field := by
      intro field hfield
      obtain ⟨-, was, is, -, hdiffers⟩ := (hexact.fields field).mp hfield
      rcases differs_iff.mp hdiffers with hdiffers | ⟨rfl, -⟩
      · exact (field_of_fieldsDiffer hdiffers).2
      · exact ⟨by decide, by decide⟩
    have hothers : ∀ field ∈ (noteOf (collected previous candidate)).fields, FieldName field := by
      intro field hfield
      obtain ⟨-, was, is, -, hdiffers⟩ := mem_fields_noteOf.mp hfield
      exact (field_of_fieldsDiffer hdiffers).2
    have hsameFields := fields_of_text sections_noteOf hexact.sections hothers hfields hwritten
      (List.ne_nil_of_mem hnamed) htext
    rw [← hsameFields] at hnamed
    obtain ⟨-, was, is, -, hdiffers⟩ := mem_fields_noteOf.mp hnamed
    exact (field_of_fieldsDiffer hdiffers).1 rfl
  · rintro ⟨hextra, -⟩
    exact ⟨text_ne_no_change sections_noteOf, _, exact_noteOf hextra, rfl⟩

/-! ### A change of a variable the model does not have -/

/-- A machine with kernel parameters of its own. -/
def tuned (parameters : String) : NodeConfig where
  ansibleHost := "192.168.200.125"
  networkInterface := "eno1"
  extra := Dict.ofList [("extra_kernel_parameters", .str parameters)]

/-- Its file, without the comments. -/
def tunedText (parameters : String) : String :=
  "all:\n" ++
  "  hosts:\n" ++
  "    node1:\n" ++
  "      ansible_host: 192.168.200.125\n" ++
  "      network_interface: eno1\n" ++
  "      subnet: 24\n" ++
  "      extra_kernel_parameters: " ++ parameters ++ "\n" ++
  fixedLines ++
  "standalone_machine:\n" ++
  "  hosts:\n" ++
  "    node1: null\n" ++
  "hypervisors:\n" ++
  "  hosts:\n" ++
  "    node1: null\n" ++
  "cluster_machines: null\n" ++
  "observers: null\n"

/-- The library, knowing the machine with either parameters. -/
def tunedRuntime : Runtime :=
  knowing (["quiet", "splash"].map fun parameters =>
    (standaloneDocument (singleHost "node1" (tuned parameters)), tunedText parameters))

/-- The file changes, and the message says that nothing did. -/
theorem extra_change_denied :
    render tunedRuntime (singleHost "node1" (tuned "quiet")) ≠
        render tunedRuntime (singleHost "node1" (tuned "splash")) ∧
      messageSince (some (singleHost "node1" (tuned "quiet")))
          (singleHost "node1" (tuned "splash")) = "inventory: no change" ∧
      ∀ same, ¬ Audited same (singleHost "node1" (tuned "quiet"))
        (singleHost "node1" (tuned "splash"))
          (messageSince (some (singleHost "node1" (tuned "quiet")))
            (singleHost "node1" (tuned "splash"))) := by
  have hmessage : messageSince (some (singleHost "node1" (tuned "quiet")))
      (singleHost "node1" (tuned "splash")) = "inventory: no change" := by decide +kernel
  refine ⟨?_, hmessage, fun _ h => h.1 hmessage⟩
  decide +kernel

theorem audit_trail_tuned :
    Audited (· == ·) (singleHost "node1" (tuned "quiet")) (singleHost "node1" (tuned "splash"))
        (messageSince (some (singleHost "node1" (tuned "quiet")))
          (singleHost "node1" (tuned "splash"))) ↔
      ¬ ExtraChanges (· == ·) (singleHost "node1" (tuned "quiet"))
          (singleHost "node1" (tuned "splash")) ∧
        FieldChanges (singleHost "node1" (tuned "quiet")) (singleHost "node1" (tuned "splash")) :=
  audit_trail_iff fun _ => Iff.rfl

end SeapathWebui.Inventory
