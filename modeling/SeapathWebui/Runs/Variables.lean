/-
  Runs/Variables.lean --- the variables a launch accepts.

  Source: `_accepted_variables` of app/runs/service.py and `VariableSpec` of
  app/runs/catalogue.py.

  A declaration has a name, a type and a flag.  The names and the flag are looked at, the
  type is not: a value of any type is passed on under a declared name
  (`returns_acceptedVariables`).
-/
import SeapathWebui.Runs.Launch

set_option autoImplicit false

namespace SeapathWebui.Runs

open SeapathWebui.Foundation

/-! ## What a declaration asks for -/

/-- The value is of the declared type: a boolean, or a text that is not empty. -/
def Typed (type : String) (value : Value) : Prop :=
  (type = "boolean" ∧ ∃ b, value = .scalar (.bool b)) ∨
    (type = "string" ∧ ∃ s, s ≠ "" ∧ value = .scalar (.str s))

section

variable (entry : PlaybookEntry) (supplied : Dict String Value) (name : String)

/-- The variable is supplied and no declaration has its name. -/
def Undeclared : Prop :=
  name ∈ supplied.keys ∧ name ∉ entry.variableSpecs.map (·.name)

/-- The variable is required and not supplied. -/
def Missing : Prop :=
  name ∉ supplied.keys ∧ ∃ spec ∈ entry.variableSpecs, spec.name = name ∧ spec.required = true

/-- The variable is supplied with a value of another type than the declared one. -/
def Mistyped : Prop :=
  ∃ spec ∈ entry.variableSpecs, spec.name = name ∧
    ∃ value, supplied.get? name = some value ∧ ¬ Typed spec.type value

/-- The variable is why the variables are not what the entry declares. -/
def AtFault : Prop :=
  Undeclared entry supplied name ∨ Missing entry supplied name ∨ Mistyped entry supplied name

end

/-- The message has the name in it. -/
def Mentions (message name : String) : Prop := ∃ before after, message = before ++ name ++ after

/-- Exactly the declared variables are accepted, as they are, and a refusal names one that is at
fault. -/
structure AcceptsDeclared (entry : PlaybookEntry) (supplied : Dict String Value) : Prop where
  accepts : Returns (acceptedVariables entry supplied) ↔ ∀ name, ¬ AtFault entry supplied name
  unchanged : ∀ accepted, acceptedVariables entry supplied = .ok accepted → accepted = supplied
  refuses : ∀ e, acceptedVariables entry supplied = .error e →
    ∃ name, AtFault entry supplied name ∧ Mentions e.message name

/-! ## Messages -/

theorem Mentions.append {message name : String} (h : Mentions message name)
    (before after : String) : Mentions (before ++ message ++ after) name := by
  obtain ⟨left, right, rfl⟩ := h
  exact ⟨before ++ left, right ++ after, by simp only [String.append_assoc]⟩

theorem mentions_intercalate {separator name : String} {names : List String}
    (h : name ∈ names) : Mentions (separator.intercalate names) name := by
  induction names with
  | nil => cases h
  | cons first rest ih =>
      rcases List.mem_cons.mp h with rfl | h
      · cases rest with
        | nil => exact ⟨"", "", by simp⟩
        | cons second rest =>
            refine ⟨"", separator ++ separator.intercalate (second :: rest), ?_⟩
            rw [String.intercalate_cons_of_ne_nil (List.cons_ne_nil second rest)]
            simp [String.append_assoc]
      · rw [String.intercalate_cons_of_ne_nil (List.ne_nil_of_mem h)]
        simpa using (ih h).append (first ++ separator) ""

/-! ## What is looked at -/

section

variable {entry : PlaybookEntry} {supplied : Dict String Value}

/-- The names that are not declared. -/
theorem mem_unknown {name : String} :
    name ∈ Text.sortedSet (supplied.keys.filter fun name =>
        !(Dict.ofList (entry.variableSpecs.map fun spec => (spec.name, spec))).contains name) ↔
      Undeclared entry supplied name := by
  rw [Text.mem_sortedSet, List.mem_filter, Bool.not_eq_true', Bool.eq_false_iff, ne_eq,
    Dict.contains_iff, Dict.mem_keys_ofList, List.map_map]
  rfl

/-- The names that are required and not there. -/
theorem mem_missing (hnames : (entry.variableSpecs.map (·.name)).Nodup) {name : String} :
    name ∈ (((Dict.ofList (entry.variableSpecs.map fun spec => (spec.name, spec))).entries.filter
        fun e => e.2.required && !supplied.contains e.1).map (·.1)) ↔
      Missing entry supplied name := by
  have hkeys : ((entry.variableSpecs.map fun spec => (spec.name, spec)).map Prod.fst).Nodup := by
    rw [List.map_map]
    exact hnames
  rw [Dict.entries_ofList hkeys]
  simp only [List.mem_map, List.mem_filter, Bool.and_eq_true, Bool.not_eq_true',
    Bool.eq_false_iff, ne_eq, Dict.contains_iff, Missing]
  constructor
  · rintro ⟨-, ⟨⟨spec, hspec, rfl⟩, hrequired, habsent⟩, rfl⟩
    exact ⟨habsent, spec, hspec, rfl, hrequired⟩
  · rintro ⟨habsent, spec, hspec, rfl, hrequired⟩
    exact ⟨(spec.name, spec), ⟨⟨spec, hspec, rfl⟩, hrequired, habsent⟩, rfl⟩

/-- What is accepted is what was supplied. -/
theorem eq_of_acceptedVariables {accepted : Dict String Value}
    (h : acceptedVariables entry supplied = .ok accepted) : accepted = supplied := by
  unfold acceptedVariables at h
  simp only at h
  split at h
  · cases h
  · split at h
    · cases h
    · exact (Except.ok.inj h).symm

/-- The variables are accepted if none is undeclared and none is missing, whatever the
values. -/
theorem returns_acceptedVariables (hnames : (entry.variableSpecs.map (·.name)).Nodup) :
    Returns (acceptedVariables entry supplied) ↔
      ∀ name, ¬ Undeclared entry supplied name ∧ ¬ Missing entry supplied name := by
  simp only [forall_and, ← mem_unknown, ← mem_missing hnames, ← List.eq_nil_iff_forall_not_mem]
  unfold acceptedVariables
  simp only
  split
  · rename_i hunknown
    exact iff_of_false (not_returns_error _) fun h => hunknown h.1
  · split
    · rename_i hmissing
      exact iff_of_false (not_returns_error _) fun h => hmissing h.2
    · rename_i hunknown hmissing
      exact iff_of_true (returns_ok _) ⟨not_not.mp hunknown, not_not.mp hmissing⟩

/-- A refusal names a variable that is undeclared or missing. -/
theorem mentions_of_acceptedVariables (hnames : (entry.variableSpecs.map (·.name)).Nodup)
    {e : ApiError} (h : acceptedVariables entry supplied = .error e) :
    ∃ name, (Undeclared entry supplied name ∨ Missing entry supplied name) ∧
      Mentions e.message name := by
  unfold acceptedVariables at h
  simp only at h
  split at h
  · rename_i hunknown
    obtain ⟨name, hname⟩ := List.exists_mem_of_ne_nil _ hunknown
    obtain rfl := Except.error.inj h
    exact ⟨name, .inl (mem_unknown.mp hname), (mentions_intercalate hname).append _ "."⟩
  · split at h
    · rename_i hmissing
      obtain ⟨name, hname⟩ := List.exists_mem_of_ne_nil _ hmissing
      obtain rfl := Except.error.inj h
      exact ⟨name, .inr ((mem_missing hnames).mp hname), (mentions_intercalate hname).append _ "."⟩
    · cases h

end

/-! ## The catalogue -/

/-- No entry declares a name twice. -/
theorem nodup_variableSpecs {entry : PlaybookEntry} (h : entry ∈ catalogue) :
    (entry.variableSpecs.map (·.name)).Nodup := by
  have hall : ∀ entry ∈ catalogue, (entry.variableSpecs.map (·.name)).Nodup := by decide
  exact hall entry h

/-- **A launch accepts exactly the declared variables, where one of them is not declared or a
required one is not there, or else where every value is of its declared type.** -/
theorem accepts_declared_iff {entry : PlaybookEntry} (hentry : entry ∈ catalogue)
    (supplied : Dict String Value) :
    AcceptsDeclared entry supplied ↔
      (∃ name, Undeclared entry supplied name) ∨ (∃ name, Missing entry supplied name) ∨
        ∀ name, ¬ Mistyped entry supplied name := by
  have hnames := nodup_variableSpecs hentry
  have hreturns : Returns (acceptedVariables entry supplied) ↔
      ∀ name, ¬ Undeclared entry supplied name ∧ ¬ Missing entry supplied name :=
    returns_acceptedVariables hnames
  constructor
  · intro h
    by_contra hcondition
    simp only [not_or, not_exists] at hcondition
    obtain ⟨hdeclared, hthere, hmistyped⟩ := hcondition
    -- it is accepted, so no value may be of another type
    have haccepted := h.accepts.mp (hreturns.mpr fun name => ⟨hdeclared name, hthere name⟩)
    exact hmistyped fun name hname => haccepted name (.inr (.inr hname))
  · intro hcondition
    refine ⟨⟨fun haccepted name hfault => ?_, fun hclean => ?_⟩,
      fun accepted => eq_of_acceptedVariables, fun e he => ?_⟩
    · have hnone := hreturns.mp haccepted
      rcases hcondition with ⟨other, hother⟩ | ⟨other, hother⟩ | htyped
      · exact (hnone other).1 hother
      · exact (hnone other).2 hother
      · rcases hfault with h | h | h
        · exact (hnone name).1 h
        · exact (hnone name).2 h
        · exact htyped name h
    · exact hreturns.mpr fun name =>
        ⟨fun h => hclean name (.inl h), fun h => hclean name (.inr (.inl h))⟩
    · obtain ⟨name, hname, hmentions⟩ := mentions_of_acceptedVariables hnames he
      exact ⟨name, hname.imp_right Or.inl, hmentions⟩

/-- The entry that converges the whole machine. -/
def setupMain : PlaybookEntry :=
  collectionEntry "seapath_setup_main" "Configure this machine" .partially machineRequires
    [skipReboot]

theorem setupMain_mem_catalogue : setupMain ∈ catalogue := List.mem_cons_self

theorem accepts_declared_setup_main :
    AcceptsDeclared setupMain (Dict.ofList [("skip_reboot_setup", .scalar (.bool true))]) ↔
      (∃ name, Undeclared setupMain
          (Dict.ofList [("skip_reboot_setup", .scalar (.bool true))]) name) ∨
        (∃ name, Missing setupMain
          (Dict.ofList [("skip_reboot_setup", .scalar (.bool true))]) name) ∨
        ∀ name, ¬ Mistyped setupMain
          (Dict.ofList [("skip_reboot_setup", .scalar (.bool true))]) name :=
  accepts_declared_iff setupMain_mem_catalogue _

/-- A text for the boolean is passed on as it is. -/
theorem text_for_boolean_accepted :
    setupMain ∈ catalogue ∧
      ¬ AcceptsDeclared setupMain (Dict.ofList [("skip_reboot_setup", .scalar (.str "yes"))]) := by
  refine ⟨setupMain_mem_catalogue, fun h => ?_⟩
  refine h.accepts.mp ⟨_, rfl⟩ "skip_reboot_setup" (.inr (.inr ?_))
  refine ⟨skipReboot, List.mem_cons_self, rfl, .scalar (.str "yes"), rfl, ?_⟩
  rintro (⟨-, b, hb⟩ | ⟨htype, -⟩)
  · cases hb
  · exact absurd htype (by decide)

end SeapathWebui.Runs
