/-
  Foundation/Assignments.lean --- keys and values on one line.

  A line of assignments is not read back by itself: a value may hold the separator.  It is
  read back by one who knows how many there are, where only the last value may hold it
  (`assignments_inj`).
-/
import SeapathWebui.Foundation.Text

set_option autoImplicit false

namespace SeapathWebui.Foundation.Text

/-- Joined texts are split again by one who knows how many there are, where only the last one
may hold the separator. -/
theorem splitMax_intercalate {c : Char} {front : List String}
    (h : ∀ t ∈ front, c ∉ t.toList) (last : String) :
    splitMax c front.length ((String.singleton c).intercalate (front ++ [last])) =
      front ++ [last] := by
  induction front with
  | nil => simp [splitMax]
  | cons t rest ih =>
      have hrest := ih fun t ht => h t (List.mem_cons_of_mem _ ht)
      have hne : rest ++ [last] ≠ [] := by simp
      rw [List.cons_append, String.intercalate_cons_of_ne_nil hne, List.length_cons,
        splitMax_append (h t List.mem_cons_self), hrest]

/-- So two lists of as many texts are joined to the same text only if they are the same. -/
theorem intercalate_inj {c : Char} {texts others : List String}
    (hlength : texts.length = others.length) (h : ∀ t ∈ texts.dropLast, c ∉ t.toList)
    (h' : ∀ t ∈ others.dropLast, c ∉ t.toList)
    (heq : (String.singleton c).intercalate texts = (String.singleton c).intercalate others) :
    texts = others := by
  rcases List.eq_nil_or_concat' texts with rfl | ⟨front, last, rfl⟩
  · exact (List.length_eq_zero_iff.mp hlength.symm).symm
  rcases List.eq_nil_or_concat' others with rfl | ⟨front', last', rfl⟩
  · simp at hlength
  rw [List.dropLast_concat] at h h'
  have hfronts : front.length = front'.length := by simpa using hlength
  calc front ++ [last]
      = splitMax c front.length ((String.singleton c).intercalate (front ++ [last])) :=
        (splitMax_intercalate h last).symm
    _ = splitMax c front'.length ((String.singleton c).intercalate (front' ++ [last'])) := by
        rw [heq, hfronts]
    _ = front' ++ [last'] := splitMax_intercalate h' last'

/-- Two lists are the same if they are mapped to the same, by what tells their members apart. -/
theorem eq_of_map_eq {α β : Type*} {f : α → β} {l l' : List α}
    (h : ∀ a ∈ l, ∀ b ∈ l', f a = f b → a = b) (heq : l.map f = l'.map f) : l = l' := by
  induction l generalizing l' with
  | nil => exact (List.map_eq_nil_iff.mp heq.symm).symm
  | cons a l ih =>
      obtain ⟨b, l', rfl, hfirst, hrest⟩ := List.map_eq_cons_iff.mp heq.symm
      rw [h a List.mem_cons_self b List.mem_cons_self hfirst.symm,
        ih (fun a ha b hb => h a (List.mem_cons_of_mem _ ha) b (List.mem_cons_of_mem _ hb))
          hrest.symm]

/-- `key=value` -/
def assignment (key value : String) : String := key ++ "=" ++ value

theorem assignment_inj {key key' value value' : String} (h : '=' ∉ key.toList)
    (h' : '=' ∉ key'.toList) (heq : assignment key value = assignment key' value') :
    key = key' ∧ value = value' := by
  have hcut : partition '=' (assignment key value) = (key, some value) := partition_append h value
  have hcut' : partition '=' (assignment key' value') = (key', some value') :=
    partition_append h' value'
  obtain ⟨hkey, hvalue⟩ := Prod.mk.inj (hcut.symm.trans ((congrArg _ heq).trans hcut'))
  exact ⟨hkey, Option.some.inj hvalue⟩

theorem mem_toList_assignment {c : Char} {key value : String} :
    c ∈ (assignment key value).toList ↔ c ∈ key.toList ∨ c = '=' ∨ c ∈ value.toList := by
  simp [assignment]

/-- Assignments, with blanks between them. -/
def assignments (fields : List (String × String)) : String :=
  " ".intercalate (fields.map fun f => assignment f.1 f.2)

/-- A name as a key has it. -/
def IsKey (key : String) : Prop := ' ' ∉ key.toList ∧ '=' ∉ key.toList ∧ '\n' ∉ key.toList

instance (key : String) : Decidable (IsKey key) := inferInstanceAs (Decidable (_ ∧ _))

/-- As many assignments are the same if they read the same, where only the last value may hold
a blank. -/
theorem assignments_inj {fields others : List (String × String)}
    (hlength : fields.length = others.length)
    (hkeys : ∀ f ∈ fields, IsKey f.1) (hkeys' : ∀ f ∈ others, IsKey f.1)
    (h : ∀ f ∈ fields.dropLast, ' ' ∉ f.2.toList) (h' : ∀ f ∈ others.dropLast, ' ' ∉ f.2.toList)
    (heq : assignments fields = assignments others) : fields = others := by
  have hplain : ∀ {l : List (String × String)}, (∀ f ∈ l, IsKey f.1) →
      (∀ f ∈ l.dropLast, ' ' ∉ f.2.toList) →
      ∀ t ∈ (l.map fun f => assignment f.1 f.2).dropLast, ' ' ∉ t.toList := by
    intro l hkeys h t ht
    rw [← List.map_dropLast] at ht
    obtain ⟨f, hf, rfl⟩ := List.mem_map.mp ht
    rw [mem_toList_assignment]
    rintro (hkey | hblank | hvalue)
    · exact (hkeys f (List.mem_of_mem_dropLast hf)).1 hkey
    · exact absurd hblank (by decide)
    · exact h f hf hvalue
  have htexts := intercalate_inj (by simpa using hlength) (hplain hkeys h) (hplain hkeys' h') heq
  refine eq_of_map_eq (fun f hf g hg hfg => ?_) htexts
  obtain ⟨hkey, hvalue⟩ := assignment_inj (hkeys f hf).2.1 (hkeys' g hg).2.1 hfg
  exact Prod.ext hkey hvalue

/-- What is not in the separator is in one of the texts. -/
theorem mem_toList_intercalate {c : Char} {separator : String} (h : c ∉ separator.toList)
    {texts : List String} :
    c ∈ (separator.intercalate texts).toList ↔ ∃ t ∈ texts, c ∈ t.toList := by
  induction texts with
  | nil => simp
  | cons t rest ih =>
      rcases rest.eq_nil_or_concat' with rfl | ⟨front, last, rfl⟩
      · simp
      · rw [String.intercalate_cons_of_ne_nil (by simp), String.toList_append, String.toList_append,
          List.mem_append, List.mem_append, ih, List.exists_mem_cons_iff, or_iff_left h]

/-- A line feed in the line is in one of the values. -/
theorem lineFeed_mem_assignments {fields : List (String × String)}
    (hkeys : ∀ f ∈ fields, IsKey f.1) :
    '\n' ∈ (assignments fields).toList ↔ ∃ f ∈ fields, '\n' ∈ f.2.toList := by
  have hvalue : ∀ f ∈ fields, '\n' ∈ (assignment f.1 f.2).toList ↔ '\n' ∈ f.2.toList := by
    intro f hf
    have hkey : '\n' ∉ f.1.toList := (hkeys f hf).2.2
    simp [mem_toList_assignment, hkey]
  rw [assignments, mem_toList_intercalate (by decide)]
  constructor
  · rintro ⟨_, ht, hline⟩
    obtain ⟨f, hf, rfl⟩ := List.mem_map.mp ht
    exact ⟨f, hf, (hvalue f hf).mp hline⟩
  · rintro ⟨f, hf, hline⟩
    exact ⟨_, List.mem_map_of_mem hf, (hvalue f hf).mpr hline⟩

end SeapathWebui.Foundation.Text
