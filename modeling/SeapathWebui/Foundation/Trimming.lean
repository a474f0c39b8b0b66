/-
  Foundation/Trimming.lean --- lists without what stands around them.

  Items are written with a separator between them, and something to be trimmed after each
  separator; they are read by trimming the whole, cutting it at the separators, and trimming
  the pieces.  `readItems_writeItems_iff` says which items come back.
-/
import Mathlib.Data.List.DropRight
import Mathlib.Data.List.Infix
import Mathlib.Data.List.TakeWhile

set_option autoImplicit false

namespace SeapathWebui.Foundation

section

variable {α : Type*} (p : α → Bool)

/-! ## Trimming -/

/-- The list without its first and last members of a kind. -/
def trimBoth (l : List α) : List α := (l.dropWhile p).rdropWhile p

variable {p}

theorem rdropWhile_append_of_all {after : List α} (h : ∀ a ∈ after, p a = true) (l : List α) :
    (l ++ after).rdropWhile p = l.rdropWhile p := by
  rw [List.rdropWhile, List.rdropWhile, List.reverse_append,
    List.dropWhile_append_of_pos fun a ha => h a (List.mem_reverse.mp ha)]

/-- What is to be trimmed around a list is trimmed with it. -/
theorem trimBoth_append {before after : List α} (hbefore : ∀ a ∈ before, p a = true)
    (hafter : ∀ a ∈ after, p a = true) (l : List α) :
    trimBoth p (before ++ l ++ after) = trimBoth p l := by
  rw [trimBoth, trimBoth, List.append_assoc, List.dropWhile_append_of_pos hbefore,
    List.dropWhile_append]
  split
  · rename_i hempty
    rw [List.isEmpty_iff] at hempty
    rw [hempty, List.dropWhile_eq_nil_iff.mpr hafter]
  · exact rdropWhile_append_of_all hafter _

theorem trimBoth_append_left {before : List α} (h : ∀ a ∈ before, p a = true) (l : List α) :
    trimBoth p (before ++ l) = trimBoth p l := by
  rw [trimBoth, List.dropWhile_append_of_pos h, trimBoth]

theorem trimBoth_append_right {after : List α} (h : ∀ a ∈ after, p a = true) (l : List α) :
    trimBoth p (l ++ after) = trimBoth p l := by
  have hnil : ∀ a ∈ ([] : List α), p a = true := fun a ha => nomatch ha
  simpa using trimBoth_append hnil h l

/-- A list is what is trimmed, with members of the kind around it. -/
theorem exists_trimBoth (p : α → Bool) (l : List α) :
    ∃ before after, l = before ++ trimBoth p l ++ after ∧ (∀ a ∈ before, p a = true) ∧
      ∀ a ∈ after, p a = true := by
  refine ⟨l.takeWhile p, (l.dropWhile p).rtakeWhile p, ?_, fun a => List.mem_takeWhile_imp,
    fun a => List.mem_rtakeWhile_imp⟩
  rw [List.append_assoc, trimBoth, List.rdropWhile_append_rtakeWhile,
    List.takeWhile_append_dropWhile]

@[simp] theorem trimBoth_trimBoth (l : List α) : trimBoth p (trimBoth p l) = trimBoth p l := by
  obtain ⟨before, after, hl, hbefore, hafter⟩ := exists_trimBoth p l
  rw [← trimBoth_append hbefore hafter (trimBoth p l), ← hl]

/-- Where there is nothing to be trimmed, nothing is. -/
theorem trimBoth_eq_self {l : List α} (h : ∀ a ∈ l, p a = false) : trimBoth p l = l := by
  have hdrop : l.dropWhile p = l := by
    rw [List.dropWhile_eq_self_iff]
    intro hlength
    simpa using h _ (List.getElem_mem hlength)
  rw [trimBoth, hdrop, List.rdropWhile_eq_self_iff]
  intro hne
  simp [h _ (List.getLast_mem hne)]

theorem mem_of_mem_trimBoth {a : α} {l : List α} (h : a ∈ trimBoth p l) : a ∈ l :=
  (List.dropWhile_sublist p).mem ((List.rdropWhile_prefix p _).mem h)

/-! ## Items -/

variable [DecidableEq α] {c : α}

/-- Cutting a list and trimming the pieces, what is to be trimmed before it does not count. -/
theorem map_trimBoth_splitOn_append_left (hc : p c = false) {before : List α}
    (h : ∀ a ∈ before, p a = true) (l : List α) :
    ((before ++ l).splitOn c).map (trimBoth p) = (l.splitOn c).map (trimBoth p) := by
  have hbefore : c ∉ before := fun hmem => by simp [h c hmem] at hc
  by_cases hmem : c ∈ l
  · obtain ⟨xs, as, rfl, hxs⟩ := List.eq_append_cons_of_mem hmem
    rw [← List.append_assoc, List.splitOn_append_cons_self, List.splitOn_append_cons_self,
      List.splitOn_eq_singleton hxs, List.splitOn_eq_singleton (by simp [hbefore, hxs])]
    simp [trimBoth_append_left h]
  · rw [List.splitOn_eq_singleton hmem, List.splitOn_eq_singleton (by simp [hbefore, hmem])]
    simp [trimBoth_append_left h]

/-- Nor does what is to be trimmed after it. -/
theorem map_trimBoth_splitOn_append_right (hc : p c = false) {after : List α}
    (h : ∀ a ∈ after, p a = true) (l : List α) :
    ((l ++ after).splitOn c).map (trimBoth p) = (l.splitOn c).map (trimBoth p) := by
  have hafter : c ∉ after := fun hmem => by simp [h c hmem] at hc
  by_cases hmem : c ∈ l
  · obtain ⟨xs, as, rfl, hxs⟩ := List.eq_append_cons_of_mem hmem
    rw [List.append_assoc, List.cons_append, List.splitOn_append_cons_self,
      List.splitOn_append_cons_self, List.map_append, List.map_append,
      map_trimBoth_splitOn_append_right hc h as]
  · rw [List.splitOn_eq_singleton hmem, List.splitOn_eq_singleton (by simp [hafter, hmem])]
    simp [trimBoth_append_right h]
termination_by l.length
decreasing_by
  have hlength := congrArg List.length ‹l = xs ++ c :: as›
  simp only [List.length_append, List.length_cons] at hlength
  omega

theorem map_trimBoth_splitOn_trimBoth (hc : p c = false) (l : List α) :
    ((trimBoth p l).splitOn c).map (trimBoth p) = (l.splitOn c).map (trimBoth p) := by
  obtain ⟨before, after, hl, hbefore, hafter⟩ := exists_trimBoth p l
  conv_rhs => rw [hl]
  rw [map_trimBoth_splitOn_append_right hc hafter, map_trimBoth_splitOn_append_left hc hbefore]

/-- Items with a separator and a gap between them. -/
def writeItems (c : α) (gap : List α) (items : List (List α)) : List α :=
  (c :: gap).intercalate items

variable (p c) in
/-- The items between separators, trimmed; none where there is nothing else. -/
def readItems (l : List α) : List (List α) :=
  if trimBoth p l = [] then [] else ((trimBoth p l).splitOn c).map (trimBoth p)

/-- No piece holds the separator. -/
theorem not_mem_of_mem_splitOn {piece : List α} {l : List α} (h : piece ∈ l.splitOn c) :
    c ∉ piece := by
  induction l generalizing piece with
  | nil => simp_all
  | cons a l ih =>
      rw [List.splitOn_cons_eq_if_modifyHead] at h
      split at h
      · rcases List.mem_cons.mp h with rfl | h
        · exact List.not_mem_nil
        · exact ih h
      · rename_i hne
        cases hpieces : l.splitOn c with
        | nil => exact absurd hpieces (List.splitOn_ne_nil c l)
        | cons first rest =>
            rw [hpieces] at h ih
            rcases List.mem_cons.mp h with rfl | h
            · have hfirst := ih List.mem_cons_self
              rintro (hc | hc)
              · simp at hne
              · exact hfirst ‹_›
            · exact ih (List.mem_cons_of_mem _ h)

theorem splitOn_writeItems {gap x : List α} {rest : List (List α)}
    (h : ∀ y ∈ x :: rest.map (gap ++ ·), c ∉ y) :
    (writeItems c gap (x :: rest)).splitOn c = x :: rest.map (gap ++ ·) := by
  induction rest generalizing x with
  | nil => simpa [writeItems] using List.splitOn_eq_singleton (h x List.mem_cons_self)
  | cons y rest ih =>
      have hwritten : writeItems c gap (x :: y :: rest) =
          x ++ c :: writeItems c gap ((gap ++ y) :: rest) := by
        cases rest <;> simp [writeItems, List.intercalate]
      rw [hwritten, List.splitOn_append_cons_self,
        List.splitOn_eq_singleton (h x List.mem_cons_self),
        ih fun z hz => h z (List.mem_cons_of_mem _ hz)]
      rfl

omit [DecidableEq α] in
/-- What is written of items that have nothing to be trimmed is all trimmed only if there is
nothing, or a single empty item. -/
theorem trimBoth_writeItems_ne_nil (hc : p c = false) (gap : List α) {items : List (List α)}
    (hne : items ≠ []) (hsingle : items ≠ [[]]) (h : ∀ x ∈ items, trimBoth p x = x) :
    trimBoth p (writeItems c gap items) ≠ [] := by
  intro hnil
  obtain ⟨before, after, hwritten, hbefore, hafter⟩ :=
    exists_trimBoth p (writeItems c gap items)
  rw [hnil, List.append_nil] at hwritten
  have hall : ∀ a ∈ writeItems c gap items, p a = true := by
    rw [hwritten]
    exact List.forall_mem_append.mpr ⟨hbefore, hafter⟩
  obtain _ | ⟨x, _ | ⟨y, rest⟩⟩ := items
  · exact hne rfl
  · have hx : trimBoth p x = x := h x List.mem_cons_self
    simp [writeItems] at hnil
    rw [hx] at hnil
    exact hsingle (by rw [hnil])
  · have hmem : c ∈ writeItems c gap (x :: y :: rest) := by simp [writeItems, List.intercalate]
    rw [hall c hmem] at hc
    cases hc

/-- What is read holds no separator, and has nothing to be trimmed. -/
theorem of_mem_readItems {l x : List α} (h : x ∈ readItems p c l) : c ∉ x ∧ trimBoth p x = x := by
  unfold readItems at h
  split at h
  · cases h
  · obtain ⟨piece, hpiece, rfl⟩ := List.mem_map.mp h
    exact ⟨fun hmem => not_mem_of_mem_splitOn hpiece (mem_of_mem_trimBoth hmem),
      trimBoth_trimBoth piece⟩

/-- A single empty item is never read. -/
theorem readItems_ne_singleton_nil (l : List α) : readItems p c l ≠ [[]] := by
  unfold readItems
  split
  · exact nofun
  · rename_i hne
    intro hsingle
    obtain ⟨piece, hsplit, hempty⟩ := List.map_eq_singleton_iff.mp hsingle
    have hwhole : piece = trimBoth p l := by
      have hjoined : [c].intercalate ((trimBoth p l).splitOn c) = trimBoth p l :=
        List.intercalate_splitOn c
      rw [hsplit] at hjoined
      simpa [List.intercalate] using hjoined
    rw [hwhole, trimBoth_trimBoth] at hempty
    exact hne hempty

/-- **What is read of items that were written are these items exactly if none of them holds the
separator or has anything to be trimmed, and they are not a single empty one.** -/
theorem readItems_writeItems_iff (hc : p c = false) {gap : List α}
    (hgap : ∀ a ∈ gap, p a = true) {items : List (List α)} :
    readItems p c (writeItems c gap items) = items ↔
      items ≠ [[]] ∧ ∀ x ∈ items, c ∉ x ∧ trimBoth p x = x := by
  have hnil : trimBoth p ([] : List α) = [] := rfl
  have hgap' : c ∉ gap := fun hmem => by simp [hgap c hmem] at hc
  constructor
  · intro h
    refine ⟨?_, fun x hx => ?_⟩
    · rintro rfl
      simp [readItems, writeItems, hnil] at h
    · rw [readItems] at h
      split at h
      · rw [← h] at hx
        cases hx
      · rw [← h] at hx
        obtain ⟨piece, hpiece, rfl⟩ := List.mem_map.mp hx
        exact ⟨fun hmem => not_mem_of_mem_splitOn hpiece (mem_of_mem_trimBoth hmem),
          trimBoth_trimBoth piece⟩
  · rintro ⟨hsingle, hitems⟩
    cases items with
    | nil => simp [readItems, writeItems, hnil]
    | cons x rest =>
        have hwritten : trimBoth p (writeItems c gap (x :: rest)) ≠ [] :=
          trimBoth_writeItems_ne_nil hc gap (List.cons_ne_nil x rest) hsingle
            fun y hy => (hitems y hy).2
        have hpieces : ∀ y ∈ x :: rest.map (gap ++ ·), c ∉ y := by
          intro y hy
          rcases List.mem_cons.mp hy with rfl | hy
          · exact (hitems y List.mem_cons_self).1
          · obtain ⟨z, hz, rfl⟩ := List.mem_map.mp hy
            simp [hgap', (hitems z (List.mem_cons_of_mem _ hz)).1]
        have htrimmed : ∀ y ∈ rest, trimBoth p (gap ++ y) = y := fun y hy => by
          rw [trimBoth_append_left hgap, (hitems y (List.mem_cons_of_mem _ hy)).2]
        have hrest : rest.map (trimBoth p ∘ (gap ++ ·)) = rest := by
          conv_rhs => rw [← List.map_id rest]
          exact List.map_congr_left htrimmed
        rw [readItems, if_neg hwritten, map_trimBoth_splitOn_trimBoth hc,
          splitOn_writeItems hpieces, List.map_cons, (hitems x List.mem_cons_self).2,
          List.map_map, hrest]

end

end SeapathWebui.Foundation
