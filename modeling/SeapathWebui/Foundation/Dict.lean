/-
  Foundation/Dict.lean --- insertion-ordered dictionaries.

  The dictionaries of a language whose mappings remember insertion order: an
  assignment to a key that exists keeps its place, an assignment to a new one
  goes to the end.  That the keys are distinct is a field of the type, so no
  lemma below carries it as a hypothesis.

  Equality of two dictionaries here is equality with the order; `Equiv` is
  equality as mappings, and `equals` the comparison that the language has.
-/
import Mathlib.Data.List.Basic
import Mathlib.Data.List.Nodup

set_option autoImplicit false

namespace SeapathWebui.Foundation

/-- An insertion-ordered dictionary. -/
structure Dict (K V : Type*) where
  /-- The entries, oldest first. -/
  entries : List (K × V)
  /-- No key occurs twice. -/
  nodup : (entries.map Prod.fst).Nodup

namespace Dict

variable {K V W : Type*}

@[ext] theorem ext {d e : Dict K V} (h : d.entries = e.entries) : d = e := by
  cases d; cases e; cases h; rfl

instance [DecidableEq K] [DecidableEq V] : DecidableEq (Dict K V) := fun d e =>
  decidable_of_iff (d.entries = e.entries) ⟨Dict.ext, fun h => h ▸ rfl⟩

instance : EmptyCollection (Dict K V) := ⟨⟨[], List.nodup_nil⟩⟩

instance : Inhabited (Dict K V) := ⟨∅⟩

@[simp] theorem entries_empty : (∅ : Dict K V).entries = [] := rfl

/-- The keys, in insertion order. -/
def keys (d : Dict K V) : List K := d.entries.map Prod.fst

/-- The values, in insertion order. -/
def values (d : Dict K V) : List V := d.entries.map Prod.snd

theorem nodup_keys (d : Dict K V) : d.keys.Nodup := d.nodup

section Lookup

variable [DecidableEq K]

/-- `d.get(k)`. -/
def get? (d : Dict K V) (k : K) : Option V := d.entries.lookup k

theorem lookup_cons_ite {k k' : K} {v : V} {l : List (K × V)} :
    ((k', v) :: l).lookup k = if k' = k then some v else l.lookup k := by
  by_cases h : k' = k
  · subst h; simp
  · have hne : (k == k') = false := by simpa using Ne.symm h
    simp [List.lookup_cons, hne, h]

theorem lookup_eq_none_iff_not_mem {k : K} {l : List (K × V)} :
    l.lookup k = none ↔ k ∉ l.map Prod.fst := by
  induction l with
  | nil => simp
  | cons p rest ih =>
      obtain ⟨k', v⟩ := p
      by_cases h : k' = k
      · simp [h]
      · simp [lookup_cons_ite, h, ih, Ne.symm h]

theorem mem_of_lookup {k : K} {v : V} {l : List (K × V)} (h : l.lookup k = some v) :
    (k, v) ∈ l := by
  obtain ⟨before, after, rfl, _⟩ := List.lookup_eq_some_iff.mp h
  simp

theorem lookup_of_mem {k : K} {v : V} {l : List (K × V)}
    (hnodup : (l.map Prod.fst).Nodup) (h : (k, v) ∈ l) : l.lookup k = some v := by
  induction l with
  | nil => simp at h
  | cons p rest ih =>
      obtain ⟨k', v'⟩ := p
      simp only [List.map_cons, List.nodup_cons] at hnodup
      rcases List.mem_cons.mp h with heq | hmem
      · cases heq
        simp
      · have hne : k' ≠ k := fun hk =>
          hnodup.1 (hk ▸ List.mem_map_of_mem (f := Prod.fst) hmem)
        rw [lookup_cons_ite, if_neg hne]
        exact ih hnodup.2 hmem

/-- `k in d`. -/
def contains (d : Dict K V) (k : K) : Bool := (d.get? k).isSome

theorem mem_entries_iff {d : Dict K V} {k : K} {v : V} :
    (k, v) ∈ d.entries ↔ d.get? k = some v :=
  ⟨lookup_of_mem d.nodup, mem_of_lookup⟩

theorem get?_eq_none_iff {d : Dict K V} {k : K} : d.get? k = none ↔ k ∉ d.keys :=
  lookup_eq_none_iff_not_mem

theorem contains_iff {d : Dict K V} {k : K} : d.contains k = true ↔ k ∈ d.keys := by
  unfold contains
  cases h : d.get? k with
  | none => simpa using get?_eq_none_iff.mp h
  | some v =>
      simp only [Option.isSome_some, true_iff]
      exact List.mem_map_of_mem (f := Prod.fst) (mem_entries_iff.mpr h)

@[simp] theorem get?_empty (k : K) : (∅ : Dict K V).get? k = none := rfl

/-- Equality as mappings, whatever the order. -/
def Equiv (d e : Dict K V) : Prop := ∀ k, d.get? k = e.get? k

/-- `==` of two dictionaries, `same` being `==` of two values: the same keys, in any order, and
under each the same. -/
def equals (same : V → V → Bool) (d e : Dict K V) : Bool :=
  d.entries.all (fun p => (e.get? p.1).any (same p.2)) && e.keys.all d.contains

theorem equals_iff {same : V → V → Bool} {d e : Dict K V} : d.equals same e = true ↔
    ∀ k, Option.Rel (fun v w => same v w = true) (d.get? k) (e.get? k) := by
  simp only [equals, Bool.and_eq_true, List.all_eq_true, contains_iff, Option.any_eq_true]
  constructor
  · rintro ⟨hall, hkeys⟩ k
    cases hd : d.get? k with
    | some v =>
        obtain ⟨w, hw, hsame⟩ := hall (k, v) (mem_entries_iff.mpr hd)
        rw [hw]
        exact .some hsame
    | none =>
        cases he : e.get? k with
        | none => exact .none
        | some w =>
            have hmem : k ∈ e.keys := List.mem_map_of_mem (f := Prod.fst) (mem_entries_iff.mpr he)
            exact absurd (hkeys k hmem) (get?_eq_none_iff.mp hd)
  · intro h
    constructor
    · rintro ⟨k, v⟩ hmem
      have hrel := h k
      rw [mem_entries_iff.mp hmem] at hrel
      cases he : e.get? k with
      | none =>
          rw [he] at hrel
          cases hrel
      | some w =>
          rw [he] at hrel
          obtain ⟨hsame⟩ := hrel
          exact ⟨w, rfl, hsame⟩
    · intro k hk
      by_contra hnot
      have hrel := h k
      rw [get?_eq_none_iff.mpr hnot] at hrel
      cases he : e.get? k with
      | none => exact get?_eq_none_iff.mp he hk
      | some w =>
          rw [he] at hrel
          cases hrel

example : (⟨[("a", 1), ("b", 2)], by decide⟩ : Dict String Nat).equals (· == ·)
    ⟨[("b", 2), ("a", 1)], by decide⟩ = true := by decide

end Lookup

section Update

variable [DecidableEq K]

/-- Assign in place, or at the end when the key is new. -/
def assign (k : K) (v : V) : List (K × V) → List (K × V)
  | [] => [(k, v)]
  | (k', v') :: rest => if k' = k then (k', v) :: rest else (k', v') :: assign k v rest

theorem keys_assign (k : K) (v : V) (l : List (K × V)) :
    (assign k v l).map Prod.fst =
      if k ∈ l.map Prod.fst then l.map Prod.fst else l.map Prod.fst ++ [k] := by
  induction l with
  | nil => simp [assign]
  | cons p rest ih =>
      obtain ⟨k', v'⟩ := p
      by_cases h : k' = k
      · simp [assign, h]
      · simp only [assign, h, if_false, List.map_cons, ih, List.mem_cons, Ne.symm h, false_or]
        split <;> simp

theorem nodup_assign {k : K} {v : V} {l : List (K × V)}
    (h : (l.map Prod.fst).Nodup) : ((assign k v l).map Prod.fst).Nodup := by
  rw [keys_assign]
  split
  · exact h
  · rename_i hk
    exact List.nodup_append.mpr ⟨h, by simp, by
      intro x hx y hy heq
      rw [List.mem_singleton] at hy
      exact hk (hy ▸ heq ▸ hx)⟩

theorem lookup_assign (k j : K) (v : V) (l : List (K × V)) :
    (assign k v l).lookup j = if k = j then some v else l.lookup j := by
  induction l with
  | nil => simp [assign, lookup_cons_ite]
  | cons p rest ih =>
      obtain ⟨k', v'⟩ := p
      by_cases h : k' = k
      · subst h
        by_cases hj : k' = j
        · simp [assign, hj]
        · simp [assign, lookup_cons_ite, hj]
      · by_cases hj : k' = j
        · subst hj
          simp [assign, h, Ne.symm h]
        · simp [assign, lookup_cons_ite, h, hj, ih]

/-- An assignment to a new key goes to the end. -/
theorem assign_of_not_mem {k : K} {v : V} {l : List (K × V)}
    (h : k ∉ l.map Prod.fst) : assign k v l = l ++ [(k, v)] := by
  induction l with
  | nil => rfl
  | cons p rest ih =>
      obtain ⟨k', v'⟩ := p
      simp only [List.map_cons, List.mem_cons, not_or] at h
      simp [assign, Ne.symm h.1, ih h.2]

/-- `d[k] = v`. -/
def set (d : Dict K V) (k : K) (v : V) : Dict K V :=
  ⟨assign k v d.entries, nodup_assign d.nodup⟩

theorem get?_set (d : Dict K V) (k j : K) (v : V) :
    (d.set k v).get? j = if k = j then some v else d.get? j :=
  lookup_assign k j v d.entries

@[simp] theorem get?_set_self (d : Dict K V) (k : K) (v : V) :
    (d.set k v).get? k = some v := by simp [get?_set]

theorem get?_set_of_ne (d : Dict K V) {k j : K} (v : V) (h : k ≠ j) :
    (d.set k v).get? j = d.get? j := by simp [get?_set, h]

theorem entries_set_of_not_mem {d : Dict K V} {k : K} (v : V) (h : k ∉ d.keys) :
    (d.set k v).entries = d.entries ++ [(k, v)] :=
  assign_of_not_mem h

theorem mem_keys_set {d : Dict K V} {k j : K} {v : V} :
    j ∈ (d.set k v).keys ↔ j = k ∨ j ∈ d.keys := by
  unfold keys set
  simp only [keys_assign]
  split
  · rename_i h
    constructor
    · exact Or.inr
    · rintro (rfl | hj)
      · exact h
      · exact hj
  · simp [or_comm]

/-- `d.setdefault(k, v)` -/
def setDefault (d : Dict K V) (k : K) (v : V) : Dict K V :=
  if d.contains k then d else d.set k v

/-- The value that is there wins. -/
theorem get?_setDefault (d : Dict K V) (k j : K) (v : V) :
    (d.setDefault k v).get? j = (d.get? j).or (if k = j then some v else none) := by
  unfold setDefault contains
  cases h : d.get? k with
  | some w =>
      by_cases hj : k = j
      · subst hj
        simp [h]
      · simp [hj]
  | none =>
      by_cases hj : k = j
      · subst hj
        simp [h]
      · simp [hj, get?_set_of_ne]

/-- Among pairs that are set by default one after the other the first of a key wins. -/
theorem get?_foldl_setDefault {pairs : List (K × V)} :
    ∀ (d : Dict K V) (k : K),
      (pairs.foldl (fun acc p => acc.setDefault p.1 p.2) d).get? k =
        (d.get? k).or (pairs.lookup k) := by
  induction pairs with
  | nil => intro d k; simp
  | cons p rest ih =>
      intro d k
      rw [List.foldl_cons, ih, get?_setDefault, Option.or_assoc, lookup_cons_ite]
      congr 1
      split
      · rfl
      · rfl

/-- `d.update(pairs)`: the assignments one after the other. -/
def update (d : Dict K V) (pairs : List (K × V)) : Dict K V :=
  pairs.foldl (fun acc p => acc.set p.1 p.2) d

@[simp] theorem update_nil (d : Dict K V) : d.update [] = d := rfl

@[simp] theorem update_cons (d : Dict K V) (p : K × V) (pairs : List (K × V)) :
    d.update (p :: pairs) = (d.set p.1 p.2).update pairs := rfl

/-- Where the pairs have distinct keys, an updated key holds its pair's value and
every other key what it held. -/
theorem get?_update {pairs : List (K × V)} :
    ∀ (d : Dict K V) (k : K), (pairs.map Prod.fst).Nodup →
      (d.update pairs).get? k = (pairs.lookup k).or (d.get? k) := by
  induction pairs with
  | nil => intro d k _; simp
  | cons p rest ih =>
      intro d k hnodup
      obtain ⟨k', v⟩ := p
      simp only [List.map_cons, List.nodup_cons] at hnodup
      rw [update_cons, ih _ k hnodup.2, get?_set]
      by_cases h : k' = k
      · subst h
        have : rest.lookup k' = none := lookup_eq_none_iff_not_mem.mpr hnodup.1
        simp [this]
      · simp [lookup_cons_ite, h]

/-- New keys go to the end, in order. -/
theorem entries_update_of_disjoint {pairs : List (K × V)} :
    ∀ {d : Dict K V}, (pairs.map Prod.fst).Nodup →
      (∀ k ∈ pairs.map Prod.fst, k ∉ d.keys) →
      (d.update pairs).entries = d.entries ++ pairs := by
  induction pairs with
  | nil => intro d _ _; simp
  | cons p rest ih =>
      intro d hnodup hdisjoint
      obtain ⟨k, v⟩ := p
      simp only [List.map_cons, List.nodup_cons] at hnodup
      have hk : k ∉ d.keys := hdisjoint k (by simp)
      have hrest : ∀ j ∈ rest.map Prod.fst, j ∉ (d.set k v).keys := by
        intro j hj hmem
        rcases mem_keys_set.mp hmem with rfl | hin
        · exact hnodup.1 hj
        · exact hdisjoint j (by simp [hj]) hin
      rw [update_cons, ih hnodup.2 hrest, entries_set_of_not_mem v hk]
      simp

/-- The keys an update brings go to the end, in order. -/
theorem keys_update {pairs : List (K × V)} :
    ∀ d : Dict K V, (pairs.map Prod.fst).Nodup →
      (d.update pairs).keys = d.keys ++ (pairs.map Prod.fst).filter fun k => k ∉ d.keys := by
  induction pairs with
  | nil => intro d _; simp
  | cons p rest ih =>
      intro d hnodup
      obtain ⟨k, v⟩ := p
      simp only [List.map_cons, List.nodup_cons] at hnodup
      -- the first key is not among the others, so they see the same keys
      have hrest : (rest.map Prod.fst).filter (fun j => j ∉ (d.set k v).keys) =
          (rest.map Prod.fst).filter fun j => j ∉ d.keys := by
        refine List.filter_congr fun j hj => ?_
        have hne : j ≠ k := fun heq => hnodup.1 (heq ▸ hj)
        simp [mem_keys_set, hne]
      have hset : (d.set k v).keys = if k ∈ d.keys then d.keys else d.keys ++ [k] :=
        keys_assign k v d.entries
      rw [update_cons, ih _ hnodup.2, hrest, hset, List.map_cons, List.filter_cons]
      by_cases hk : k ∈ d.keys <;> simp [hk]

/-- The entries, from the keys and what they hold. -/
theorem entries_eq_filterMap (d : Dict K V) :
    d.entries = d.keys.filterMap fun k => (d.get? k).map fun v => (k, v) := by
  have hself : d.entries.filterMap some = d.entries := List.filterMap_some
  unfold keys
  rw [List.filterMap_map]
  refine hself.symm.trans (List.filterMap_congr fun e he => ?_)
  obtain ⟨k, v⟩ := e
  have hget : d.get? k = some v := mem_entries_iff.mp he
  simp [hget]

/-- Two dictionaries with the same keys in the same order, holding the same. -/
theorem ext_of_get? {d e : Dict K V} (hkeys : d.keys = e.keys) (hget : ∀ k, d.get? k = e.get? k) :
    d = e := by
  apply Dict.ext
  rw [entries_eq_filterMap d, entries_eq_filterMap e, hkeys]
  simp only [hget]

/-- The dictionary of a sequence of pairs: a later pair wins. -/
def ofList (pairs : List (K × V)) : Dict K V := (∅ : Dict K V).update pairs

theorem entries_ofList {pairs : List (K × V)} (h : (pairs.map Prod.fst).Nodup) :
    (ofList pairs).entries = pairs := by
  unfold ofList
  rw [entries_update_of_disjoint h (by simp [keys])]
  simp

theorem mem_assign {k : K} {v : V} {l : List (K × V)} {e : K × V} (h : e ∈ assign k v l) :
    e = (k, v) ∨ e ∈ l := by
  induction l with
  | nil => exact Or.inl (List.mem_singleton.mp h)
  | cons p rest ih =>
      obtain ⟨k', v'⟩ := p
      by_cases hk : k' = k
      · subst hk
        simp only [assign, if_true, List.mem_cons] at h ⊢
        rcases h with h | h
        · exact Or.inl h
        · exact Or.inr (Or.inr h)
      · simp only [assign, hk, if_false, List.mem_cons] at h ⊢
        rcases h with h | h
        · exact Or.inr (Or.inl h)
        · exact (ih h).imp_right Or.inr

/-- An update brings no entry but its pairs. -/
theorem mem_entries_update {pairs : List (K × V)} {e : K × V} :
    ∀ {d : Dict K V}, e ∈ (d.update pairs).entries → e ∈ pairs ∨ e ∈ d.entries := by
  induction pairs with
  | nil => exact fun h => Or.inr h
  | cons p rest ih =>
      intro d h
      rcases ih h with h | h
      · exact Or.inl (List.mem_cons_of_mem _ h)
      · rcases mem_assign h with rfl | h
        · exact Or.inl List.mem_cons_self
        · exact Or.inr h

theorem mem_of_mem_ofList {pairs : List (K × V)} {e : K × V} (h : e ∈ (ofList pairs).entries) :
    e ∈ pairs :=
  (mem_entries_update h).resolve_right List.not_mem_nil

theorem assign_map {W : Type*} (f : V → W) (k : K) (v : V) (l : List (K × V)) :
    assign k (f v) (l.map fun e => (e.1, f e.2)) = (assign k v l).map fun e => (e.1, f e.2) := by
  induction l with
  | nil => rfl
  | cons p rest ih =>
      obtain ⟨k', v'⟩ := p
      by_cases h : k' = k
      · simp [assign, h]
      · simp [assign, h, ih]

theorem entries_update_map {W : Type*} (f : V → W) {pairs : List (K × V)} :
    ∀ {d : Dict K V} {e : Dict K W}, (e.entries = d.entries.map fun p => (p.1, f p.2)) →
      (e.update (pairs.map fun p => (p.1, f p.2))).entries =
        (d.update pairs).entries.map fun p => (p.1, f p.2) := by
  induction pairs with
  | nil => exact fun h => h
  | cons p rest ih =>
      intro d e h
      refine ih (d := d.set p.1 p.2) ?_
      exact (congrArg (assign p.1 (f p.2)) h).trans (assign_map f p.1 p.2 d.entries)

/-- An assignment under renamed keys. -/
theorem assign_mapKey {L : Type*} [DecidableEq L] {f : K → L} (hf : Function.Injective f) (k : K)
    (v : V) (l : List (K × V)) :
    assign (f k) v (l.map fun e => (f e.1, e.2)) = (assign k v l).map fun e => (f e.1, e.2) := by
  induction l with
  | nil => rfl
  | cons p rest ih =>
      obtain ⟨k', v'⟩ := p
      by_cases h : k' = k
      · simp [assign, h]
      · simp [assign, h, hf.ne h, ih]

theorem entries_update_mapKey {L : Type*} [DecidableEq L] {f : K → L}
    (hf : Function.Injective f) {pairs : List (K × V)} :
    ∀ {d : Dict K V} {e : Dict L V}, (e.entries = d.entries.map fun p => (f p.1, p.2)) →
      (e.update (pairs.map fun p => (f p.1, p.2))).entries =
        (d.update pairs).entries.map fun p => (f p.1, p.2) := by
  induction pairs with
  | nil => exact fun h => h
  | cons p rest ih =>
      intro d e h
      refine ih (d := d.set p.1 p.2) ?_
      exact (congrArg (assign (f p.1) p.2) h).trans (assign_mapKey hf p.1 p.2 d.entries)

theorem mem_keys_update {pairs : List (K × V)} {k : K} :
    ∀ {d : Dict K V}, k ∈ (d.update pairs).keys ↔ k ∈ pairs.map Prod.fst ∨ k ∈ d.keys := by
  induction pairs with
  | nil => simp
  | cons p rest ih =>
      intro d
      rw [update_cons, ih, mem_keys_set, List.map_cons, List.mem_cons, or_left_comm, or_assoc]

theorem mem_keys_ofList {pairs : List (K × V)} {k : K} :
    k ∈ (ofList pairs).keys ↔ k ∈ pairs.map Prod.fst := by
  rw [ofList, mem_keys_update]
  simp [keys]

/-- A dictionary of mapped values is the mapped dictionary. -/
theorem entries_ofList_map {W : Type*} (f : V → W) (pairs : List (K × V)) :
    (ofList (pairs.map fun p => (p.1, f p.2))).entries =
      (ofList pairs).entries.map fun p => (p.1, f p.2) :=
  entries_update_map f rfl

/-- A dictionary is rebuilt from its own entries. -/
@[simp] theorem ofList_entries (d : Dict K V) : ofList d.entries = d :=
  Dict.ext (entries_ofList d.nodup)

theorem get?_ofList {pairs : List (K × V)} (h : (pairs.map Prod.fst).Nodup) (k : K) :
    (ofList pairs).get? k = pairs.lookup k := by
  rw [get?, entries_ofList h]

end Update

section Restrict

/-- The entries whose key passes the test: a dictionary comprehension with a
condition on the key. -/
def filterKeys (d : Dict K V) (p : K → Bool) : Dict K V where
  entries := d.entries.filter fun e => p e.1
  nodup := by
    have h : (d.entries.filter fun e => p e.1).map Prod.fst =
        (d.entries.map Prod.fst).filter p := by
      rw [List.filter_map]
      rfl
    rw [h]
    exact d.nodup.filter p

/-- The entries that pass the test. -/
def filter (d : Dict K V) (p : K × V → Bool) : Dict K V where
  entries := d.entries.filter p
  nodup := d.nodup.sublist (List.filter_sublist.map Prod.fst)

theorem get?_filter_eq_some [DecidableEq K] {d : Dict K V} {p : K × V → Bool} {k : K} {v : V} :
    (d.filter p).get? k = some v ↔ d.get? k = some v ∧ p (k, v) = true := by
  rw [← mem_entries_iff, ← mem_entries_iff]
  exact List.mem_filter

theorem lookup_filter [DecidableEq K] (p : K → Bool) (k : K) (l : List (K × V)) :
    (l.filter fun e => p e.1).lookup k = if p k then l.lookup k else none := by
  induction l with
  | nil => simp
  | cons e rest ih =>
      obtain ⟨k', v⟩ := e
      by_cases hk : k' = k
      · subst hk
        by_cases hp : p k' = true
        · simp [hp]
        · simpa [hp] using ih
      · by_cases hp' : p k' = true
        · simp [hp', lookup_cons_ite, hk, ih]
        · simp [hp', lookup_cons_ite, hk, ih]

theorem get?_filterKeys [DecidableEq K] (d : Dict K V) (p : K → Bool) (k : K) :
    (d.filterKeys p).get? k = if p k then d.get? k else none :=
  lookup_filter p k d.entries

theorem mem_keys_filterKeys {d : Dict K V} {p : K → Bool} {k : K} :
    k ∈ (d.filterKeys p).keys ↔ k ∈ d.keys ∧ p k = true := by
  simp only [keys, filterKeys, List.mem_map, List.mem_filter]
  constructor
  · rintro ⟨e, ⟨he, hp⟩, rfl⟩
    exact ⟨⟨e, he, rfl⟩, hp⟩
  · rintro ⟨⟨e, he, rfl⟩, hp⟩
    exact ⟨e, ⟨he, hp⟩, rfl⟩

/-- An assignment under a condition on the key is one to the restricted dictionary,
or none. -/
theorem filterKeys_set [DecidableEq K] (d : Dict K V) (p : K → Bool) (k : K) (v : V) :
    (d.set k v).filterKeys p = if p k then (d.filterKeys p).set k v else d.filterKeys p := by
  have hassign : ∀ l : List (K × V), ((assign k v l).filter fun e => p e.1) =
      if p k then assign k v (l.filter fun e => p e.1) else l.filter fun e => p e.1 := by
    intro l
    induction l with
    | nil => cases hp : p k <;> simp [assign, hp]
    | cons e rest ih =>
        obtain ⟨k', v'⟩ := e
        rcases eq_or_ne k' k with rfl | hne
        · cases hp : p k' <;> simp [assign, hp]
        · cases hp : p k <;> cases hp' : p k' <;> simp [assign, hne, hp, hp', ih]
  apply Dict.ext
  cases hp : p k <;> simpa [filterKeys, set, hp] using hassign d.entries

/-- The restriction of an updated dictionary. -/
theorem filterKeys_update [DecidableEq K] (p : K → Bool) {pairs : List (K × V)} :
    ∀ d : Dict K V, (d.update pairs).filterKeys p =
      (d.filterKeys p).update (pairs.filter fun e => p e.1) := by
  induction pairs with
  | nil => intro d; rfl
  | cons e rest ih =>
      intro d
      rw [update_cons, ih, filterKeys_set]
      cases hp : p e.1 <;> simp [hp]

/-- A filter that every key passes keeps the dictionary. -/
theorem filterKeys_eq_self {d : Dict K V} {p : K → Bool} (h : ∀ k ∈ d.keys, p k = true) :
    d.filterKeys p = d := by
  apply Dict.ext
  exact List.filter_eq_self.mpr fun e he => h e.1 (List.mem_map_of_mem (f := Prod.fst) he)

/-- Change the value under one key, when it is there. -/
def modify [DecidableEq K] (d : Dict K V) (k : K) (f : V → V) : Dict K V :=
  match d.get? k with
  | none => d
  | some v => d.set k (f v)

theorem get?_modify [DecidableEq K] (d : Dict K V) (k j : K) (f : V → V) :
    (d.modify k f).get? j = if k = j then (d.get? j).map f else d.get? j := by
  unfold modify
  cases h : d.get? k with
  | none =>
      by_cases hj : k = j
      · subst hj; simp [h]
      · simp [hj]
  | some v =>
      by_cases hj : k = j
      · subst hj; simp [h]
      · simp [hj, get?_set_of_ne]

end Restrict

end Dict

end SeapathWebui.Foundation
