/-
  Foundation/Value.lean --- the values a data file holds, in a dynamic language.

  What a safe loader makes of a document: scalars, sequences and mappings, nested.
  The keys of a mapping are scalars, since nothing else a loader builds is
  hashable.  A mapping is read through `asDict`, which keeps the first place and
  the last value of a repeated key, as the language's dictionaries do.

  The conversions are the ones the language offers on values of any type: truth,
  text, integer, iteration, dictionary.  Each raises what the language raises.
-/
import SeapathWebui.Foundation.Dict
import SeapathWebui.Foundation.Text

set_option autoImplicit false

namespace SeapathWebui.Foundation

/-- What a conversion raises. -/
inductive Raised
  | typeError
  | valueError
  | overflowError
  deriving DecidableEq, Repr

/-- What `int` makes of a floating point number. -/
inductive FloatInt
  | finite (n : Int)
  | infinite
  | nan
  deriving DecidableEq, Repr

/-- A floating point number, as far as the conversions look at it. -/
structure FloatingPoint where
  /-- its text -/
  text : String
  isZero : Bool
  /-- its integral part -/
  integral : FloatInt
  deriving DecidableEq, Repr

/-- A scalar of a document. -/
inductive Scalar
  | null
  | bool (b : Bool)
  | int (n : Int)
  | float (f : FloatingPoint)
  | str (s : String)
  | bytes (b : List UInt8)
  /-- a date or a time, with its text -/
  | timestamp (text : String)
  deriving DecidableEq, Repr

namespace Scalar

/-- An integer that the runtime refuses to write in decimal. -/
def overlong : Scalar → Bool
  | int n => Text.maxDigits < (Nat.toDigits 10 n.natAbs).length
  | null | bool _ | float _ | str _ | bytes _ | timestamp _ => false

/-- A dictionary of texts, as the loader builds it: a text is found under its own key. -/
theorem lookup_map_str {V W : Type} (f : V → W) (l : List (String × V)) (k : String) :
    (l.map fun e => (str e.1, f e.2)).lookup (str k) = (l.lookup k).map f := by
  induction l with
  | nil => rfl
  | cons e rest ih =>
      obtain ⟨k', v⟩ := e
      simp only [List.map_cons, Dict.lookup_cons_ite, ih, str.injEq]
      split <;> rfl

theorem nodup_map_str {V W : Type} (f : V → W) (d : Dict String V) :
    ((d.entries.map fun e => (str e.1, f e.2)).map Prod.fst).Nodup := by
  have hkeys : (d.entries.map fun e => (str e.1, f e.2)).map Prod.fst =
      d.keys.map str := by
    simp [Dict.keys]
  rw [hkeys]
  exact d.nodup_keys.map fun a b h => by cases h; rfl

end Scalar

/-- The sequences of a document: only a list is written back as what it is. -/
inductive SequenceKind
  | list
  | tuple
  | set
  deriving DecidableEq, Repr

/-- A value of a document. -/
inductive Value
  | scalar (s : Scalar)
  | seq (kind : SequenceKind) (items : List Value)
  | map (entries : List (Scalar × Value))

/-- What a computation that succeeds went through. -/
theorem bind_eq_ok {ε α β : Type} {x : Except ε α} {f : α → Except ε β} {b : β} :
    (x >>= f) = .ok b ↔ ∃ a, x = .ok a ∧ f a = .ok b := by
  cases x with
  | error e => simp [bind, Except.bind]
  | ok a => simp [bind, Except.bind]

/-- The computation returns. -/
def Returns {ε α : Type} (x : Except ε α) : Prop := ∃ a, x = .ok a

@[simp] theorem returns_ok {ε α : Type} (a : α) : Returns (.ok a : Except ε α) := ⟨a, rfl⟩

@[simp] theorem not_returns_error {ε α : Type} (e : ε) : ¬ Returns (.error e : Except ε α) := by
  rintro ⟨a, h⟩
  cases h

theorem ok_ne_error {ε α : Type*} (a : α) (e : ε) : (Except.ok a : Except ε α) ≠ .error e := by
  simp

/-- A computation raises nothing that its steps do not raise. -/
theorem bind_ne_error {ε α β : Type} {x : Except ε α} {f : α → Except ε β} {e : ε}
    (hx : x ≠ .error e) (hf : ∀ a, f a ≠ .error e) : (x >>= f) ≠ .error e := by
  cases x with
  | error e' => exact fun h => hx (congrArg _ (Except.error.inj h))
  | ok a => exact hf a

theorem mapM_ne_error {ε α β : Type} {f : α → Except ε β} {e : ε}
    (h : ∀ a, f a ≠ .error e) (items : List α) : items.mapM f ≠ .error e := by
  induction items with
  | nil => exact fun heq => nomatch heq
  | cons a rest ih =>
      rw [List.mapM_cons]
      exact bind_ne_error (h a) fun _ => bind_ne_error ih fun _ heq => nomatch heq

/-- What a computation over a list returns, item by item. -/
theorem mapM_eq_ok {ε α β : Type} {f : α → Except ε β} {items : List α} :
    ∀ {results : List β},
      items.mapM f = .ok results ↔ List.Forall₂ (fun a b => f a = .ok b) items results := by
  induction items with
  | nil =>
      intro results
      rw [List.mapM_nil, List.forall₂_nil_left_iff]
      exact ⟨fun h => (Except.ok.inj h).symm, fun h => h ▸ rfl⟩
  | cons a rest ih =>
      intro results
      rw [List.mapM_cons, bind_eq_ok, List.forall₂_cons_left_iff]
      constructor
      · rintro ⟨b, hb, h⟩
        obtain ⟨others, hothers, h⟩ := bind_eq_ok.mp h
        exact ⟨b, others, hb, ih.mp hothers, (Except.ok.inj h).symm⟩
      · rintro ⟨b, others, hb, hothers, rfl⟩
        exact ⟨b, hb, bind_eq_ok.mpr ⟨others, ih.mpr hothers, rfl⟩⟩

/-- A list read entry by entry, each under its own key, keeps its keys. -/
theorem keys_of_mapM_eq_ok {ε K V W : Type} {f : K × V → Except ε (K × W)}
    (hf : ∀ e b, f e = .ok b → b.1 = e.1) {entries : List (K × V)} {results : List (K × W)}
    (h : entries.mapM f = .ok results) : results.map Prod.fst = entries.map Prod.fst := by
  have hpairs : List.Forall₂ (fun e b => e.1 = b.1) entries results :=
    (mapM_eq_ok.mp h).imp fun e b hb => (hf e b hb).symm
  have hkeys : List.Forall₂ Eq (entries.map Prod.fst) (results.map Prod.fst) :=
    List.forall₂_map_left_iff.mpr (List.forall₂_map_right_iff.mpr hpairs)
  rw [List.forall₂_eq_eq_eq] at hkeys
  exact hkeys.symm

/-- A computation over a list returns exactly if it returns for each item. -/
theorem returns_mapM {ε α β : Type} {f : α → Except ε β} {items : List α} :
    Returns (items.mapM f) ↔ ∀ a ∈ items, Returns (f a) := by
  induction items with
  | nil => simp [Returns, pure, Except.pure]
  | cons a rest ih =>
      rw [List.forall_mem_cons, ← ih, List.mapM_cons]
      constructor
      · rintro ⟨results, h⟩
        obtain ⟨b, hb, h⟩ := bind_eq_ok.mp h
        obtain ⟨others, hothers, -⟩ := bind_eq_ok.mp h
        exact ⟨⟨b, hb⟩, ⟨others, hothers⟩⟩
      · rintro ⟨⟨b, hb⟩, ⟨others, hothers⟩⟩
        exact ⟨b :: others, bind_eq_ok.mpr ⟨b, hb, bind_eq_ok.mpr ⟨others, hothers, rfl⟩⟩⟩

/-- What a computation over a list returns comes from its elements. -/
theorem mem_of_mapM_eq_ok {ε α β : Type} {f : α → Except ε β} {items : List α} :
    ∀ {results : List β}, items.mapM f = .ok results →
      ∀ b ∈ results, ∃ a ∈ items, f a = .ok b := by
  induction items with
  | nil =>
      intro results h b hb
      obtain rfl := Except.ok.inj h
      cases hb
  | cons a rest ih =>
      intro results h b hb
      rw [List.mapM_cons] at h
      obtain ⟨first, hfirst, h⟩ := bind_eq_ok.mp h
      obtain ⟨others, hothers, h⟩ := bind_eq_ok.mp h
      obtain rfl := Except.ok.inj h
      rcases List.mem_cons.mp hb with rfl | hb
      · exact ⟨a, List.mem_cons_self, hfirst⟩
      · obtain ⟨a', ha', hb'⟩ := ih hothers b hb
        exact ⟨a', List.mem_cons_of_mem _ ha', hb'⟩

namespace Value

/-- A text. -/
abbrev str (s : String) : Value := .scalar (.str s)

/-- The null value. -/
abbrev null : Value := .scalar .null

instance : Inhabited Value := ⟨null⟩

/-- A mapping from texts, as a document holds it. -/
def ofDict (d : Dict String Value) : Value :=
  .map (d.entries.map fun e => (.str e.1, e.2))

/-- The dictionary of a mapping: `isinstance(value, dict)`, and its content. -/
def asDict : Value → Option (Dict Scalar Value)
  | .map entries => some (Dict.ofList entries)
  | .scalar _ | .seq _ _ => none

/-- `bool(value)` -/
def truthy : Value → Bool
  | .scalar .null => false
  | .scalar (.bool b) => b
  | .scalar (.int n) => n != 0
  | .scalar (.float f) => !f.isZero
  | .scalar (.str s) => s != ""
  | .scalar (.bytes b) => !b.isEmpty
  | .scalar (.timestamp _) => true
  | .seq _ items => !items.isEmpty
  | .map entries => !entries.isEmpty

/-- The text of a value.  `repr` gives the texts of the values that have no simpler
one. -/
def text (repr : Value → String) : Value → String
  | .scalar (.str s) => s
  | .scalar .null => "None"
  | .scalar (.bool b) => if b then "True" else "False"
  | .scalar (.int n) => toString n
  | .scalar (.float f) => f.text
  | .scalar (.timestamp text) => text
  | value => repr value

mutual

/-- The value has an integer in it that the runtime refuses to write in decimal. -/
def overlong : Value → Bool
  | .scalar s => s.overlong
  | .seq _ items => overlongItems items
  | .map entries => overlongEntries entries

/-- One of the items is overlong. -/
def overlongItems : List Value → Bool
  | [] => false
  | v :: items => v.overlong || overlongItems items

/-- One of the keys is overlong, or what is left under one. -/
def overlongEntries : List (Scalar × Value) → Bool
  | [] => false
  | (k, v) :: entries =>
      k.overlong || (v.overlong && k ∉ entries.map Prod.fst) || overlongEntries entries

end

/-- `str(value)` -/
def toText (repr : Value → String) (value : Value) : Except Raised String :=
  if value.overlong then .error .valueError else .ok (value.text repr)

/-- `int(b)` of bytes: as of a text, but in ASCII only. -/
def intOfBytes (b : List UInt8) : Option Int :=
  if b.all (· < 0x80) then Text.readInt (String.ofList (b.map fun c => Char.ofNat c.toNat))
  else none

/-- `int(value)` -/
def toInt : Value → Except Raised Int
  | .scalar (.bool b) => .ok (if b then 1 else 0)
  | .scalar (.int n) => .ok n
  | .scalar (.float f) =>
      match f.integral with
      | .finite n => .ok n
      | .infinite => .error .overflowError
      | .nan => .error .valueError
  | .scalar (.str s) =>
      match Text.readInt s with
      | some n => .ok n
      | none => .error .valueError
  | .scalar (.bytes b) =>
      match intOfBytes b with
      | some n => .ok n
      | none => .error .valueError
  | .scalar .null | .scalar (.timestamp _) | .seq _ _ | .map _ => .error .typeError

/-- `iter(value)`, run to its end. -/
def iterate : Value → Except Raised (List Value)
  | .seq _ items => .ok items
  | .map entries => .ok (((Dict.ofList entries).keys).map .scalar)
  | .scalar (.str s) => .ok (s.toList.map fun c => str (String.ofList [c]))
  | .scalar (.bytes b) => .ok (b.map fun c => .scalar (.int c.toNat))
  | .scalar _ => .error .typeError

/-- An element of a sequence that is made into a dictionary: two values, the first
hashable. -/
def asPair (value : Value) : Except Raised (Scalar × Value) := do
  match ← value.iterate with
  | [.scalar key, item] => .ok (key, item)
  | [_, _] => .error .typeError
  | _ => .error .valueError

/-- `dict(value)` -/
def toDict (value : Value) : Except Raised (Dict Scalar Value) :=
  match value.asDict with
  | some d => .ok d
  | none => do
      let items ← value.iterate
      let pairs ← items.mapM asPair
      .ok (Dict.ofList pairs)

/-! ### Equality -/

mutual

/-- Whether two values are equal. -/
def decEq : (v w : Value) → Decidable (v = w)
  | .scalar a, .scalar b => decidable_of_iff (a = b) (by simp)
  | .seq kind items, .seq kind' items' =>
      have := decEqItems items items'
      decidable_of_iff (kind = kind' ∧ items = items') (by simp)
  | .map entries, .map entries' =>
      have := decEqEntries entries entries'
      decidable_of_iff (entries = entries') (by simp)
  | .scalar _, .seq _ _ | .scalar _, .map _ | .seq _ _, .scalar _ | .seq _ _, .map _
  | .map _, .scalar _ | .map _, .seq _ _ => isFalse nofun

/-- Whether two lists of items are equal. -/
def decEqItems : (items items' : List Value) → Decidable (items = items')
  | [], [] => isTrue rfl
  | v :: items, w :: items' =>
      have := decEq v w
      have := decEqItems items items'
      decidable_of_iff (v = w ∧ items = items') (by simp)
  | [], _ :: _ | _ :: _, [] => isFalse nofun

/-- Whether two lists of entries are equal. -/
def decEqEntries : (entries entries' : List (Scalar × Value)) → Decidable (entries = entries')
  | [], [] => isTrue rfl
  | (k, v) :: entries, (l, w) :: entries' =>
      have := decEq v w
      have := decEqEntries entries entries'
      decidable_of_iff ((k = l ∧ v = w) ∧ entries = entries') (by simp)
  | [], _ :: _ | _ :: _, [] => isFalse nofun

end

instance : DecidableEq Value := decEq

/-! ### Facts -/

@[simp] theorem toText_str (repr : Value → String) (s : String) :
    (str s).toText repr = .ok s := rfl

theorem toText_eq_ok {repr : Value → String} {value : Value} {s : String} :
    value.toText repr = .ok s ↔ value.overlong = false ∧ value.text repr = s := by
  unfold toText
  split
  · rename_i h
    simp [h]
  · rename_i h
    simp [h]

@[simp] theorem toInt_int (n : Int) : (Value.scalar (.int n)).toInt = .ok n := rfl

@[simp] theorem truthy_str (s : String) : (str s).truthy = (s != "") := rfl

@[simp] theorem truthy_null : null.truthy = false := rfl

/-- The dictionary of texts is read back as it was written. -/
theorem asDict_ofDict (d : Dict String Value) :
    ∃ e : Dict Scalar Value, (ofDict d).asDict = some e ∧
      e.entries = d.entries.map fun p => (.str p.1, p.2) := by
  exact ⟨_, rfl, Dict.entries_ofList (Scalar.nodup_map_str id d)⟩

end Value

/-- What `yaml.safe_load` raises. -/
inductive LoadError
  /-- `YAMLError`, with its text -/
  | yaml (text : String)
  /-- What constructing a scalar raises instead: a date that does not exist, a number
  too long to be read; or a nesting too deep. -/
  | other
  deriving DecidableEq, Repr

/-- What a program takes from its runtime and from its YAML library. -/
structure Runtime where
  /-- `yaml.dump`, with the options the program gives -/
  dump : Value → String
  /-- `yaml.safe_load` -/
  safeLoad : String → Except LoadError Value
  /-- `repr` -/
  repr : Value → String
  /-- How many items a list can have before growing it raises: `sys.maxsize` bytes of
  them, where memory does not run out before. -/
  listLimit : Nat := 1152921504606846975

/-- A runtime for what is never dumped, loaded or shown. -/
def Runtime.silent : Runtime where
  dump _ := ""
  safeLoad _ := .error .other
  repr _ := ""

/-! ## Bytes as text -/

namespace Utf8

/-- A continuation byte's six bits. -/
def tail (b : UInt8) : Option Nat :=
  if 0x80 ≤ b ∧ b < 0xC0 then some (b.toNat - 0x80) else none

/-- The character with this code point, for a sequence whose shortest form is the
one it was written in. -/
def character (least n : Nat) : Option Char :=
  if h : n.isValidChar ∧ least ≤ n then some (Char.ofNatAux n h.1) else none

/-- `b.decode("utf-8")`, strict. -/
def decode : List UInt8 → Option (List Char)
  | [] => some []
  | a :: rest =>
      if a < 0x80 then (decode rest).map (Char.ofNat a.toNat :: ·)
      else
        match rest with
        | b :: rest =>
            if 0xC0 ≤ a ∧ a < 0xE0 then do
              let c ← character 0x80 ((a.toNat - 0xC0) * 64 + (← tail b))
              (decode rest).map (c :: ·)
            else
              match rest with
              | c :: rest =>
                  if 0xE0 ≤ a ∧ a < 0xF0 then do
                    let d ← character 0x800
                      (((a.toNat - 0xE0) * 64 + (← tail b)) * 64 + (← tail c))
                    (decode rest).map (d :: ·)
                  else
                    match rest with
                    | d :: rest =>
                        if 0xF0 ≤ a ∧ a < 0xF8 then do
                          let e ← character 0x10000
                            ((((a.toNat - 0xF0) * 64 + (← tail b)) * 64 + (← tail c)) * 64 +
                              (← tail d))
                          (decode rest).map (e :: ·)
                        else none
                    | [] => none
              | [] => none
        | [] => none

end Utf8

end SeapathWebui.Foundation
