/-
  Hosts/Routes.lean --- the default route, off the routing table of the kernel.

  Source: `_default_route` and `_hex_to_ipv4` of app/hosts/local.py.

  The table has a header and a row for each route, with the addresses in little endian
  hexadecimal.  What is taken is the first row with destination zero
  (`defaultRoutePair_eq`): its mask and its metric are not looked at.
-/
import Mathlib.Algebra.Ring.Int.Defs
import SeapathWebui.Foundation.Decimal
import SeapathWebui.Foundation.Hexadecimal
import SeapathWebui.Hosts.Local

set_option autoImplicit false

namespace SeapathWebui.Hosts

open SeapathWebui.Foundation SeapathWebui.Foundation.Text

/-! ## What is read -/

/-- `(raw >> shift) & 0xFF` -/
def octet (raw : Int) (shift : Nat) : Int := raw / 2 ^ shift % 256

/-- `_hex_to_ipv4` -/
def hexToIpv4 (value : String) : Option String :=
  (readHex value).map fun raw =>
    ".".intercalate ([0, 8, 16, 24].map fun shift => toString (octet raw shift))

/-- What a line of the table makes `_default_route` return. -/
def routeOfLine (line : String) : Option (String × Option String) :=
  match fields line with
  | name :: "00000000" :: gateway :: _ => some (name, hexToIpv4 gateway)
  | _ => none

/-- `_default_route`, from what `_read_text` returns: the interface and the gateway, or
none for two `None`. -/
def defaultRoutePair (route : Option String) : Option (String × Option String) :=
  ((splitlines (route.getD "")).drop 1).findSome? routeOfLine

/-! ## The table -/

/-- An address of the table. -/
structure Octets where
  first : Fin 256
  second : Fin 256
  third : Fin 256
  fourth : Fin 256
  deriving DecidableEq, Repr

namespace Octets

/-- 0.0.0.0 -/
def zero : Octets := ⟨0, 0, 0, 0⟩

def toList (o : Octets) : List Nat := [o.first, o.second, o.third, o.fourth]

/-- The dotted address. -/
def dotted (o : Octets) : String := ".".intercalate (o.toList.map fun n : Nat => toString (n : Int))

/-- The digits of the little endian encoding. -/
def digits (o : Octets) : List Nat := o.toList.reverse.flatMap fun n => [n / 16, n % 16]

/-- The field of the address in the table. -/
def field (o : Octets) : String := String.ofList (o.digits.map hexChar)

end Octets

/-- A row of the table. -/
structure Route where
  interface : String
  destination : Octets
  gateway : Octets
  flags : String
  refcount : String
  use : String
  metric : Nat
  mask : Octets
  /-- the fields after the mask -/
  more : List String := []

/-- The fields of the row, in their order. -/
def Route.fields (row : Route) : List String :=
  [row.interface, row.destination.field, row.gateway.field, row.flags, row.refcount, row.use,
    toString (row.metric : Int), row.mask.field] ++ row.more

/-- The text is a table with these rows, after a header. -/
def IsTable (raw : String) (rows : List Route) : Prop :=
  ∃ header lines, splitlines raw = header :: lines ∧
    List.Forall₂ (fun line (row : Route) => fields line = row.fields) lines rows

/-- The row is a default route: its destination and its mask are zero. -/
def Route.IsDefault (row : Route) : Prop := row.destination = .zero ∧ row.mask = .zero

/-- The row is a default route, and none has a lower metric. -/
def LowestDefault (rows : List Route) (row : Route) : Prop :=
  row ∈ rows ∧ row.IsDefault ∧ ∀ other ∈ rows, other.IsDefault → row.metric ≤ other.metric

/-- The result is the interface and the gateway of a default route of the lowest metric, or
there is no default route and no result. -/
structure ChoosesDefault (rows : List Route) (result : Option (String × Option String)) :
    Prop where
  chosen : ∀ pair, result = some pair →
    ∃ row, LowestDefault rows row ∧ pair = (row.interface, some row.gateway.dotted)
  absent : result = none ↔ ∀ row ∈ rows, ¬ row.IsDefault

/-! ## Addresses -/

theorem digit_lt {o : Octets} : ∀ d ∈ o.digits, d < 16 := by
  intro d hd
  obtain ⟨n, hn, hd⟩ := List.mem_flatMap.mp hd
  have hlt : n < 256 := by
    simp only [Octets.toList, List.mem_reverse, List.mem_cons, List.not_mem_nil, or_false] at hn
    omega
  simp only [List.mem_cons, List.not_mem_nil, or_false] at hd
  omega

/-- The value of the field: the first octet is the lowest byte. -/
theorem readHex_field (o : Octets) :
    readHex o.field =
      some ((o.first + 2 ^ 8 * o.second + 2 ^ 16 * o.third + 2 ^ 24 * o.fourth : Nat) : Int) := by
  have hdigits : o.digits ≠ [] := by simp [Octets.digits, Octets.toList]
  rw [Octets.field, readHex_hexChars hdigits digit_lt]
  simp only [Octets.digits, Octets.toList, List.reverse_cons, List.reverse_nil, List.nil_append,
    List.cons_append, List.flatMap_cons, List.flatMap_nil, List.foldl_cons, List.foldl_nil]
  congr 2
  omega

/-- The gateway of a row is read as the address it encodes. -/
theorem hexToIpv4_field (o : Octets) : hexToIpv4 o.field = some o.dotted := by
  obtain ⟨⟨a, ha⟩, ⟨b, hb⟩, ⟨c, hc⟩, ⟨d, hd⟩⟩ := o
  rw [hexToIpv4, readHex_field, Option.map_some, Octets.dotted]
  congr 2
  have hoctet : ∀ (shift n m : Nat), n / 2 ^ shift % 256 = m →
      octet (n : Int) shift = (m : Int) := by
    rintro shift n m rfl
    simp [octet]
  simp only [List.map_cons, List.map_nil, Octets.toList]
  rw [hoctet 0 _ a (by omega), hoctet 8 _ b (by omega), hoctet 16 _ c (by omega),
    hoctet 24 _ d (by omega)]

theorem dotted_injective : Function.Injective Octets.dotted := by
  intro o p h
  have hsplit : ∀ o : Octets,
      split '.' o.dotted = o.toList.map fun n : Nat => toString (n : Int) := by
    intro o
    refine split_intercalate (by simp [Octets.toList]) fun t ht hdot => ?_
    obtain ⟨n, -, rfl⟩ := List.mem_map.mp ht
    exact absurd ((isDecimal_toString n).2 _ hdot) (by decide)
  have hlist : o.toList.map (fun n : Nat => toString (n : Int)) =
      p.toList.map fun n : Nat => toString (n : Int) := by
    rw [← hsplit o, h, hsplit p]
  have hnumber : Function.Injective fun n : Nat => toString (n : Int) := by
    intro m n hmn
    have hdigits := congrArg String.toList hmn
    simp only [toList_toString] at hdigits
    rw [← Nat.ofDigitChars_ten_toDigits (n := m), hdigits, Nat.ofDigitChars_ten_toDigits]
  have hoctets := List.map_injective_iff.mpr hnumber hlist
  obtain ⟨a, b, c, d⟩ := o
  obtain ⟨a', b', c', d'⟩ := p
  simp only [Octets.toList, List.cons.injEq, Fin.val_inj, and_true] at hoctets
  obtain ⟨rfl, rfl, rfl, rfl⟩ := hoctets
  rfl

theorem field_eq_zero_iff {o : Octets} : o.field = "00000000" ↔ o = .zero := by
  have hzero : Octets.zero.field = "00000000" := by decide +kernel
  constructor
  · intro h
    rw [← hzero] at h
    have hread := hexToIpv4_field o
    rw [h, hexToIpv4_field] at hread
    exact (dotted_injective (Option.some.inj hread)).symm
  · rintro rfl
    exact hzero

/-! ## The row that is taken -/

/-- A row is taken for its destination. -/
theorem routeOfLine_row {line : String} {row : Route} (h : fields line = row.fields) :
    routeOfLine line =
      if row.destination = .zero then some (row.interface, some row.gateway.dotted) else none := by
  unfold routeOfLine
  rw [h, Route.fields]
  split
  · rename_i hfields
    simp only [List.cons_append, List.cons.injEq] at hfields
    obtain ⟨rfl, hdestination, rfl, -⟩ := hfields
    rw [if_pos (field_eq_zero_iff.mp hdestination), hexToIpv4_field]
  · rename_i hother
    refine (if_neg fun hzero => ?_).symm
    rw [field_eq_zero_iff.mpr hzero] at hother
    exact hother _ _ _ rfl

/-- The first row with destination zero is taken, whatever its mask and its metric. -/
theorem defaultRoutePair_eq {raw : String} {rows : List Route} (h : IsTable raw rows) :
    defaultRoutePair (some raw) =
      (rows.find? fun row => row.destination = .zero).map fun row =>
        (row.interface, some row.gateway.dotted) := by
  obtain ⟨header, lines, hlines, hrows⟩ := h
  rw [defaultRoutePair, Option.getD_some, hlines, List.drop_succ_cons, List.drop_zero]
  clear hlines
  induction hrows with
  | nil => rfl
  | @cons line row _ _ hline _ ih =>
      rw [List.findSome?_cons, List.find?_cons, routeOfLine_row hline]
      by_cases hzero : row.destination = .zero
      · simp [hzero]
      · simpa [hzero] using ih

/-- **The route that is taken is a default route of the lowest metric exactly if no row has
destination zero, or such a default route has the interface and the gateway of the first row
that has.** -/
theorem chooses_default_iff {raw : String} {rows : List Route} (h : IsTable raw rows) :
    ChoosesDefault rows (defaultRoutePair (some raw)) ↔
      (∀ row ∈ rows, row.destination ≠ .zero) ∨
        ∃ first, rows.find? (fun row => row.destination = .zero) = some first ∧
          ∃ row, LowestDefault rows row ∧ row.interface = first.interface ∧
            row.gateway = first.gateway := by
  rw [defaultRoutePair_eq h]
  cases hfind : rows.find? fun row => row.destination = .zero with
  | none =>
      have hzero : ∀ row ∈ rows, row.destination ≠ .zero := fun row hrow => by
        simpa using List.find?_eq_none.mp hfind row hrow
      refine iff_of_true ⟨fun pair hpair => ?_, ?_⟩ (.inl hzero)
      · cases hpair
      · exact iff_of_true rfl fun row hrow hdefault => hzero row hrow hdefault.1
  | some first =>
      have hfirst : first ∈ rows ∧ first.destination = .zero :=
        ⟨List.mem_of_find?_eq_some hfind, by simpa using List.find?_some hfind⟩
      constructor
      · intro hchooses
        obtain ⟨row, hlowest, hpair⟩ := hchooses.chosen _ rfl
        obtain ⟨hinterface, hgateway⟩ := Prod.mk.inj hpair
        exact .inr ⟨first, rfl, row, hlowest, hinterface.symm,
          (dotted_injective (Option.some.inj hgateway)).symm⟩
      · rintro (hnone | ⟨taken, htaken, row, hlowest, hinterface, hgateway⟩)
        · exact absurd hfirst.2 (hnone first hfirst.1)
        · obtain rfl := Option.some.inj htaken
          refine ⟨fun pair hpair => ⟨row, hlowest, ?_⟩, ?_⟩
          · rw [hinterface, hgateway]
            exact (Option.some.inj hpair).symm
          · refine iff_of_false (by simp) fun hnone => ?_
            exact hnone row hlowest.1 hlowest.2.1

/-! ### Tables -/

/-- The header of the table. -/
def routeHeader : String :=
  "Iface\tDestination\tGateway \tFlags\tRefCnt\tUse\tMetric\tMask\t\tMTU\tWindow\tIRTT"

/-- A row as the kernel has it, with no count that is not zero. -/
def plainRoute (interface : String) (destination gateway mask : Octets) (metric : Nat) : Route where
  interface := interface
  destination := destination
  gateway := gateway
  flags := "0003"
  refcount := "0"
  use := "0"
  metric := metric
  mask := mask
  more := ["0", "0", "0"]

/-- The table of some lines, as it is read. -/
def tableOf (lines : List String) : String := "\n".intercalate (routeHeader :: lines)

/-- Lines of fields are a table of the rows with these fields. -/
theorem isTable_tableOf {lines : List String} {rows : List Route}
    (hlines : ∀ line ∈ lines, OneLine line ∧ line ≠ "")
    (hrows : List.Forall₂ (fun line (row : Route) => fields line = row.fields) lines rows) :
    IsTable (tableOf lines) rows := by
  have hheader : OneLine routeHeader ∧ routeHeader ≠ "" := by decide
  have hall : ∀ line ∈ routeHeader :: lines, OneLine line ∧ line ≠ "" :=
    List.forall_mem_cons.mpr ⟨hheader, hlines⟩
  exact ⟨routeHeader, lines, splitlines_intercalate (fun line hline => (hall line hline).1)
    fun line hline => (hall line hline).2, hrows⟩

/-- A default route on the wire, and the network of the machine. -/
def wiredLines : List String :=
  ["eno1\t00000000\t01C8A8C0\t0003\t0\t0\t100\t00000000\t0\t0\t0   ",
    "eno1\t00C8A8C0\t00000000\t0003\t0\t0\t100\t00FFFFFF\t0\t0\t0"]

def wiredRoutes : List Route :=
  [plainRoute "eno1" .zero ⟨192, 168, 200, 1⟩ .zero 100,
    plainRoute "eno1" ⟨192, 168, 200, 0⟩ .zero ⟨255, 255, 255, 0⟩ 100]

theorem isTable_wired : IsTable (tableOf wiredLines) wiredRoutes :=
  isTable_tableOf (by decide) (.cons (by decide +kernel) (.cons (by decide +kernel) .nil))

theorem chooses_default_wired :
    ChoosesDefault wiredRoutes (defaultRoutePair (some (tableOf wiredLines))) ↔
      (∀ row ∈ wiredRoutes, row.destination ≠ .zero) ∨
        ∃ first, wiredRoutes.find? (fun row => row.destination = .zero) = some first ∧
          ∃ row, LowestDefault wiredRoutes row ∧ row.interface = first.interface ∧
            row.gateway = first.gateway :=
  chooses_default_iff isTable_wired

example : defaultRoutePair (some (tableOf wiredLines)) = some ("eno1", some "192.168.200.1") :=
  (defaultRoutePair_eq isTable_wired).trans (by decide +kernel)

/-- A tunnel takes one half of all addresses, and there is no default route. -/
def tunnelLines : List String :=
  ["tun0\t00000000\t0100080A\t0003\t0\t0\t0\t00000080\t0\t0\t0"]

def tunnelRoutes : List Route :=
  [plainRoute "tun0" .zero ⟨10, 8, 0, 1⟩ ⟨128, 0, 0, 0⟩ 0]

/-- Two default routes, the one of the higher metric first. -/
def wirelessLines : List String :=
  ["wlan0\t00000000\t0101A8C0\t0003\t0\t0\t600\t00000000\t0\t0\t0",
    "eno1\t00000000\t01C8A8C0\t0003\t0\t0\t100\t00000000\t0\t0\t0"]

def wirelessRoutes : List Route :=
  [plainRoute "wlan0" .zero ⟨192, 168, 1, 1⟩ .zero 600,
    plainRoute "eno1" .zero ⟨192, 168, 200, 1⟩ .zero 100]

/-- Half of a split default is taken for a default route, and a worse default for the better
one. -/
theorem other_route_chosen :
    (IsTable (tableOf tunnelLines) tunnelRoutes ∧
        ¬ ChoosesDefault tunnelRoutes (defaultRoutePair (some (tableOf tunnelLines)))) ∧
      IsTable (tableOf wirelessLines) wirelessRoutes ∧
        ¬ ChoosesDefault wirelessRoutes (defaultRoutePair (some (tableOf wirelessLines))) := by
  have htunnel : IsTable (tableOf tunnelLines) tunnelRoutes :=
    isTable_tableOf (by decide) (.cons (by decide +kernel) .nil)
  have hwireless : IsTable (tableOf wirelessLines) wirelessRoutes :=
    isTable_tableOf (by decide) (.cons (by decide +kernel) (.cons (by decide +kernel) .nil))
  refine ⟨⟨htunnel, fun h => ?_⟩, hwireless, fun h => ?_⟩
  · rw [defaultRoutePair_eq htunnel] at h
    obtain ⟨row, ⟨hrow, ⟨-, hmask⟩, -⟩, -⟩ := h.chosen ("tun0", some "10.8.0.1") (by decide +kernel)
    obtain rfl := List.mem_singleton.mp hrow
    exact absurd hmask (by decide)
  · rw [defaultRoutePair_eq hwireless] at h
    obtain ⟨row, ⟨hrow, -, hlowest⟩, hpair⟩ :=
      h.chosen ("wlan0", some "192.168.1.1") (by decide +kernel)
    have hmetric : row.metric ≤ 100 :=
      hlowest (plainRoute "eno1" .zero ⟨192, 168, 200, 1⟩ .zero 100) (by simp [wirelessRoutes])
        ⟨rfl, rfl⟩
    simp only [wirelessRoutes, List.mem_cons, List.not_mem_nil, or_false] at hrow
    rcases hrow with rfl | rfl
    · exact absurd hmetric (by decide)
    · exact absurd (Prod.mk.inj hpair).1 (by decide)

end SeapathWebui.Hosts
