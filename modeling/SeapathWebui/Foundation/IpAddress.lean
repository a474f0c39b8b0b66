/-
  Foundation/IpAddress.lean --- IP addresses and their texts.

  The two families, as bit vectors of their width, with the texts the standard
  library of the source's language reads and writes: four strict decimal octets,
  or up to eight groups of hexadecimal digits with one `::`, a dotted last part
  and a scope.  A text that is neither is no address.
-/
import Mathlib.Algebra.Group.Nat.Defs
import SeapathWebui.Foundation.Decimal

set_option autoImplicit false

namespace SeapathWebui.Foundation

/-- An address. -/
inductive IpAddress
  | v4 (ip : BitVec 32)
  | v6 (ip : BitVec 128) (scope : Option String)
  deriving DecidableEq, Repr

namespace IpAddress

/-! ## Reading -/

/-- `_parse_octet` -/
def parseOctet (s : String) : Option Nat :=
  let digits := s.toList
  if digits = [] ∨ ¬ digits.all Char.isDigit ∨ 3 < digits.length then none
  else if digits ≠ ['0'] ∧ digits.head? = some '0' then none
  else
    let n := digits.foldl (fun n c => 10 * n + (c.toNat - '0'.toNat)) 0
    if 255 < n then none else some n

/-- The number whose digits in this base are given, the highest first. -/
def ofDigits (base : Nat) (digits : List Nat) : Nat := digits.foldl (fun n d => base * n + d) 0

/-- `IPv4Address(s)`, as a number. -/
def parseV4 (s : String) : Option Nat :=
  match (Text.split '.' s).mapM parseOctet with
  | some [a, b, c, d] => some (ofDigits 256 [a, b, c, d])
  | some _ | none => none

/-- The value of a hexadecimal digit. -/
def hexDigit? (c : Char) : Option Nat :=
  if '0' ≤ c ∧ c ≤ '9' then some (c.toNat - '0'.toNat)
  else if 'a' ≤ c ∧ c ≤ 'f' then some (c.toNat - 'a'.toNat + 10)
  else if 'A' ≤ c ∧ c ≤ 'F' then some (c.toNat - 'A'.toNat + 10)
  else none

/-- `_parse_hextet` -/
def parseHextet (s : String) : Option Nat :=
  if s = "" ∨ 4 < s.toList.length then none else (s.toList.mapM hexDigit?).map (ofDigits 16)

/-- `'%x' % n` -/
def hex (n : Nat) : String := String.ofList (Nat.toDigits 16 n)

/-- The parts between colons, a dotted last one written as two groups. -/
def expandV4 (parts : List String) : Option (List String) :=
  match parts.getLast? with
  | none => some parts
  | some last =>
      if '.' ∈ last.toList then
        (parseV4 last).map fun n => parts.dropLast ++ [hex (n / 65536), hex (n % 65536)]
      else some parts

/-- The places of the empty parts between the first and the last. -/
def skips (parts : List String) : List Nat :=
  (List.range (parts.length - 1)).filter fun i => i ≠ 0 && parts[i]? == some ""

/-- The eight groups of an address: those before `::`, zeros, those after. -/
def groups (parts : List String) : Option (List Nat) :=
  match skips parts with
  | [] => if parts.length = 8 then parts.mapM parseHextet else none
  | [skip] =>
      let leading := parts.head? = some ""
      let trailing := parts.getLast? = some ""
      let hi := if leading then skip - 1 else skip
      let lo := if trailing then parts.length - skip - 2 else parts.length - skip - 1
      if (leading ∧ hi ≠ 0) ∨ (trailing ∧ lo ≠ 0) ∨ 7 < hi + lo then none
      else do
        let high ← (parts.take hi).mapM parseHextet
        let low ← (parts.drop (parts.length - lo)).mapM parseHextet
        some (high ++ List.replicate (8 - (hi + lo)) 0 ++ low)
  | _ => none

/-- `IPv6Address(s)` without its scope, as a number. -/
def parseV6 (s : String) : Option Nat := do
  let parts := Text.split ':' s
  if s = "" ∨ parts.length < 3 then none
  else
    let parts ← expandV4 parts
    if 9 < parts.length then none
    else (groups parts).map (ofDigits 65536)

/-- `_split_scope_id` -/
def splitScope (s : String) : Option (String × Option String) :=
  match Text.partition '%' s with
  | (address, none) => some (address, none)
  | (address, some scope) =>
      if scope = "" ∨ '%' ∈ scope.toList then none else some (address, some scope)

/-- `ip_address(s)`; `none` is its `ValueError`. -/
def parse (s : String) : Option IpAddress :=
  if '/' ∈ s.toList then none
  else
    match parseV4 s with
    | some n => some (.v4 (BitVec.ofNat 32 n))
    | none => do
        let (address, scope) ← splitScope s
        let n ← parseV6 address
        some (.v6 (BitVec.ofNat 128 n) scope)

/-! ### One spelling

An octet has no leading zero, so an address of the first family has one text. -/

theorem parseOctet_eq_some {s : String} {n : Nat} (h : parseOctet s = some n) :
    Text.Canonical s.toList ∧ n = Nat.ofDigitChars 10 s.toList 0 ∧ n ≤ 255 := by
  unfold parseOctet at h
  simp only at h
  split at h
  · cases h
  · rename_i hdigits
    split at h
    · cases h
    · rename_i hlead
      split at h
      · cases h
      · rename_i hsmall
        obtain rfl := Option.some.inj h
        obtain ⟨hne, hall⟩ := not_or.mp hdigits
        have hchars := List.all_eq_true.mp (not_not.mp (not_or.mp hall).1)
        refine ⟨⟨hne, hchars, fun hzero => ?_⟩, rfl, Nat.le_of_not_lt hsmall⟩
        exact not_not.mp fun hother => hlead ⟨hother, hzero⟩

theorem eq_of_parseOctet {s t : String} {n : Nat} (hs : parseOctet s = some n)
    (ht : parseOctet t = some n) : s = t := by
  obtain ⟨hcanonical, hvalue, -⟩ := parseOctet_eq_some hs
  obtain ⟨hcanonical', hvalue', -⟩ := parseOctet_eq_some ht
  have hdigits := Text.toDigits_ofDigitChars hcanonical
  have hdigits' := Text.toDigits_ofDigitChars hcanonical'
  rw [← hvalue] at hdigits
  rw [← hvalue'] at hdigits'
  exact String.toList_inj.mp (hdigits.symm.trans hdigits')

/-- Texts that are read alike one by one are the same texts. -/
theorem eq_of_mapM {α : Type} {f : String → Option α}
    (hf : ∀ s t a, f s = some a → f t = some a → s = t) {texts others : List String}
    {values : List α} (h : texts.mapM f = some values) (h' : others.mapM f = some values) :
    texts = others := by
  rw [Text.mapM_eq_some] at h h'
  induction h generalizing others with
  | nil => exact (List.forall₂_nil_right_iff.mp h').symm
  | cons hs _ ih =>
      obtain ⟨t, more, ht, hmore, rfl⟩ := List.forall₂_cons_right_iff.mp h'
      rw [hf _ _ _ hs ht, ih hmore]

/-- What is read of several texts is read of one of them. -/
theorem exists_of_mem_mapM {α : Type} {f : String → Option α} {texts : List String}
    {values : List α} (h : texts.mapM f = some values) {a : α} (ha : a ∈ values) :
    ∃ s, f s = some a := by
  rw [Text.mapM_eq_some] at h
  induction h with
  | nil => cases ha
  | cons hs _ ih =>
      rcases List.mem_cons.mp ha with rfl | ha
      · exact ⟨_, hs⟩
      · exact ih ha

theorem parseV4_eq_some {s : String} {n : Nat} (h : parseV4 s = some n) :
    ∃ a b c d, (Text.split '.' s).mapM parseOctet = some [a, b, c, d] ∧
      (a ≤ 255 ∧ b ≤ 255 ∧ c ≤ 255 ∧ d ≤ 255) ∧ n = ofDigits 256 [a, b, c, d] := by
  unfold parseV4 at h
  split at h
  · rename_i a b c d hoctets
    refine ⟨a, b, c, d, hoctets, ?_, (Option.some.inj h).symm⟩
    have hall : ∀ m ∈ [a, b, c, d], m ≤ 255 := by
      intro m hm
      obtain ⟨part, hpart⟩ := exists_of_mem_mapM hoctets hm
      exact (parseOctet_eq_some hpart).2.2
    simpa using hall
  · cases h
  · cases h

theorem eq_of_parseV4 {s t : String} {n : Nat} (hs : parseV4 s = some n)
    (ht : parseV4 t = some n) : s = t := by
  obtain ⟨a, b, c, d, hoctets, hsmall, hvalue⟩ := parseV4_eq_some hs
  obtain ⟨a', b', c', d', hoctets', hsmall', hvalue'⟩ := parseV4_eq_some ht
  simp only [ofDigits, List.foldl_cons, List.foldl_nil] at hvalue hvalue'
  obtain ⟨rfl, rfl, rfl, rfl⟩ : a = a' ∧ b = b' ∧ c = c' ∧ d = d' := by omega
  exact Text.split_injective '.' (eq_of_mapM (fun _ _ _ => eq_of_parseOctet) hoctets hoctets')

theorem parseV4_lt {s : String} {n : Nat} (h : parseV4 s = some n) : n < 2 ^ 32 := by
  obtain ⟨a, b, c, d, -, hsmall, hvalue⟩ := parseV4_eq_some h
  simp only [ofDigits, List.foldl_cons, List.foldl_nil] at hvalue
  omega

theorem parse_eq_v4 {s : String} {ip : BitVec 32} (h : parse s = some (.v4 ip)) :
    parseV4 s = some ip.toNat := by
  unfold parse at h
  split at h
  · cases h
  · split at h
    · rename_i n hn
      obtain rfl := IpAddress.v4.inj (Option.some.inj h)
      rw [hn, BitVec.toNat_ofNat, Nat.mod_eq_of_lt (parseV4_lt hn)]
    · obtain ⟨_, -, h⟩ := Option.bind_eq_some_iff.mp h
      obtain ⟨_, -, h⟩ := Option.bind_eq_some_iff.mp h
      cases h

/-- Two texts of one address of the first family are the same. -/
theorem eq_of_parse_v4 {s t : String} {ip : BitVec 32} (hs : parse s = some (.v4 ip))
    (ht : parse t = some (.v4 ip)) : s = t :=
  eq_of_parseV4 (parse_eq_v4 hs) (parse_eq_v4 ht)

/-! ## Writing -/

/-- The digits of a number in this base, as many as `width` says. -/
def toDigits (base width n : Nat) : List Nat :=
  (List.range width).reverse.map fun i => n / base ^ i % base

/-- The longest run of zeros, the first of several: its place and its length.  `run` is
the length of the run that ends here. -/
def longestZeros : List Nat → Nat → Nat → Nat × Nat → Nat × Nat
  | [], _, _, best => best
  | group :: rest, index, run, best =>
      if group = 0 then
        longestZeros rest (index + 1) (run + 1)
          (if best.2 < run + 1 then (index - run, run + 1) else best)
      else longestZeros rest (index + 1) 0 best

/-- `_compress_hextets`, joined. -/
def compress (groups : List Nat) : String :=
  let (start, length) := longestZeros groups 0 0 (0, 0)
  let written := groups.map hex
  if 1 < length then
    ":".intercalate (written.take start) ++ "::" ++
      ":".intercalate (written.drop (start + length))
  else ":".intercalate written

/-- `str(address)` -/
def text : IpAddress → String
  | .v4 ip => ".".intercalate ((toDigits 256 4 ip.toNat).map toString)
  | .v6 ip scope =>
      compress (toDigits 65536 8 ip.toNat) ++
        match scope with
        | none => ""
        | some scope => "%" ++ scope

/-! ## Networks -/

/-- `address.is_loopback` -/
def isLoopback : IpAddress → Bool
  | .v4 ip => ip.toNat / 2 ^ 24 == 127
  | .v6 ip _ => ip == 1

/-- The mask of a prefix length. -/
def mask (width prefixLength : Nat) : BitVec width :=
  BitVec.allOnes width <<< (width - prefixLength)

/-- `ip_network(f"{address}/{prefix}", strict=False)`: its address.  The scope stays
where the address has no bits after the prefix. -/
def network (prefixLength : Nat) : IpAddress → IpAddress
  | .v4 ip => .v4 (ip &&& mask 32 prefixLength)
  | .v6 ip scope =>
      let base := ip &&& mask 128 prefixLength
      .v6 base (if base = ip then scope else none)

/-- `str(network)` -/
def networkText (prefixLength : Nat) (address : IpAddress) : String :=
  (address.network prefixLength).text ++ "/" ++ toString prefixLength

/-- `other in ip_network(f"{address}/{prefix}", strict=False)` -/
def inNetwork (prefixLength : Nat) (address other : IpAddress) : Bool :=
  match address, other with
  | .v4 ip, .v4 other => other &&& mask 32 prefixLength == ip &&& mask 32 prefixLength
  | .v6 ip _, .v6 other _ => other &&& mask 128 prefixLength == ip &&& mask 128 prefixLength
  | .v4 _, .v6 _ _ | .v6 _ _, .v4 _ => false

/-! ## Prefix lengths, as texts

The text after the slash need not be the decimal of a prefix length: for the first family
it may also be a mask, or the complement of one. -/

/-- `_prefix_from_prefix_string` -/
def prefixFromDigits (width : Nat) (s : String) : Option Nat :=
  let digits := s.toList
  if digits = [] ∨ ¬ digits.all Char.isDigit ∨ Text.maxDigits < digits.length then none
  else
    let n := ofDigits 10 (digits.map fun c => c.toNat - '0'.toNat)
    if width < n then none else some n

/-- `_prefix_from_ip_int` -/
def prefixFromMask (n : Nat) : Option Nat :=
  (List.range 33).find? fun length => (mask 32 length).toNat = n

/-- `_prefix_from_ip_string` -/
def prefixFromMaskText (s : String) : Option Nat := do
  let n ← parseV4 s
  (prefixFromMask n).or (prefixFromMask (2 ^ 32 - 1 - n))

/-- The prefix length of `ip_network(f"{address}/{s}", strict=False)`; `none` is its
`ValueError`. -/
def prefixLength : IpAddress → String → Option Nat
  | .v4 _, s => (prefixFromDigits 32 s).or (prefixFromMaskText s)
  | .v6 _ _, s => prefixFromDigits 128 s

/-- The decimal of a prefix length is read as that. -/
theorem prefixLength_toString (address : IpAddress) {n : Int} (h : 1 ≤ n ∧ n ≤ 32) :
    address.prefixLength (toString n) = some n.toNat := by
  have hdigits : ∀ m ∈ List.range 33,
      prefixFromDigits 32 (toString (m : Int)) = some m ∧
        prefixFromDigits 128 (toString (m : Int)) = some m := by
    decide +kernel
  obtain ⟨m, rfl⟩ := Int.eq_ofNat_of_zero_le (by omega : 0 ≤ n)
  obtain ⟨hv4, hv6⟩ := hdigits m (List.mem_range.mpr (by omega))
  cases address with
  | v4 ip => simp only [prefixLength, hv4, Option.some_or, Int.toNat_natCast]
  | v6 ip scope => simp only [prefixLength, hv6, Int.toNat_natCast]

/-- `ip_address(n)`, of an integer. -/
def ofInt (n : Int) : Option IpAddress :=
  if n < 0 then none
  else if n.toNat < 2 ^ 32 then some (.v4 (BitVec.ofNat 32 n.toNat))
  else if n.toNat < 2 ^ 128 then some (.v6 (BitVec.ofNat 128 n.toNat) none)
  else none

end IpAddress

end SeapathWebui.Foundation
