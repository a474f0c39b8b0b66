/-
  Trust/SelfTrust.lean --- the trust relation a node has with itself.

  Source: app/trust/service.py, with the public half of app/trust/keys.py.

  `ensure_self_trust` runs at every start.  Between two starts the node may be renamed
  and its addresses may move, so the line an earlier start installed is another text.
  What recognises it is its comment, or else the key it carries: hence at most one line
  of the service is ever in the file, and it is the last start's.
-/
import SeapathWebui.Trust.AuthorizedKeys

set_option autoImplicit false

namespace SeapathWebui.Trust

open SeapathWebui.Foundation SeapathWebui.Foundation.Text

/-! ## The service -/

/-- `_LOOPBACK` -/
def loopback : List String := ["127.0.0.1", "::1"]

/-- `_restriction_addresses` -/
def restrictionAddresses (addresses : List String) : List String :=
  sortedSet (addresses.filter (fun address => address ≠ "") ++ loopback)

/-- `TrustService.self_comment` -/
def selfComment (hostname : String) : String :=
  commentPrefix ++ hostname ++ "->" ++ hostname

/-- `KeyPair.public_key`, from the text of the key file. -/
def publicKeyOf (keyFile : String) : String := strip (universalNewlines keyFile)

/-- `TrustRelation` -/
structure TrustRelation where
  comment : String
  peer : String
  kind : String
  fingerprint : String
  fromAddresses : List String
  installed : Bool
  deriving DecidableEq, Repr

/-- The line the service wants for a host. -/
def selfKey (publicKey hostname : String) (addresses : List String) : AuthorizedKey where
  comment := selfComment hostname
  publicKey := publicKey
  fromAddresses := restrictionAddresses addresses

/-- `KeyPair.fingerprint` of a public key; `none` where its blob cannot be decoded. -/
abbrev Fingerprint := String → Option String

/-- `ensure_self_trust`: the text it writes, `none` where it leaves the file alone, and
what it returns; `none` where the fingerprint raises, which is after the file. -/
def ensureSelfTrust (fingerprint : Fingerprint) (keyFile text hostname : String)
    (addresses : List String) : Option String × Option (TrustRelation × Bool) :=
  let publicKey := publicKeyOf keyFile
  let key := selfKey publicKey hostname addresses
  let written := install text key
  (written, (fingerprint publicKey).map fun print =>
    ({ comment := key.comment
       peer := hostname
       kind := "self"
       fingerprint := print
       fromAddresses := key.fromAddresses
       installed := true }, written.isSome))

/-! ## Starts -/

/-- What a start calls `ensure_self_trust` with. -/
structure Start where
  hostname : String
  addresses : List String
  deriving DecidableEq, Repr

/-- Hostname and addresses as the host has them, without white space. -/
structure Start.Plain (start : Start) : Prop where
  hostname : NoSpace start.hostname
  addresses : ∀ address ∈ start.addresses, NoSpace address

/-- The line of a start. -/
def Start.key (start : Start) (publicKey : String) : AuthorizedKey :=
  selfKey publicKey start.hostname start.addresses

/-- The text of the file after a start. -/
def afterStart (fingerprint : Fingerprint) (keyFile text : String) (start : Start) : String :=
  ((ensureSelfTrust fingerprint keyFile text start.hostname start.addresses).1).getD text

/-- The text of the file after a sequence of starts. -/
def afterStarts (fingerprint : Fingerprint) (keyFile text : String) (starts : List Start) :
    String := starts.foldl (afterStart fingerprint keyFile) text

/-- The lines of the service. -/
def ownLines (text : String) : List String :=
  (readLines text).filter fun line => commentOf line ≠ none

/-- A public key as the key file has it: a type and a blob. -/
structure TypeAndBlob (publicKey kind blob : String) : Prop where
  eq : publicKey = kind ++ " " ++ blob
  kind : NoSpace kind ∧ kind ≠ ""
  blob : NoSpace blob ∧ blob ≠ ""

variable {publicKey kind blob : String}

/-! ## The line of a start -/

theorem TypeAndBlob.fields_eq (h : TypeAndBlob publicKey kind blob) :
    fields publicKey = [kind, blob] := by
  rw [h.eq, fields_append, fields_of_noSpace h.kind.1 h.kind.2,
    fields_of_noSpace h.blob.1 h.blob.2]
  rfl

theorem TypeAndBlob.onlyBlanks (h : TypeAndBlob publicKey kind blob) : OnlyBlanks publicKey := by
  intro c hc hspace
  rw [h.eq, String.toList_append, String.toList_append] at hc
  rcases List.mem_append.mp hc with hc | hblob
  · rcases List.mem_append.mp hc with hkind | hblank
    · rw [h.kind.1 c hkind] at hspace
      cases hspace
    · exact List.mem_singleton.mp hblank
  · rw [h.blob.1 c hblob] at hspace
    cases hspace

theorem mem_restrictionAddresses {addresses : List String} {a : String} :
    a ∈ restrictionAddresses addresses ↔ (a ∈ addresses ∧ a ≠ "") ∨ a ∈ loopback := by
  rw [restrictionAddresses, mem_sortedSet, List.mem_append, List.mem_filter, decide_eq_true_iff]

/-- The addresses that are not empty and those of the loopback, in order, each once. -/
theorem restrictionAddresses_eq_iff {addresses restricted : List String} :
    restrictionAddresses addresses = restricted ↔ restricted.Pairwise (· < ·) ∧
      ∀ a, a ∈ restricted ↔ (a ∈ addresses ∧ a ≠ "") ∨ a ∈ loopback := by
  constructor
  · rintro rfl
    exact ⟨pairwise_sortedSet _, fun a => mem_restrictionAddresses⟩
  · rintro ⟨hsorted, hmem⟩
    refine (pairwise_sortedSet _).eq_of_mem_iff hsorted fun a => ?_
    exact mem_restrictionAddresses.trans (hmem a).symm

/-- The order of the addresses and their repetition do not show, nor do empty ones. -/
theorem restrictionAddresses_congr {addresses others : List String}
    (h : ∀ a, a ≠ "" → (a ∈ addresses ↔ a ∈ others)) :
    restrictionAddresses addresses = restrictionAddresses others := by
  refine sortedSet_congr fun a => ?_
  rw [List.mem_append, List.mem_append, List.mem_filter, List.mem_filter, decide_eq_true_iff]
  exact or_congr (and_congr_left fun hne => h a hne) Iff.rfl

@[simp] theorem publicKey_key (start : Start) (publicKey : String) :
    (start.key publicKey).publicKey = publicKey := rfl

theorem plain_key (hkey : TypeAndBlob publicKey kind blob) {start : Start} (h : start.Plain) :
    (start.key publicKey).Plain where
  ours := by
    change commentPrefix.toList <+: (selfComment start.hostname).toList
    rw [selfComment, String.append_assoc, String.append_assoc, String.toList_append]
    exact List.prefix_append _ _
  comment := by
    have hinitial : NoSpace commentPrefix := by decide
    have harrow : NoSpace "->" := by decide
    exact noSpace_append.mpr
      ⟨noSpace_append.mpr ⟨noSpace_append.mpr ⟨hinitial, h.hostname⟩, harrow⟩, h.hostname⟩
  publicKey := hkey.onlyBlanks
  addresses := by
    intro a ha
    rcases mem_restrictionAddresses.mp ha with ⟨hmem, -⟩ | hloopback
    · exact h.addresses a hmem
    · have hall : ∀ a ∈ loopback, NoSpace a := by decide
      exact hall a hloopback

/-- The line of a key is recognised by the key it carries, too. -/
theorem keyBlobOf_render {key : AuthorizedKey} (hkey : TypeAndBlob key.publicKey kind blob)
    (h : key.Plain) : keyBlobOf key.render = some key.publicKey := by
  rw [keyBlobOf, fields_strip, fields_render h, hkey.fields_eq, hkey.eq]
  rfl

/-! ## One start -/

/-- An own line of the file is one that the service installed with its key. -/
def Installed (publicKey : String) (text : String) : Prop :=
  ∀ line ∈ ownLines text,
    ∃ key : AuthorizedKey, key.Plain ∧ key.publicKey = publicKey ∧ line = key.render

theorem ownLines_install {text : String} {key : AuthorizedKey} (h : key.Plain) :
    ownLines ((install text key).getD text) =
      (keptLines key (readLines text)).filter (fun line => commentOf line ≠ none) ++
        [key.render] := by
  have hown : [key.render].filter (fun line => commentOf line ≠ none) = [key.render] := by
    simp [commentOf_render h]
  rw [ownLines, readLines_install (oneLine_render h), List.filter_append, hown]

/-- Step lemma: whatever line of the service was there, the new one is alone. -/
theorem ownLines_afterInstall {text : String} {key : AuthorizedKey}
    (hkey : TypeAndBlob publicKey kind blob) (hpublic : key.publicKey = publicKey)
    (h : key.Plain) (hinstalled : Installed publicKey text) :
    ownLines ((install text key).getD text) = [key.render] := by
  have hnone : (keptLines key (readLines text)).filter (fun line => commentOf line ≠ none) =
      [] := by
    rw [List.filter_eq_nil_iff]
    intro line hline hown
    obtain ⟨hmem, hkept⟩ := List.mem_filter.mp hline
    obtain ⟨other, hplain, hother, rfl⟩ := hinstalled line (List.mem_filter.mpr ⟨hmem, hown⟩)
    have hblob : keyBlobOf other.render = some key.publicKey := by
      rw [keyBlobOf_render (hother ▸ hkey) hplain, hother, hpublic]
    rw [commentOf_render hplain] at hkept
    exact (of_decide_eq_true hkept).2 hblob
  rw [ownLines_install h, hnone]
  rfl

theorem installed_of_ownLines {text : String} {key : AuthorizedKey}
    (hpublic : key.publicKey = publicKey) (h : key.Plain)
    (hown : ownLines text = [key.render]) : Installed publicKey text := by
  intro line hline
  rw [hown] at hline
  exact ⟨key, h, hpublic, List.mem_singleton.mp hline⟩

/-- A line that `install` has just written is not one it keeps. -/
theorem keptLines_render {key : AuthorizedKey} (h : key.Plain) :
    keptLines key [key.render] = [] := by
  rw [keptLines, List.filter_eq_nil_iff]
  intro line hline hkept
  rw [List.mem_singleton.mp hline, commentOf_render h] at hkept
  exact (of_decide_eq_true hkept).1 rfl

/-- Installing a key again leaves the file alone. -/
theorem install_install {text : String} {key : AuthorizedKey} (h : key.Plain) :
    install ((install text key).getD text) key = none := by
  have hkept : keptLines key (keptLines key (readLines text) ++ [key.render]) =
      keptLines key (readLines text) := by
    have hnew := keptLines_render h
    unfold keptLines at hnew ⊢
    rw [List.filter_append, hnew, List.append_nil, List.filter_filter]
    simp
  rw [install, rewrite, readLines_install (oneLine_render h), hkept]
  exact if_pos rfl

/-! ## A sequence of starts -/

theorem afterStart_eq (fingerprint : Fingerprint) (keyFile text : String) (start : Start) :
    afterStart fingerprint keyFile text start =
      (install text (start.key (publicKeyOf keyFile))).getD text := by
  simp only [afterStart, ensureSelfTrust, Start.key]

/-- Run lemma: own lines are always ones that the service installed with its key. -/
theorem installed_afterStarts {fingerprint : Fingerprint} {keyFile : String}
    (hkey : TypeAndBlob (publicKeyOf keyFile) kind blob) {starts : List Start}
    (hstarts : ∀ start ∈ starts, start.Plain) :
    ∀ {text}, Installed (publicKeyOf keyFile) text →
      Installed (publicKeyOf keyFile) (afterStarts fingerprint keyFile text starts) := by
  induction starts with
  | nil => exact fun h => h
  | cons start rest ih =>
      intro text hinstalled
      have hplain := plain_key hkey (hstarts start List.mem_cons_self)
      have hown := ownLines_afterInstall hkey (publicKey_key start _) hplain hinstalled
      apply ih (fun s hs => hstarts s (List.mem_cons_of_mem _ hs))
      rw [afterStart_eq]
      exact installed_of_ownLines (publicKey_key start _) hplain hown

/-- **The self trust converges.**  After any starts the file has one line of the
service, the last start's; another start like it does not write. -/
theorem self_trust_converges (fingerprint : Fingerprint) (keyFile text kind blob : String)
    (hkey : TypeAndBlob (publicKeyOf keyFile) kind blob) (hforeign : ownLines text = [])
    (starts : List Start) (last : Start) (hstarts : ∀ start ∈ starts ++ [last], start.Plain) :
    let after := afterStarts fingerprint keyFile text (starts ++ [last])
    ownLines after = [(selfKey (kind ++ " " ++ blob) last.hostname last.addresses).render] ∧
      ∀ addresses, (∀ a, a ≠ "" → (a ∈ addresses ↔ a ∈ last.addresses)) →
        ensureSelfTrust fingerprint keyFile after last.hostname addresses =
          (none, (fingerprint (kind ++ " " ++ blob)).map fun print =>
            ({ comment := selfComment last.hostname
               peer := last.hostname
               kind := "self"
               fingerprint := print
               fromAddresses := restrictionAddresses last.addresses
               installed := true }, false)) := by
  intro after
  have hplain := plain_key hkey (hstarts last (List.mem_append_right _ List.mem_cons_self))
  have hbefore : Installed (publicKeyOf keyFile) (afterStarts fingerprint keyFile text starts) := by
    refine installed_afterStarts hkey (fun s hs => hstarts s (List.mem_append_left _ hs)) ?_
    intro line hline
    rw [hforeign] at hline
    cases hline
  have hafter : after =
      (install (afterStarts fingerprint keyFile text starts)
        (last.key (publicKeyOf keyFile))).getD (afterStarts fingerprint keyFile text starts) := by
    simp only [after, afterStarts, List.foldl_append, List.foldl_cons, List.foldl_nil,
      afterStart_eq]
  constructor
  · have hown := ownLines_afterInstall hkey (publicKey_key last _) hplain hbefore
    rw [hafter, hown, Start.key, hkey.eq]
  · intro addresses hsame
    have hsameKey : selfKey (publicKeyOf keyFile) last.hostname addresses =
        last.key (publicKeyOf keyFile) := by
      rw [Start.key, selfKey, selfKey, restrictionAddresses_congr hsame]
    have hunchanged : install after (last.key (publicKeyOf keyFile)) = none := by
      rw [hafter]
      exact install_install hplain
    rw [ensureSelfTrust, hsameKey, hunchanged, hkey.eq]
    rfl

/-- A node that was renamed, and its address moved, between two starts. -/
theorem self_trust_converges_renamed :
    let starts : List Start := [⟨"node1", ["192.168.200.121"]⟩]
    let last : Start := ⟨"node2", ["192.168.200.130", ""]⟩
    let after := afterStarts (fun _ => some "SHA256:x") "ssh-ed25519 AAAA\n" siteText
      (starts ++ [last])
    ownLines after = [(selfKey "ssh-ed25519 AAAA" last.hostname last.addresses).render] ∧
      ∀ addresses, (∀ a, a ≠ "" → (a ∈ addresses ↔ a ∈ last.addresses)) →
        ensureSelfTrust (fun _ => some "SHA256:x") "ssh-ed25519 AAAA\n" after last.hostname
            addresses =
          (none, some ({ comment := selfComment last.hostname
                         peer := last.hostname
                         kind := "self"
                         fingerprint := "SHA256:x"
                         fromAddresses := restrictionAddresses last.addresses
                         installed := true }, false)) := by
  refine self_trust_converges _ _ siteText "ssh-ed25519" "AAAA"
    ⟨by decide +kernel, by decide, by decide⟩ (by decide +kernel) _ _ fun start hstart => ?_
  rcases List.mem_cons.mp hstart with rfl | hstart
  · exact ⟨by decide, by decide⟩
  · obtain rfl := List.mem_singleton.mp hstart
    exact ⟨by decide, by decide⟩

end SeapathWebui.Trust
