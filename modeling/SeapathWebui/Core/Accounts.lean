/-
  Core/Accounts.lean --- whose password it is, and what the account may do.

  Source: app/core/auth.py, with the settings that it reads.

  The service has no users of its own.  PAM checks a password, and the groups of the machine
  give the account its role: the highest of those whose group it is in (`roleFor_can_iff`).
-/
import SeapathWebui.Core.Sessions

set_option autoImplicit false

namespace SeapathWebui.Core

/-- What the databases of the machine answer at some time. -/
structure Accounts where
  /-- `self._factory().authenticate(...)` -/
  pam : String → String → Bool
  /-- `grp.getgrnam`: the members of a group and its number; `none` is the `KeyError` -/
  getgrnam : String → Option (List String × Nat)
  /-- `pwd.getpwnam`: the number of the account's own group -/
  getpwnam : String → Option Nat

/-- What `role_for` reads of the `Settings`. -/
structure GroupSettings where
  adminGroup : String := "seapath-admin"
  operatorGroup : String := "seapath-operator"
  viewerGroup : String := "seapath-viewer"
  allowRootLogin : Bool := true

/-- `PamAuthenticator.authenticate` -/
def authenticate (a : Accounts) (username password : String) : Bool :=
  if username = "" ∨ password = "" then false else a.pam username password

/-- `_is_member` -/
def isMember (a : Accounts) (username group : String) : Bool :=
  match a.getgrnam group with
  -- a machine that has never converged has no such group
  | none => false
  | some (members, gid) =>
      if username ∈ members then true
      else
        match a.getpwnam username with
        | none => false
        | some primary => primary = gid

/-- `UnixGroupDirectory.role_for` -/
def roleFor (settings : GroupSettings) (a : Accounts) (username : String) : Option Role :=
  if settings.allowRootLogin = true ∧ username = "root" then some .admin
  else if isMember a username settings.adminGroup then some .admin
  else if isMember a username settings.operatorGroup then some .operator
  else if isMember a username settings.viewerGroup then some .viewer
  else none

/-- The group that gives a role. -/
def GroupSettings.group (settings : GroupSettings) : Role → String
  | .admin => settings.adminGroup
  | .operator => settings.operatorGroup
  | .viewer => settings.viewerGroup

/-- The account has what the role takes: it is root, where root may log in, or in the group
of a role that is as high. -/
def Entitled (settings : GroupSettings) (a : Accounts) (username : String) (required : Role) :
    Prop :=
  (settings.allowRootLogin = true ∧ username = "root") ∨
    ∃ role, required.rank ≤ role.rank ∧ isMember a username (settings.group role) = true

/-- `role_for` gives a role that is enough exactly to the accounts that are entitled to it. -/
theorem roleFor_can_iff {settings : GroupSettings} {a : Accounts} {username : String}
    {required : Role} :
    (∃ role, roleFor settings a username = some role ∧ required.rank ≤ role.rank) ↔
      Entitled settings a username required := by
  have hadmin : required.rank ≤ Role.admin.rank := by cases required <;> decide
  constructor
  · rintro ⟨role, hrole, hrank⟩
    unfold roleFor at hrole
    split at hrole
    · rename_i hroot
      exact .inl hroot
    · refine .inr ⟨role, hrank, ?_⟩
      split at hrole
      · rename_i hmember
        cases hrole
        exact hmember
      · split at hrole
        · rename_i hmember
          cases hrole
          exact hmember
        · split at hrole
          · rename_i hmember
            cases hrole
            exact hmember
          · cases hrole
  · intro hentitled
    unfold roleFor
    split
    · exact ⟨.admin, rfl, hadmin⟩
    · rename_i hroot
      obtain ⟨role, hrank, hmember⟩ := hentitled.resolve_left hroot
      split
      · exact ⟨.admin, rfl, hadmin⟩
      · rename_i hnotAdmin
        cases role with
        | admin => exact (hnotAdmin hmember).elim
        | operator => exact ⟨.operator, if_pos hmember, hrank⟩
        | viewer =>
            split
            · exact ⟨.operator, rfl, hrank.trans (by decide)⟩
            · exact ⟨.viewer, if_pos hmember, hrank⟩

end SeapathWebui.Core
