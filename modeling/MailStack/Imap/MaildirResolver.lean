import MailStack.Core.Passwd

/-! The Maildir of a login, by the part of it before the at sign. -/

namespace MailStack.Imap

open Lib Core

/-- What there is in the file system: the directories, and the Maildirs that can be opened. -/
structure FileSystem where
  isDir : String → Bool
  opens : String → Bool

def accountName (login : String) : String :=
  let login := toAsciiLowercase (trim login)
  match splitOnce '@' login with
  | some (localPart, _) => localPart
  | none => login

/-- The name, in small letters, and the home of a line. -/
def homeEntry (fields : List String) : Option (String × String) :=
  if skipped fields then none
  else
    match fields with
    | [name, _, _, _, _, home, _] => some (toAsciiLowercase name, home)
    | _ => none

def homes (passwd : Passwd) : List (String × String) := passwd.filterMap homeEntry

def homeOf (passwd : Passwd) (account : String) : Option String :=
  ((homes passwd).find? (·.1 = account)).map (·.2)

/-- The root of the store that a login opens. -/
def resolveMaildir (fs : FileSystem) (maildirName : String) (passwd : Passwd) (user : String) :
    Option String := do
  let account := accountName user
  if account.isEmpty then none
  else
    let home ← homeOf passwd account
    if !fs.isDir home then none
    else
      let root := joinPath home maildirName
      if fs.opens root then some root else none

def route (fs : FileSystem) (maildirName : String) (passwd : Passwd) (recipient : String) :
    Option String :=
  resolveMaildir fs maildirName passwd recipient

theorem accountName_eq {login localPart domain : String}
    (normal : toAsciiLowercase (trim login) = login)
    (parts : splitOnce '@' login = some (localPart, domain)) : accountName login = localPart := by
  unfold accountName
  simp only [normal, parts]

theorem homeEntry_eq_some {fields : List String} {name home : String}
    (h : homeEntry fields = some (name, home)) :
    (fields.head?.map toAsciiLowercase) = some name ∧ fields[5]? = some home := by
  unfold homeEntry at h
  split at h
  · cases h
  · split at h
    · cases h
      exact ⟨rfl, rfl⟩
    · cases h

end MailStack.Imap
