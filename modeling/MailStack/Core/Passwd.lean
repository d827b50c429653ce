import MailStack.Lib.Text
import MailStack.Lib.Word

/-! The lines of the passwd file. -/

namespace MailStack.Core

open Lib

/-- The lines of the passwd file, trimmed and each split at its colons. -/
abbrev Passwd := List (List String)

def skipped (fields : List String) : Bool :=
  fields = [""] || fields.head?.any fun name => name.toList.head? = some '#'

structure PasswdEntry where
  name : String
  uid : Nat
  gid : Nat
  home : String

/-- The entry of a line that has seven fields. -/
def passwdEntry (fields : List String) : Option PasswdEntry :=
  if skipped fields then none
  else
    match fields with
    | [name, _, uid, gid, _, home, _] => do
      let uid ← parseUnsigned u32Max uid
      let gid ← parseUnsigned u32Max gid
      some { name, uid, gid, home }
    | _ => none

def parsePasswd (passwd : Passwd) : List PasswdEntry := passwd.filterMap passwdEntry

def taken (passwd : Passwd) (user : String) : Bool := passwd.any (·.head? = some user)

def joinPath (dir name : String) : String :=
  if dir.toList.getLast? = some '/' then dir ++ name else dir ++ "/" ++ name

end MailStack.Core
