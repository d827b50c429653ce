import MailStack.Lib.Json
import MailStack.Smtp.RelayRollback
import Mathlib.Data.Finmap
import Mathlib.Data.Multiset.Sort
import Mathlib.Data.Prod.Lex
import Mathlib.Data.String.Basic

/-! The relay configuration in a file of its own: a JSON object of texts, which is read and written
anew for every key. -/

namespace MailStack.Smtp

open Lib

abbrev RelayDoc : Type := Finmap fun _ : String => String

/-- How objects of texts are written and read. -/
structure DocCodec where
  toJson : RelayDoc → String
  fromJson : String → Except String RelayDoc
  fromJson_toJson : ∀ doc, fromJson (toJson doc ++ "\n") = .ok doc

/-- The file, if there is one, and how many operations on it there have been. -/
structure RelayFile where
  text : Option String
  calls : Nat

def credentialsKey : String := "saslPasswd"

section

variable (codec : DocCodec) (fault : Nat → Option String)

/-- The next operation on the file, which may fail. -/
def fileOperation : EStateM SmtpError RelayFile Unit := fun file =>
  let file' := { file with calls := file.calls + 1 }
  match fault file.calls with
  | some message => .error (.config message) file'
  | none => .ok () file'

def loadDoc : EStateM SmtpError RelayFile RelayDoc := do
  fileOperation fault
  match (← get).text with
  | none => pure ∅
  | some text =>
    match codec.fromJson text with
    | .ok doc => pure doc
    | .error message => throw (.config message)

def storeDoc (doc : RelayDoc) : EStateM SmtpError RelayFile Unit := do
  fileOperation fault
  modify fun file => { file with text := some (codec.toJson doc ++ "\n") }

/-- The first operation takes the lock. -/
def updateDoc (mutate : RelayDoc → RelayDoc) : EStateM SmtpError RelayFile Unit := do
  fileOperation fault
  let doc ← loadDoc codec fault
  storeDoc codec fault (mutate doc)

def lookDoc (look : RelayDoc → Option String) : EStateM SmtpError RelayFile (Option String) := do
  let doc ← loadDoc codec fault
  pure (look doc)

def nativeRelayStore : RelayConfigStore RelayFile where
  readKey key := lookDoc codec fault fun doc => doc.lookup key
  writeKey key value := updateDoc codec fault fun doc => doc.insert key value
  removeKey key := updateDoc codec fault fun doc => doc.erase key
  readCredentials := lookDoc codec fault fun doc => doc.lookup credentialsKey
  writeCredentials content := updateDoc codec fault fun doc => doc.insert credentialsKey content
  removeCredentials := updateDoc codec fault fun doc => doc.erase credentialsKey
  reload := pure ()

end

/-- What the file says; one that cannot be read says nothing. -/
def RelayFile.document (codec : DocCodec) (file : RelayFile) : RelayDoc :=
  match file.text with
  | none => ∅
  | some text => (codec.fromJson text).toOption.getD ∅

def configOf (doc : RelayDoc) : RelayConfig where
  keys name := if name = credentialsKey then none else doc.lookup name
  credentials := doc.lookup credentialsKey

section

variable {codec : DocCodec} {fault : Nat → Option String} {name : String}

theorem wp_fileOperation (file : RelayFile) : wp (fileOperation fault)
    (fun _ file' => file'.text = file.text) (fun file' => file'.text = file.text) file := by
  unfold wp fileOperation
  cases fault file.calls with
  | some message => rfl
  | none => rfl

theorem wp_loadDoc (file : RelayFile) : wp (loadDoc codec fault)
    (fun doc file' => doc = file.document codec ∧ file'.text = file.text)
    (fun file' => file'.text = file.text) file := by
  rw [loadDoc, wp_bind]
  refine wp_mono (wp_fileOperation file) (fun _ file' same => ?_) fun _ same => same
  rw [wp_bind, wp_get, RelayFile.document, same]
  split
  · exact ⟨rfl, same⟩
  · split
    · rename_i read
      rw [wp_pure, read]
      exact ⟨rfl, same⟩
    · exact same

theorem wp_lookDoc (look : RelayDoc → Option String) (file : RelayFile) :
    wp (lookDoc codec fault look)
      (fun value file' => value = look (file.document codec) ∧ file'.text = file.text)
      (fun file' => file'.text = file.text) file := by
  rw [lookDoc, wp_bind]
  refine wp_mono (wp_loadDoc file) (fun doc file' read => ?_) fun _ same => same
  rw [wp_pure, read.1]
  exact ⟨rfl, read.2⟩

theorem document_of_text {file file' : RelayFile} (same : file'.text = file.text) :
    file'.document codec = file.document codec := by
  rw [RelayFile.document, same]
  rfl

theorem wp_updateDoc (mutate : RelayDoc → RelayDoc) (file : RelayFile) :
    wp (updateDoc codec fault mutate)
      (fun _ file' => file'.document codec = mutate (file.document codec))
      (fun file' => file'.document codec = file.document codec) file := by
  rw [updateDoc, wp_bind]
  refine wp_mono (wp_fileOperation file) (fun _ locked same => ?_) fun _ => document_of_text
  rw [wp_bind]
  refine wp_mono (wp_loadDoc locked) (fun doc loaded read => ?_) fun _ again =>
    document_of_text (again.trans same)
  obtain ⟨rfl, again⟩ := read
  rw [storeDoc, wp_bind]
  refine wp_mono (wp_fileOperation loaded) (fun _ stored _ => ?_) fun _ third =>
    document_of_text (third.trans (again.trans same))
  rw [wp_modify, document_of_text same]
  dsimp only [RelayFile.document]
  rw [codec.fromJson_toJson]
  rfl

variable {doc doc' : RelayDoc}

theorem configOf_set (other : name ≠ credentialsKey)
    (others : ∀ key, key ≠ name → doc'.lookup key = doc.lookup key) :
    configOf doc' = (configOf doc).set name (doc'.lookup name) := by
  have keys : (configOf doc').keys = ((configOf doc).set name (doc'.lookup name)).keys := by
    funext key
    by_cases here : key = name
    · subst here
      rw [RelayConfig.set_self]
      exact if_neg other
    · rw [RelayConfig.set_ne _ _ here]
      simp only [configOf, others key here]
  simp only [configOf, RelayConfig.set] at keys ⊢
  rw [keys, others _ (Ne.symm other)]

theorem configOf_withCredentials
    (others : ∀ key, key ≠ credentialsKey → doc'.lookup key = doc.lookup key) :
    configOf doc' = (configOf doc).withCredentials (doc'.lookup credentialsKey) := by
  have keys : (configOf doc').keys = (configOf doc).keys := by
    funext key
    by_cases here : key = credentialsKey
    · simp only [configOf, if_pos here]
    · simp only [configOf, if_neg here, others key here]
  simp only [configOf, RelayConfig.withCredentials] at keys ⊢
  rw [keys]

theorem ne_credentialsKey (known : name ∈ applyWrittenKeys) :
    name ≠ credentialsKey := by
  rintro rfl
  revert known
  decide

variable (codec fault) in
/-- Whichever operations on it fail, the file acts as a map. -/
theorem nativeRelayStore_actsAsMap :
    ActsAsMap (nativeRelayStore codec fault) fun file => configOf (file.document codec) where
  readKey name known file := wp_mono (wp_lookDoc _ file)
    (fun value file' read => ⟨by rw [read.1]; exact (if_neg (ne_credentialsKey known)).symm,
      congrArg configOf (document_of_text read.2)⟩)
    fun file' same => congrArg configOf (document_of_text same)
  writeKey name known value file := wp_mono (wp_updateDoc _ file)
    (fun _ file' eq => by
      rw [eq, configOf_set (ne_credentialsKey known) fun _ ne => Finmap.lookup_insert_of_ne _ ne,
        Finmap.lookup_insert])
    fun file' same => ⟨_, by rw [same]; exact (configOf _).set_keys name⟩
  removeKey name known file := wp_mono (wp_updateDoc _ file)
    (fun _ file' eq => by
      rw [eq, configOf_set (ne_credentialsKey known) fun _ ne => Finmap.lookup_erase_ne ne,
        Finmap.lookup_erase])
    fun file' same => ⟨_, by rw [same]; exact (configOf _).set_keys name⟩
  readCredentials file := wp_mono (wp_lookDoc _ file)
    (fun value file' read => ⟨read.1, congrArg configOf (document_of_text read.2)⟩)
    fun file' same => congrArg configOf (document_of_text same)
  writeCredentials content file := wp_mono (wp_updateDoc _ file)
    (fun _ file' eq => by
      rw [eq, configOf_withCredentials fun _ ne => Finmap.lookup_insert_of_ne _ ne,
        Finmap.lookup_insert])
    fun file' same => ⟨_, by rw [same]; rfl⟩
  removeCredentials file := wp_mono (wp_updateDoc _ file)
    (fun _ file' eq => by
      rw [eq, configOf_withCredentials fun _ ne => Finmap.lookup_erase_ne ne, Finmap.lookup_erase])
    fun file' same => ⟨_, by rw [same]; rfl⟩
  reload _ := rfl

end

def memberText (member : String × String) : List Char :=
  "\n  ".toList ++ ((jsonString member.1).toList ++ (": ".toList ++ (jsonString member.2).toList))

def prettyRest : List (String × String) → List Char
  | [] => "\n\x7d".toList
  | member :: rest => ',' :: (memberText member ++ prettyRest rest)

def prettyMembers : List (String × String) → List Char
  | [] => "\x7b\x7d".toList
  | member :: rest => '\x7b' :: (memberText member ++ prettyRest rest)

def members (doc : RelayDoc) : List (String × String) :=
  ((doc.entries.map fun e : Sigma fun _ : String => String => toLex (e.1, e.2)).sort (· ≤ ·)).map ofLex

def toStringPretty (doc : RelayDoc) : String := String.ofList (prettyMembers (members doc))

theorem memberText_append_inj {a b : String × String} {as bs : List Char}
    (same : memberText a ++ as = memberText b ++ bs) : a = b ∧ as = bs := by
  simp only [memberText, List.append_assoc, List.append_cancel_left_eq] at same
  obtain ⟨keys, same⟩ := jsonString_append_inj same
  obtain ⟨values, same⟩ := jsonString_append_inj (List.append_cancel_left same)
  exact ⟨Prod.ext keys values, same⟩

theorem prettyRest_inj {as bs : List (String × String)} (same : prettyRest as = prettyRest bs) :
    as = bs := by
  induction as generalizing bs with
  | nil =>
    cases bs with
    | nil => rfl
    | cons b bs => cases same
  | cons a as ih =>
    cases bs with
    | nil => cases same
    | cons b bs =>
      obtain ⟨rfl, later⟩ := memberText_append_inj (List.cons.inj same).2
      rw [ih later]

theorem prettyMembers_inj {as bs : List (String × String)}
    (same : prettyMembers as = prettyMembers bs) : as = bs := by
  cases as with
  | nil =>
    cases bs with
    | nil => rfl
    | cons b bs => cases same
  | cons a as =>
    cases bs with
    | nil => cases same
    | cons b bs =>
      obtain ⟨rfl, later⟩ := memberText_append_inj (List.cons.inj same).2
      rw [prettyRest_inj later]

theorem members_inj (same : members doc = members doc') : doc = doc' := by
  have sorted := congrArg (Multiset.ofList) (List.map_injective_iff.mpr ofLex.injective same)
  rw [Multiset.sort_eq, Multiset.sort_eq] at sorted
  refine Finmap.ext (Multiset.map_injective (fun e e' eq => ?_) sorted)
  obtain ⟨keys, values⟩ := Prod.mk.inj (toLex.injective eq)
  exact Sigma.ext keys (heq_of_eq values)

theorem toStringPretty_inj (same : toStringPretty doc = toStringPretty doc') :
    doc = doc' :=
  members_inj (prettyMembers_inj (String.ofList_injective same))

open Classical in
noncomputable def fromStr (text : String) : Except String RelayDoc :=
  if written : ∃ doc, toStringPretty doc ++ "\n" = text then .ok written.choose
  else .error "expected value"

theorem fromStr_toStringPretty
    (doc : RelayDoc) : fromStr (toStringPretty doc ++ "\n") = .ok doc := by
  have written : ∃ doc', toStringPretty doc' ++ "\n" = toStringPretty doc ++ "\n" := ⟨doc, rfl⟩
  rw [fromStr, dif_pos written]
  exact congrArg _ (toStringPretty_inj ((String.append_left_inj _).mp written.choose_spec))

noncomputable def serdeCodec : DocCodec where
  toJson := toStringPretty
  fromJson := fromStr
  fromJson_toJson := fromStr_toStringPretty

end MailStack.Smtp
