import MailStack.Lib.HeaderFields
import MailStack.Lib.StructuredField
import MailStack.Smtpd.Command

/-! The header field that reports the results of the sender checks, and when a reader finds these
results in it and no others. -/

namespace MailStack.Smtpd

open Lib

inductive SpfStatus
  | pass
  | fail
  | softFail
  | neutral
  | tempError
  | permError
  | none

inductive DkimStatus
  | pass
  | fail (reason : String)
  | permissionError (reason : String)
  | temporaryError (reason : String)
  | neutral (reason : String)
  | none
deriving DecidableEq

inductive DmarcStatus
  | pass
  | fail (reason : String)
  | temporaryError (reason : String)
  | permissionError (reason : String)
  | none

inductive ArcStatus
  | pass
  | fail (reason : String)
  | temporaryError (reason : String)
  | permissionError (reason : String)
  | none

def SpfStatus.keyword : SpfStatus → String
  | pass => "pass"
  | fail => "fail"
  | softFail => "softfail"
  | neutral => "neutral"
  | tempError => "temperror"
  | permError => "permerror"
  | none => "none"

def DkimStatus.keyword : DkimStatus → String
  | pass => "pass"
  | fail _ => "fail"
  | permissionError _ => "permerror"
  | temporaryError _ => "temperror"
  | neutral _ => "neutral"
  | none => "none"

def DmarcStatus.keyword : DmarcStatus → String
  | pass => "pass"
  | fail _ => "fail"
  | temporaryError _ => "temperror"
  | permissionError _ => "permerror"
  | none => "none"

def ArcStatus.keyword : ArcStatus → String
  | pass => "pass"
  | fail _ => "fail"
  | temporaryError _ => "temperror"
  | permissionError _ => "permerror"
  | none => "none"

structure DkimVerdict where
  domain : String
  selector : String
  status : DkimStatus

structure ArcVerdict where
  status : ArcStatus
  sets : Nat

structure DmarcCheck where
  status : DmarcStatus
  domain : String
  policy : String
  spf : SpfStatus
  dkim : List DkimVerdict

namespace AuthResults

def dmarcPolicy (policy : String) : Option String :=
  if policy = "none" ∨ policy = "quarantine" ∨ policy = "reject" then some policy else none

def sanitize (value : String) : String :=
  String.ofList (value.toList.map fun c => if isControl c then ' ' else c)

def mustQuote (c : Char) : Bool := c = ';' || c = '"' || c = '\\'

def quotedValue (value : String) : String :=
  let sanitized := sanitize value
  if !sanitized.toList.any mustQuote then sanitized
  else "\"" ++ String.ofList (Mode.escape sanitized.toList) ++ "\""

def property (name value : String) : String :=
  if value.isEmpty then "" else " " ++ name ++ "=" ++ quotedValue value

def spfMethod (mailFrom : String) (check : DmarcCheck) : String :=
  "spf=" ++ check.spf.keyword ++ property "smtp.mailfrom" mailFrom

def dkimMethod (verdict : DkimVerdict) : String :=
  "dkim=" ++ verdict.status.keyword ++ property "header.d" verdict.domain

def dmarcMethod (check : DmarcCheck) : String :=
  "dmarc=" ++ check.status.keyword ++ property "header.from" check.domain ++
    match dmarcPolicy check.policy with
    | some policy => " policy=" ++ policy
    | none => ""

def arcMethod (arc : ArcVerdict) : String := "arc=" ++ arc.status.keyword

def methods (mailFrom : String) (check : DmarcCheck) (arc : Option ArcVerdict) : List String :=
  [spfMethod mailFrom check] ++
    (check.dkim.filter fun verdict => verdict.status ≠ .none).map dkimMethod ++
    [dmarcMethod check] ++ (arc.map arcMethod).toList

def render (hostname mailFrom : String) (check : DmarcCheck) (arc : Option ArcVerdict) : String :=
  "Authentication-Results: " ++ sanitize hostname ++
    String.join ((methods mailFrom check arc).map fun method => ";\r\n\t" ++ method) ++ "\r\n"

/-- The name of the server, which is a token. -/
structure AuthservId where
  text : String
  token : ∀ c ∈ text.toList, Mode.isOrdinary c = true ∧ isControl c = false

def fieldBody (field : String) : List Char :=
  ((field.toList.dropWhile (· ≠ ':')).drop 1).dropLast.dropLast

/-- The methods with the results that were given for them. -/
def reported (check : DmarcCheck) (arc : Option ArcVerdict) : List (String × String) :=
  [("spf", check.spf.keyword)] ++
    (check.dkim.filter fun verdict => verdict.status ≠ .none).map
      (fun verdict => ("dkim", verdict.status.keyword)) ++
    [("dmarc", check.status.keyword)] ++ (arc.map fun arc => ("arc", arc.status.keyword)).toList

/-- After white space, the section starts with the method and the result. -/
def Reports (section_ : List Char) (result : String × String) : Prop :=
  ∃ rest, section_ = "\r\n\t".toList ++ (result.1 ++ "=" ++ result.2).toList ++ rest ∧
    (rest = [] ∨ rest.head? = some ' ')

/-- The field is a single one, and its sections are the name of the server and one for each method
that was reported, as it was written. -/
def Unforged (host : AuthservId) (mailFrom : String) (check : DmarcCheck)
    (arc : Option ArcVerdict) :
    Prop :=
  (∃ text, (render host.text mailFrom check arc).toList = text ++ ['\r', '\n'] ∧ IsField text) ∧
    ∃ sections, Mode.sections .plain (fieldBody (render host.text mailFrom check arc)) =
        some ((' ' :: host.text.toList) :: sections) ∧
      sections = (methods mailFrom check arc).map (fun method => "\r\n\t".toList ++ method.toList) ∧
      List.Forall₂ Reports sections (reported check arc)

def values (mailFrom : String) (check : DmarcCheck) : List String :=
  mailFrom :: (check.dkim.filter fun verdict => verdict.status ≠ .none).map (·.domain) ++
    [check.domain]

/-- The value is one that is quoted, or its parentheses are balanced. -/
def Contained (value : String) : Prop :=
  value.toList.any mustQuote = true ∨ Mode.balanced 0 value.toList = true

instance (value : String) : Decidable (Contained value) :=
  inferInstanceAs (Decidable (value.toList.any mustQuote = true ∨
    Mode.balanced 0 value.toList = true))

end AuthResults

end MailStack.Smtpd

/-! When a reader finds in the field the results that were put there. -/

namespace MailStack.Smtpd.AuthResults

open Lib Mode

variable {value name mailFrom : String} {check : DmarcCheck} {arc : Option ArcVerdict}

theorem of_isControl {c : Char} (control : isControl c = true) :
    c ≠ ';' ∧ c ≠ '"' ∧ c ≠ '\\' ∧ c ≠ '(' ∧ c ≠ ')' := by
  refine ⟨?_, ?_, ?_, ?_, ?_⟩ <;>
  · rintro rfl
    exact absurd control (by decide)

theorem sanitize_toList :
    (sanitize value).toList = value.toList.map fun c => if isControl c then ' ' else c :=
  String.toList_ofList

theorem any_mustQuote_sanitize :
    (sanitize value).toList.any mustQuote = value.toList.any mustQuote := by
  rw [sanitize_toList, List.any_map]
  congr 1
  funext c
  rw [Function.comp_apply]
  split
  next control =>
    obtain ⟨semicolon, quote, backslash, -, -⟩ := of_isControl control
    simp [mustQuote, semicolon, quote, backslash]
  · rfl

theorem balanced_sanitize (depth : Nat) (text : List Char) :
    balanced depth (text.map fun c => if isControl c then ' ' else c) = balanced depth text := by
  induction text generalizing depth with
  | nil => rfl
  | cons c text ih =>
    rw [List.map_cons, balanced, balanced]
    split
    next control =>
      obtain ⟨-, -, -, opens, closes⟩ := of_isControl control
      rw [if_neg (by decide), if_neg (by decide), if_neg opens, if_neg closes, ih]
    · rw [ih, ih, ih]

theorem advance_quotedValue :
    advance plain (quotedValue value).toList = some plain ↔ Contained value := by
  have quoted : (sanitize value).toList.any mustQuote = value.toList.any mustQuote :=
    any_mustQuote_sanitize
  unfold quotedValue Contained
  dsimp only
  rw [quoted]
  cases special : value.toList.any mustQuote with
  | true =>
    have text : ("\"" ++ String.ofList (escape (sanitize value).toList) ++ "\"").toList =
        '"' :: escape (sanitize value).toList ++ ['"'] := by
      simp
    rw [Bool.not_true, if_neg Bool.false_ne_true, text]
    exact iff_of_true advance_quote (Or.inl rfl)
  | false =>
    have unquoted : ∀ c ∈ (sanitize value).toList, c ≠ ';' ∧ c ≠ '"' ∧ c ≠ '\\' := by
      rw [special] at quoted
      intro c mem
      have plain_ := List.any_eq_false.mp quoted c mem
      simpa [mustQuote, and_assoc] using plain_
    rw [Bool.not_false, if_pos rfl]
    refine (advance_opened_iff unquoted : advance (opened 0) _ = some plain ↔ _).trans ?_
    rw [sanitize_toList, balanced_sanitize]
    simp

theorem advance_property (ordinary : ∀ c ∈ name.toList, isOrdinary c = true) :
    advance plain (property name value).toList = some plain ↔ Contained value := by
  unfold property
  split
  next empty =>
    obtain rfl : value = "" := String.isEmpty_iff.mp empty
    exact iff_of_true rfl (by decide)
  next =>
    have text : (" " ++ name ++ "=" ++ quotedValue value).toList =
        (' ' :: name.toList ++ ['=']) ++ (quotedValue value).toList ++ [] := by
      simp
    rw [text, advance_between _ (List.forall_mem_nil _), advance_quotedValue]
    intro c mem
    rcases List.mem_append.mp mem with mem | mem
    · rcases List.mem_cons.mp mem with rfl | mem
      · decide
      · exact ordinary c mem
    · obtain rfl := List.mem_singleton.mp mem
      decide

theorem quotedValue_lineFeed : '\n' ∉ (quotedValue value).toList := by
  have sanitized : '\n' ∉ (sanitize value).toList := by
    rw [sanitize_toList, List.mem_map]
    rintro ⟨c, -, eq⟩
    split at eq
    · cases eq
    next other =>
      subst eq
      exact other (by decide)
  unfold quotedValue
  dsimp only
  split
  · exact sanitized
  next =>
    simp only [String.toList_append, String.toList_ofList, List.mem_append]
    rintro ((opens | mem) | closes)
    · exact absurd opens (by decide)
    · obtain ⟨c, memC, mem⟩ := List.mem_flatMap.mp mem
      split at mem
      · rcases List.mem_pair.mp mem with eq | eq
        · cases eq
        · exact sanitized (eq ▸ memC)
      · exact sanitized (List.mem_singleton.mp mem ▸ memC)
    · exact absurd closes (by decide)

theorem property_lineFeed (none : '\n' ∉ name.toList) : '\n' ∉ (property name value).toList := by
  unfold property
  split
  · decide
  next =>
    simp only [String.toList_append, List.mem_append]
    rintro (((blank | mem) | equals) | mem)
    · exact absurd blank (by decide)
    · exact none mem
    · exact absurd equals (by decide)
    · exact quotedValue_lineFeed mem

theorem property_head (name value : String) : (property name value).toList = [] ∨
    (property name value).toList.head? = some ' ' := by
  unfold property
  split
  · exact Or.inl rfl
  · right
    simp

/-- The parts of the text of a method. Only the value is not fixed by the server. -/
structure MethodText where
  method : String
  result : String
  name : String
  value : String
  policy : String

namespace MethodText

def text (m : MethodText) : String :=
  m.method ++ "=" ++ m.result ++ property m.name m.value ++ m.policy

def isClean (text : String) : Bool := text.toList.all fun c => isOrdinary c && c ≠ '\n'

theorem isClean_iff {text : String} :
    isClean text = true ↔ ∀ c ∈ text.toList, isOrdinary c = true ∧ c ≠ '\n' := by
  simp [isClean]

structure Clean (m : MethodText) : Prop where
  method : isClean m.method = true
  result : isClean m.result = true
  name : isClean m.name = true
  policy : isClean m.policy = true
  after : m.policy.toList = [] ∨ m.policy.toList.head? = some ' '

def section_ (m : MethodText) : List Char := "\r\n\t".toList ++ m.text.toList

variable {m : MethodText}

theorem lead_clean (clean : m.Clean) :
    ∀ c ∈ m.method.toList ++ '=' :: m.result.toList, isOrdinary c = true ∧ c ≠ '\n' := by
  intro c mem
  rcases List.mem_append.mp mem with mem | mem
  · exact isClean_iff.mp clean.method c mem
  · rcases List.mem_cons.mp mem with rfl | mem
    · decide
    · exact isClean_iff.mp clean.result c mem

theorem section_eq :
    m.section_ = ("\r\n\t".toList ++ (m.method.toList ++ '=' :: m.result.toList)) ++
    (property m.name m.value).toList ++ m.policy.toList := by
  simp [section_, text]

theorem advance_section (clean : m.Clean) :
    advance plain m.section_ = some plain ↔ Contained m.value := by
  have before : ∀ c ∈ "\r\n\t".toList ++ (m.method.toList ++ '=' :: m.result.toList),
      isOrdinary c = true := by
    intro c mem
    rcases List.mem_append.mp mem with fold | mem
    · exact List.all_eq_true.mp (by decide : "\r\n\t".toList.all isOrdinary = true) c fold
    · exact (lead_clean clean c mem).1
  have after : ∀ c ∈ m.policy.toList, isOrdinary c = true :=
    fun c mem => (isClean_iff.mp clean.policy c mem).1
  rw [section_eq, advance_between before after]
  exact advance_property fun c mem => (isClean_iff.mp clean.name c mem).1

theorem lineFeed (clean : m.Clean) : '\n' ∉ m.text.toList := by
  have text : m.text.toList = (m.method.toList ++ '=' :: m.result.toList) ++
      (property m.name m.value).toList ++ m.policy.toList := by
    simp [MethodText.text]
  rw [text]
  intro mem
  rcases List.mem_append.mp mem with mem | mem
  · rcases List.mem_append.mp mem with mem | mem
    · exact (lead_clean clean _ mem).2 rfl
    · exact property_lineFeed (fun mem => (isClean_iff.mp clean.name _ mem).2 rfl) mem
  · exact (isClean_iff.mp clean.policy _ mem).2 rfl

theorem reports (clean : m.Clean) : Reports m.section_ (m.method, m.result) := by
  refine ⟨(property m.name m.value).toList ++ m.policy.toList, ?_, ?_⟩
  · rw [section_eq]
    simp
  · rcases property_head m.name m.value with none | some_
    · rw [none]
      exact clean.after
    · right
      rw [List.head?_append, some_]
      rfl

end MethodText

def policyText (policy : String) : String :=
  match dmarcPolicy policy with
  | some policy => " policy=" ++ policy
  | none => ""

def methodTexts (mailFrom : String) (check : DmarcCheck) (arc : Option ArcVerdict) :
    List MethodText :=
  [⟨"spf", check.spf.keyword, "smtp.mailfrom", mailFrom, ""⟩] ++
    (check.dkim.filter fun verdict => verdict.status ≠ .none).map
      (fun verdict => ⟨"dkim", verdict.status.keyword, "header.d", verdict.domain, ""⟩) ++
    [⟨"dmarc", check.status.keyword, "header.from", check.domain, policyText check.policy⟩] ++
    (arc.map fun arc => ⟨"arc", arc.status.keyword, "", "", ""⟩).toList

theorem methods_eq :
    methods mailFrom check arc = (methodTexts mailFrom check arc).map (·.text) := by
  have noProperty : property "" "" = "" := rfl
  have spf : spfMethod mailFrom check =
      MethodText.text ⟨"spf", check.spf.keyword, "smtp.mailfrom", mailFrom, ""⟩ := by
    apply String.toList_inj.mp
    simp [spfMethod, MethodText.text]
  have dkim : ∀ verdict : DkimVerdict, dkimMethod verdict =
      MethodText.text ⟨"dkim", verdict.status.keyword, "header.d", verdict.domain, ""⟩ := by
    intro verdict
    apply String.toList_inj.mp
    simp [dkimMethod, MethodText.text]
  have dmarc : dmarcMethod check = MethodText.text
      ⟨"dmarc", check.status.keyword, "header.from", check.domain, policyText check.policy⟩ := by
    apply String.toList_inj.mp
    simp only [dmarcMethod, MethodText.text, policyText, String.toList_append, List.append_assoc]
    rfl
  have arc_ : ∀ arc : ArcVerdict, arcMethod arc =
      MethodText.text ⟨"arc", arc.status.keyword, "", "", ""⟩ := by
    intro arc
    apply String.toList_inj.mp
    simp [arcMethod, MethodText.text, noProperty]
  have dkims : (dkimMethod : DkimVerdict → String) = fun verdict =>
      MethodText.text ⟨"dkim", verdict.status.keyword, "header.d", verdict.domain, ""⟩ :=
    funext dkim
  unfold methods methodTexts
  rw [spf, dkims, dmarc]
  cases arc with
  | none => simp [Function.comp_def]
  | some arc => simp [Function.comp_def, arc_]

theorem reported_eq (mailFrom : String) :
    reported check arc = (methodTexts mailFrom check arc).map fun m => (m.method, m.result) := by
  cases arc with
  | none => simp [reported, methodTexts, Function.comp_def]
  | some arc => simp [reported, methodTexts, Function.comp_def]

theorem policyText_clean (policy : String) :
    MethodText.isClean (policyText policy) = true ∧
      ((policyText policy).toList = [] ∨ (policyText policy).toList.head? = some ' ') := by
  unfold policyText dmarcPolicy
  split_ifs with known
  · rcases known with rfl | rfl | rfl <;> decide
  · decide

theorem keywords_clean : ∀ word ∈ ["pass", "fail", "softfail", "neutral", "temperror", "permerror",
    "none"], MethodText.isClean word = true := by
  decide

theorem SpfStatus.keyword_clean
    (status : SpfStatus) : MethodText.isClean status.keyword = true := by
  cases status <;> exact keywords_clean _ (by simp [SpfStatus.keyword])

theorem DkimStatus.keyword_clean (status : DkimStatus) :
    MethodText.isClean status.keyword = true := by
  cases status <;> exact keywords_clean _ (by simp [DkimStatus.keyword])

theorem DmarcStatus.keyword_clean (status : DmarcStatus) :
    MethodText.isClean status.keyword = true := by
  cases status <;> exact keywords_clean _ (by simp [DmarcStatus.keyword])

theorem ArcStatus.keyword_clean
    (status : ArcStatus) : MethodText.isClean status.keyword = true := by
  cases status <;> exact keywords_clean _ (by simp [ArcStatus.keyword])

theorem methodTexts_clean : ∀ m ∈ methodTexts mailFrom check arc, m.Clean := by
  have word : ∀ m ∈ methodTexts mailFrom check arc,
      m.method ∈ ["spf", "dkim", "dmarc", "arc"] ∧
        m.name ∈ ["smtp.mailfrom", "header.d", "header.from", ""] ∧
        MethodText.isClean m.result = true ∧
          (m.policy = "" ∨ m.policy = policyText check.policy) := by
    intro m mem
    rcases List.mem_append.mp mem with mem | mem
    · rcases List.mem_append.mp mem with mem | mem
      · rcases List.mem_append.mp mem with mem | mem
        · obtain rfl := List.mem_singleton.mp mem
          simp [SpfStatus.keyword_clean]
        · obtain ⟨verdict, -, rfl⟩ := List.mem_map.mp mem
          simp [DkimStatus.keyword_clean]
      · obtain rfl := List.mem_singleton.mp mem
        simp [DmarcStatus.keyword_clean]
    · obtain ⟨verdict, -, rfl⟩ := Option.map_eq_some_iff.mp (Option.mem_toList.mp mem)
      simp [ArcStatus.keyword_clean]
  intro m mem
  obtain ⟨method, name, result, policy⟩ := word m mem
  have fixed : MethodText.isClean m.policy = true ∧
      (m.policy.toList = [] ∨ m.policy.toList.head? = some ' ') := by
    rcases policy with empty | policy
    · rw [empty]
      decide
    · rw [policy]
      exact policyText_clean check.policy
  have methods_clean : ∀ word ∈ ["spf", "dkim", "dmarc", "arc"],
      MethodText.isClean word = true := by
    decide
  have names_clean : ∀ word ∈ ["smtp.mailfrom", "header.d", "header.from", ""],
      MethodText.isClean word = true := by
    decide
  exact ⟨methods_clean _ method, result, names_clean _ name, fixed.1, fixed.2⟩

theorem contained_values (arc : Option ArcVerdict) :
    (∀ value ∈ values mailFrom check, Contained value) ↔
      ∀ m ∈ methodTexts mailFrom check arc, Contained m.value := by
  have nothing : Contained "" := by decide
  unfold values methodTexts
  simp only [List.cons_append, List.nil_append, List.forall_mem_cons, List.forall_mem_append,
    List.forall_mem_map]
  cases arc with
  | none => simp
  | some arc => simp [nothing]

theorem sanitize_token (host : AuthservId) : sanitize host.text = host.text := by
  apply String.toList_inj.mp
  rw [sanitize_toList]
  refine (List.map_congr_left fun c mem => ?_).trans (List.map_id _)
  rw [if_neg (by simp [(host.token c mem).2])]
  rfl

def bodyOf (host : AuthservId) (mailFrom : String) (check : DmarcCheck) (arc : Option ArcVerdict) :
    List Char :=
  ' ' :: host.text.toList ++
    (methodTexts mailFrom check arc).flatMap fun m => ';' :: m.section_

theorem render_toList (host : AuthservId) : (render host.text mailFrom check arc).toList =
    "Authentication-Results:".toList ++ bodyOf host mailFrom check arc ++ ['\r', '\n'] := by
  have join (ms : List MethodText) :
      (String.join ((ms.map (·.text)).map fun method => ";\r\n\t" ++ method)).toList =
        ms.flatMap fun m => ';' :: m.section_ := by
    induction ms with
    | nil => rfl
    | cons m ms ih =>
      rw [List.map_cons, List.map_cons, String.join_cons, String.toList_append, ih,
        List.flatMap_cons, String.toList_append]
      rfl
  unfold render
  rw [sanitize_token, methods_eq]
  simp only [String.toList_append, join, bodyOf]
  simp

theorem body_eq (host : AuthservId) : bodyOf host mailFrom check arc = [';'].intercalate
    ((' ' :: host.text.toList) :: (methodTexts mailFrom check arc).map (·.section_)) := by
  have later (first : List Char) (ms : List MethodText) :
      first ++ (ms.flatMap fun m => ';' :: m.section_) =
        [';'].intercalate (first :: ms.map (·.section_)) := by
    induction ms generalizing first with
    | nil => simp
    | cons m ms ih =>
      rw [List.flatMap_cons, List.cons_append, ih, List.map_cons, List.intercalate_cons_cons]
      simp
  exact later _ _

theorem fieldBody_render (host : AuthservId) :
    fieldBody (render host.text mailFrom check arc) = bodyOf host mailFrom check arc := by
  have name : ∀ c ∈ "Authentication-Results".toList, decide (c ≠ ':') = true := by decide
  have split : "Authentication-Results:".toList ++ bodyOf host mailFrom check arc ++ ['\r', '\n'] =
      "Authentication-Results".toList ++
        ':' :: (bodyOf host mailFrom check arc ++ ['\r'] ++ ['\n']) := by
    simp
  rw [fieldBody, render_toList, split, List.dropWhile_append_of_pos name,
    List.dropWhile_cons_of_neg (by decide), List.drop_succ_cons, List.drop_zero,
    List.dropLast_concat, List.dropLast_concat]

theorem isField_render (host : AuthservId) :
    IsField ("Authentication-Results:".toList ++ bodyOf host mailFrom check arc) := by
  have folds (ms : List MethodText) (clean : ∀ m ∈ ms, m.Clean) :
      breaksFold (ms.flatMap fun m => ';' :: m.section_) = true := by
    induction ms with
    | nil => rfl
    | cons m ms ih =>
      have unbroken := MethodText.lineFeed (clean m List.mem_cons_self)
      have last : ('\t' :: m.text.toList).getLast? ≠ some '\n' := by
        intro ends
        rcases List.mem_cons.mp (List.mem_of_getLast? ends) with tab | mem
        · cases tab
        · exact unbroken mem
      have here : breaksFold ('\t' :: m.text.toList) = true :=
        breaksFold_of_not_mem fun mem => by
          rcases List.mem_cons.mp mem with tab | mem
          · cases tab
          · exact unbroken mem
      have step : breaksFold (';' :: m.section_ ++ ms.flatMap fun m => ';' :: m.section_) =
          breaksFold (('\t' :: m.text.toList) ++ ms.flatMap fun m => ';' :: m.section_) := rfl
      rw [List.flatMap_cons, step, breaksFold_append last, here,
        ih fun q mem => clean q (List.mem_cons_of_mem _ mem)]
      rfl
  have unbroken : '\n' ∉ "Authentication-Results:".toList ++ ' ' :: host.text.toList := by
    intro mem
    rcases List.mem_append.mp mem with mem | mem
    · exact absurd mem (by decide)
    · rcases List.mem_cons.mp mem with blank | mem
      · cases blank
      · exact absurd (host.token _ mem).2 (by decide)
  rw [isField_iff, bodyOf, ← List.append_assoc,
    breaksFold_append fun ends => unbroken (List.mem_of_getLast? ends),
    breaksFold_of_not_mem unbroken, folds _ methodTexts_clean]
  rfl

/-- The reader finds the results that were put there just when each value stays within its section.
-/
theorem unforged_iff (host : AuthservId) (mailFrom : String) (check : DmarcCheck)
    (arc : Option ArcVerdict) :
    Unforged host mailFrom check arc ↔ ∀ value ∈ values mailFrom check, Contained value := by
  have clean : ∀ m ∈ methodTexts mailFrom check arc, m.Clean := methodTexts_clean
  have hostRead : advance plain (' ' :: host.text.toList) = some plain :=
    advance_ordinary fun c mem => by
      rcases List.mem_cons.mp mem with rfl | mem
      · decide
      · exact (host.token c mem).1
  have read : sections plain (fieldBody (render host.text mailFrom check arc)) =
        some ((' ' :: host.text.toList) :: (methodTexts mailFrom check arc).map (·.section_)) ↔
      ∀ value ∈ values mailFrom check, Contained value := by
    rw [fieldBody_render, body_eq, sections_eq_parts_iff (List.cons_ne_nil _ _),
      List.forall_mem_cons, and_iff_right hostRead, List.forall_mem_map, contained_values arc]
    exact forall₂_congr fun m mem => MethodText.advance_section (clean m mem)
  have written : (methods mailFrom check arc).map (fun method => "\r\n\t".toList ++ method.toList) =
      (methodTexts mailFrom check arc).map (·.section_) := by
    rw [methods_eq, List.map_map]
    rfl
  have reports : List.Forall₂ Reports ((methodTexts mailFrom check arc).map (·.section_))
      (reported check arc) := by
    rw [reported_eq mailFrom, List.forall₂_map_left_iff, List.forall₂_map_right_iff,
      List.forall₂_same]
    exact fun m mem => MethodText.reports (clean m mem)
  rw [← read, Unforged, written]
  constructor
  · rintro ⟨-, sections, parsed, rfl, -⟩
    exact parsed
  · intro parsed
    exact ⟨⟨_, render_toList host, isField_render host⟩, _, parsed, rfl, reports⟩

/-- A parenthesis in the local part starts a comment that the sections after it are in. -/
theorem comment_hides_results :
    ¬∀ (host : AuthservId) (input mailFrom tail : String) (check : DmarcCheck)
      (arc : Option ArcVerdict), parsePath input true = .ok (mailFrom, tail) →
      ∃ authserv sections, Mode.sections .plain (fieldBody (render host.text mailFrom check arc)) =
        some (authserv :: sections) ∧ List.Forall₂ Reports sections (reported check arc) := by
  intro all
  obtain ⟨authserv, sections, parsed, -⟩ := all ⟨"mx", by decide⟩ "<a(b@evil.com>" "a(b@evil.com" ""
    ⟨.fail "", "example.com", "reject", .fail, []⟩ none (by decide +kernel)
  have none : Mode.sections .plain (fieldBody (render "mx" "a(b@evil.com"
      ⟨.fail "", "example.com", "reject", .fail, []⟩ none)) = none := by
    decide +kernel
  rw [none] at parsed
  cases parsed

end MailStack.Smtpd.AuthResults
