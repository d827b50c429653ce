import MailStack.Lib.Checks
import MailStack.Lib.HeaderFields
import MailStack.Priv.Users
import MailStack.Webmail.Compose

/-! The header section of a composed message is split into the fields that are written, unless the
display name of the sender breaks its field. -/

namespace MailStack.Webmail

open Lib

def Unbroken (cs : List Char) : Prop := ∀ c ∈ cs, c ≠ '\n' ∧ c ≠ '\r'

instance (cs : List Char) : Decidable (Unbroken cs) :=
  inferInstanceAs (Decidable (∀ c ∈ cs, c ≠ '\n' ∧ c ≠ '\r'))

namespace Unbroken

variable {cs ds : List Char} {email : String}

theorem append (h : Unbroken cs) (h' : Unbroken ds) : Unbroken (cs ++ ds) := fun c mem =>
  (List.mem_append.mp mem).elim (h c) (h' c)

theorem breaksFold (h : Unbroken cs) : breaksFold cs = true :=
  breaksFold_of_not_mem fun mem => (h _ mem).1 rfl

theorem last_ne (h : Unbroken cs) : cs.getLast? ≠ some '\n' ∧ cs.getLast? ≠ some '\r' :=
  ⟨fun last => (h _ (List.mem_of_getLast? last)).1 rfl,
    fun last => (h _ (List.mem_of_getLast? last)).2 rfl⟩

theorem of_isControl (h : ∀ c ∈ cs, isControl c = false) : Unbroken cs := by
  intro c mem
  have plain := h c mem
  constructor
  all_goals
    rintro rfl
    cases plain

theorem of_isAlphanum (h : ∀ c ∈ cs, c.isAlphanum = true) : Unbroken cs := by
  intro c mem
  have alphanumeric := h c mem
  constructor
  all_goals
    rintro rfl
    cases alphanumeric

theorem intercalate {sep : String} {parts : List String} (between : Unbroken sep.toList)
    (h : ∀ part ∈ parts, Unbroken part.toList) : Unbroken (sep.intercalate parts).toList := by
  induction parts with
  | nil => exact fun c mem => absurd mem (by simp)
  | cons part parts ih =>
    have ih := ih fun p mem => h p (List.mem_cons_of_mem _ mem)
    have here := h part List.mem_cons_self
    cases parts with
    | nil => simpa using here
    | cons next parts =>
      rw [String.intercalate_cons_cons, String.toList_append, String.toList_append]
      exact (here.append between).append ih

theorem padded (width n : Nat) : Unbroken (padded width n).toList := by
  rw [Webmail.padded, String.toList_append, String.toList_ofList]
  refine append (of_isAlphanum fun c mem => ?_) (of_isAlphanum fun c mem => ?_)
  · rw [List.eq_of_mem_replicate mem]
    decide
  · rw [Char.isAlphanum, isDigit_of_mem_toString mem, Bool.or_true]

theorem hexEncode (data : List UInt8) : Unbroken (hexEncode data).toList :=
  of_isAlphanum fun _ mem => isAlphanum_of_mem_hexEncode mem

theorem formatRfc2822 (datetime : DateTime) : Unbroken (formatRfc2822 datetime).toList := by
  have weekdays : ∀ i : Fin 7, Unbroken weekdayNames[i].toList := by decide
  have months : ∀ i : Fin 12, Unbroken monthNames[i].toList := by decide
  have sign : Unbroken ", ".toList ∧ Unbroken " ".toList ∧ Unbroken ":".toList ∧
      Unbroken " +0000".toList := by decide
  obtain ⟨comma, blank, colon, zone⟩ := sign
  simp only [Webmail.formatRfc2822, String.toList_append]
  refine append (append (append (append (append (append (append (append (append (append (append
    (append (weekdays _) comma) (padded _ _)) blank) (months _)) blank) (padded _ _)) blank)
    (padded _ _)) colon) (padded _ _)) colon) (padded _ _) |>.append zone

theorem of_append {s t : String} (h : Unbroken s.toList) (h' : Unbroken t.toList) :
    Unbroken (s ++ t).toList := by
  rw [String.toList_append]
  exact h.append h'

theorem of_addressRe (valid : Core.addressRe email = true) :
    Unbroken email.toList := by
  intro c mem
  have range := Core.addressRe_mem valid mem
  constructor
  all_goals
    rintro rfl
    exact absurd range (by decide)

theorem of_control {s : String} (h : ¬(s.toList.any isControl) = true) : Unbroken s.toList :=
  of_isControl fun c mem => by simpa using List.any_eq_false.mp (Bool.eq_false_iff.mpr h) c mem

theorem generateMessageId (h : Unbroken email.toList) (drawn : List UInt8) :
    Unbroken (generateMessageId email drawn).toList := by
  have signs : Unbroken "<".toList ∧ Unbroken "@".toList ∧ Unbroken ">".toList ∧
      Unbroken "localhost".toList := by decide
  obtain ⟨opening, at_, closing, localhost⟩ := signs
  refine of_append (of_append (of_append (of_append opening (hexEncode drawn)) at_) ?_) closing
  cases parts : rsplitOnce '@' email with
  | none => exact localhost
  | some pair =>
    obtain ⟨localPart, domain⟩ := pair
    have inside : Unbroken domain.toList := fun c mem => by
      refine h c ?_
      rw [(rsplitOnce_eq_some parts).1]
      exact List.mem_append_right _ (List.mem_cons_of_mem _ mem)
    rw [Option.map_some, Option.filter_some]
    split
    · exact inside
    · exact localhost

theorem uniqueBoundary {kind : String} (h : Unbroken kind.toList) (drawn : List UInt8) :
    Unbroken (uniqueBoundary kind drawn).toList := by
  have signs : Unbroken "-".toList ∧ Unbroken "-mailstack".toList := by decide
  exact of_append (of_append (of_append h signs.1) (hexEncode drawn)) signs.2

end Unbroken

theorem length_bytes_of_ascii {s : String} (ascii : ∀ c ∈ s.toList, c.val < 128) :
    (bytes s).length = s.toList.length := by
  rw [bytes]
  generalize s.toList = cs at ascii
  induction cs with
  | nil => rfl
  | cons c cs ih =>
    have one : c.utf8Size = 1 := by
      refine Char.utf8Size_eq_one_iff.mpr ?_
      have := ascii c List.mem_cons_self
      rw [UInt32.lt_iff_toNat_lt] at this
      rw [UInt32.le_iff_toNat_le]
      exact Nat.lt_succ_iff.mp this
    rw [List.flatMap_cons, List.length_append, String.length_utf8EncodeChar, one,
      ih fun d mem => ascii d (List.mem_cons_of_mem _ mem), List.length_cons, Nat.add_comm]

/-! ### What the checks leave -/

theorem validateAddress_ok {raw field address : String}
    (h : validateAddress raw field = .ok address) : Unbroken address.toList := by
  unfold validateAddress at h
  dsimp only at h
  split at h
  · cases h
  split at h
  · cases h
  split at h
  · cases h
  rename_i plain
  have same : address = trim raw := by
    split at h
    · cases h
    · split_ifs at h
      exact (Except.ok.inj h).symm
  rw [same]
  exact .of_control plain

theorem validateSubject_ok {raw subject : String} (h : validateSubject raw = .ok subject) :
    Unbroken subject.toList := by
  unfold validateSubject at h
  dsimp only at h
  split_ifs at h with long plain
  obtain rfl := Except.ok.inj h
  exact .of_control plain

theorem validateMessageId_ok {raw : Option String} {field value : String}
    (h : validateMessageId raw field = .ok (some value)) : Unbroken value.toList := by
  unfold validateMessageId at h
  cases raw with
  | none => cases h
  | some raw =>
    dsimp only at h
    split_ifs at h with empty plain
    · cases h
    · obtain rfl := Option.some.inj (Except.ok.inj h)
      exact .of_control plain

/-- What the header section takes from a request breaks no line. -/
structure ValidatedCompose.Plain (validated : ValidatedCompose) : Prop where
  receivers : ∀ address ∈ validated.to, Unbroken address.toList
  cc : ∀ address ∈ validated.cc, Unbroken address.toList
  bcc : ∀ address ∈ validated.bcc, Unbroken address.toList
  subject : Unbroken validated.subject.toList
  inReplyTo : ∀ value ∈ validated.inReplyTo, Unbroken value.toList
  references : ∀ value ∈ validated.references, Unbroken value.toList

theorem validateAddressList_ok {raw addresses : List String} {field : String}
    (h : validateAddressList raw field = .ok addresses) :
    ∀ address ∈ addresses, Unbroken address.toList := by
  intro address mem
  obtain ⟨raw, -, valid⟩ := mem_of_mapM_ok h mem
  exact validateAddress_ok valid

/-- What a successful check has computed. -/
structure Composed (codec : Base64) (request : ComposeRequest) (validated : ValidatedCompose) :
    Prop where
  receivers : validateAddressList request.to "to" = .ok validated.to
  cc : validateAddressList request.cc "cc" = .ok validated.cc
  bcc : validateAddressList request.bcc "bcc" = .ok validated.bcc
  recipients : validated.recipients =
    distinctRecipients [] (validated.to ++ validated.cc ++ validated.bcc)
  subject : validateSubject request.subject = .ok validated.subject
  text : validateBody request.text "text" = .ok validated.text
  html : validateBody request.html "html" = .ok validated.html
  inReplyTo : validateMessageId request.inReplyTo "inReplyTo" = .ok validated.inReplyTo
  references : ∃ references, (request.references.mapM fun reference =>
    validateMessageId (some reference) "references") = .ok references ∧
      validated.references = references.filterMap id
  attachments : decodeAttachments codec request.attachments = .ok validated.attachments

theorem validateCompose_ok {codec : Base64} {request : ComposeRequest} {purpose : Purpose}
    {validated : ValidatedCompose} (h : validateCompose codec request purpose = .ok validated) :
    Composed codec request validated := by
  simp only [validateCompose] at h
  obtain ⟨receivers, hreceivers, h⟩ := ok_of_bind h
  obtain ⟨cc, hcc, h⟩ := ok_of_bind h
  obtain ⟨bcc, hbcc, h⟩ := ok_of_bind h
  obtain ⟨-, h⟩ := ok_of_check h
  obtain ⟨-, h⟩ := ok_of_check h
  obtain ⟨subject, hsubject, h⟩ := ok_of_bind h
  obtain ⟨text, htext, h⟩ := ok_of_bind h
  obtain ⟨html, hhtml, h⟩ := ok_of_bind h
  obtain ⟨inReplyTo, hinReplyTo, h⟩ := ok_of_bind h
  obtain ⟨references, hreferences, h⟩ := ok_of_bind h
  obtain ⟨attachments, hattachments, h⟩ := ok_of_bind h
  cases h
  exact ⟨hreceivers, hcc, hbcc, rfl, hsubject, htext, hhtml, hinReplyTo, ⟨references, hreferences, rfl⟩,
    hattachments⟩

theorem Composed.plain {codec : Base64} {request : ComposeRequest} {validated : ValidatedCompose}
    (h : Composed codec request validated) : validated.Plain := by
  refine ⟨validateAddressList_ok h.receivers, validateAddressList_ok h.cc,
    validateAddressList_ok h.bcc, validateSubject_ok h.subject, fun value mem => ?_,
    fun value mem => ?_⟩
  · exact validateMessageId_ok (h.inReplyTo.trans (by rw [Option.mem_def.mp mem]))
  · obtain ⟨references, checked, eq⟩ := h.references
    rw [eq] at mem
    obtain ⟨found, inside, rfl⟩ := List.mem_filterMap.mp mem
    obtain ⟨raw, -, valid⟩ := mem_of_mapM_ok checked inside
    exact validateMessageId_ok valid

/-! ### What is written -/

def fieldNames (purpose : Purpose) : List String :=
  ["From", "To", "Cc"] ++ (if purpose = .draft then ["Bcc"] else []) ++
    ["Subject", "Date", "Message-ID", "In-Reply-To", "References", "MIME-Version", "Content-Type",
      "Content-Transfer-Encoding"]

theorem buildBody_plain (codec : Base64) (validated : ValidatedCompose) {alt mix : String}
    (hAlt : Unbroken alt.toList) (hMix : Unbroken mix.toList) :
    Unbroken (buildBody codec validated alt mix).1.toList ∧
      ∀ encoding ∈ (buildBody codec validated alt mix).2.1, encoding = "base64" := by
  have texts : Unbroken "multipart/alternative; boundary=\"".toList ∧
      Unbroken "multipart/mixed; boundary=\"".toList ∧ Unbroken "\"".toList ∧
      Unbroken "text/html; charset=utf-8".toList ∧ Unbroken "text/plain; charset=utf-8".toList := by
    decide
  obtain ⟨alternative, mixed, quote, html, plain⟩ := texts
  unfold buildBody
  dsimp only
  by_cases none : validated.attachments.isEmpty = true
  · simp only [none, if_true]
    by_cases both : (validated.text.isSome && validated.html.isSome) = true
    · simp only [both, if_true]
      exact ⟨.of_append (.of_append alternative hAlt) quote, fun _ mem => by cases mem⟩
    · simp only [both, Bool.false_eq_true, if_false]
      refine ⟨?_, fun _ mem => (Option.some.inj mem).symm⟩
      split
      · exact html
      · exact plain
  · simp only [none, Bool.false_eq_true, if_false]
    exact ⟨.of_append (.of_append mixed hMix) quote, fun _ mem => by cases mem⟩

section Fields

variable {codec : Base64} {account : Account} {validated : ValidatedCompose} {purpose : Purpose}
  {drawn : Drawn}

theorem composeFields_names :
    ((composeFields codec account validated purpose drawn).1.map (·.1)).Sublist
      (fieldNames purpose) := by
  have optional : ∀ {p : Prop} [Decidable p] (name value : String),
      ((if p then [] else [(name, value)]).map (·.1)).Sublist [name] := by
    intro p _ name value
    split
    · exact List.nil_sublist _
    · exact List.Sublist.refl _
  have hidden : ∀ value : String,
      ((if (purpose = .draft && !validated.bcc.isEmpty) = true then [("Bcc", value)]
        else []).map (·.1)).Sublist (if purpose = .draft then ["Bcc"] else []) := by
    intro value
    by_cases draft : purpose = .draft
    · rw [if_pos draft]
      split
      · exact List.Sublist.refl _
      · exact List.nil_sublist _
    · simp [draft]
  have given : ∀ (name : String) (values : Option String),
      ((values.toList.map fun value => (name, value)).map (·.1)).Sublist [name] := by
    intro name values
    cases values
    · exact List.nil_sublist _
    · exact List.Sublist.refl _
  have parts : fieldNames purpose = ["From"] ++ ["To"] ++ ["Cc"] ++
      (if purpose = .draft then ["Bcc"] else []) ++ ["Subject", "Date", "Message-ID"] ++
        ["In-Reply-To"] ++ ["References"] ++ ["MIME-Version", "Content-Type"] ++
          ["Content-Transfer-Encoding"] := by
    simp [fieldNames]
  rw [parts]
  unfold composeFields
  simp only [List.map_append]
  exact ((((((((List.Sublist.refl ["From"]).append (optional _ _)).append (optional _ _)).append
    (hidden _)).append (List.Sublist.refl ["Subject", "Date", "Message-ID"])).append
    (given _ _)).append (optional _ _)).append
    (List.Sublist.refl ["MIME-Version", "Content-Type"])).append (given _ _)

/-- Only the name of the sender and the subject can break a line. -/
theorem mem_composeFields (plain : validated.Plain) (email : Unbroken account.email.toList)
    {field : String × String}
    (mem : field ∈ (composeFields codec account validated purpose drawn).1) :
    field = ("From", encodeFrom codec account) ∨
      field = ("Subject", encodeHeaderValue codec validated.subject) ∨ Unbroken field.2.toList := by
  have signs : Unbroken ", ".toList ∧ Unbroken " ".toList ∧ Unbroken "1.0".toList ∧
      Unbroken "base64".toList ∧ Unbroken "alt".toList ∧ Unbroken "mix".toList := by decide
  obtain ⟨comma, blank, version, base64, alt, mix⟩ := signs
  obtain ⟨contentType, encodings⟩ := buildBody_plain codec validated
    (Unbroken.uniqueBoundary alt drawn.altBoundary) (Unbroken.uniqueBoundary mix drawn.mixBoundary)
  have joined : ∀ {p : Prop} [Decidable p] {name sep : String} {values : List String},
      Unbroken sep.toList → (∀ value ∈ values, Unbroken value.toList) →
        field ∈ (if p then [] else [(name, sep.intercalate values)]) → Unbroken field.2.toList := by
    intro p _ name sep values between each mem
    split at mem
    · cases mem
    · obtain rfl := List.mem_singleton.mp mem
      exact .intercalate between each
  unfold composeFields at mem
  simp only [List.mem_append, List.mem_cons, List.not_mem_nil, or_false, List.mem_map] at mem
  rcases mem with
    ((((((((rfl | to_) | cc) | bcc) | rfl | rfl | rfl) | ⟨value, given, rfl⟩) | refs) | rfl | rfl) |
      ⟨encoding, given, rfl⟩)
  · exact .inl rfl
  · exact .inr (.inr (joined comma plain.receivers to_))
  · exact .inr (.inr (joined comma plain.cc cc))
  · split at bcc
    · obtain rfl := List.mem_singleton.mp bcc
      exact .inr (.inr (.intercalate comma plain.bcc))
    · cases bcc
  · exact .inr (.inl rfl)
  · exact .inr (.inr (.formatRfc2822 _))
  · exact .inr (.inr (.generateMessageId email _))
  · exact .inr (.inr (plain.inReplyTo value (Option.mem_toList.mp given)))
  · exact .inr (.inr (joined blank plain.references refs))
  · exact .inr (.inr version)
  · exact .inr (.inr contentType)
  · obtain rfl := encodings encoding (Option.mem_toList.mp given)
    exact .inr (.inr base64)

end Fields

/-! ### Encoded words -/

/-- Every character that an encoder writes is one of the alphabet. -/
def Base64.Plain (codec : Base64) : Prop :=
  ∀ data, ∀ c ∈ (codec.encode data).toList, c.isAlphanum = true ∨ c = '+' ∨ c = '/' ∨ c = '='

theorem unbroken_encode {codec : Base64} (alphabet : codec.Plain) (data : List UInt8) :
    Unbroken (codec.encode data).toList := by
  intro c mem
  have here := alphabet data c mem
  constructor
  all_goals
    rintro rfl
    revert here
    decide

def EndsPlain (cs : List Char) : Prop := cs.getLast? ≠ some '\n' ∧ cs.getLast? ≠ some '\r'

theorem EndsPlain.append {cs ds : List Char} (h : EndsPlain cs) (h' : EndsPlain ds) :
    EndsPlain (cs ++ ds) := by
  unfold EndsPlain
  rw [List.getLast?_append]
  cases last : ds.getLast? with
  | none => exact h
  | some c => exact ⟨fun eq => h'.1 (last.trans eq), fun eq => h'.2 (last.trans eq)⟩

theorem breaksFold_words {words : List String} (h : ∀ word ∈ words, Unbroken word.toList) :
    breaksFold ("\r\n ".intercalate words).toList = true ∧
      EndsPlain ("\r\n ".intercalate words).toList := by
  induction words with
  | nil => exact ⟨rfl, by decide, by decide⟩
  | cons word words ih =>
    obtain ⟨folds, ends⟩ := ih fun w mem => h w (List.mem_cons_of_mem _ mem)
    have here := h word List.mem_cons_self
    cases words with
    | nil =>
      rw [String.intercalate_singleton]
      exact ⟨here.breaksFold, here.last_ne⟩
    | cons next words =>
      rw [String.intercalate_cons_cons, String.toList_append, String.toList_append,
        List.append_assoc]
      have fold : EndsPlain "\r\n ".toList := ⟨by decide, by decide⟩
      refine ⟨?_, EndsPlain.append here.last_ne (fold.append ends)⟩
      rw [breaksFold_append here.last_ne.1, breaksFold_append fold.1, here.breaksFold, folds]
      rfl

theorem encodeRfc2047_folds {codec : Base64} (alphabet : codec.Plain) (value : String) :
    breaksFold (encodeRfc2047 codec value).toList = true ∧
      EndsPlain (encodeRfc2047 codec value).toList := by
  refine breaksFold_words fun word mem => ?_
  obtain ⟨chunk, -, rfl⟩ := List.mem_map.mp mem
  have signs : Unbroken "=?UTF-8?B?".toList ∧ Unbroken "?=".toList := by decide
  exact .of_append (.of_append signs.1 (unbroken_encode alphabet chunk)) signs.2

theorem encodeHeaderValue_folds {codec : Base64} (alphabet : codec.Plain) {value : String}
    (plain : Unbroken value.toList) :
    breaksFold (encodeHeaderValue codec value).toList = true ∧
      EndsPlain (encodeHeaderValue codec value).toList := by
  unfold encodeHeaderValue
  split
  · exact ⟨plain.breaksFold, plain.last_ne⟩
  · exact encodeRfc2047_folds alphabet value

/-! ### The sender -/

/-- No line feed of the display name starts a line: each is followed by a blank or a tab, unless the
name is encoded. -/
def Account.NameFolds (account : Account) : Prop :=
  let name := trim account.displayName
  isAscii name = true → breaksFold name.toList = true

theorem isFolded_append_of_ne_nil {cs ds : List Char} (some : cs ≠ []) :
    isFolded (cs ++ ds) = isFolded cs := by
  cases cs with
  | nil => exact absurd rfl some
  | cons c cs => rfl

theorem breaksFold_escaped {special : List Char}
    (visible : ∀ c ∈ special, c ≠ ' ' ∧ c ≠ '\t' ∧ c ≠ '\n') (name : String) :
    breaksFold (escaped special name).toList = breaksFold name.toList := by
  have head : ∀ cs : List Char, isFolded (cs.flatMap (escapeChar special)) = isFolded cs := by
    intro cs
    cases cs with
    | nil => rfl
    | cons c cs =>
      rw [List.flatMap_cons, escapeChar]
      split
      · rename_i inside
        obtain ⟨blank, tab, -⟩ := visible c (List.contains_iff_mem.mp inside)
        simp [isFolded, blank, tab]
      · rfl
  rw [escaped, String.toList_ofList]
  induction name.toList with
  | nil => rfl
  | cons c cs ih =>
    rw [List.flatMap_cons, escapeChar]
    split
    · rename_i inside
      obtain ⟨-, -, lf⟩ := visible c (List.contains_iff_mem.mp inside)
      have other : (c != '\n') = true := by simpa using lf
      rw [List.cons_append, List.cons_append, List.nil_append, breaksFold, breaksFold, breaksFold, ih,
        other]
      rfl
    · rw [List.cons_append, List.nil_append, breaksFold, breaksFold, head, ih]

theorem getLast?_escaped (special : List Char) (name : String) :
    (escaped special name).toList.getLast? = name.toList.getLast? := by
  rw [escaped, String.toList_ofList]
  rcases List.eq_nil_or_concat name.toList with none | ⟨before, last, eq⟩
  · rw [none]
    rfl
  · rw [eq, List.concat_eq_append, List.flatMap_append, List.getLast?_append, List.getLast?_append,
      List.flatMap_singleton, escapeChar]
    split
    · rfl
    · rfl

theorem endsPlain_trim (s : String) : EndsPlain (trim s).toList := by
  constructor
  all_goals
    intro last
    exact absurd (isWhitespace_of_getLast?_trim last) (by decide)

/-- The field of the sender is one just when the display name folds. -/
theorem breaksFold_from {codec : Base64} (alphabet : codec.Plain) {account : Account}
    (email : Unbroken account.email.toList) :
    EndsPlain (encodeFrom codec account).toList ∧
      (breaksFold (encodeFrom codec account).toList = true ↔ account.NameFolds) := by
  have signs : Unbroken "\"".toList ∧ Unbroken "\" <".toList ∧ Unbroken " <".toList ∧
      Unbroken ">".toList := by decide
  obtain ⟨quote, quoted, opening, closing⟩ := signs
  -- what stands after a name of which nothing is known but how it ends
  have named : ∀ {name : List Char} {sign : String}, EndsPlain name → Unbroken sign.toList →
      EndsPlain (name ++ (sign ++ account.email ++ ">").toList) ∧
        breaksFold (name ++ (sign ++ account.email ++ ">").toList) = breaksFold name := by
    intro name sign ends plain
    have rest := Unbroken.of_append (Unbroken.of_append plain email) closing
    refine ⟨ends.append rest.last_ne, ?_⟩
    rw [breaksFold_append ends.1, rest.breaksFold, Bool.and_true]
  have ends := endsPlain_trim account.displayName
  unfold encodeFrom Account.NameFolds
  dsimp only
  split
  · rename_i empty
    have none : trim account.displayName = "" := by simpa using empty
    rw [none]
    exact ⟨email.last_ne, fun _ _ => rfl, fun _ => email.breaksFold⟩
  split
  · rename_i ascii
    rw [ascii]
    split
    · have specials : ∀ c ∈ ['\\', '"'], c ≠ ' ' ∧ c ≠ '\t' ∧ c ≠ '\n' := by decide
      have inner : EndsPlain (escaped ['\\', '"'] (trim account.displayName)).toList := by
        rw [EndsPlain, getLast?_escaped]
        exact ends
      have after := named (EndsPlain.append quote.last_ne inner) quoted
      rw [String.append_assoc, String.append_assoc, String.toList_append, String.toList_append,
        ← String.append_assoc]
      rw [breaksFold_append quote.last_ne.1, breaksFold_escaped specials] at after
      refine ⟨after.1, ?_⟩
      rw [after.2, quote.breaksFold, Bool.true_and]
      exact ⟨fun folds _ => folds, fun folds => folds rfl⟩
    · have after := named ends opening
      rw [String.append_assoc, String.append_assoc, String.toList_append, ← String.append_assoc]
      exact ⟨after.1, by rw [after.2]; simp⟩
  · rename_i encoded
    obtain ⟨folds, ends⟩ := encodeRfc2047_folds alphabet (trim account.displayName)
    have after := named ends opening
    rw [String.append_assoc, String.append_assoc, String.toList_append, ← String.append_assoc]
    exact ⟨after.1, by rw [after.2, folds]; simp [encoded]⟩

/-! ### The header section -/

def fieldName (field : List (List Char)) : String :=
  String.ofList ((field.head?.getD []).takeWhile (· ≠ ':'))

/-- The header section is split into the fields that are written and no others, each of them at most
once and in the order of the names. A message that is sent is the same whatever addresses stand in
Bcc. -/
structure HeadersIntact (codec : Base64) (account : Account) (request : ComposeRequest)
    (purpose : Purpose) (drawn : Drawn) (validated : ValidatedCompose) (built : BuiltMessage) :
    Prop where
  exact : headerFields built.data.toList =
    (composeFields codec account validated purpose drawn).1.map fun field =>
      textLines (renderField field).toList
  names : ((headerFields built.data.toList).map fieldName).Sublist (fieldNames purpose)
  hidden : purpose = .send → ∀ bcc other,
    buildMessage codec account { request with bcc } .send drawn = .ok other →
      other.data = built.data

section Message

variable {codec : Base64} {account : Account} {request : ComposeRequest} {purpose : Purpose}
  {drawn : Drawn} {validated : ValidatedCompose} {built : BuiltMessage}
  {fields : List (String × String)} {validated' : ValidatedCompose} {body : String}

theorem buildMessage_ok (checked : validateCompose codec request purpose = .ok validated)
    (h : buildMessage codec account request purpose drawn = .ok built) :
    built.data = messageText (composeFields codec account validated purpose drawn).1
      (composeFields codec account validated purpose drawn).2 := by
  unfold buildMessage at h
  rw [checked] at h
  dsimp only at h
  split_ifs at h
  rw [← Except.ok.inj h]

theorem messageText_start (fields : List (String × String)) (body : String) :
    ∃ rest, (messageText fields body).toList =
        writtenFields (fields.map fun field => (renderField field).toList) ++ '\r' :: '\n' :: rest ∧
      (rest = body.toList ∨ rest = body.toList ++ ['\r', '\n']) := by
  have written : (String.join (fields.map fun field => renderField field ++ "\r\n")).toList =
      writtenFields (fields.map fun field => (renderField field).toList) := by
    rw [String.toList_join, List.flatMap_map, writtenFields, List.flatMap_map]
    simp
  unfold messageText
  dsimp only
  split_ifs
  · exact ⟨body.toList, by simp [written], .inl rfl⟩
  · exact ⟨body.toList ++ ['\r', '\n'], by simp [written], .inr rfl⟩

theorem mem_messageText {c : Char}
    (mem : c ∈ (messageText fields body).toList) :
    (∃ field ∈ fields, c ∈ field.1.toList ++ field.2.toList) ∨ c ∈ body.toList ∨
      c ∈ [':', ' ', '\r', '\n'] := by
  have blank : ∀ c ∈ ": ".toList, c ∈ [':', ' ', '\r', '\n'] := by decide
  have break_ : ∀ c ∈ ['\r', '\n'], c ∈ [':', ' ', '\r', '\n'] := by decide
  obtain ⟨rest, text, ends⟩ := messageText_start fields body
  rw [text, List.mem_append, writtenFields, List.flatMap_map, List.mem_flatMap] at mem
  rcases mem with ⟨field, inside, mem⟩ | mem
  · have parts : c ∈ field.1.toList ++ field.2.toList ∨ c ∈ [':', ' ', '\r', '\n'] := by
      simp only [renderField, String.toList_append, List.mem_append] at mem ⊢
      rcases mem with ((mem | mem) | mem) | mem
      · exact .inl (.inl mem)
      · exact .inr (blank c mem)
      · exact .inl (.inr mem)
      · exact .inr (break_ c mem)
    exact parts.imp (fun here => ⟨field, inside, here⟩) .inr
  · have later : c ∈ ['\r', '\n'] ∨ c ∈ body.toList := by
      rcases List.mem_append.mp (show c ∈ ['\r', '\n'] ++ rest from mem) with here | here
      · exact .inl here
      · rcases ends with rfl | rfl
        · exact .inr here
        · exact (List.mem_append.mp here).symm
    rcases later with here | here
    · exact .inr (.inr (break_ c here))
    · exact .inr (.inl here)

theorem length_messageText (fields : List (String × String)) (body : String) :
    (messageText fields body).toList.length ≤
      (fields.map fun field => field.1.toList.length + field.2.toList.length + 4).sum +
        body.toList.length + 4 := by
  obtain ⟨rest, text, ends⟩ := messageText_start fields body
  have written : (writtenFields (fields.map fun field => (renderField field).toList)).length =
      (fields.map fun field => field.1.toList.length + field.2.toList.length + 4).sum := by
    rw [writtenFields, List.flatMap_map, List.length_flatMap]
    congr 1
    refine List.map_congr_left fun field _ => ?_
    simp [renderField]
    omega
  rw [text, List.length_append, written]
  rcases ends with rfl | rfl
  · simp
    omega
  · simp
    omega

/-- A message of few characters, all of them ASCII, is built. -/
theorem exists_built (checked : validateCompose codec request purpose = .ok validated)
    (composed : composeFields codec account validated purpose drawn = (fields, body))
    (ascii : ∀ field ∈ fields, ∀ c ∈ field.1.toList ++ field.2.toList, c.val < 128)
    (asciiBody : ∀ c ∈ body.toList, c.val < 128)
    (short : (fields.map fun field => field.1.toList.length + field.2.toList.length + 4).sum +
        body.toList.length + 4 ≤
      composeBodyLimitBytes) :
    ∃ built, buildMessage codec account request purpose drawn = .ok built := by
  have signs : ∀ c ∈ [':', ' ', '\r', '\n'], c.val < 128 := by decide
  have all : ∀ c ∈ (messageText fields body).toList, c.val < 128 := by
    intro c mem
    rcases mem_messageText mem with ⟨field, inside, here⟩ | here | here
    · exact ascii field inside c here
    · exact asciiBody c here
    · exact signs c here
  have length : (bytes (messageText fields body)).length ≤ composeBodyLimitBytes := by
    rw [length_bytes_of_ascii all]
    exact (length_messageText fields body).trans short
  have plain : isAscii (messageText fields body) = true := by
    simpa [isAscii] using all
  refine ⟨{ data := messageText fields body, envelopeFrom := account.email
            recipients := validated.recipients, subject := validated.subject }, ?_⟩
  unfold buildMessage
  rw [checked]
  dsimp only
  rw [composed]
  dsimp only
  rw [if_neg (not_lt.mpr length), plain]
  rfl

theorem fieldName_renderField {field : String × String} (known : field.1 ∈ fieldNames purpose) :
    fieldName (textLines (renderField field).toList) = field.1 ∧
      StartsField (renderField field).toList := by
  obtain ⟨name, value⟩ := field
  have marks : ∀ purpose, ∀ name ∈ fieldNames purpose,
      '\n' ∉ name.toList ∧ (∀ c ∈ name.toList, c ≠ ':') ∧
      isFolded name.toList = false ∧ name.toList ≠ [] := by
    intro purpose
    cases purpose <;> decide
  obtain ⟨unbroken, colon, starts, some⟩ := marks purpose name known
  have text : (renderField (name, value)).toList = name.toList ++ ':' :: ' ' :: value.toList := by
    simp [renderField]
  obtain ⟨later, others, lines⟩ :=
    textLines_of_start unbroken (c := ':') (by decide) (' ' :: value.toList)
  rw [text, StartsField, lines]
  constructor
  · rw [fieldName, List.head?_cons, Option.getD_some,
      List.takeWhile_append_of_pos fun c mem => by simpa using colon c mem]
    simp
  · refine ⟨_, _, rfl, by simp, ?_⟩
    rw [isFolded_append_of_ne_nil some]
    exact starts

theorem renderField_written (alphabet : codec.Plain) (plain : validated.Plain)
    (email : Unbroken account.email.toList) {field : String × String}
    (mem : field ∈ (composeFields codec account validated purpose drawn).1) :
    EndsPlain (renderField field).toList ∧
      (IsField (renderField field).toList ↔
        (field = ("From", encodeFrom codec account) → account.NameFolds)) := by
  have split : (renderField field).toList = (field.1 ++ ": ").toList ++ field.2.toList :=
    String.toList_append
  have known := List.Sublist.subset composeFields_names (List.mem_map_of_mem mem)
  have marks : ∀ purpose, ∀ name ∈ fieldNames purpose, Unbroken (name ++ ": ").toList := by
    intro purpose
    cases purpose <;> decide
  have start := marks purpose _ known
  rw [isField_iff, split, breaksFold_append start.last_ne.1, start.breaksFold, Bool.true_and]
  clear split known
  rcases mem_composeFields plain email mem with sender | subject | unbroken
  · obtain ⟨ends, folds⟩ := breaksFold_from alphabet email
    have value : field.2 = encodeFrom codec account := by rw [sender]
    rw [value]
    exact ⟨EndsPlain.append start.last_ne ends, folds.trans ⟨fun h _ => h, fun h => h sender⟩⟩
  · obtain ⟨folds, ends⟩ := encodeHeaderValue_folds alphabet plain.subject
    have value : field.2 = encodeHeaderValue codec validated.subject := by rw [subject]
    have name : field.1 = "Subject" := by rw [subject]
    rw [value]
    refine ⟨EndsPlain.append start.last_ne ends, fun _ sender => ?_, fun _ => folds⟩
    have other : field.1 = "From" := by rw [sender]
    exact absurd (name.symm.trans other) (by decide)
  · refine ⟨EndsPlain.append start.last_ne unbroken.last_ne, ?_⟩
    rw [unbroken.breaksFold]
    refine ⟨fun _ sender => ?_, fun _ => rfl⟩
    have value : field.2 = encodeFrom codec account := by rw [sender]
    rw [value] at unbroken
    exact (breaksFold_from alphabet email).2.mp unbroken.breaksFold

theorem composeFields_send
    (same : validated' = { validated with
      bcc := validated'.bcc, recipients := validated'.recipients }) :
    composeFields codec account validated' .send drawn =
      composeFields codec account validated .send drawn := by
  rw [same]
  rfl

/-- Another Bcc list changes nothing else of what is checked. -/
theorem validateCompose_bcc {purpose' : Purpose} {bcc : List String}
    (checked : validateCompose codec request purpose = .ok validated)
    (checked' : validateCompose codec { request with bcc } purpose' = .ok validated') :
    validated' = { validated with bcc := validated'.bcc, recipients := validated'.recipients } := by
  have h := validateCompose_ok checked
  have h' := validateCompose_ok checked'
  obtain ⟨references, run, eq⟩ := h.references
  obtain ⟨references', run', eq'⟩ := h'.references
  have same : validated'.references = validated.references := by
    rw [eq, eq', Except.ok.inj (run'.symm.trans run)]
  obtain ⟨«to», cc, bcc, subject, text, html, inReplyTo, refs, attachments, recipients⟩ := validated
  obtain ⟨to', cc', bcc', subject', text', html', inReplyTo', refs', attachments', recipients'⟩ :=
    validated'
  obtain rfl := Except.ok.inj (h'.receivers.symm.trans h.receivers)
  obtain rfl := Except.ok.inj (h'.cc.symm.trans h.cc)
  obtain rfl := Except.ok.inj (h'.subject.symm.trans h.subject)
  obtain rfl := Except.ok.inj (h'.text.symm.trans h.text)
  obtain rfl := Except.ok.inj (h'.html.symm.trans h.html)
  obtain rfl := Except.ok.inj (h'.inReplyTo.symm.trans h.inReplyTo)
  obtain rfl := Except.ok.inj (h'.attachments.symm.trans h.attachments)
  obtain rfl : refs' = refs := same
  rfl

theorem nameFolds_of_exact (alphabet : codec.Plain) (plain : validated.Plain)
    (email : Unbroken account.email.toList)
    (split : headerFields built.data.toList =
      (composeFields codec account validated purpose drawn).1.map fun field =>
        textLines (renderField field).toList) : account.NameFolds := by
  have sender : ("From", encodeFrom codec account) ∈
      (composeFields codec account validated purpose drawn).1 := by simp [composeFields]
  have split : headerFields built.data.toList =
      ((composeFields codec account validated purpose drawn).1.map fun field =>
        (renderField field).toList).map textLines := by
    rw [List.map_map]
    exact split
  have single := isField_of_headerFields split (List.mem_map_of_mem sender)
  exact (renderField_written alphabet plain email sender).2.mp single rfl

/-- In every message that is built, the header section is split into the fields that are written
just when the display name of the sender folds. -/
theorem header_section_intact_iff (alphabet : codec.Plain)
    (address : Core.addressRe account.email = true)
    (checked : validateCompose codec request purpose = .ok validated)
    (h : buildMessage codec account request purpose drawn = .ok built) :
    HeadersIntact codec account request purpose drawn validated built ↔ account.NameFolds := by
  have email := Unbroken.of_addressRe address
  have plain := (validateCompose_ok checked).plain
  refine ⟨fun intact => nameFolds_of_exact alphabet plain email intact.exact, fun folds => ?_⟩
  obtain ⟨rest, text, -⟩ := messageText_start
    (composeFields codec account validated purpose drawn).1
    (composeFields codec account validated purpose drawn).2
  rw [← buildMessage_ok checked h] at text
  have written :=
    fun field mem => @renderField_written codec account purpose drawn validated alphabet
    plain email field mem
  have names : ∀ field ∈ (composeFields codec account validated purpose drawn).1,
      field.1 ∈ fieldNames purpose := fun field mem =>
    List.Sublist.subset composeFields_names (List.mem_map_of_mem mem)
  have split : headerFields built.data.toList =
      (composeFields codec account validated purpose drawn).1.map fun field =>
        textLines (renderField field).toList := by
    rw [text, headerFields_written, List.map_map]
    · rfl
    all_goals
      intro field mem
      obtain ⟨f, inside, rfl⟩ := List.mem_map.mp mem
    · exact (written f inside).1.2
    · exact (fieldName_renderField (names f inside)).2
    · exact (written f inside).2.mpr fun _ => folds
  have named : (headerFields built.data.toList).map fieldName =
      (composeFields codec account validated purpose drawn).1.map (·.1) := by
    rw [split, List.map_map]
    exact List.map_congr_left fun f inside => (fieldName_renderField (names f inside)).1
  refine ⟨split, named ▸ composeFields_names, ?_⟩
  rintro rfl bcc other again
  obtain ⟨validated', checked'⟩ : ∃ validated',
      validateCompose codec { request with bcc } .send = .ok validated' := by
    unfold buildMessage at again
    cases result : validateCompose codec { request with bcc } .send with
    | error error =>
      rw [result] at again
      cases again
    | ok validated' => exact ⟨validated', rfl⟩
  rw [buildMessage_ok checked' again, buildMessage_ok checked h,
    composeFields_send (validateCompose_bcc checked checked')]

end Message

/-! ### Registered senders -/

/-- The entry of the registry was made by a request that passed its checks. -/
def Registered (item : Json) : Prop :=
  ∃ (users : Priv.Users) (host : Priv.Host) (data : Json) (new : Priv.NewMailbox),
    Priv.prepare users data host = .ok new ∧
      item = Priv.mailboxJson new.email new.user new.displayName

/-! A display name with a line end in it, in the request for a mailbox. -/

def breakingRequest : Json :=
  .object [("email", .string "alice@example.com"), ("password", .string "Zx7Qm2Vt9Kp4"),
    ("displayName", .string "Alice\r\nBcc: eve@example.org")]

def aliceDirectory : AccountDirectory where
  passwordsPath := "/etc/mailstack/mailbox-passwords.json"
  passwords := .missing
  registry := .holds
    [Priv.mailboxJson "alice@example.com" "alice" "Alice\r\nBcc: eve@example.org"]
  passwd := [["alice", "x", "1000", "1000", "", "/home/alice", "/usr/sbin/nologin"]]
  maildirName := "Maildir"
  fs := { isDir := fun _ => true, opens := fun _ => true }

def emptyCodec : Base64 where
  encode _ := ""
  decode s := if s = "" then some [] else none

def shortRequest : ComposeRequest :=
  { «to» := ["bob@example.org"], cc := [], bcc := [], subject := "Hi", text := none, html := none
    inReplyTo := none, references := [], attachments := [] }

def firstDrawn : Drawn where
  altBoundary := List.replicate 18 0
  mixBoundary := List.replicate 18 0
  messageId := List.replicate 16 0
  now :=
    { weekday := ⟨0, by decide⟩, day := 5, month := ⟨0, by decide⟩, year := 2026
      hour := 9, minute := 30, second := 0 }

theorem emptyCodec_plain : emptyCodec.Plain := fun _ _ mem => absurd mem (by simp [emptyCodec])

theorem breakingRequest_registered : Registered
    (Priv.mailboxJson "alice@example.com" "alice" "Alice\r\nBcc: eve@example.org") :=
  ⟨Priv.debian, Priv.freshHost, breakingRequest,
    { email := "alice@example.com", user := "alice", password := "Zx7Qm2Vt9Kp4"
      displayName := "Alice\r\nBcc: eve@example.org" }, by decide, rfl⟩

def aliceAccount : Account where
  email := "alice@example.com"
  account := "alice"
  displayName := "Alice\r\nBcc: eve@example.org"
  unixUser := "alice"
  maildir := "/home/alice/Maildir"

def shortValidated : ValidatedCompose :=
  { «to» := ["bob@example.org"], cc := [], bcc := [], subject := "Hi", text := none, html := none
    inReplyTo := none, references := [], attachments := [], recipients := ["bob@example.org"] }

theorem shortRequest_valid :
    validateCompose emptyCodec shortRequest .send = .ok shortValidated := by decide

theorem shortBody : ∀ c ∈ (buildBody emptyCodec shortValidated
    (uniqueBoundary "alt" firstDrawn.altBoundary)
      (uniqueBoundary "mix" firstDrawn.mixBoundary)).2.2.toList, c.val < 128 := by decide

theorem shortRequest_built (account : Account)
    (ascii : ∀ field ∈ (composeFields emptyCodec account shortValidated .send firstDrawn).1,
      ∀ c ∈ field.1.toList ++ field.2.toList, c.val < 128)
    (short : ((composeFields emptyCodec account shortValidated .send firstDrawn).1.map fun field =>
      field.1.toList.length + field.2.toList.length + 4).sum ≤ 1000) :
    ∃ built, buildMessage emptyCodec account shortRequest .send firstDrawn = .ok built := by
  refine exists_built shortRequest_valid Prod.mk.eta.symm ascii shortBody ?_
  have body : (composeFields emptyCodec account shortValidated .send firstDrawn).2.toList.length =
      (buildBody emptyCodec shortValidated (uniqueBoundary "alt" firstDrawn.altBoundary)
        (uniqueBoundary "mix" firstDrawn.mixBoundary)).2.2.toList.length := rfl
  have two : (buildBody emptyCodec shortValidated (uniqueBoundary "alt" firstDrawn.altBoundary)
      (uniqueBoundary "mix" firstDrawn.mixBoundary)).2.2.toList.length = 2 := by decide
  rw [body, two]
  unfold composeBodyLimitBytes
  omega

theorem display_name_adds_field : ¬∀ (directory : AccountDirectory) (items : List Json)
    (login : String) (account : Account) (codec : Base64) (request : ComposeRequest)
    (purpose : Purpose) (drawn : Drawn) (validated : ValidatedCompose) (built : BuiltMessage),
    directory.registry = .holds items → (∀ item ∈ items, Registered item) →
      directory.resolve login = some account → codec.Plain →
      validateCompose codec request purpose = .ok validated →
      buildMessage codec account request purpose drawn = .ok built →
      HeadersIntact codec account request purpose drawn validated built := by
  intro claim
  have found : aliceDirectory.resolve "alice@example.com" = some aliceAccount := by decide +kernel
  have all : ∀ item ∈ [Priv.mailboxJson "alice@example.com" "alice"
      "Alice\r\nBcc: eve@example.org"], Registered item := by
    intro item mem
    rw [List.mem_singleton.mp mem]
    exact breakingRequest_registered
  obtain ⟨built, sent⟩ := shortRequest_built aliceAccount (by decide +kernel) (by decide +kernel)
  have intact := claim aliceDirectory _ _ aliceAccount emptyCodec shortRequest .send firstDrawn _
    built rfl all found emptyCodec_plain shortRequest_valid sent
  have folds := nameFolds_of_exact emptyCodec_plain (validateCompose_ok shortRequest_valid).plain
    (.of_addressRe (by decide +kernel)) intact.exact
  exact absurd (folds (by decide)) (by decide +kernel)

/-! The same message from a sender whose name folds. -/

def foldedAlice : Account := { aliceAccount with displayName := "Alice\r\n of Example" }

theorem header_section_intact_iff_folded : ∃ built,
    buildMessage emptyCodec foldedAlice shortRequest .send firstDrawn = .ok built ∧
      (HeadersIntact emptyCodec foldedAlice shortRequest .send firstDrawn shortValidated built ↔
        foldedAlice.NameFolds) ∧ foldedAlice.NameFolds := by
  obtain ⟨built, sent⟩ := shortRequest_built foldedAlice (by decide +kernel) (by decide +kernel)
  exact ⟨built, sent, header_section_intact_iff emptyCodec_plain (by decide +kernel)
    shortRequest_valid sent, fun _ => by decide +kernel⟩

end MailStack.Webmail
