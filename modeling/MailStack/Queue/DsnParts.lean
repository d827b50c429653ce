import MailStack.Lib.Hex
import MailStack.Mime.MultipartJoin
import MailStack.Mime.WrittenLines
import MailStack.Queue.Dsn

/-! The parts of a delivery status notification: what a reader of MIME finds in the text that
`build_dsn` returns. -/

namespace MailStack.Queue

open Lib Mime

/-! ### What is drawn, and the date -/

/-- The first candidate that none of the texts has, of which the first sixteen are shorter. -/
def freshBoundary (parts : List String) (short long : List (List UInt8)) : Option String :=
  ((short.take 16 ++ long).map fun random => "=_MailStack_" ++ hexEncode random).find?
    fun candidate => !parts.any fun part => containsText part candidate

/-- A moment, as the library of the source gives its fields. -/
structure OffsetDateTime where
  weekday : Fin 7
  day : Nat
  month : Fin 12
  year : Int
  hour : Nat
  minute : Nat
  second : Nat
  offsetMinutes : Int

def weekdays : List String := ["Mon", "Tue", "Wed", "Thu", "Fri", "Sat", "Sun"]

def months : List String :=
  ["Jan", "Feb", "Mar", "Apr", "May", "Jun", "Jul", "Aug", "Sep", "Oct", "Nov", "Dec"]

def rfc2822 (dt : OffsetDateTime) : String :=
  let minutes := dt.offsetMinutes.natAbs
  weekdays[dt.weekday] ++ ", " ++ zeroPadded 2 dt.day ++ " " ++ months[dt.month] ++ " " ++
    zeroPadded 0 dt.year ++ " " ++ zeroPadded 2 dt.hour ++ ":" ++ zeroPadded 2 dt.minute ++ ":" ++
    zeroPadded 2 dt.second ++ " " ++ (if dt.offsetMinutes < 0 then "-" else "+") ++
    zeroPadded 2 (minutes / 60 : Nat) ++ zeroPadded 2 (minutes % 60 : Nat)

/-! ### What a reader finds -/

def readFields (message : List UInt8) : Headers :=
  { lines := fieldsOf (splitHeadersBody message).1 }

/-- The parts between the delimiters that the message declares. -/
def declaredParts (message : List UInt8) : Option (List (List UInt8)) := do
  let boundary ← (contentType (readFields message)).param "boundary"
  return multipartParts (splitHeadersBody message).2 boundary

/-- The groups of fields of a status part, which blank lines separate. -/
def statusBlocks (part : List UInt8) : List (List (List UInt8)) :=
  ((splitInclusive (splitHeadersBody part).2).map content).splitOn []

def finalRecipient (block : List (List UInt8)) : Option (List UInt8) :=
  let mark := bytes "Final-Recipient: rfc822; "
  (block.find? mark.isPrefixOf).map (·.drop mark.length)

def declaredEncoding (part : List UInt8) : Option String :=
  (readFields part).get "content-transfer-encoding"

def IsAscii (text : List UInt8) : Prop := ∀ byte ∈ text, byte < 0x80

instance : DecidablePred IsAscii := fun text => inferInstanceAs (Decidable (∀ byte ∈ text, _))

/-- Every line ending of a text becomes CRLF. -/
@[grind =] def withCrlf : List Char → List Char
  | [] => []
  | '\r' :: '\n' :: rest => '\r' :: '\n' :: withCrlf rest
  | '\r' :: rest => '\r' :: '\n' :: withCrlf rest
  | '\n' :: rest => '\r' :: '\n' :: withCrlf rest
  | c :: rest => c :: withCrlf rest

/-- What the three parts have to be like to report on the failed recipients of a request. -/
structure Report (req : DsnRequest) (text status original : List UInt8) : Prop where
  recipients : ((statusBlocks status).drop 1).map finalRecipient =
    req.failedRecipients.map fun recipient => some (bytes recipient)
  unbroken : ∀ block ∈ statusBlocks status, ∀ field ∈ block, cr ∉ field ∧ lf ∉ field
  returned : (splitHeadersBody original).2 =
    trimOneCrlf (bytes (String.ofList (withCrlf req.original.data.toList)))
  encoding : ∀ part ∈ [text, status, original], declaredEncoding part = some "7bit" → IsAscii part

/-- The message declares the three parts of a report. -/
def Reports (req : DsnRequest) (message : List UInt8) : Prop :=
  ∃ text status original, declaredParts message = some [text, status, original] ∧
    Report req text status original

/-! ### What stands between the delimiters -/

def textFields : List (String × String) :=
  [("Content-Type", "text/plain; charset=utf-8"), ("Content-Transfer-Encoding", "7bit")]

def statusFields : List (String × String) := [("Content-Type", "message/delivery-status")]

def originalFields (encoding : String) : List (String × String) :=
  [("Content-Type", "message/rfc822"), ("Content-Transfer-Encoding", encoding)]

variable (req : DsnRequest)

def textLines : List (List UInt8) :=
  [bytes ("This is the mail system at host " ++ sanitizeHeader req.reportingMta ++ "."), [],
    bytes "I'm sorry to have to inform you that your message could not be delivered to one",
    bytes "or more recipients. The original message is attached below.", []] ++
  req.failedRecipients.map fun recipient =>
    bytes ("    " ++ sanitizeHeader recipient ++ ": " ++ sanitizeHeader req.diagnostic)

def recipientLines (recipient : String) : List (List UInt8) :=
  [bytes ("Final-Recipient: rfc822; " ++ sanitizeHeader recipient), bytes "Action: failed",
    bytes ("Status: " ++ extendedStatus req.statusCode),
    bytes ("Diagnostic-Code: smtp; " ++ sanitizeHeader req.diagnostic)]

def statusLines : List (List UInt8) :=
  [bytes ("Reporting-MTA: dns; " ++ sanitizeHeader req.reportingMta)] ++
    req.failedRecipients.flatMap fun recipient => [] :: recipientLines req recipient

def textContent : List UInt8 :=
  written (textFields.map fieldLine) ++ crlf ++ written (textLines req)

def statusContent : List UInt8 :=
  written (statusFields.map fieldLine) ++ crlf ++ written (statusLines req)

/-- Where there is no message, there is no blank line before it. -/
def originalContent : List UInt8 :=
  let body := bytes (normalizeCrlf req.original.data)
  written ((originalFields (cteFor req.original.data)).map fieldLine) ++
    if body = [] then [] else crlf ++ trimOneCrlf body

def dsnParts : List (List UInt8) := [textContent req, statusContent req, originalContent req]

def dsnFields (date boundary : String) : List (String × String) :=
  let mta := sanitizeHeader req.reportingMta
  [("From", "Mail Delivery System <MAILER-DAEMON@" ++ mta ++ ">"),
    ("To", "<" ++ sanitizeHeader ((dsnRecipient req.original).getD "") ++ ">"),
    ("Subject", "Undelivered Mail Returned to Sender"),
    ("Date", date),
    ("Message-ID", "<dsn-" ++ req.original.id ++ "@" ++ mta ++ ">"),
    ("Auto-Submitted", "auto-replied"),
    ("MIME-Version", "1.0"),
    ("Content-Type",
      "multipart/report; report-type=delivery-status; boundary=\"" ++ boundary ++ "\"")]

variable {req} {date boundary : String}

theorem bytes_line (text : String) : bytes (line text) = bytes text ++ [cr, lf] := by
  rw [line, bytes_append]
  rfl

theorem bytes_join (texts : List String) : bytes (String.join texts) = texts.flatMap bytes := by
  rw [bytes, String.toList_join, List.flatMap_assoc]
  rfl

theorem dsnHeader_eq : dsnHeader req date boundary =
    String.join ((dsnFields req date boundary).map fun field =>
      line (field.1 ++ ": " ++ field.2)) ++
      line "" := by
  have names : "From: Mail Delivery System <MAILER-DAEMON@" =
        "From" ++ ": " ++ "Mail Delivery System <MAILER-DAEMON@" ∧
      "To: <" = "To" ++ ": " ++ "<" ∧
      "Subject: Undelivered Mail Returned to Sender" =
        "Subject" ++ ": " ++ "Undelivered Mail Returned to Sender" ∧
      "Date: " = "Date" ++ ": " ∧ "Message-ID: <dsn-" = "Message-ID" ++ ": " ++ "<dsn-" ∧
      "Auto-Submitted: auto-replied" = "Auto-Submitted" ++ ": " ++ "auto-replied" ∧
      "MIME-Version: 1.0" = "MIME-Version" ++ ": " ++ "1.0" ∧
      "Content-Type: multipart/report; report-type=delivery-status; boundary=\"" =
        "Content-Type" ++ ": " ++ "multipart/report; report-type=delivery-status; boundary=\"" := by
    decide
  obtain ⟨sender, recipient, subject, date, id, auto, version, type⟩ := names
  simp only [dsnHeader, dsnFields, sender, recipient, subject, date, id, auto, version, type, List.map_cons,
    List.map_nil, String.join_cons, String.join_nil, String.append_assoc, String.append_empty]

theorem bytes_fieldLines (fields : List (String × String)) :
    bytes (String.join (fields.map fun field => line (field.1 ++ ": " ++ field.2))) =
      written (fields.map fieldLine) := by
  simp only [bytes_join, List.flatMap_map, bytes_line, written, fieldLine]

theorem bytes_dsnHeader : bytes (dsnHeader req date boundary) =
    written ((dsnFields req date boundary).map fieldLine) ++ crlf := by
  rw [dsnHeader_eq, bytes_append, bytes_fieldLines, bytes_line]
  rfl

theorem bytes_empty : bytes "" = [] := by decide

theorem bytes_dsnTextPart :
    bytes (dsnTextPart req boundary) = marker boundary ++ crlf ++ textContent req ++ crlf := by
  have type : fieldLine ("Content-Type", "text/plain; charset=utf-8") =
      bytes "Content-Type: text/plain; charset=utf-8" := by decide
  have encoding : fieldLine ("Content-Transfer-Encoding", "7bit") =
      bytes "Content-Transfer-Encoding: 7bit" := by decide
  have human : bytes (String.join (req.failedRecipients.map (humanLine req))) =
      written (req.failedRecipients.map fun recipient =>
        bytes ("    " ++ sanitizeHeader recipient ++ ": " ++ sanitizeHeader req.diagnostic)) := by
    simp only [bytes_join, List.flatMap_map, humanLine, bytes_line, written]
  simp only [dsnTextPart, bytes_append (_ ++ _), bytes_append (line _), bytes_line, bytes_empty, human,
    textContent, textFields, textLines, List.map_cons, List.map_nil, type, encoding, written_append,
    written_cons, written_nil, crlf, List.append_assoc, List.nil_append, List.append_nil, marker]

theorem bytes_statusGroups (recipients : List String) :
    [cr, lf] ++ bytes (String.join (recipients.map (statusGroup req))) =
      written (recipients.flatMap fun recipient => [] :: recipientLines req recipient) ++
        [cr, lf] := by
  induction recipients with
  | nil => rfl
  | cons recipient recipients ih =>
    rw [List.flatMap_cons, written_append, written_cons, List.append_assoc, List.append_assoc, ← ih]
    simp only [List.map_cons, String.join_cons, statusGroup, bytes_append (_ ++ _),
      bytes_append (line _), bytes_line, bytes_empty, recipientLines, written_cons, written_nil,
      List.append_assoc, List.nil_append]

theorem bytes_dsnStatusPart :
    bytes (dsnStatusPart req boundary) = marker boundary ++ crlf ++ statusContent req ++ crlf := by
  have type : fieldLine ("Content-Type", "message/delivery-status") =
      bytes "Content-Type: message/delivery-status" := by decide
  have groups := @bytes_statusGroups req req.failedRecipients
  simp only [dsnStatusPart, bytes_append (_ ++ _), bytes_append (line _), bytes_line, bytes_empty,
    statusContent, statusFields, statusLines, List.map_cons, List.map_nil, type, written_append,
    written_cons, written_nil, crlf, List.append_assoc, List.nil_append, marker] at groups ⊢
  rw [← groups]

/-! ### The message that is returned -/

variable {c : Char}

theorem joinCrlf_cons {rest : List Char} (alone : ∀ more, c = '\r' → rest ≠ '\n' :: more) :
    joinCrlf (c :: rest) = c :: joinCrlf rest := by
  by_cases last : c = '\r' ∧ rest = []
  · obtain ⟨rfl, rfl⟩ := last
    rfl
  · exact joinCrlf.eq_4 c rest (fun isCr none => last ⟨isCr, none⟩) fun more isCr => alone more isCr

theorem toList_normalizeCrlf (text : String) :
    (normalizeCrlf text).toList = withCrlf text.toList := by
  rw [normalizeCrlf, String.toList_ofList]
  generalize text.toList = cs
  fun_induction withCrlf cs with
  | case1 => rfl
  | case2 rest ih => simp [joinCrlf, ih]
  | case3 rest other ih =>
    rw [joinCrlf_cons fun more _ eq => other more eq]
    simp [ih]
  | case4 rest ih =>
    rw [joinCrlf_cons fun more eq => absurd eq (by decide)]
    simp [ih]
  | case5 c rest notBoth notCr notLf ih =>
    have plain : c ≠ '\r' ∧ c ≠ '\n' := ⟨notCr, notLf⟩
    rw [joinCrlf_cons fun more eq => absurd eq notCr]
    simp [ih, plain]

theorem withCrlf_ends (cs : List Char) (last : (withCrlf cs).getLast? = some '\n') :
    ['\r', '\n'] <:+ withCrlf cs := by
  have step : ∀ {front rest : List Char}, ((withCrlf rest).getLast? = some '\n' →
        ['\r', '\n'] <:+ withCrlf rest) → (front.getLast? = some '\n' → ['\r', '\n'] <:+ front) →
      (front ++ withCrlf rest).getLast? = some '\n' → ['\r', '\n'] <:+ front ++ withCrlf rest := by
    intro front rest later here last
    by_cases none : withCrlf rest = []
    · rw [none, List.append_nil] at last ⊢
      exact here last
    · rw [List.getLast?_append_of_ne_nil _ none] at last
      exact (later last).trans (List.suffix_append _ _)
  fun_induction withCrlf cs with
  | case1 => cases last
  | case2 rest ih => exact @step ['\r', '\n'] rest ih (fun _ => List.suffix_refl _) last
  | case3 rest other ih => exact @step ['\r', '\n'] rest ih (fun _ => List.suffix_refl _) last
  | case4 rest ih => exact @step ['\r', '\n'] rest ih (fun _ => List.suffix_refl _) last
  | case5 c rest notBoth notCr notLf ih =>
    exact @step [c] rest ih (fun eq => absurd (Option.some.inj eq) notLf) last

variable {text : String}

theorem getLast?_of_lf_suffix (ends : [lf] <:+ bytes text) :
    text.toList.getLast? = some '\n' := by
  rcases List.eq_nil_or_concat text.toList with none | ⟨front, c, eq⟩
  · rw [bytes, none] at ends
    cases List.eq_nil_of_suffix_nil ends
  · rw [List.concat_eq_append] at eq
    rw [bytes, eq, List.flatMap_append, List.flatMap_singleton] at ends
    have last : (String.utf8EncodeChar c).getLast? = some lf := by
      obtain ⟨before, split⟩ := ends
      have both := congrArg List.getLast? split
      rw [List.getLast?_concat,
        List.getLast?_append_of_ne_nil _ String.utf8EncodeChar_ne_nil] at both
      exact both.symm
    have code := (ascii_mem_utf8EncodeChar (List.mem_of_getLast? last) (by decide)).1
    have same : c = '\n' := Char.ext (UInt32.toNat_inj.mp code)
    rw [eq, List.getLast?_concat, same]

/-- The final line ending of the returned message is the one before the delimiter. -/
theorem bytes_ended (text : String) :
    bytes (normalizeCrlf text) ++
        bytes (if (normalizeCrlf text).isEmpty ||
          ['\r', '\n'] <:+ (normalizeCrlf text).toList then ""
          else "\r\n") =
      if bytes (normalizeCrlf text) = [] then [] else trimOneCrlf (bytes (normalizeCrlf text)) ++
        crlf := by
  have crlf_eq : bytes "\r\n" = crlf := by decide
  have ends := withCrlf_ends text.toList
  rw [← toList_normalizeCrlf] at ends
  generalize normalizeCrlf text = body at ends
  by_cases none : body = ""
  · rw [none]
    decide
  · have some_ : bytes body ≠ [] := by
      intro empty
      rw [bytes, List.flatMap_eq_nil_iff] at empty
      refine none (String.toList_inj.mp (List.eq_nil_iff_forall_not_mem.mpr fun c mem => ?_))
      exact String.utf8EncodeChar_ne_nil (empty c mem)
    have filled : body.isEmpty = false := by simpa using none
    rw [if_neg some_, filled, Bool.false_or]
    by_cases suffix : ['\r', '\n'] <:+ body.toList
    · have shape : ∃ front, bytes body = front ++ crlf := by
        obtain ⟨front, eq⟩ := suffix
        refine ⟨front.flatMap String.utf8EncodeChar, ?_⟩
        rw [bytes, ← eq, List.flatMap_append]
        rfl
      obtain ⟨front, eq⟩ := shape
      rw [if_pos (by simpa using suffix), bytes_empty, List.append_nil, eq, trimOneCrlf_append]
    · have noLf : ¬[lf] <:+ bytes body := fun last => suffix (ends (getLast?_of_lf_suffix last))
      have noCrlf : ¬[cr, lf] <:+ bytes body :=
        fun last => noLf ((List.suffix_append [cr] [lf]).trans last)
      rw [if_neg (by simpa using suffix), crlf_eq, trimOneCrlf, if_neg noCrlf, if_neg noLf]

theorem bytes_dsnOriginalPart :
    bytes (dsnOriginalPart req boundary) =
      marker boundary ++ crlf ++ originalContent req ++ crlf := by
  have type : fieldLine ("Content-Type", "message/rfc822") =
      bytes "Content-Type: message/rfc822" := by decide
  have encoding : fieldLine ("Content-Transfer-Encoding", cteFor req.original.data) =
      bytes ("Content-Transfer-Encoding: " ++ cteFor req.original.data) := by
    unfold cteFor
    split <;> decide
  have ended := bytes_ended req.original.data
  simp only [dsnOriginalPart, bytes_append (_ ++ _), bytes_append (line _), bytes_line, bytes_empty,
    originalContent, originalFields, List.map_cons, List.map_nil, type, encoding,
    written_cons, written_nil, crlf, List.append_assoc, List.nil_append, marker] at ended ⊢
  rw [ended]
  split <;> simp

theorem bytes_buildDsn : bytes (buildDsn req date boundary) =
    written ((dsnFields req date boundary).map fieldLine) ++ crlf ++
      joined boundary [] [] (dsnParts req) := by
  have closed : bytes (line ("--" ++ boundary ++ "--")) = closing boundary ++ crlf := bytes_line _
  rw [buildDsn, bytes_append, bytes_append, bytes_append, bytes_append, bytes_dsnHeader,
    bytes_dsnTextPart, bytes_dsnStatusPart, bytes_dsnOriginalPart, closed]
  simp only [joined, dsnParts, List.flatMap_cons, List.flatMap_nil, List.nil_append, List.append_nil,
    List.append_assoc]

/-! ### Texts without a line break -/

def OneLine (text : List UInt8) : Prop := cr ∉ text ∧ lf ∉ text

instance : DecidablePred OneLine := fun text => inferInstanceAs (Decidable (cr ∉ text ∧ lf ∉ text))

theorem oneLine_append {text more : List UInt8} :
    OneLine (text ++ more) ↔ OneLine text ∧ OneLine more := by
  simp only [OneLine, List.mem_append, not_or]
  tauto

theorem oneLine_bytes (visible : ∀ c ∈ text.toList, isControl c = false) :
    OneLine (bytes text) := by
  have absent : ∀ byte : UInt8, byte.toNat < 0x80 → (∀ c : Char, c.val.toNat = byte.toNat →
      isControl c = true) → byte ∉ bytes text := by
    intro byte ascii control mem
    obtain ⟨c, inside, part⟩ := List.mem_flatMap.mp mem
    have hidden := control c (ascii_mem_utf8EncodeChar part ascii).1
    rw [visible c inside] at hidden
    cases hidden
  constructor
  · refine absent cr (by decide) fun c code => ?_
    rw [show c = '\r' from Char.ext (UInt32.toNat_inj.mp code)]
    decide
  · refine absent lf (by decide) fun c code => ?_
    rw [show c = '\n' from Char.ext (UInt32.toNat_inj.mp code)]
    decide

theorem oneLine_sanitizeHeader (value : String) : OneLine (bytes (sanitizeHeader value)) := by
  refine oneLine_bytes fun c mem => ?_
  have inside := mem_of_mem_trim mem
  rw [String.toList_ofList] at inside
  obtain ⟨d, _, rfl⟩ := List.mem_map.mp inside
  split
  · decide
  · rename_i visible
    exact Bool.eq_false_iff.mpr visible

theorem oneLine_digits (digits : ∀ c ∈ text.toList, c.isDigit = true ∨ c = '-') :
    OneLine (bytes text) := by
  refine oneLine_bytes fun c mem => ?_
  rcases digits c mem with digit | rfl
  · have range : 48 ≤ c.toNat ∧ c.toNat ≤ 57 := by
      simpa [Char.isDigit, UInt32.le_iff_toNat_le] using digit
    exact isControl_eq_false (by omega)
  · decide

theorem oneLine_zeroPadded (width : Nat) (n : Int) : OneLine (bytes (zeroPadded width n)) := by
  refine oneLine_digits fun c mem => ?_
  simp only [zeroPadded, String.toList_append, String.toList_ofList, List.mem_append] at mem
  rcases mem with (sign | zero) | digit
  · split at sign
    · exact .inr (by simpa using sign)
    · simp at sign
  · rw [List.eq_of_mem_replicate zero]
    exact .inl (by decide)
  · exact .inl (isDigit_of_mem_toString digit)

theorem OneLine.append {text more : String} (here : OneLine (bytes text))
    (there : OneLine (bytes more)) : OneLine (bytes (text ++ more)) := by
  rw [bytes_append, oneLine_append]
  exact ⟨here, there⟩

theorem oneLine_rfc2822 (dt : OffsetDateTime) : OneLine (bytes (rfc2822 dt)) := by
  have weekday : ∀ i : Fin 7, OneLine (bytes weekdays[i]) := by decide
  have month : ∀ i : Fin 12, OneLine (bytes months[i]) := by decide
  have comma : OneLine (bytes ", ") := by decide
  have blank : OneLine (bytes " ") := by decide
  have colon : OneLine (bytes ":") := by decide
  have sign : OneLine (bytes (if dt.offsetMinutes < 0 then "-" else "+")) := by
    split <;> decide
  have two := oneLine_zeroPadded 2
  have date := ((((((weekday dt.weekday).append comma).append (two dt.day)).append blank).append
    (month dt.month)).append blank).append (oneLine_zeroPadded 0 dt.year)
  have clock := (((((date.append blank).append (two dt.hour)).append colon).append
    (two dt.minute)).append colon).append (two dt.second)
  exact (((clock.append blank).append sign).append (two _)).append (two _)

/-! ### The boundary that is declared -/

def IsBoundary (boundary : String) : Prop :=
  ∃ random, boundary = "=_MailStack_" ++ hexEncode random

theorem isBoundary_of_fresh {parts : List String} {short long : List (List UInt8)}
    (fresh : freshBoundary parts short long = some boundary) : IsBoundary boundary := by
  obtain ⟨random, _, eq⟩ := List.mem_map.mp (List.mem_of_find?_eq_some fresh)
  exact ⟨random, eq.symm⟩

theorem IsBoundary.chars (h : IsBoundary boundary) (mem : c ∈ boundary.toList) :
    isControl c = false ∧ isWhitespace c = false ∧ c ≠ '"' ∧ c ≠ ';' ∧ c ≠ '\\' := by
  obtain ⟨random, rfl⟩ := h
  rw [String.toList_append, List.mem_append] at mem
  rcases mem with mark | hex
  · have all : ∀ c ∈ "=_MailStack_".toList,
        isControl c = false ∧ isWhitespace c = false ∧ c ≠ '"' ∧ c ≠ ';' ∧ c ≠ '\\' := by decide
    exact all c mark
  · have letter := isAlphanum_of_mem_hexEncode hex
    have range := isAlphanum_range letter
    refine ⟨isControl_eq_false (by omega), isWhitespace_eq_false (by omega), ?_, ?_, ?_⟩
    all_goals
      rintro rfl
      exact absurd letter (by decide)

theorem oneLine_boundary (h : IsBoundary boundary) : OneLine (bytes boundary) :=
  oneLine_bytes fun _ mem => (h.chars mem).1

variable {cs : List Char}

theorem segmentsLoop_plain (plain : ∀ c ∈ cs, c ≠ '"' ∧ c ≠ ';' ∧ c ≠ '\\')
    (segments : List String) (current rest : List Char) (inQuote : Bool) :
    segmentsLoop segments current inQuote false (cs ++ rest) =
      segmentsLoop segments (current ++ cs) inQuote false rest := by
  induction cs generalizing current with
  | nil => simp
  | cons c cs ih =>
    obtain ⟨quote, semicolon, escape⟩ := plain c List.mem_cons_self
    rw [List.cons_append, segmentsLoop]
    simp only [quote, semicolon, escape, decide_false, Bool.false_and, Bool.false_eq_true, if_false]
    rw [ih fun c mem => plain c (List.mem_cons_of_mem _ mem), List.append_assoc,
      List.singleton_append]

theorem unescape_plain (plain : '\\' ∉ cs) : unescape cs = cs := by
  induction cs with
  | nil => rfl
  | cons c cs ih =>
    rw [List.mem_cons, not_or] at plain
    rw [unescape.eq_4 c cs (fun eq => absurd eq.symm plain.1) (fun _ _ eq => absurd eq.symm plain.1),
      ih plain.2]

theorem segmentsLoop_contentType (h : IsBoundary boundary) :
    segmentsLoop [] [] false false
        ("multipart/report; report-type=delivery-status; boundary=\"" ++ boundary ++ "\"").toList =
      ["multipart/report", " report-type=delivery-status", " boundary=\"" ++ boundary ++ "\""] := by
  have front : "multipart/report; report-type=delivery-status; boundary=\"".toList =
      "multipart/report".toList ++ (';' :: (" report-type=delivery-status".toList ++
        (';' :: (" boundary=".toList ++ ['"'])))) := by decide
  have plain : (∀ c ∈ "multipart/report".toList, c ≠ '"' ∧ c ≠ ';' ∧ c ≠ '\\') ∧
      (∀ c ∈ " report-type=delivery-status".toList, c ≠ '"' ∧ c ≠ ';' ∧ c ≠ '\\') ∧
      ∀ c ∈ " boundary=".toList, c ≠ '"' ∧ c ≠ ';' ∧ c ≠ '\\' := by decide
  obtain ⟨type, report, name⟩ := plain
  have drawn : ∀ c ∈ boundary.toList, c ≠ '"' ∧ c ≠ ';' ∧ c ≠ '\\' :=
    fun c mem => (h.chars mem).2.2
  have quote : "\"".toList = ['"'] := by decide
  have mark : " boundary=".toList ++ ['"'] = " boundary=\"".toList := by decide
  rw [String.toList_append, String.toList_append, front, quote]
  simp only [List.append_assoc, List.cons_append]
  -- a semicolon ends a segment, and the quotation mark is part of one
  have ended : ∀ (segments : List String) (current rest : List Char),
      segmentsLoop segments current false false (';' :: rest) =
        segmentsLoop (segments ++ [String.ofList current]) [] false false rest := fun _ _ _ => rfl
  have quoted : ∀ (segments : List String) (current rest : List Char) (inQuote : Bool),
      segmentsLoop segments current inQuote false ('"' :: rest) =
        segmentsLoop segments (current ++ ['"']) (!inQuote) false rest := by
    intro segments current rest inQuote
    cases inQuote <;> rfl
  rw [segmentsLoop_plain type, ended, segmentsLoop_plain report, ended, segmentsLoop_plain name,
    List.nil_append, quoted]
  simp only [List.nil_append]
  have last : String.ofList (" boundary=\"".toList ++ boundary.toList ++ ['"']) =
      " boundary=\"" ++ boundary ++ "\"" := by
    rw [← String.toList_inj, String.toList_ofList, String.toList_append, String.toList_append, quote]
  rw [segmentsLoop_plain drawn, quoted, mark, segmentsLoop, last, String.ofList_toList,
    String.ofList_toList]
  rfl

theorem parseParam_eq {segment name raw key : String}
    (text : segment = name ++ String.singleton '=' ++ raw) (absent : '=' ∉ name.toList)
    (upper : toAsciiUppercase (trimMatches '"' (trim name)) = key) (some_ : key.isEmpty = false) :
    parseParam segment = some (key, unquote (trim raw)) := by
  have parts : splitOnce '=' segment = some (name, raw) := by
    rw [text]
    exact splitOnce_append absent raw
  unfold parseParam
  rw [parts]
  simp only [upper, some_, Bool.false_eq_true, if_false]

theorem parseParam_boundary (h : IsBoundary boundary) :
    parseParam (" boundary=\"" ++ boundary ++ "\"") = some ("BOUNDARY", boundary) := by
  have front : " boundary=\"" = " boundary" ++ String.singleton '=' ++ "\"" := by decide
  have text : " boundary=\"" ++ boundary ++ "\"" =
      " boundary" ++ String.singleton '=' ++ ("\"" ++ boundary ++ "\"") := by
    rw [front]
    simp only [String.append_assoc]
  have quoted : ("\"" ++ boundary ++ "\"").toList = '"' :: (boundary.toList ++ ['"']) := by simp
  have trimmed : trim ("\"" ++ boundary ++ "\"") = "\"" ++ boundary ++ "\"" :=
    trim_between quoted (by decide) (by decide)
  have backslash : '\\' ∉ boundary.toList := fun mem => (h.chars mem).2.2.2.2 rfl
  have value : unquote ("\"" ++ boundary ++ "\"") = boundary := by
    have inner : (boundary.toList ++ ['"']).dropLast = boundary.toList := List.dropLast_concat
    have last : ('"' :: (boundary.toList ++ ['"'])).getLast? = some '"' := by
      rw [← List.cons_append, List.getLast?_concat]
    have long : ('"' :: (boundary.toList ++ ['"'])).length ≥ 2 := by simp
    simp only [unquote, trimmed, quoted, List.head?_cons, last, long, decide_true, Bool.and_self,
      if_true, List.drop_succ_cons, List.drop_zero, inner, unescape_plain backslash,
      String.ofList_toList]
  have key : toAsciiUppercase (trimMatches '"' (trim " boundary")) = "BOUNDARY" := by decide
  rw [parseParam_eq text (by decide) key (by decide), trimmed, value]

/-! ### What is read -/

theorem isFieldNames : List.Forall₂ (fun field lower => IsFieldName field.1 lower)
    (dsnFields req date boundary)
    ["from", "to", "subject", "date", "message-id", "auto-submitted", "mime-version",
      "content-type"] := by
  have named : ∀ name lower : String, (58 : UInt8) ∉ bytes name ∧
      toAsciiLowercase (trim name) = lower ∧
      (lower.isEmpty || !lower.toList.all fun c => 0x21 ≤ c.val && c.val ≤ 0x7e) = false ∧
      (bytes name).head? ≠ some 32 ∧ (bytes name).head? ≠ some 9 → IsFieldName name lower :=
    fun _ _ ⟨colon, lowered, graphic, own⟩ => ⟨colon, lowered, graphic, own⟩
  refine .cons (named _ _ ?_) (.cons (named _ _ ?_) (.cons (named _ _ ?_) (.cons (named _ _ ?_)
    (.cons (named _ _ ?_) (.cons (named _ _ ?_) (.cons (named _ _ ?_) (.cons (named _ _ ?_) .nil)))))))
  all_goals
    dsimp only
    decide

theorem oneLine_id (validId : isSafeId req.original.id = true) :
    OneLine (bytes req.original.id) := by
  refine oneLine_bytes fun c mem => ?_
  simp only [isSafeId, Bool.and_eq_true, List.all_eq_true, Bool.or_eq_true,
    decide_eq_true_eq] at validId
  rcases validId.2 c mem with ⟨_, letter⟩ | rfl
  · have range := isAlphanum_range letter
    exact isControl_eq_false (by omega)
  · decide

theorem oneLine_dsnFields (validId : isSafeId req.original.id = true) (dated : OneLine (bytes date))
    (h : IsBoundary boundary) :
    ∀ field ∈ dsnFields req date boundary, OneLine (fieldLine field) := by
  have line : ∀ name value : String, OneLine (bytes (name ++ ": ")) → OneLine (bytes value) →
      OneLine (fieldLine (name, value)) := fun _ _ name value => name.append value
  have mta := oneLine_sanitizeHeader req.reportingMta
  have address := oneLine_sanitizeHeader ((dsnRecipient req.original).getD "")
  have angle : OneLine (bytes ">") := by decide
  have sender : OneLine (bytes "Mail Delivery System <MAILER-DAEMON@") := by decide
  have opening : OneLine (bytes "<") := by decide
  have dsn : OneLine (bytes "<dsn-") := by decide
  have sign : OneLine (bytes "@") := by decide
  have type : OneLine
      (bytes "multipart/report; report-type=delivery-status; boundary=\"") := by decide
  have quote : OneLine (bytes "\"") := by decide
  simp only [dsnFields, List.forall_mem_cons]
  refine ⟨line _ _ (by decide) ((sender.append mta).append angle),
    line _ _ (by decide) ((opening.append address).append angle), line _ _ (by decide) (by decide),
    line _ _ (by decide) dated,
    line _ _ (by decide) ((((dsn.append (oneLine_id validId)).append sign).append mta).append angle),
    line _ _ (by decide) (by decide), line _ _ (by decide) (by decide),
    line _ _ (by decide) ((type.append (oneLine_boundary h)).append quote), by simp⟩

/-- The boundary is read from the value that declares it. -/
theorem param_boundary (h : IsBoundary boundary) :
    (parseContentTypeValue (some (trim (" " ++
      ("multipart/report; report-type=delivery-status; boundary=\"" ++ boundary ++ "\""))))).param
        "boundary" = some boundary := by
  have trimmed : trim (" " ++
      ("multipart/report; report-type=delivery-status; boundary=\"" ++ boundary ++ "\"")) =
        "multipart/report; report-type=delivery-status; boundary=\"" ++ boundary ++ "\"" := by
    have first : "multipart/report; report-type=delivery-status; boundary=\"".toList =
        'm' :: "ultipart/report; report-type=delivery-status; boundary=\"".toList := by decide
    have quote : "\"".toList = ['"'] := by decide
    rw [trim_blank]
    apply trim_between (c := 'm') (d := '"')
    · rw [String.toList_append, String.toList_append, first, quote]
      rfl
    · decide
    · decide
  have report : parseParam " report-type=delivery-status" =
      some ("REPORT-TYPE", unquote (trim "delivery-status")) := by
    have text : " report-type=delivery-status" =
        " report-type" ++ String.singleton '=' ++ "delivery-status" := by decide
    have key : toAsciiUppercase (trimMatches '"' (trim " report-type")) = "REPORT-TYPE" := by decide
    exact parseParam_eq text (by decide) key (by decide)
  have other : eqIgnoreAsciiCase "REPORT-TYPE" "boundary" = false := by decide
  have same : eqIgnoreAsciiCase "BOUNDARY" "boundary" = true := by decide
  simp only [parseContentTypeValue, trimmed, segmentsLoop_contentType h, ContentType.param,
    List.drop_succ_cons, List.drop_zero, List.filterMap_cons, List.filterMap_nil, report,
    parseParam_boundary h, List.find?_cons, other, same, Option.map_some]

/-- The header ends before the first delimiter, and it declares the boundary. -/
theorem splitHeadersBody_buildDsn (validId : isSafeId req.original.id = true)
    (dated : OneLine (bytes date)) (h : IsBoundary boundary) :
    splitHeadersBody (bytes (buildDsn req date boundary)) =
        (written ((dsnFields req date boundary).map fieldLine),
          joined boundary [] [] (dsnParts req)) ∧
      (contentType (readFields (bytes (buildDsn req date boundary)))).param "boundary" =
        some boundary := by
  have plain := oneLine_dsnFields validId dated h
  have split : splitHeadersBody (bytes (buildDsn req date boundary)) =
      (written ((dsnFields req date boundary).map fieldLine),
        joined boundary [] [] (dsnParts req)) := by
    rw [bytes_buildDsn]
    refine splitHeadersBody_written (by simp [dsnFields]) ?_ _
    intro line mem
    obtain ⟨field, inside, rfl⟩ := List.mem_map.mp mem
    refine ⟨?_, (plain field inside).2⟩
    rw [fieldLine_eq]
    simp
  refine ⟨split, ?_⟩
  have fields := fieldsOf_fieldLines (@isFieldNames req date boundary)
    (fun field mem => (plain field mem).2) (by simp [dsnFields, maxHeaderLines])
  have value : (readFields (bytes (buildDsn req date boundary))).get "content-type" =
      some (trim (" " ++ ("multipart/report; report-type=delivery-status; boundary=\"" ++ boundary ++
        "\""))) := by
    have others : eqIgnoreAsciiCase "from" "content-type" = false ∧
        eqIgnoreAsciiCase "to" "content-type" = false ∧
        eqIgnoreAsciiCase "subject" "content-type" = false ∧
        eqIgnoreAsciiCase "date" "content-type" = false ∧
        eqIgnoreAsciiCase "message-id" "content-type" = false ∧
        eqIgnoreAsciiCase "auto-submitted" "content-type" = false ∧
        eqIgnoreAsciiCase "mime-version" "content-type" = false ∧
        eqIgnoreAsciiCase "content-type" "content-type" = true := by decide
    obtain ⟨sender, to_, subject, date, id, auto, version, type⟩ := others
    rw [readFields, split, fields]
    simp only [Headers.get, dsnFields, List.zipWith_cons_cons, List.zipWith_nil_left, asHeaderLine,
      List.find?_cons, sender, to_, subject, date, id, auto, version, type, Option.map_some]
  rw [contentType, value, param_boundary h]

theorem trimAscii_isPrefix (line : List UInt8) : trimAscii line <+: line := by
  rw [trimAscii, ← List.reverse_suffix, List.reverse_reverse]
  exact List.dropWhile_suffix _

theorem infix_of_delimiter {line : List UInt8}
    (delimiter : trimAscii line = marker boundary ∨ trimAscii line = closing boundary) :
    bytes boundary <:+: line := by
  have inside : bytes boundary <:+: trimAscii line := by
    rcases delimiter with eq | eq
    · rw [eq, marker_eq]
      exact (List.suffix_append _ _).isInfix
    · rw [eq, closing_eq, marker_eq]
      exact (List.suffix_append _ _).isInfix.trans (List.prefix_append _ _).isInfix
  exact inside.trans (trimAscii_isPrefix line).isInfix

/-- The boundary is in no line of a part. -/
def Absent (req : DsnRequest) (boundary : String) : Prop :=
  ∀ part ∈ dsnParts req, ∀ line ∈ splitInclusive part, ¬bytes boundary <:+: line

theorem joinable_dsnParts (h : IsBoundary boundary) (absent : Absent req boundary) :
    Joinable boundary [] (dsnParts req) where
  trailing c last := (h.chars (List.mem_of_getLast? last)).2.1
  few := by simp [dsnParts, maxParts]
  plain part mem line inside := by
    have none := absent part mem line inside
    exact ⟨fun eq => none (infix_of_delimiter (.inl eq)),
      fun eq => none (infix_of_delimiter (.inr eq))⟩
  before line mem := absurd mem List.not_mem_nil
  ended := .inl rfl

theorem declaredParts_buildDsn (validId : isSafeId req.original.id = true)
    (dated : OneLine (bytes date)) (h : IsBoundary boundary) (absent : Absent req boundary) :
    declaredParts (bytes (buildDsn req date boundary)) = some (dsnParts req) := by
  obtain ⟨split, declared⟩ := splitHeadersBody_buildDsn validId dated h
  have noLf : '\n' ∉ boundary.toList := by
    intro mem
    exact absurd (h.chars mem).1 (by decide)
  have parts := (@multipartParts_joined_iff boundary [] [] (dsnParts req)
    (joinable_dsnParts h absent)).mpr (.inr noLf)
  rw [declaredParts, declared, split]
  exact congrArg some parts

/-! ### The status part -/

theorem oneLine_recipientLines (recipient : String) :
    ∀ field ∈ recipientLines req recipient, OneLine field := by
  have final : OneLine (bytes "Final-Recipient: rfc822; ") := by decide
  have status : OneLine (bytes ("Status: " ++ extendedStatus req.statusCode)) := by
    unfold extendedStatus
    split <;> decide
  have diagnostic : OneLine (bytes "Diagnostic-Code: smtp; ") := by decide
  simp only [recipientLines, List.forall_mem_cons]
  exact ⟨final.append (oneLine_sanitizeHeader _), by decide, status,
    diagnostic.append (oneLine_sanitizeHeader _), by simp⟩

theorem oneLine_statusLines : ∀ field ∈ statusLines req, OneLine field := by
  have mta : OneLine (bytes "Reporting-MTA: dns; ") := by decide
  intro field mem
  rcases List.mem_append.mp mem with first | later
  · rw [List.mem_singleton.mp first]
    exact mta.append (oneLine_sanitizeHeader _)
  · obtain ⟨recipient, _, inside⟩ := List.mem_flatMap.mp later
    rcases List.mem_cons.mp inside with rfl | inside
    · decide
    · exact oneLine_recipientLines recipient field inside

theorem splitOn_groups {part : List (List UInt8)} (filled : [] ∉ part) (recipients : List String) :
    (part ++ recipients.flatMap fun recipient => [] :: recipientLines req recipient).splitOn [] =
      part :: recipients.map (recipientLines req) := by
  induction recipients generalizing part with
  | nil =>
    rw [List.flatMap_nil, List.append_nil, List.map_nil, List.splitOn_eq_singleton filled]
  | cons recipient recipients ih =>
    have marks : bytes "Final-Recipient: rfc822; " ≠ [] ∧ bytes "Action: failed" ≠ [] ∧
        bytes "Status: " ≠ [] ∧ bytes "Diagnostic-Code: smtp; " ≠ [] := by decide
    have lines : [] ∉ recipientLines req recipient := by
      simp [recipientLines, Ne.symm, marks]
    rw [List.flatMap_cons, List.cons_append, List.splitOn_append_cons_self_of_not_mem filled,
      ih lines, List.map_cons]

theorem statusBlocks_statusContent : statusBlocks (statusContent req) =
    [bytes ("Reporting-MTA: dns; " ++ sanitizeHeader req.reportingMta)] ::
      req.failedRecipients.map (recipientLines req) := by
  have mark : bytes "Reporting-MTA: dns; " ≠ [] := by decide
  have filled : [] ∉ [bytes ("Reporting-MTA: dns; " ++ sanitizeHeader req.reportingMta)] := by
    simp [mark]
  have body : (splitHeadersBody (statusContent req)).2 = written (statusLines req) := by
    rw [statusContent, crlf, splitHeadersBody_written (by simp [statusFields]) (by decide)]
  rw [statusBlocks, body, map_content_written fun line mem => (oneLine_statusLines line mem).2]
  exact splitOn_groups filled req.failedRecipients

theorem finalRecipient_recipientLines (recipient : String) :
    finalRecipient (recipientLines req recipient) = some (bytes (sanitizeHeader recipient)) := by
  have prefix_ : (bytes "Final-Recipient: rfc822; ").isPrefixOf
      (bytes ("Final-Recipient: rfc822; " ++ sanitizeHeader recipient)) = true := by
    rw [bytes_append, List.isPrefixOf_iff_prefix]
    exact List.prefix_append _ _
  rw [finalRecipient, recipientLines, List.find?_cons_of_pos prefix_, Option.map_some, bytes_append,
    List.drop_left]

theorem bytes_injective {s t : String} (same : bytes s = bytes t) : s = t := by
  have read := fromUtf8_bytes s
  rw [same, fromUtf8_bytes] at read
  exact (Option.some.inj read).symm

/-! ### The encodings -/

theorem isAscii_append {text more : List UInt8} :
    IsAscii (text ++ more) ↔ IsAscii text ∧ IsAscii more := List.forall_mem_append

theorem isAscii_written {lines : List (List UInt8)} :
    IsAscii (written lines) ↔ ∀ line ∈ lines, IsAscii line := by
  induction lines with
  | nil => simp [IsAscii]
  | cons line lines ih =>
    have ends : IsAscii [cr, lf] := by decide
    rw [written_cons, isAscii_append, isAscii_append, ih, List.forall_mem_cons, and_iff_left ends]

theorem isAscii_textContent (some_ : req.failedRecipients ≠ []) : IsAscii (textContent req) ↔
    ∀ value ∈ req.reportingMta :: req.diagnostic :: req.failedRecipients,
      IsAscii (bytes (sanitizeHeader value)) := by
  have fields : IsAscii (written (textFields.map fieldLine)) ∧ IsAscii crlf := by decide
  have host : IsAscii
      (bytes ("This is the mail system at host " ++ sanitizeHeader req.reportingMta ++
      ".")) ↔ IsAscii (bytes (sanitizeHeader req.reportingMta)) := by
    have marks : IsAscii (bytes "This is the mail system at host ") ∧
        IsAscii (bytes ".") := by decide
    rw [bytes_append, bytes_append, isAscii_append, isAscii_append, and_iff_left marks.2,
      and_iff_right marks.1]
  have human : ∀ recipient, IsAscii (bytes ("    " ++ sanitizeHeader recipient ++ ": " ++
      sanitizeHeader req.diagnostic)) ↔
        IsAscii (bytes (sanitizeHeader recipient)) ∧
          IsAscii (bytes (sanitizeHeader req.diagnostic)) := by
    intro recipient
    have marks : IsAscii (bytes "    ") ∧ IsAscii (bytes ": ") := by decide
    rw [bytes_append, bytes_append, bytes_append, isAscii_append, isAscii_append, isAscii_append,
      and_iff_left marks.2, and_iff_right marks.1]
  have apology : IsAscii
      (bytes "I'm sorry to have to inform you that your message could not be delivered to one") := by
    decide
  have attached : IsAscii
      (bytes "or more recipients. The original message is attached below.") := by
    decide
  have none : IsAscii [] := by decide
  obtain ⟨first, mem⟩ := List.exists_mem_of_ne_nil _ some_
  rw [textContent, isAscii_append, isAscii_append, and_iff_right fields, isAscii_written, textLines]
  simp only [List.forall_mem_append, List.forall_mem_cons, List.forall_mem_map, host, human]
  constructor
  · rintro ⟨⟨mta, _⟩, shown⟩
    exact ⟨mta, (shown first mem).2, fun recipient inside => (shown recipient inside).1⟩
  · rintro ⟨mta, diagnostic, recipients⟩
    exact ⟨⟨mta, none, apology, attached, none, by simp⟩,
      fun recipient inside => ⟨recipients recipient inside, diagnostic⟩⟩

theorem isFieldName_type : IsFieldName "Content-Type" "content-type" where
  colon := by decide
  lowered := by decide
  graphic := by decide
  own := by decide

theorem isFieldName_encoding :
    IsFieldName "Content-Transfer-Encoding" "content-transfer-encoding" where
  colon := by decide
  lowered := by decide
  graphic := by decide
  own := by decide

/-- A part declares the encoding of its second field. -/
theorem get_encoding {type encoding : String} {body : List UInt8}
    (plain : OneLine (fieldLine ("Content-Type", type)) ∧
      OneLine (fieldLine ("Content-Transfer-Encoding", encoding))) :
    splitHeadersBody (written ([("Content-Type", type), ("Content-Transfer-Encoding", encoding)].map
        fieldLine) ++ [cr, lf] ++ body) =
      (written ([("Content-Type", type), ("Content-Transfer-Encoding", encoding)].map fieldLine), body) ∧
    (Headers.mk (fieldsOf (written ([("Content-Type", type),
      ("Content-Transfer-Encoding", encoding)].map fieldLine)))).get "content-transfer-encoding" =
        some (trim (" " ++ encoding)) := by
  have other : eqIgnoreAsciiCase "content-type" "content-transfer-encoding" = false := by decide
  have same : eqIgnoreAsciiCase "content-transfer-encoding" "content-transfer-encoding" = true := by
    decide
  have lines : ∀ field ∈ [("Content-Type", type), ("Content-Transfer-Encoding", encoding)],
      lf ∉ fieldLine field := by
    simp only [List.forall_mem_cons]
    exact ⟨plain.1.2, plain.2.2, by simp⟩
  constructor
  · refine splitHeadersBody_written (by simp) ?_ body
    intro line mem
    obtain ⟨field, inside, rfl⟩ := List.mem_map.mp mem
    exact ⟨by simp [fieldLine_eq], lines field inside⟩
  · rw [fieldsOf_fieldLines (.cons isFieldName_type (.cons isFieldName_encoding .nil)) lines
      (by simp [maxHeaderLines])]
    simp only [Headers.get, List.zipWith_cons_cons, List.zipWith_nil_left, asHeaderLine,
      List.find?_cons, other, same, Option.map_some]

theorem oneLine_textFields : OneLine (fieldLine ("Content-Type", "text/plain; charset=utf-8")) ∧
    OneLine (fieldLine ("Content-Transfer-Encoding", "7bit")) := by decide

theorem oneLine_originalFields (text : String) :
    OneLine (fieldLine ("Content-Type", "message/rfc822")) ∧
      OneLine (fieldLine ("Content-Transfer-Encoding", cteFor text)) := by
  unfold cteFor
  split <;> decide

theorem declaredEncoding_textContent : declaredEncoding (textContent req) = some "7bit" := by
  obtain ⟨split, declared⟩ := @get_encoding _ _ (written (textLines req)) oneLine_textFields
  have trimmed : trim (" " ++ "7bit") = "7bit" := by decide
  rw [declaredEncoding, readFields, textContent, crlf, textFields, split, declared, trimmed]

theorem declaredEncoding_statusContent : declaredEncoding (statusContent req) = none := by
  have line : OneLine (fieldLine ("Content-Type", "message/delivery-status")) ∧
      fieldLine ("Content-Type", "message/delivery-status") ≠ [] := by decide
  have other : eqIgnoreAsciiCase "content-type" "content-transfer-encoding" = false := by decide
  have head : (splitHeadersBody (statusContent req)).1 = written (statusFields.map fieldLine) := by
    rw [statusContent, crlf, splitHeadersBody_written (by simp [statusFields])]
    simpa [statusFields] using ⟨line.2, line.1.2⟩
  rw [declaredEncoding, readFields, head, statusFields,
    fieldsOf_fieldLines (.cons isFieldName_type .nil) (by simpa using line.1.2) (by decide)]
  simp only [Headers.get, List.zipWith_cons_cons, List.zipWith_nil_left, asHeaderLine, List.find?_cons,
    List.find?_nil, other, Option.map_none]

theorem splitHeadersBody_originalContent :
    splitHeadersBody (originalContent req) =
      (written ((originalFields (cteFor req.original.data)).map fieldLine),
        trimOneCrlf (bytes (normalizeCrlf req.original.data))) := by
  unfold originalContent
  dsimp only
  split
  · rename_i empty
    rw [empty, List.append_nil]
    unfold cteFor
    split <;> decide
  · rw [← List.append_assoc]
    exact (get_encoding (oneLine_originalFields req.original.data)).1

theorem declaredEncoding_originalContent :
    declaredEncoding (originalContent req) = some (cteFor req.original.data) := by
  have trimmed : trim (" " ++ cteFor req.original.data) = cteFor req.original.data := by
    unfold cteFor
    split <;> decide
  rw [declaredEncoding, readFields, splitHeadersBody_originalContent, originalFields,
    (@get_encoding _ _ [] (oneLine_originalFields req.original.data)).2, trimmed]

theorem mem_withCrlf (mem : c ∈ withCrlf cs) :
    c ∈ cs ∨ c = '\r' ∨ c = '\n' := by
  fun_induction withCrlf cs with
  | case1 => cases mem
  | case2 rest ih =>
    simp only [List.mem_cons] at mem ⊢
    rcases mem with rfl | rfl | later
    · exact .inl (.inl rfl)
    · exact .inl (.inr (.inl rfl))
    · exact (ih later).imp_left fun inside => .inr (.inr inside)
  | case3 rest other ih =>
    simp only [List.mem_cons] at mem ⊢
    rcases mem with rfl | rfl | later
    · exact .inl (.inl rfl)
    · exact .inr (.inr rfl)
    · exact (ih later).imp_left .inr
  | case4 rest ih =>
    simp only [List.mem_cons] at mem ⊢
    rcases mem with rfl | rfl | later
    · exact .inr (.inl rfl)
    · exact .inl (.inl rfl)
    · exact (ih later).imp_left .inr
  | case5 d rest notBoth notCr notLf ih =>
    rw [List.mem_cons] at mem ⊢
    rcases mem with rfl | later
    · exact .inl (.inl rfl)
    · exact (ih later).imp_left .inr

theorem isAscii_originalContent (declared : cteFor req.original.data = "7bit") :
    IsAscii (originalContent req) := by
  have ascii : ∀ c ∈ req.original.data.toList, IsAscii (String.utf8EncodeChar c) := by
    have all : (bytes req.original.data).all (· < 0x80) = true := by
      by_contra other
      rw [cteFor, if_neg other] at declared
      exact absurd declared (by decide)
    intro c mem byte inside
    exact of_decide_eq_true (List.all_eq_true.mp all byte (List.mem_flatMap.mpr ⟨c, mem, inside⟩))
  have body : IsAscii (bytes (normalizeCrlf req.original.data)) := by
    rw [bytes, toList_normalizeCrlf]
    intro byte mem
    obtain ⟨c, inside, part⟩ := List.mem_flatMap.mp mem
    rcases mem_withCrlf inside with own | rfl | rfl
    · exact ascii c own byte part
    · exact (by decide : IsAscii (String.utf8EncodeChar '\r')) byte part
    · exact (by decide : IsAscii (String.utf8EncodeChar '\n')) byte part
  have trimmed : IsAscii (trimOneCrlf (bytes (normalizeCrlf req.original.data))) := by
    unfold trimOneCrlf
    split
    · exact fun byte mem => body byte (List.dropLast_subset _ (List.dropLast_subset _ mem))
    split
    · exact fun byte mem => body byte (List.dropLast_subset _ mem)
    · exact body
  have fields : IsAscii (written ((originalFields "7bit").map fieldLine)) ∧
      IsAscii crlf := by decide
  unfold originalContent
  dsimp only
  rw [declared, isAscii_append, and_iff_right fields.1]
  split
  · exact List.forall_mem_nil _
  · exact isAscii_append.mpr ⟨fields.2, trimmed⟩

/-- Whom a notification reports on, as far as `build_dsn` can write it: the parts are there, each
failed recipient has its group of fields without a line break, and the message follows with its line
endings made CRLF; the status part and the message are declared as what they are. The recipients are
the ones themselves, and the text part is declared as what it is, exactly where `sanitize_header`
leaves the recipients alone and what is shown is ASCII. -/
theorem dsn_structure {short long : List (List UInt8)} (dt : OffsetDateTime)
    (valid : req.original.validate = .ok ()) (some_ : req.failedRecipients ≠ [])
    (fresh : freshBoundary [req.original.data, req.diagnostic] short long = some boundary)
    (absent : Absent req boundary) :
    (∃ text status original,
      declaredParts (bytes (buildDsn req (rfc2822 dt) boundary)) = some [text, status, original] ∧
        ((statusBlocks status).drop 1).map finalRecipient =
          req.failedRecipients.map (fun recipient => some (bytes (sanitizeHeader recipient))) ∧
        (∀ block ∈ statusBlocks status, ∀ field ∈ block, cr ∉ field ∧ lf ∉ field) ∧
        (splitHeadersBody original).2 =
          trimOneCrlf (bytes (String.ofList (withCrlf req.original.data.toList))) ∧
        ∀ part ∈ [status, original], declaredEncoding part = some "7bit" → IsAscii part) ∧
      (Reports req (bytes (buildDsn req (rfc2822 dt) boundary)) ↔
        (∀ recipient ∈ req.failedRecipients, sanitizeHeader recipient = recipient) ∧
          ∀ value ∈ req.reportingMta :: req.diagnostic :: req.failedRecipients,
            IsAscii (bytes (sanitizeHeader value))) := by
  have validId := (QueueEntry.validate_iff.mp valid).1
  have parts :=
    declaredParts_buildDsn validId (oneLine_rfc2822 dt) (isBoundary_of_fresh fresh) absent
  have blocks : ((statusBlocks (statusContent req)).drop 1).map finalRecipient =
      req.failedRecipients.map (fun recipient => some (bytes (sanitizeHeader recipient))) := by
    rw [statusBlocks_statusContent, List.drop_succ_cons, List.drop_zero, List.map_map]
    refine List.map_congr_left fun recipient _ => ?_
    rw [Function.comp_apply, finalRecipient_recipientLines]
  have unbroken : ∀ block ∈ statusBlocks (statusContent req), ∀ field ∈ block,
      cr ∉ field ∧ lf ∉ field := by
    rw [statusBlocks_statusContent]
    intro block mem field inside
    rcases List.mem_cons.mp mem with rfl | later
    · refine oneLine_statusLines field (List.mem_append_left _ inside)
    · obtain ⟨recipient, _, rfl⟩ := List.mem_map.mp later
      exact oneLine_recipientLines recipient field inside
  have returned : (splitHeadersBody (originalContent req)).2 =
      trimOneCrlf (bytes (String.ofList (withCrlf req.original.data.toList))) := by
    rw [splitHeadersBody_originalContent, ← toList_normalizeCrlf, String.ofList_toList]
  have encoding : ∀ part ∈ [statusContent req, originalContent req],
      declaredEncoding part = some "7bit" → IsAscii part := by
    intro part mem declared
    rcases List.mem_pair.mp mem with rfl | rfl
    · rw [declaredEncoding_statusContent] at declared
      cases declared
    · rw [declaredEncoding_originalContent] at declared
      exact isAscii_originalContent (Option.some.inj declared)
  refine ⟨⟨textContent req, statusContent req, originalContent req, parts, blocks, unbroken, returned,
    encoding⟩, ?_⟩
  constructor
  · rintro ⟨text, status, original, found, report⟩
    rw [parts] at found
    obtain ⟨rfl, rfl, rfl⟩ : textContent req = text ∧ statusContent req = status ∧
        originalContent req = original := by
      simpa [dsnParts] using found
    refine ⟨fun recipient mem => ?_, (isAscii_textContent some_).mp ?_⟩
    · have same := List.map_inj_left.mp (blocks.symm.trans report.recipients) recipient mem
      exact bytes_injective (Option.some.inj same)
    · exact report.encoding _ List.mem_cons_self declaredEncoding_textContent
  · rintro ⟨same, ascii⟩
    refine ⟨textContent req, statusContent req, originalContent req, parts, ?_⟩
    refine ⟨?_, unbroken, returned, ?_⟩
    · rw [blocks]
      exact List.map_congr_left fun recipient mem => by rw [same recipient mem]
    · intro part mem declared
      rcases List.mem_cons.mp mem with rfl | later
      · exact (isAscii_textContent some_).mpr ascii
      · exact encoding part later declared

/-! ### Two requests -/

def noon : OffsetDateTime where
  weekday := 1
  day := 14
  month := 10
  year := 2023
  hour := 12
  minute := 0
  second := 0
  offsetMinutes := 0

/-- A request for a message that nobody has got. -/
def returnedWith (diagnostic : String) : DsnRequest where
  reportingMta := "mx.example"
  original :=
    { id := "1-a", kind := .outbound, mailFrom := "s@example", recipients := ["r@example"],
      data := "a: b\n\nc", createdAt := "", attempts := 0, nextAttemptUnix := 0, lastError := none,
      lastCode := none }
  failedRecipients := ["r@example"]
  diagnostic
  statusCode := some 550

/-- The request without a failed recipient shows no diagnostic. -/
def returnedToNobody : DsnRequest := { returnedWith "" with failedRecipients := [] }

theorem textContent_returnedWith (diagnostic : String) : textContent (returnedWith diagnostic) =
    textContent returnedToNobody ++
      written [bytes ("    " ++ sanitizeHeader "r@example" ++ ": " ++
        sanitizeHeader diagnostic)] := by
  have failed : (returnedWith diagnostic).failedRecipients = ["r@example"] := rfl
  have host : (returnedWith diagnostic).reportingMta = returnedToNobody.reportingMta := rfl
  have shown : (returnedWith diagnostic).diagnostic = diagnostic := rfl
  have nobody : returnedToNobody.failedRecipients = [] := rfl
  simp only [textContent, textLines, written_append, List.append_assoc, failed, host, shown, nobody,
    List.map_cons, List.map_nil, List.append_nil]

/-- The status part for nobody, and what is added for the recipient before the diagnostic. -/
def statusFixed : List UInt8 :=
  statusContent returnedToNobody ++ written [[], bytes ("Final-Recipient: rfc822; " ++
    sanitizeHeader "r@example"), bytes "Action: failed",
      bytes ("Status: " ++ extendedStatus (some 550))]

theorem statusContent_returnedWith (diagnostic : String) : statusContent (returnedWith diagnostic) =
    statusFixed ++ written [bytes ("Diagnostic-Code: smtp; " ++ sanitizeHeader diagnostic)] := by
  have failed : (returnedWith diagnostic).failedRecipients = ["r@example"] := rfl
  have host : (returnedWith diagnostic).reportingMta = returnedToNobody.reportingMta := rfl
  have shown : (returnedWith diagnostic).diagnostic = diagnostic := rfl
  have code : (returnedWith diagnostic).statusCode = some 550 := rfl
  have nobody : returnedToNobody.failedRecipients = [] := rfl
  simp only [statusFixed, statusContent, statusLines, recipientLines, written_append, written_cons,
    written_nil, List.append_assoc, failed, host, shown, code, nobody, List.flatMap_cons,
    List.flatMap_nil, List.append_nil]

theorem absent_returnedWith {diagnostic : String}
    (unmarked : 0x5f ∉ bytes (sanitizeHeader diagnostic)) :
    Absent (returnedWith diagnostic) "=_MailStack_0a1b" := by
  -- the boundary has a mark that the parts do not have
  have mark : (0x5f : UInt8) ∈ bytes "=_MailStack_0a1b" := by decide
  have last : ∀ front : String, 0x5f ∉ bytes front →
      0x5f ∉ written [bytes (front ++ sanitizeHeader diagnostic)] := by
    intro front here
    have ends : (0x5f : UInt8) ∉ [cr, lf] := by decide
    rw [written_cons, written_nil, bytes_append]
    simp only [List.mem_append, here, unmarked, ends, List.not_mem_nil, or_self, not_false_eq_true]
  have fixed : 0x5f ∉ textContent returnedToNobody ∧ 0x5f ∉ statusFixed ∧
      0x5f ∉ originalContent returnedToNobody := by decide +kernel
  have parts : ∀ part ∈ dsnParts (returnedWith diagnostic), 0x5f ∉ part := by
    simp only [dsnParts, List.forall_mem_cons]
    refine ⟨?_, ?_, fixed.2.2, by simp⟩
    · rw [textContent_returnedWith, List.mem_append, not_or]
      exact ⟨fixed.1, last _ (by decide)⟩
    · rw [statusContent_returnedWith, List.mem_append, not_or]
      exact ⟨fixed.2.1, last _ (by decide)⟩
  intro part mem line inside infix_
  have within : line ⊆ part := by
    intro byte here
    rw [← flatten_splitInclusive part]
    exact List.mem_flatten.mpr ⟨line, inside, here⟩
  exact parts part mem (within (infix_.subset mark))

theorem dsn_structure_ascii :
    Reports (returnedWith "550 unknown")
      (bytes (buildDsn (returnedWith "550 unknown") (rfc2822 noon) "=_MailStack_0a1b")) := by
  have fresh : freshBoundary ["a: b\n\nc", "550 unknown"] [[10, 27]] [] =
      some "=_MailStack_0a1b" := by
    decide +kernel
  have absent : Absent (returnedWith "550 unknown") "=_MailStack_0a1b" :=
    absent_returnedWith (by decide)
  refine (dsn_structure noon (by decide +kernel) (by decide) fresh absent).2.mpr ⟨?_, ?_⟩
  · decide +kernel
  · decide +kernel

/-- A text part that declares 7bit has the bytes of a diagnostic in Chinese. -/
theorem chinese_diagnostic_declared_7bit :
    (returnedWith "550 用户不存在").original.validate = .ok () ∧
      Absent (returnedWith "550 用户不存在") "=_MailStack_0a1b" ∧
      ¬Reports (returnedWith "550 用户不存在")
        (bytes (buildDsn (returnedWith "550 用户不存在") (rfc2822 noon) "=_MailStack_0a1b")) := by
  have valid : (returnedWith "550 用户不存在").original.validate = .ok () := by decide +kernel
  have absent : Absent (returnedWith "550 用户不存在") "=_MailStack_0a1b" :=
    absent_returnedWith (by decide)
  have drawn : IsBoundary "=_MailStack_0a1b" := ⟨[10, 27], by decide⟩
  have foreign : ¬IsAscii (bytes (sanitizeHeader "550 用户不存在")) := by decide +kernel
  refine ⟨valid, absent, ?_⟩
  rintro ⟨text, status, original, found, report⟩
  rw [declaredParts_buildDsn (QueueEntry.validate_iff.mp valid).1 (oneLine_rfc2822 noon) drawn
    absent] at found
  obtain ⟨rfl, rfl, rfl⟩ : textContent (returnedWith "550 用户不存在") = text ∧
      statusContent (returnedWith "550 用户不存在") = status ∧
      originalContent (returnedWith "550 用户不存在") = original := by
    simpa [dsnParts] using found
  have ascii := report.encoding _ List.mem_cons_self declaredEncoding_textContent
  exact foreign ((isAscii_textContent (by decide)).mp ascii _ (by simp [returnedWith]))

end MailStack.Queue
