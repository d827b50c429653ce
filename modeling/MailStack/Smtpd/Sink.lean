import MailStack.Mime.Headers
import MailStack.Smtpd.Ban
import MailStack.Smtpd.Session

/-! What the queue sink writes into a message that it accepts, and how it notices that a message has
been here before. -/

namespace MailStack.Smtpd

open Lib Mime

/-! ### Addresses as text -/

namespace IpAddr

def decimal (bits : BitVec 32) : String :=
  String.intercalate "." ([24, 16, 8, 0].map fun shift => toString ((bits >>> shift).toNat % 256))

def segments (bits : BitVec 128) : List Nat :=
  [112, 96, 80, 64, 48, 32, 16, 0].map fun shift => (bits >>> shift).toNat % 65536

def hexadecimal (segments : List Nat) : String :=
  String.intercalate ":" (segments.map fun segment => String.ofList (Nat.toDigits 16 segment))

/-- Where the first of the longest runs of zeros begins, and how long it is. -/
def zeroRun (segments : List Nat) : Nat × Nat :=
  (List.range segments.length).foldl (fun longest start =>
    let length := ((segments.drop start).takeWhile (· = 0)).length
    if length > longest.2 then (start, length) else longest) (0, 0)

def toText : IpAddr → String
  | .v4 bits => decimal bits
  | .v6 bits =>
    match toIpv4Mapped bits with
    | some mapped => "::ffff:" ++ decimal mapped
    | none =>
      let all := segments bits
      let (start, length) := zeroRun all
      if length > 1 then
        hexadecimal (all.take start) ++ "::" ++ hexadecimal (all.drop (start + length))
      else hexadecimal all

end IpAddr

/-! ### Dates -/

def weekdays : List String := ["Sun", "Mon", "Tue", "Wed", "Thu", "Fri", "Sat"]

def months : List String :=
  ["Jan", "Feb", "Mar", "Apr", "May", "Jun", "Jul", "Aug", "Sep", "Oct", "Nov", "Dec"]

/-- The year, the month and the day. A division of the source that can be of a negative number cuts
towards zero. -/
def civilFromDays (days : Int) : Int × Nat × Nat :=
  let z := days + 719468
  let era := (if 0 ≤ z then z else z - 146096).tdiv 146097
  let doe := z - era * 146097
  let yoe := (doe - doe / 1460 + doe / 36524 - doe / 146096) / 365
  let year := yoe + era * 400
  let doy := doe - (365 * yoe + yoe / 4 - yoe / 100)
  let mp := (5 * doy + 2) / 153
  let day := (doy - (153 * mp + 2) / 5 + 1).toNat
  let month := (if mp < 10 then mp + 3 else mp - 9).toNat
  (if month ≤ 2 then year + 1 else year, month, day)

def formatRfc5322Date (unixSeconds : Int) : String :=
  let days := unixSeconds / 86400
  let secondsOfDay := unixSeconds % 86400
  let weekday := ((days + 4) % 7).toNat
  let (year, month, day) := civilFromDays days
  weekdays[weekday]?.getD "" ++ ", " ++ zeroPadded 2 day ++ " " ++ months[month - 1]?.getD "" ++ " " ++
    zeroPadded 4 year ++ " " ++ zeroPadded 2 (secondsOfDay / 3600) ++ ":" ++
    zeroPadded 2 (secondsOfDay % 3600 / 60) ++ ":" ++ zeroPadded 2 (secondsOfDay % 60) ++ " +0000"

example : formatRfc5322Date 1790848800 = "Thu, 01 Oct 2026 10:00:00 +0000" := by decide

/-! ### The trace -/

/-- The field up to the host. -/
def receivedFrom (message : AcceptedMessage) (peer : IpAddr) : String :=
  let helo :=
    if (trim message.helo).isEmpty then "unknown"
    else String.ofList (message.helo.toList.map fun c => if isControl c then ' ' else c)
  let peerText :=
    match peer with
    | .v4 _ => peer.toText
    | .v6 _ => "[" ++ peer.toText ++ "]"
  "Received: from " ++ helo ++ " (" ++ peerText ++ ") "

/-- The field after the host. -/
def receivedWith (message : AcceptedMessage) (nowUnix : Int) : String :=
  let protocol :=
    if message.authenticated then "ESMTPSA" else if message.secured then "ESMTPS" else "ESMTP"
  let forClause :=
    match message.recipients.head? with
    | some recipient => " for <" ++ recipient ++ ">"
    | none => ""
  " with " ++ protocol ++ forClause ++ "; " ++ formatRfc5322Date nowUnix ++ "\r\n"

def receivedHeader (hostname : String) (message : AcceptedMessage) (peer : IpAddr) (nowUnix : Int) :
    String :=
  receivedFrom message peer ++ "by " ++ hostname ++ receivedWith message nowUnix

def toAsciiLower (b : UInt8) : UInt8 := if 65 ≤ b && b ≤ 90 then b + 32 else b

def hasHeaderName (line name : List UInt8) : Bool :=
  line.length > name.length && (line.take name.length).map toAsciiLower == name.map toAsciiLower &&
    (line)[name.length]? == some 58

/-- All parts of the length `size`. -/
def windows (size : Nat) (haystack : List UInt8) : List (List UInt8) :=
  (List.range (haystack.length + 1 - size)).map fun start => (haystack.drop start).take size

def containsIgnoreAsciiCase (haystack needle : List UInt8) : Bool :=
  if needle.isEmpty || haystack.length < needle.length then false
  else if !needle.all (· < 128) then false
  else
    (windows needle.length haystack).any fun window =>
      (window.zip needle).all fun pair => toAsciiLower pair.1 == toAsciiLower pair.2

def startsFolded (line : List UInt8) : Bool := line.head? = some 32 || line.head? = some 9

/-- The loop over the lines. -/
def receivedHopsFrom : Nat → List (List UInt8) → Nat
  | count, [] => count
  | count, raw :: rest =>
    let line := stripSuffix cr raw
    if line.isEmpty then count
    else if startsFolded line then receivedHopsFrom count rest
    else if hasHeaderName line (bytes "received") then receivedHopsFrom (count + 1) rest
    else receivedHopsFrom count rest

def receivedHops (data : List UInt8) : Nat := receivedHopsFrom 0 (data.splitOn lf)

/-- The loop over the lines. The flag is whether the field that they go on with is a `Received`. -/
def receivedVia (needle : List UInt8) : Bool → List (List UInt8) → Bool
  | _, [] => false
  | currentIsReceived, raw :: rest =>
    let line := stripSuffix cr raw
    if line.isEmpty then false
    else if startsFolded line then
      if currentIsReceived && containsIgnoreAsciiCase line needle then true
      else receivedVia needle currentIsReceived rest
    else
      let isReceived := hasHeaderName line (bytes "received")
      if isReceived && containsIgnoreAsciiCase line needle then true
      else receivedVia needle isReceived rest

def receivedViaHost (data : List UInt8) (hostname : String) : Bool :=
  receivedVia (bytes ("by " ++ trim hostname)) false (data.splitOn lf)

def maxReceivedHops : Nat := 50

def Texts.tooManyHops : String := "Too many hops / mail loop detected"

/-- The first check of `handle`. -/
def checkHops (hostname : String) (data : List UInt8) : Except Reply Unit :=
  if receivedHops data ≥ maxReceivedHops || receivedViaHost data hostname then
    .error (Reply.withEnhanced 554 "5.4.6" Texts.tooManyHops)
  else .ok ()

end MailStack.Smtpd

/-! Which messages the search for the own host name in the `Received` fields finds, and which have
been here. -/

namespace MailStack.Smtpd

open Lib Mime

variable {host name line token : List UInt8} {lines rest : List (List UInt8)} {data : List UInt8}

structure HostName where
  text : String
  some : text ≠ ""
  token : ∀ c ∈ text.toList, isWhitespace c = false

/-! ### Fields and tokens -/

/-- A line starts a field, and the folded lines after it go on with it. -/
def groupFields : List (List UInt8) → List (List (List UInt8))
  | [] => []
  | line :: rest =>
    match groupFields rest with
    | [] => [[line]]
    | field :: fields =>
      if field.head?.any startsFolded then (line :: field) :: fields else [line] :: field :: fields

/-- The lines up to the first empty one, without the CR of their ends. -/
def headerSection (raws : List (List UInt8)) : List (List UInt8) :=
  (raws.map (stripSuffix cr)).takeWhile fun line => !line.isEmpty

def fieldsOf (data : List UInt8) : List (List (List UInt8)) :=
  groupFields (headerSection (data.splitOn lf))

def sameText (xs ys : List UInt8) : Prop := xs.map toAsciiLower = ys.map toAsciiLower

instance (xs ys : List UInt8) : Decidable (sameText xs ys) :=
  inferInstanceAs (Decidable (xs.map toAsciiLower = ys.map toAsciiLower))

/-- The name of the field that a line starts stands before the first colon. -/
def IsReceived (line : List UInt8) : Prop :=
  58 ∈ line ∧ sameText (line.takeWhile (· ≠ 58)) (bytes "received")

instance (line : List UInt8) : Decidable (IsReceived line) :=
  inferInstanceAs (Decidable (58 ∈ line ∧ sameText (line.takeWhile (· ≠ 58)) (bytes "received")))

def receivedFields (data : List UInt8) : List (List (List UInt8)) :=
  (fieldsOf data).filter fun field => field.head?.any fun line => IsReceived line

def isBlank (b : UInt8) : Bool := b == 32 || (9 ≤ b && b ≤ 13)

def tokens (line : List UInt8) : List (List UInt8) :=
  (line.splitOnP isBlank).filter fun token => !token.isEmpty

/-- The field has the token `by` and then the host as a token, on one line or on two. -/
def Names (host : List UInt8) (field : List (List UInt8)) : Prop :=
  ∃ pair ∈ (field.flatMap tokens).zip (field.flatMap tokens).tail,
    sameText pair.1 (bytes "by") ∧ sameText pair.2 host

instance (host : List UInt8) (field : List (List UInt8)) : Decidable (Names host field) :=
  inferInstanceAs (Decidable (∃ pair ∈ (field.flatMap tokens).zip (field.flatMap tokens).tail,
    sameText pair.1 (bytes "by") ∧ sameText pair.2 host))

/-- The line has `by`, one blank and the host, as tokens or within longer ones. -/
def Mentions (host line : List UInt8) : Prop :=
  ∃ before mention after, line = before ++ mention ++ after ∧ sameText mention (bytes "by " ++ host)

/-- Such a place that is not two tokens. -/
def MentionsWithin (host line : List UInt8) : Prop :=
  ∃ before mention after, line = before ++ mention ++ after ∧
    sameText mention (bytes "by " ++ host) ∧
    ((∃ b, before.getLast? = some b ∧ isBlank b = false) ∨
      ∃ b, after.head? = some b ∧ isBlank b = false)

/-! ### Messages that have been here -/

/-- A later hop can make a fold of a blank. -/
inductive Refolded : List UInt8 → List UInt8 → Prop
  | done : Refolded [] []
  | kept (b : UInt8) {written seen : List UInt8} (rest : Refolded written seen) :
      Refolded (b :: written) (b :: seen)
  | folded {indent written seen : List UInt8} (some : indent ≠ [])
      (blank : ∀ b ∈ indent, b = 32 ∨ b = 9) (rest : Refolded written seen) :
      Refolded (32 :: written) (cr :: lf :: (indent ++ seen))

/-- `received_header` wrote the field for the host. -/
def Written (host : HostName) (field : List (List UInt8)) : Prop :=
  ∃ message peer nowUnix, Refolded (bytes (receivedHeader host.text message peer nowUnix))
    (field.flatMap fun line => line ++ [cr, lf])

/-- It did, and between `by` and the host there is `gap`. -/
def WrittenWith (gap : List UInt8) (host : HostName) (field : List (List UInt8)) : Prop :=
  ∃ message peer nowUnix before after, Refolded (bytes (receivedFrom message peer)) before ∧
    Refolded (bytes (receivedWith message nowUnix)) after ∧
    (field.flatMap fun line => line ++ [cr, lf]) =
      before ++ (bytes "by" ++ gap ++ bytes host.text) ++ after

/-- The blank before the host is still there. -/
def Whole : HostName → List (List UInt8) → Prop := WrittenWith [32]

/-- The host is the first token of a line. -/
def Parted (host : HostName) (field : List (List UInt8)) : Prop :=
  ∃ indent ≠ [], (∀ b ∈ indent, b = 32 ∨ b = 9) ∧ WrittenWith (cr :: lf :: indent) host field

/-- The header section has a field that `received_header` wrote for the host. -/
def Passed (host : HostName) (data : List UInt8) : Prop :=
  ∃ field ∈ fieldsOf data, Written host field

/-- Fields of the host are found and no others, and all hops are counted. -/
def DetectsLoop (host : HostName) (data : List UInt8) : Prop :=
  (Passed host data → receivedViaHost data host.text = true) ∧
    ((¬∃ field ∈ receivedFields data, Names (bytes host.text) field) →
      receivedViaHost data host.text = false) ∧
    receivedHops data = (receivedFields data).length

def isAscii (host : HostName) : Prop := ∀ b ∈ bytes host.text, b < 128

/-- A message that has been here has a host in ASCII; where a field of the host has a fold before
it, there is another one without, or some line mentions the host elsewhere; and where a line
mentions it within longer tokens, it is named somewhere, too. -/
def Telling (host : HostName) (data : List UInt8) : Prop :=
  (Passed host data → isAscii host) ∧
  ((∃ field ∈ fieldsOf data, Written host field ∧ Parted host field) →
    (∃ field ∈ fieldsOf data, Whole host field) ∨
      ∃ field ∈ receivedFields data, ∃ line ∈ field, Mentions (bytes host.text) line) ∧
  (isAscii host →
    (∃ field ∈ receivedFields data, ∃ line ∈ field, MentionsWithin (bytes host.text) line) →
    ∃ field ∈ receivedFields data, Names (bytes host.text) field)

/-! ### Letters of either case -/

theorem toAsciiLower_eq_iff {b c : UInt8} (low : c < 65) : toAsciiLower b = c ↔ b = c := by
  unfold toAsciiLower
  split
  next upper =>
    simp only [Bool.and_eq_true, decide_eq_true_eq, UInt8.le_iff_toNat_le] at upper
    simp only [UInt8.lt_iff_toNat_lt] at low
    have plus : (b + 32).toNat = b.toNat + 32 := by
      rw [UInt8.toNat_add]
      have : b.toNat ≤ 90 := upper.2
      have : (32 : UInt8).toNat = 32 := rfl
      omega
    have from65 : 65 ≤ b.toNat := upper.1
    have below : c.toNat < 65 := low
    constructor
    · intro eq
      rw [eq] at plus
      omega
    · intro eq
      rw [eq] at from65
      omega
  · exact Iff.rfl

theorem mem_map_toAsciiLower {c : UInt8} (low : c < 65) : c ∈ line.map toAsciiLower ↔ c ∈ line := by
  rw [List.mem_map]
  constructor
  · rintro ⟨b, mem, eq⟩
    exact (toAsciiLower_eq_iff low).mp eq ▸ mem
  · exact fun mem => ⟨c, mem, (toAsciiLower_eq_iff low).mpr rfl⟩

theorem sameText_mem {c : UInt8} (low : c < 65) (same : sameText line name) :
    c ∈ line ↔ c ∈ name := by
  rw [← mem_map_toAsciiLower low, same, mem_map_toAsciiLower low]

theorem sameText_length (same : sameText line name) : line.length = name.length := by
  have := congrArg List.length same
  rwa [List.length_map, List.length_map] at this

theorem zip_all_iff (length : line.length = name.length) :
    ((line.zip name).all fun pair => toAsciiLower pair.1 == toAsciiLower pair.2) = true ↔
      sameText line name := by
  induction line generalizing name with
  | nil =>
    obtain rfl : name = [] := List.length_eq_zero_iff.mp length.symm
    simp [sameText]
  | cons b line ih =>
    cases name with
    | nil => cases length
    | cons c name =>
      have step := ih (Nat.succ.inj length)
      rw [List.zip_cons_cons, List.all_cons, Bool.and_eq_true, step, beq_iff_eq]
      simp [sameText]

theorem containsIgnoreAsciiCase_iff (some_ : name ≠ []) :
    containsIgnoreAsciiCase line name = true ↔ (∀ b ∈ name, b < 128) ∧
      ∃ before mention after, line = before ++ mention ++ after ∧ sameText mention name := by
  have ascii : (name.all (· < 128)) = true ↔ ∀ b ∈ name, b < 128 := by simp
  have found : ((windows name.length line).any fun window =>
        (window.zip name).all fun pair => toAsciiLower pair.1 == toAsciiLower pair.2) = true ↔
      ∃ start < line.length + 1 - name.length,
        sameText ((line.drop start).take name.length) name := by
    rw [List.any_eq_true]
    constructor
    · rintro ⟨window, mem, all⟩
      obtain ⟨start, inside, rfl⟩ := List.mem_map.mp mem
      have bound := List.mem_range.mp inside
      refine ⟨start, bound, (zip_all_iff ?_).mp all⟩
      rw [List.length_take, List.length_drop]
      omega
    · rintro ⟨start, bound, same⟩
      exact ⟨_, List.mem_map_of_mem (List.mem_range.mpr bound),
        (zip_all_iff (sameText_length same)).mpr same⟩
  have parts : (∃ start < line.length + 1 - name.length,
        sameText ((line.drop start).take name.length) name) ↔
      ∃ before mention after, line = before ++ mention ++ after ∧ sameText mention name := by
    constructor
    · rintro ⟨start, _, same⟩
      refine ⟨line.take start, _, (line.drop start).drop name.length, ?_, same⟩
      rw [List.append_assoc, List.take_append_drop, List.take_append_drop]
    · rintro ⟨before, mention, after, rfl, same⟩
      have length := sameText_length same
      refine ⟨before.length, ?_, ?_⟩
      · simp only [List.length_append]
        omega
      · rw [List.append_assoc, List.drop_left, ← length, List.take_left]
        exact same
  unfold containsIgnoreAsciiCase
  split
  next short =>
    refine iff_of_false Bool.false_ne_true ?_
    rintro ⟨_, before, mention, after, rfl, same⟩
    have length := sameText_length same
    rcases Bool.or_eq_true_iff.mp short with empty | less
    · exact some_ (List.isEmpty_iff.mp empty)
    · have less := of_decide_eq_true less
      simp only [List.length_append] at less
      omega
  · rw [← ascii, ← parts, ← found]
    cases name.all (· < 128) <;> simp

theorem hasHeaderName_iff : hasHeaderName line (bytes "received") = true ↔ IsReceived line := by
  have noColon : (58 : UInt8) ∉ bytes "received" := by decide
  have same_iff (t : List UInt8) :
      (t.map toAsciiLower == (bytes "received").map toAsciiLower) = true ↔
        sameText t (bytes "received") := beq_iff_eq
  rw [hasHeaderName, Bool.and_eq_true, Bool.and_eq_true, decide_eq_true_eq, same_iff, beq_iff_eq]
  constructor
  · rintro ⟨⟨long, same⟩, colon⟩
    obtain ⟨bound, eq⟩ := List.getElem?_eq_some_iff.mp colon
    have parts : line = line.take (bytes "received").length ++
        58 :: line.drop ((bytes "received").length + 1) := by
      rw [← eq, List.getElem_cons_drop, List.take_append_drop]
    have plain : ∀ b ∈ line.take (bytes "received").length, decide (b ≠ 58) = true := by
      intro b mem
      rw [decide_eq_true_eq]
      rintro rfl
      exact noColon ((sameText_mem (by decide) same).mp mem)
    refine ⟨List.mem_of_getElem? colon, ?_⟩
    rw [parts, List.takeWhile_append_of_pos plain, List.takeWhile_cons_of_neg (by simp),
      List.append_nil]
    exact same
  · rintro ⟨mem, same⟩
    obtain ⟨name, rest, parts, noColon_⟩ := List.eq_append_cons_of_mem mem
    have plain : ∀ b ∈ name, decide (b ≠ 58) = true := by
      intro b inside
      rw [decide_eq_true_eq]
      rintro rfl
      exact noColon_ inside
    rw [parts, List.takeWhile_append_of_pos plain, List.takeWhile_cons_of_neg (by simp),
      List.append_nil] at same
    have length := sameText_length same
    rw [parts, ← length]
    refine ⟨⟨?_, ?_⟩, ?_⟩
    · simp only [List.length_append, List.length_cons]
      omega
    · rw [List.take_left]
      exact same
    · simp

theorem not_isReceived_of_folded (folded : startsFolded line = true) : ¬IsReceived line := by
  intro received
  cases line with
  | nil => cases received.1
  | cons b rest =>
    have blank : b = 32 ∨ b = 9 := by simpa [startsFolded] using folded
    have notColon : decide (b ≠ 58) = true := by rcases blank with rfl | rfl <;> rfl
    have low : b < 65 := by rcases blank with rfl | rfl <;> decide
    have same := received.2
    have first : (b :: rest).takeWhile (· ≠ 58) = b :: rest.takeWhile (· ≠ 58) :=
      List.takeWhile_cons_of_pos notColon
    rw [first] at same
    have inside := (sameText_mem low same).mp List.mem_cons_self
    rcases blank with rfl | rfl <;> exact absurd inside (by decide)

/-! ### The loops -/

theorem groupFields_cons (line : List UInt8) (rest : List (List UInt8)) :
    groupFields (line :: rest) =
      (line :: rest.takeWhile startsFolded) :: groupFields (rest.dropWhile startsFolded) := by
  induction rest generalizing line with
  | nil => rfl
  | cons next rest ih =>
    rw [groupFields, ih next]
    cases folded : startsFolded next with
    | true => simp [folded]
    | false => simp [folded, ih next]

/-- The groups that start with a `Received` line. -/
def receivedGroups (lines : List (List UInt8)) : List (List (List UInt8)) :=
  (groupFields lines).filter fun field => field.head?.any fun line => IsReceived line

theorem receivedGroups_drop (rest : List (List UInt8)) :
    receivedGroups (rest.dropWhile startsFolded) = receivedGroups rest := by
  cases rest with
  | nil => rfl
  | cons next rest =>
    cases folded : startsFolded next with
    | false => rw [List.dropWhile_cons_of_neg (by simp [folded])]
    | true =>
      have other := not_isReceived_of_folded folded
      rw [List.dropWhile_cons_of_pos folded, receivedGroups, receivedGroups, groupFields_cons next,
        List.filter_cons_of_neg (by simpa using other)]

theorem receivedGroups_cons (line : List UInt8) (rest : List (List UInt8)) :
    receivedGroups (line :: rest) =
      (if IsReceived line then [line :: rest.takeWhile startsFolded] else []) ++
        receivedGroups rest := by
  rw [← receivedGroups_drop rest, receivedGroups, receivedGroups, groupFields_cons]
  by_cases received : IsReceived line
  · rw [List.filter_cons_of_pos (by simpa using received), if_pos received]
    rfl
  · rw [List.filter_cons_of_neg (by simpa using received), if_neg received]
    rfl

theorem headerSection_cons (raw : List UInt8) (raws : List (List UInt8)) :
    headerSection (raw :: raws) =
      if (stripSuffix cr raw).isEmpty then [] else stripSuffix cr raw :: headerSection raws := by
  rw [headerSection, List.map_cons, List.takeWhile_cons]
  cases (stripSuffix cr raw).isEmpty <;> rfl

theorem receivedHopsFrom_eq (count : Nat) (raws : List (List UInt8)) :
    receivedHopsFrom count raws = count + (receivedGroups (headerSection raws)).length := by
  induction raws generalizing count with
  | nil => rfl
  | cons raw raws ih =>
    rw [receivedHopsFrom, headerSection_cons]
    generalize stripSuffix cr raw = line
    split
    · rfl
    · rw [receivedGroups_cons, List.length_append]
      split
      next folded =>
        rw [ih, if_neg (not_isReceived_of_folded folded), List.length_nil, Nat.zero_add]
      · split
        next named =>
          rw [ih, if_pos (hasHeaderName_iff.mp named), List.length_singleton, Nat.add_assoc]
        next other =>
          rw [ih, if_neg fun received => other (hasHeaderName_iff.mpr received), List.length_nil,
            Nat.zero_add]

theorem receivedHops_eq (data : List UInt8) : receivedHops data = (receivedFields data).length := by
  rw [receivedHops, receivedHopsFrom_eq, Nat.zero_add]
  rfl

/-- The loop looks at the lines that go on with the field before, if that is a `Received`, and at
the lines of all `Received` fields after it. -/
theorem receivedVia_iff (needle : List UInt8) (current : Bool) (raws : List (List UInt8)) :
    receivedVia needle current raws = true ↔
      (current = true ∧ ∃ line ∈ (headerSection raws).takeWhile startsFolded,
        containsIgnoreAsciiCase line needle = true) ∨
      ∃ field ∈ receivedGroups (headerSection raws), ∃ line ∈ field,
        containsIgnoreAsciiCase line needle = true := by
  induction raws generalizing current with
  | nil => simp [receivedVia, headerSection, receivedGroups, groupFields]
  | cons raw raws ih =>
    rw [receivedVia, headerSection_cons]
    generalize stripSuffix cr raw = line
    by_cases empty : line.isEmpty = true
    · rw [if_pos empty, if_pos empty]
      simp [receivedGroups, groupFields]
    rw [if_neg empty, if_neg empty, receivedGroups_cons]
    by_cases folded : startsFolded line = true
    · rw [if_pos folded, if_neg (not_isReceived_of_folded folded), List.nil_append,
        List.takeWhile_cons_of_pos folded, List.exists_mem_cons_iff, and_or_left, or_assoc, ← ih]
      cases current <;> cases containsIgnoreAsciiCase line needle <;> simp
    · rw [if_neg folded, List.takeWhile_cons_of_neg folded]
      by_cases received : IsReceived line
      · rw [if_pos received, hasHeaderName_iff.mpr received, List.singleton_append,
          List.exists_mem_cons_iff, List.exists_mem_cons_iff, or_assoc]
        have := ih true
        cases containsIgnoreAsciiCase line needle <;> simp [this]
      · have other : hasHeaderName line (bytes "received") = false := by
          rw [Bool.eq_false_iff]
          exact fun named => received (hasHeaderName_iff.mp named)
        have := ih false
        rw [if_neg received, other]
        simp [this]

/-! ### Tokens -/

theorem tokens_append {b : UInt8} (blank : isBlank b = true) (xs ys : List UInt8) :
    tokens (xs ++ b :: ys) = tokens xs ++ tokens ys := by
  rw [tokens, List.splitOnP_append_cons xs ys blank, List.filter_append]
  rfl

theorem tokens_token (some_ : token ≠ []) (plain : ∀ b ∈ token, isBlank b = false) :
    tokens token = [token] := by
  rw [tokens, List.splitOnP_eq_singleton plain, List.filter_cons_of_pos (by simpa using some_)]
  rfl

theorem tokens_before (before rest : List UInt8)
    (apart : ∀ b, before.getLast? = some b → isBlank b = true) :
    tokens (before ++ rest) = tokens before ++ tokens rest := by
  rcases List.eq_nil_or_concat before with rfl | ⟨start, b, rfl⟩
  · rfl
  · have blank := apart b (by simp)
    rw [List.concat_eq_append, List.append_assoc, List.singleton_append, tokens_append blank,
      tokens_append blank]
    simp [tokens]

theorem tokens_after (rest after : List UInt8)
    (apart : ∀ b, after.head? = some b → isBlank b = true) :
    tokens (rest ++ after) = tokens rest ++ tokens after := by
  cases after with
  | nil => simp [tokens]
  | cons b later =>
    have blank := apart b rfl
    rw [tokens_append blank, ← List.nil_append (b :: later), tokens_append blank]
    simp [tokens]

theorem isBlank_toAsciiLower (b : UInt8) : isBlank (toAsciiLower b) = isBlank b := by
  unfold toAsciiLower
  split
  next upper =>
    simp only [Bool.and_eq_true, decide_eq_true_eq, UInt8.le_iff_toNat_le] at upper
    have from65 : 65 ≤ b.toNat := upper.1
    have to90 : b.toNat ≤ 90 := upper.2
    have plus : (b + 32).toNat = b.toNat + 32 := by
      rw [UInt8.toNat_add]
      have : (32 : UInt8).toNat = 32 := rfl
      omega
    have notBlank {c : UInt8} (high : 65 ≤ c.toNat) : isBlank c = false := by
      have not32 : c ≠ 32 := by
        rintro rfl
        exact absurd high (by decide)
      have not13 : ¬c ≤ 13 := by
        rw [UInt8.le_iff_toNat_le]
        have : (13 : UInt8).toNat = 13 := rfl
        omega
      simp [isBlank, not32, not13]
    rw [notBlank from65, notBlank (by omega)]
  · rfl

theorem plain_of_sameText (same : sameText line name) (plain : ∀ b ∈ name, isBlank b = false) :
    ∀ b ∈ line, isBlank b = false := by
  intro b mem
  have lower : toAsciiLower b ∈ name.map toAsciiLower := same ▸ List.mem_map_of_mem mem
  obtain ⟨c, inside, eq⟩ := List.mem_map.mp lower
  rw [← isBlank_toAsciiLower, ← eq, isBlank_toAsciiLower]
  exact plain c inside

theorem mem_zip_tail (before after : List (List UInt8)) (x y : List UInt8) :
    (x, y) ∈ (before ++ x :: y :: after).zip (before ++ x :: y :: after).tail := by
  induction before with
  | nil => exact List.mem_cons_self
  | cons z before ih =>
    cases before with
    | nil => exact List.mem_cons_of_mem _ ih
    | cons w before => exact List.mem_cons_of_mem _ ih

variable {field : List (List UInt8)}

/-- A place with tokens at both ends names the host. -/
theorem names_of_mentions (some_ : host ≠ []) (plain : ∀ b ∈ host, isBlank b = false)
    (mem : line ∈ field) (mentions : Mentions host line)
    (notWithin : ¬MentionsWithin host line) : Names host field := by
  obtain ⟨before, mention, after, rfl, same⟩ := mentions
  have apartBefore : ∀ b, before.getLast? = some b → isBlank b = true := by
    intro b last
    by_contra other
    exact notWithin ⟨before, mention, after, rfl, same, .inl ⟨b, last, Bool.eq_false_iff.mpr other⟩⟩
  have apartAfter : ∀ b, after.head? = some b → isBlank b = true := by
    intro b first
    by_contra other
    exact notWithin ⟨before, mention, after, rfl, same,
      .inr ⟨b, first, Bool.eq_false_iff.mpr other⟩⟩
  obtain ⟨by', blank, host', rfl, byEq, blankEq, hostEq⟩ :
      ∃ by' blank host',
        mention = by' ++ blank :: host' ∧ sameText by' (bytes "by") ∧ blank = 32 ∧
        sameText host' host := by
    have whole : mention.map toAsciiLower =
        (bytes "by").map toAsciiLower ++ 32 :: host.map toAsciiLower := by
      rw [same, List.map_append]
      rfl
    obtain ⟨by', later, rfl, byEq, laterEq⟩ := List.map_eq_append_iff.mp whole
    obtain ⟨blank, host', rfl, blankEq, hostEq⟩ := List.map_eq_cons_iff.mp laterEq
    exact ⟨by', blank, host', rfl, byEq, (toAsciiLower_eq_iff (by decide)).mp blankEq, hostEq⟩
  have plainBy := plain_of_sameText byEq (by decide)
  have plainHost := plain_of_sameText hostEq plain
  have someBy : by' ≠ [] := by
    rintro rfl
    exact absurd (sameText_length byEq) (by decide)
  have someHost : host' ≠ [] := by
    rintro rfl
    exact some_ (List.length_eq_zero_iff.mp (sameText_length hostEq).symm)
  have lineTokens : tokens (before ++ (by' ++ blank :: host') ++ after) =
      tokens before ++ by' :: host' :: tokens after := by
    rw [List.append_assoc, tokens_before _ _ apartBefore, tokens_after _ _ apartAfter,
      tokens_append (by rw [blankEq]; rfl), tokens_token someBy plainBy,
      tokens_token someHost plainHost]
    simp
  obtain ⟨earlier, later, rfl⟩ := List.append_of_mem mem
  refine ⟨(by', host'), ?_, byEq, hostEq⟩
  have all : (earlier ++ (before ++ (by' ++ blank :: host') ++ after) :: later).flatMap tokens =
      (earlier.flatMap tokens ++ tokens before) ++
        by' :: host' :: (tokens after ++ later.flatMap tokens) := by
    rw [List.flatMap_append, List.flatMap_cons, lineTokens]
    simp
  rw [all]
  exact mem_zip_tail _ _ _ _

/-! ### The host name -/

namespace HostName

variable (self : HostName)

theorem bytes_ne_nil : bytes self.text ≠ [] := by
  intro none
  cases chars : self.text.toList with
  | nil => exact self.some (String.toList_eq_nil_iff.mp chars)
  | cons c rest =>
    rw [bytes, chars, List.flatMap_cons] at none
    exact String.utf8EncodeChar_ne_nil (List.append_eq_nil_iff.mp none).1

theorem plain : ∀ b ∈ bytes self.text, isBlank b = false := by
  intro b mem
  by_contra blank
  rw [Bool.not_eq_false] at blank
  have isAscii : b.toNat < 0x80 ∧ (b.toNat = 32 ∨ 9 ≤ b.toNat ∧ b.toNat ≤ 13) := by
    rcases Bool.or_eq_true_iff.mp blank with eq | range
    · obtain rfl := beq_iff_eq.mp eq
      decide
    · obtain ⟨low, high⟩ := Bool.and_eq_true_iff.mp range
      have low : 9 ≤ b.toNat := of_decide_eq_true low
      have high : b.toNat ≤ 13 := of_decide_eq_true high
      omega
  obtain ⟨c, inside, mem⟩ := List.mem_flatMap.mp mem
  obtain ⟨value, -⟩ := ascii_mem_utf8EncodeChar mem isAscii.1
  have range : c.val = 32 ∨ (9 ≤ c.val ∧ c.val ≤ 13) := by
    rw [← UInt32.toNat_inj, UInt32.le_iff_toNat_le, UInt32.le_iff_toNat_le, value]
    exact isAscii.2
  have white : isWhitespace c = true := by
    rcases range with eq | ⟨low, high⟩
    · simp [isWhitespace, eq]
    · simp [isWhitespace, low, high]
  rw [self.token c inside] at white
  cases white

theorem trim_text : trim self.text = self.text :=
  trim_visible self.token

end HostName

theorem receivedViaHost_iff (self : HostName) (data : List UInt8) :
    receivedViaHost data self.text = true ↔ isAscii self ∧
      ∃ field ∈ receivedFields data, ∃ line ∈ field, Mentions (bytes self.text) line := by
  have some_ : bytes "by " ++ bytes self.text ≠ [] := by simp [self.bytes_ne_nil]
  have ascii : (∀ b ∈ bytes "by " ++ bytes self.text, b < 128) ↔ isAscii self := by
    have start : ∀ b ∈ bytes "by ", b < 128 := by decide
    rw [List.forall_mem_append]
    exact and_iff_right start
  have found (line : List UInt8) :
      containsIgnoreAsciiCase line (bytes "by " ++ bytes self.text) = true ↔
        isAscii self ∧ Mentions (bytes self.text) line := by
    rw [containsIgnoreAsciiCase_iff some_, ascii]
    rfl
  rw [receivedViaHost, self.trim_text, bytes_append, receivedVia_iff]
  simp only [found, Bool.false_eq_true, false_and, false_or]
  constructor
  · rintro ⟨field, inside, line, mem, ascii, mentions⟩
    exact ⟨ascii, field, inside, line, mem, mentions⟩
  · rintro ⟨ascii, field, inside, line, mem, mentions⟩
    exact ⟨field, inside, line, mem, ascii, mentions⟩

theorem mentions_of_within (within : MentionsWithin host line) : Mentions host line := by
  obtain ⟨before, mention, after, parts, same, -⟩ := within
  exact ⟨before, mention, after, parts, same⟩

/-! ### The own field -/

namespace Refolded

variable {xs ys seen front back : List UInt8}

theorem split (h : Refolded (xs ++ ys) seen) :
    ∃ front back, seen = front ++ back ∧ Refolded xs front ∧ Refolded ys back := by
  induction xs generalizing seen with
  | nil => exact ⟨[], seen, rfl, .done, h⟩
  | cons x xs ih =>
    cases h with
    | kept _ rest =>
      obtain ⟨front, back, rfl, left, right⟩ := ih rest
      exact ⟨x :: front, back, rfl, .kept x left, right⟩
    | folded some_ blank rest =>
      obtain ⟨front, back, rfl, left, right⟩ := ih rest
      exact ⟨_, back, by simp, .folded some_ blank left, right⟩

/-- A text without blanks is never folded. -/
theorem eq_of_plain (h : Refolded xs seen) (plain : 32 ∉ xs) : seen = xs := by
  induction h with
  | done => rfl
  | kept b _ ih => rw [ih fun mem => plain (List.mem_cons_of_mem _ mem)]
  | folded => exact absurd List.mem_cons_self plain

end Refolded

/-- A field of the host has the blank before it, or a fold. -/
theorem whole_or_parted {self : HostName} (written : Written self field) :
    Whole self field ∨ Parted self field := by
  obtain ⟨message, peer, nowUnix, refolded⟩ := written
  have by_ : bytes "by " = bytes "by" ++ [32] := by decide
  have token : (32 : UInt8) ∉ bytes self.text := fun mem => absurd (self.plain 32 mem) (by decide)
  rw [receivedHeader, bytes_append, bytes_append, bytes_append, by_, List.append_assoc,
    List.append_assoc, List.append_assoc, List.singleton_append] at refolded
  obtain ⟨before, rest, text, first, refolded⟩ := refolded.split
  obtain ⟨word, rest, rfl, kept, refolded⟩ := refolded.split
  obtain ⟨middle, after, rfl, gap, last⟩ := @Refolded.split (32 :: bytes self.text) _ _ refolded
  rw [kept.eq_of_plain (by decide)] at text
  cases gap with
  | kept _ rest =>
    rw [rest.eq_of_plain token] at text
    exact .inl ⟨message, peer, nowUnix, before, after, first, last, by rw [text]; simp⟩
  | folded some_ blank rest =>
    rw [rest.eq_of_plain token] at text
    exact .inr ⟨_, some_, blank, message, peer, nowUnix, before, after, first, last,
      by rw [text]; simp⟩

/-- A text without a byte stands before or after it. -/
theorem split_around {sep : UInt8} {needle xs ys before after : List UInt8} (absent : sep ∉ needle)
    (eq : xs ++ sep :: ys = before ++ needle ++ after) :
    (∃ back, xs = before ++ needle ++ back) ∨
      ∃ front, before = xs ++ sep :: front ∧ ys = front ++ needle ++ after := by
  rcases List.append_eq_append_iff.mp eq with ⟨middle, whole, rest⟩ | ⟨back, whole, -⟩
  · cases middle with
    | nil => exact .inl ⟨[], by rw [whole, List.append_nil, List.append_nil]⟩
    | cons b middle =>
      obtain ⟨rfl, rfl⟩ := List.cons.inj rest
      rcases List.append_eq_append_iff.mp whole with ⟨front, -, own⟩ | ⟨front, earlier, tail⟩
      · exact absurd (own ▸ List.mem_append_right _ List.mem_cons_self) absent
      · cases front with
        | nil =>
          rw [List.nil_append] at tail
          exact absurd (tail ▸ List.mem_cons_self) absent
        | cons c front =>
          obtain ⟨rfl, rfl⟩ := List.cons.inj tail
          exact .inr ⟨front, earlier, rfl⟩
  · exact .inl ⟨back, whole⟩

/-- A text without line ends stands within a line. -/
theorem mem_line_of_text {needle : List UInt8} (noCr : cr ∉ needle) (noLf : lf ∉ needle)
    (some_ : needle ≠ []) {lines : List (List UInt8)} {before after : List UInt8}
    (eq : (lines.flatMap fun line => line ++ [cr, lf]) = before ++ needle ++ after) :
    ∃ line ∈ lines, ∃ front back, line = front ++ needle ++ back := by
  induction lines generalizing before with
  | nil =>
    have nothing := List.append_eq_nil_iff.mp (List.append_eq_nil_iff.mp eq.symm).1
    exact absurd nothing.2 some_
  | cons line lines ih =>
    rw [List.flatMap_cons, List.append_assoc, List.cons_append] at eq
    rcases split_around noCr eq with ⟨back, own⟩ | ⟨front, -, rest⟩
    · exact ⟨line, List.mem_cons_self, before, back, own⟩
    · rcases @split_around _ _ [] _ _ _ noLf rest with ⟨back, own⟩ | ⟨front, -, rest⟩
      · have nothing := List.append_eq_nil_iff.mp (List.append_eq_nil_iff.mp own.symm).1
        exact absurd nothing.2 some_
      · obtain ⟨line, mem, own⟩ := ih rest
        exact ⟨line, List.mem_cons_of_mem _ mem, own⟩

/-- What `received_header` writes starts a `Received` field. -/
theorem isReceived_of_written {gap : List UInt8} {self : HostName}
    (written : WrittenWith gap self field) : field.head?.any fun line => IsReceived line := by
  obtain ⟨message, peer, nowUnix, before, after, first, -, text⟩ := written
  have name : bytes "Received:" = [82, 101, 99, 101, 105, 118, 101, 100, 58] := by decide
  have starts (a b c d : String) : ∃ rest,
      bytes ("Received: from " ++ a ++ b ++ c ++ d) = bytes "Received:" ++ rest := by
    have from_ : bytes "Received: from " = bytes "Received:" ++ bytes " from " := by decide
    rw [bytes_append, bytes_append, bytes_append, bytes_append, from_]
    exact ⟨_, by simp only [List.append_assoc]; rfl⟩
  obtain ⟨rest, whole⟩ : ∃ rest, bytes (receivedFrom message peer) = bytes "Received:" ++ rest :=
    starts _ _ _ _
  rw [whole] at first
  obtain ⟨_, seen, rfl, kept, -⟩ := first.split
  rw [kept.eq_of_plain (by decide), List.append_assoc] at text
  cases field with
  | nil => simp [name] at text
  | cons line field =>
    rw [List.flatMap_cons, List.append_assoc, List.cons_append] at text
    rw [List.append_assoc (bytes "Received:")] at text
    rcases @split_around cr (bytes "Received:") line _ [] _ (by decide) text with ⟨back,
      rfl⟩ | ⟨front, nothing, -⟩
    · have received : IsReceived (bytes "Received:" ++ back) := by
        rw [name]
        exact ⟨by simp, by rfl⟩
      exact decide_eq_true received
    · simp at nothing

theorem mentions_of_whole {self : HostName}
    (mem : field ∈ fieldsOf data) (whole : Whole self field) :
    field ∈ receivedFields data ∧ ∃ line ∈ field, Mentions (bytes self.text) line := by
  refine ⟨List.mem_filter.mpr ⟨mem, isReceived_of_written whole⟩, ?_⟩
  obtain ⟨message, peer, nowUnix, before, after, -, -, text⟩ := whole
  have by_ : bytes "by " = bytes "by" ++ [32] := by decide
  have plain {b : UInt8} (blank : isBlank b = true) (other : b ∉ bytes "by ") :
      b ∉ bytes "by " ++ bytes self.text := by
    rw [List.mem_append, not_or]
    refine ⟨other, fun mem => ?_⟩
    rw [self.plain b mem] at blank
    cases blank
  rw [← by_] at text
  obtain ⟨line, mem, front, back, own⟩ := mem_line_of_text (plain (by decide) (by decide))
    (plain (by decide) (by decide)) (by simp [self.bytes_ne_nil]) text
  exact ⟨line, mem, front, _, back, own, rfl⟩

/-- The own field is found as long as no hop folds it before the host. -/
theorem checkHops_of_whole {self : HostName} (ascii : isAscii self)
    (mem : field ∈ fieldsOf data) (whole : Whole self field) :
    checkHops self.text data = .error (Reply.withEnhanced 554 "5.4.6" Texts.tooManyHops) := by
  obtain ⟨received, mentions⟩ := mentions_of_whole mem whole
  have found := (receivedViaHost_iff self data).mpr ⟨ascii, field, received, mentions⟩
  rw [checkHops, found, Bool.or_true, if_pos rfl]

/-- The search is exact just for the messages that are telling. -/
theorem detectsLoop_iff (self : HostName) (data : List UInt8) :
    DetectsLoop self data ↔ Telling self data := by
  have own : (Passed self data → receivedViaHost data self.text = true) ↔
      (Passed self data → isAscii self) ∧
        ((∃ field ∈ fieldsOf data, Written self field ∧ Parted self field) →
          (∃ field ∈ fieldsOf data, Whole self field) ∨
            ∃ field ∈ receivedFields data, ∃ line ∈ field, Mentions (bytes self.text) line) := by
    rw [receivedViaHost_iff]
    constructor
    · intro found
      refine ⟨fun passed => (found passed).1, ?_⟩
      rintro ⟨field, mem, written, -⟩
      exact .inr (found ⟨field, mem, written⟩).2
    · rintro ⟨ascii, parted⟩ ⟨field, mem, written⟩
      refine ⟨ascii ⟨field, mem, written⟩, ?_⟩
      rcases whole_or_parted written with whole | fold
      · exact ⟨field, mentions_of_whole mem whole⟩
      · rcases parted ⟨field, mem, written, fold⟩ with ⟨other, mem, whole⟩ | elsewhere
        · exact ⟨other, mentions_of_whole mem whole⟩
        · exact elsewhere
  rw [DetectsLoop, Telling, own, and_assoc, and_iff_left (receivedHops_eq data), ← Bool.not_eq_true,
    receivedViaHost_iff, not_imp_not]
  refine and_congr_right fun _ => and_congr_right fun _ =>
    ⟨fun exact_ ascii within => ?_, fun telling found => ?_⟩
  · obtain ⟨field, inside, line, mem, within⟩ := within
    exact exact_ ⟨ascii, field, inside, line, mem, mentions_of_within within⟩
  · obtain ⟨ascii, field, inside, line, mem, mentions⟩ := found
    by_cases within : MentionsWithin (bytes self.text) line
    · exact telling ascii ⟨field, inside, line, mem, within⟩
    · exact ⟨field, inside, names_of_mentions self.bytes_ne_nil self.plain mem mentions within⟩

theorem mxHost_token : ∀ c ∈ "mx.mailstack.test".toList, isWhitespace c = false := by decide

theorem mxHost_some : "mx.mailstack.test" ≠ "" := by decide

def mxHost : HostName where
  text := "mx.mailstack.test"
  some := mxHost_some
  token := mxHost_token

/-- A name that begins with that of the host is taken for it. -/
theorem longer_name_detected : ¬∀ host data, DetectsLoop host data := by
  intro detects
  have exact_ := (detects mxHost (bytes
    "Received: from a by mx.mailstack.test.example.org; d\r\n\r\nbody\r\n")).2.1
    (by decide +kernel)
  exact absurd exact_ (by decide +kernel)

/-- A fold between the two tokens hides the name. -/
example : receivedViaHost
    (bytes "Received: from a by\r\n\tmx.mailstack.test with ESMTP; d\r\n\r\nbody\r\n") mxHost.text =
      false := by decide

end MailStack.Smtpd
