import MailStack.Lib.Duplex
import MailStack.Lib.Utf8
import MailStack.Lmtp.Client
import MailStack.Lmtp.Session

/-! How a message gets from the client to the server: the lines that the client sends for it and
what the server reads from them. -/

namespace MailStack.Lmtp

open Lib Smtp

theorem stripLineCr_cons_cons (c d : Char) (line : List Char) :
    stripLineCr (c :: d :: line) = c :: stripLineCr (d :: line) := by
  simp only [stripLineCr, List.getLast?_cons_cons, List.dropLast_cons_cons]
  split <;> rfl

theorem dotStuffFrom_line {line tail : List Char} (noLf : '\n' ∉ line)
    (ends : tail = [] ∨ tail.head? = some '\n') :
    dotStuffFrom false (line ++ tail) = stripLineCr line ++ dotStuffFrom false tail := by
  induction line with
  | nil => rfl
  | cons c line ih =>
    have later := ih fun mem => noLf (List.mem_cons_of_mem _ mem)
    have notLf : c ≠ '\n' := fun eq => noLf (eq ▸ List.mem_cons_self)
    rw [List.cons_append, dotStuffFrom, if_neg notLf, later]
    cases line with
    | nil =>
      have ended : (tail.isEmpty || decide (tail.head? = some '\n')) = true := by simpa using ends
      by_cases isCr : c = '\r'
      · simp [ended, isCr, stripLineCr]
      · simp [isCr, stripLineCr]
    | cons d rest =>
      have inside : ((d :: rest ++ tail).isEmpty ||
          decide ((d :: rest ++ tail).head? = some '\n')) = false := by
        have other : d ≠ '\n' := fun eq => noLf (by simp [eq])
        simp [other]
      rw [inside, stripLineCr_cons_cons]
      simp

theorem dotStuffFrom_start {line tail : List Char} (noLf : '\n' ∉ line)
    (ends : tail = [] ∨ tail.head? = some '\n') :
    dotStuffFrom true (line ++ tail) = stuffLine (stripLineCr line) ++ dotStuffFrom false tail := by
  have same := dotStuffFrom_line noLf ends
  cases line with
  | nil =>
    obtain rfl | first := ends
    · rfl
    · obtain ⟨rest, rfl⟩ := List.head?_eq_some_iff.mp first
      rfl
  | cons c line =>
    have notLf : c ≠ '\n' := fun eq => noLf (eq ▸ List.mem_cons_self)
    rw [List.cons_append, dotStuffFrom, if_neg notLf] at same ⊢
    by_cases dot : c = '.'
    · have first : (stripLineCr (c :: line)).head? = some '.' := by
        cases line with
        | nil => simp [stripLineCr, dot]
        | cons d rest => simp [stripLineCr_cons_cons, dot]
      simp only [Bool.false_and, Bool.false_eq_true, if_false, List.nil_append] at same
      rw [stuffLine, if_pos first, List.cons_append, ← same]
      simp [dot]
    · have first : (stripLineCr (c :: line)).head? ≠ some '.' := by
        cases line with
        | nil =>
          simp only [stripLineCr]
          split <;> simp [dot]
        | cons d rest => simp [stripLineCr_cons_cons, dot]
      rw [stuffLine, if_neg first, ← same]
      simp [dot]

/-- Both clients write a message in the same way. -/
theorem dotStuff_eq (data : String) : dotStuff data = Smtp.dotStuff data := by
  have lines : ∀ ls : List (List Char), (∀ l ∈ ls, '\n' ∉ l) →
      dotStuffFrom true (['\n'].intercalate ls) =
        crlf.intercalate (ls.map fun l => stuffLine (stripLineCr l)) := by
    intro ls
    induction ls with
    | nil => intro _; rfl
    | cons line rest ih =>
      intro noLf
      have own := noLf line List.mem_cons_self
      have later := ih fun l mem => noLf l (List.mem_cons_of_mem _ mem)
      cases rest with
      | nil =>
        have only : dotStuffFrom true (line ++ []) = stuffLine (stripLineCr line) ++ [] :=
          dotStuffFrom_start own (.inl rfl)
        simpa using only
      | cons second rest =>
        rw [List.map_cons] at later
        rw [List.intercalate_cons_cons, List.map_cons, List.map_cons, List.intercalate_cons_cons,
          ← later, List.append_assoc, dotStuffFrom_start own (.inr rfl)]
        simp [dotStuffFrom, crlf]
  have all := lines (data.toList.splitOn '\n') fun l mem => not_mem_of_mem_splitOn mem
  rw [List.intercalate_splitOn] at all
  rw [dotStuff, Smtp.dotStuff, Smtp.textLines, all, List.map_map]
  rfl

/-- The loop of `dot_stuff` as it goes over the bytes. -/
def dotStuffBytes : Bool → List UInt8 → List UInt8
  | _, [] => []
  | atLineStart, byte :: rest =>
    if byte = 10 then 13 :: 10 :: dotStuffBytes true rest
    else
      (if atLineStart && byte = 46 then [46] else []) ++
        (if byte = 13 && (rest.isEmpty || rest.head? = some 10) then [] else [byte]) ++
          dotStuffBytes false rest

theorem dotStuffBytes_high (atLineStart : Bool) {front rest : List UInt8} (some : front ≠ [])
    (high : ∀ byte ∈ front, 0x80 ≤ byte.toNat) :
    dotStuffBytes atLineStart (front ++ rest) = front ++ dotStuffBytes false rest := by
  induction front generalizing atLineStart with
  | nil => exact absurd rfl some
  | cons byte front ih =>
    have own := high byte List.mem_cons_self
    have other : byte ≠ 10 ∧ byte ≠ 46 ∧ byte ≠ 13 := by
      refine ⟨?_, ?_, ?_⟩ <;> rintro rfl <;> simp at own
    have first : dotStuffBytes atLineStart (byte :: (front ++ rest)) =
        byte :: dotStuffBytes false (front ++ rest) := by
      simp [dotStuffBytes, other]
    rw [List.cons_append, first]
    cases front with
    | nil => rfl
    | cons next front =>
      rw [ih false (List.cons_ne_nil _ _) fun b mem => high b (List.mem_cons_of_mem _ mem)]
      rfl

theorem ofNat_val_eq_iff {c : Char} (ascii : c.val.toNat < 0x80) (d : Char)
    (small : d.val.toNat < 0x80) : UInt8.ofNat c.val.toNat = UInt8.ofNat d.val.toNat ↔ c = d := by
  refine ⟨fun eq => ?_, fun eq => by rw [eq]⟩
  have same := congrArg UInt8.toNat eq
  rw [byte_toNat (by omega), byte_toNat (by omega)] at same
  exact Char.ext (UInt32.toNat_inj.mp same)

theorem flatMap_ended (cs : List Char) :
    ((cs.flatMap String.utf8EncodeChar).isEmpty ||
        decide ((cs.flatMap String.utf8EncodeChar).head? = some 10)) =
      (cs.isEmpty || decide (cs.head? = some '\n')) := by
  cases cs with
  | nil => rfl
  | cons c cs =>
    obtain ⟨ascii, one⟩ | ⟨big, high⟩ := utf8EncodeChar_cases c
    · have lf := ofNat_val_eq_iff ascii '\n' (by decide)
      simpa [one] using lf
    · obtain ⟨byte, more, shape⟩ := List.exists_cons_of_ne_nil String.utf8EncodeChar_ne_nil
      rw [shape] at high
      have own := high byte List.mem_cons_self
      have notLf : c ≠ '\n' := by
        rintro rfl
        exact absurd big (by decide)
      have other : byte ≠ 10 := by
        rintro rfl
        simp at own
      simp [shape, notLf, other]

theorem dotStuffBytes_flatMap (atLineStart : Bool) (cs : List Char) :
    dotStuffBytes atLineStart (cs.flatMap String.utf8EncodeChar) =
      (dotStuffFrom atLineStart cs).flatMap String.utf8EncodeChar := by
  induction cs generalizing atLineStart with
  | nil => rfl
  | cons c cs ih =>
    rw [List.flatMap_cons]
    obtain ⟨ascii, one⟩ | ⟨big, high⟩ := utf8EncodeChar_cases c
    · have lf : UInt8.ofNat c.val.toNat = 10 ↔ c = '\n' := ofNat_val_eq_iff ascii '\n' (by decide)
      have dot : UInt8.ofNat c.val.toNat = 46 ↔ c = '.' := ofNat_val_eq_iff ascii '.' (by decide)
      have cr : UInt8.ofNat c.val.toNat = 13 ↔ c = '\r' := ofNat_val_eq_iff ascii '\r' (by decide)
      rw [one, List.singleton_append, dotStuffBytes, dotStuffFrom, flatMap_ended]
      simp only [lf, dot, cr]
      by_cases isLf : c = '\n'
      · rw [if_pos isLf, if_pos isLf, ih]
        rfl
      · rw [if_neg isLf, if_neg isLf, ih, List.flatMap_append, List.flatMap_append]
        congr 2
        · split
          · rfl
          · rfl
        · split
          · rfl
          · simp [one]
    · have other {d : Char} (small : d.val.toNat < 0x80) : c ≠ d := by
        rintro rfl
        omega
      rw [dotStuffBytes_high _ String.utf8EncodeChar_ne_nil high, ih]
      have same : dotStuffFrom atLineStart (c :: cs) = c :: dotStuffFrom false cs := by
        simp [dotStuffFrom, other (d := '\n') (by decide), other (d := '.') (by decide),
          other (d := '\r') (by decide)]
      rw [same, List.flatMap_cons]

theorem bytes_dotStuff
    (data : String) : bytes (dotStuff data) = dotStuffBytes true (bytes data) := by
  rw [dotStuff, bytes_ofList, bytes, dotStuffBytes_flatMap]

/-- The client's loop over bytes never leaves a text, and the text is the one that is made of the
lines. -/
theorem dotStuffBytes_lines (data : String) :
    fromUtf8 (dotStuffBytes true (bytes data)) = some (Smtp.dotStuff data) := by
  rw [← bytes_dotStuff, dotStuff_eq, fromUtf8_bytes]

theorem payload_eq (data : String) : payload data = terminateData data := by
  rw [payload, terminateData, dotStuff_eq]

@[simp] theorem stripLineCr_concat (line : List Char) : stripLineCr (line ++ ['\r']) = line := by
  simp [stripLineCr]

theorem wireLines_flatMap {ls : List (List Char)} (noLf : ∀ l ∈ ls, '\n' ∉ l) :
    wireLines (String.ofList (ls.flatMap (· ++ crlf))) = ls.map String.ofList := by
  have parts : (ls.flatMap (· ++ crlf)).splitOn '\n' = ls.map (· ++ ['\r']) ++ [[]] := by
    induction ls with
    | nil => rfl
    | cons line rest ih =>
      have own : '\n' ∉ line ++ ['\r'] := by simpa using noLf line List.mem_cons_self
      have shape : (line :: rest).flatMap (· ++ crlf) =
          (line ++ ['\r']) ++ '\n' :: rest.flatMap (· ++ crlf) := by simp [crlf]
      rw [shape, List.splitOn_append_cons_self_of_not_mem own,
        ih fun l mem => noLf l (List.mem_cons_of_mem _ mem)]
      rfl
  rw [wireLines, String.toList_ofList, parts, List.dropLast_concat, List.map_map]
  exact List.map_congr_left fun line _ => by simp

def sentLines (data : String) : List String :=
  (canonicalLines data).map fun line => String.ofList (stuffLine line)

theorem wireLines_payload (data : String) : wireLines (payload data) = sentLines data ++ ["."] := by
  have text : payload data =
      String.ofList (((canonicalLines data).map stuffLine ++ [['.']]).flatMap (· ++ crlf)) := by
    apply String.toList_inj.mp
    rw [payload_eq, toList_terminateData]
    simp [List.flatMap_map, crlf]
  rw [text, wireLines_flatMap]
  · simp [sentLines]
  · intro l mem
    obtain inLines | rfl := List.mem_append.mp mem |>.imp_right List.mem_singleton.mp
    · obtain ⟨line, own, rfl⟩ := List.mem_map.mp inLines
      exact not_mem_stuffLine (not_mem_textLines (canonicalLines_subset data own))
    · decide

/-- The text that the server takes a message for, if it is not too large. -/
def received (config : LmtpConfig) (data : String) : Option String :=
  if (bytes (crlfCanonical data)).length ≤ config.maxMessageSize then some (crlfCanonical data)
  else none

/-- The server takes every line that is sent. -/
def LinesFit (config : LmtpConfig) (data : String) : Prop :=
  ∀ line ∈ sentLines data, (bytes line).length ≤ config.maxLine

instance (config : LmtpConfig) (data : String) : Decidable (LinesFit config data) :=
  inferInstanceAs (Decidable (∀ line ∈ sentLines data, (bytes line).length ≤ config.maxLine))

/-- The server has read lines that make up the text. -/
def Gathered (config : LmtpConfig) (text : String) (reading : Reading) : Prop :=
  ∃ out, reading = .data out (bytes text).length
      (decide (config.maxMessageSize < (bytes text).length)) ∧
    ((bytes text).length ≤ config.maxMessageSize → out = text)

variable {σ : Type} {ctx : LmtpContext σ} {s : LmtpSession σ}

theorem stuffed_ne_dot (line : List Char) : String.ofList (stuffLine line) ≠ "." := by
  intro eq
  have chars : stuffLine line = ['.'] := by simpa using congrArg String.toList eq
  simp only [stuffLine] at chars
  split at chars
  · next first => cases chars; cases first
  · next first => subst chars; exact first rfl

theorem unstuffed (line : List Char) :
    (if (stripPrefix ".." (String.ofList (stuffLine line))).isSome then
        String.ofList ((String.ofList (stuffLine line)).toList.drop 1)
      else String.ofList (stuffLine line)) = String.ofList line := by
  simp only [stuffLine, stripPrefix, String.toList_ofList]
  by_cases dot : line.head? = some '.'
  · obtain ⟨rest, rfl⟩ := List.head?_eq_some_iff.mp dot
    simp
  · have other : ¬"..".toList <+: line := by
      rintro ⟨rest, rfl⟩
      exact dot rfl
    rw [if_neg dot, if_neg other]
    rfl

variable {text : String}

theorem receive_gathered {line : List Char} (gathered : Gathered ctx.config text s.reading)
    (fits : (bytes (String.ofList (stuffLine line))).length ≤ ctx.config.maxLine) :
    ∃ reading, s.receive ctx (String.ofList (stuffLine line)) = ({ s with reading }, []) ∧
      Gathered ctx.config (text ++ String.ofList line ++ "\r\n") reading := by
  obtain ⟨out, reading, kept⟩ := gathered
  have length : (bytes (text ++ String.ofList line ++ "\r\n")).length =
      (bytes text).length + (bytes (String.ofList line)).length + 2 := by
    rw [bytes_append, bytes_append, List.length_append, List.length_append]
    rfl
  rw [LmtpSession.receive, reading]
  simp only [if_neg (Nat.not_lt.mpr fits), LmtpSession.dataLine, if_neg (stuffed_ne_dot line),
    unstuffed]
  by_cases large : (bytes text).length + (bytes (String.ofList line)).length + 2 >
      ctx.config.maxMessageSize
  · rw [if_pos large]
    refine ⟨_, rfl, out, ?_, by omega⟩
    rw [length, decide_eq_true large]
  · have small : ¬ctx.config.maxMessageSize < (bytes text).length := by omega
    rw [if_neg large, if_neg (by simpa using small), kept (by omega)]
    refine ⟨_, rfl, _, ?_, fun _ => rfl⟩
    rw [length, decide_eq_false small, decide_eq_false large]

theorem feed_gathered (ls : List (List Char)) (gathered : Gathered ctx.config text s.reading)
    (fit : ∀ line ∈ ls, (bytes (String.ofList (stuffLine line))).length ≤ ctx.config.maxLine) :
    ∃ reading, feed (LmtpSession.receive ctx) s (ls.map fun line =>
      String.ofList (stuffLine line)) =
        ({ s with reading }, []) ∧
      Gathered ctx.config (text ++ String.ofList (ls.flatMap (· ++ crlf))) reading := by
  induction ls generalizing s text with
  | nil => exact ⟨s.reading, rfl, by simpa using gathered⟩
  | cons line rest ih =>
    obtain ⟨reading, first, now⟩ := receive_gathered gathered (fit line List.mem_cons_self)
    obtain ⟨last, later, whole⟩ := ih (s := { s with reading }) now
      fun l mem => fit l (List.mem_cons_of_mem _ mem)
    refine ⟨last, by simp [feed_cons, first, later], ?_⟩
    have shape : text ++ String.ofList ((line :: rest).flatMap (· ++ crlf)) =
        text ++ String.ofList line ++ "\r\n" ++ String.ofList (rest.flatMap (· ++ crlf)) := by
      apply String.toList_inj.mp
      simp [crlf]
    rw [shape]
    exact whole

/-- The server answers a message whose lines it can read once for each of its recipients. -/
theorem feed_message {data : String} (reading : s.reading = .data "" 0 false)
    (fit : LinesFit ctx.config data) (dot : 1 ≤ ctx.config.maxLine) :
    feed (LmtpSession.receive ctx) s (sentLines data ++ ["."]) =
      ({ s.resetTransaction with
          reading := .command, answered := s.answered + s.recipients.length },
        s.recipients.map (answerLine ctx (s.mailFrom.getD "") (received ctx.config data))) := by
  have start : Gathered ctx.config "" s.reading := ⟨"", by rw [reading]; rfl, fun _ => rfl⟩
  obtain ⟨last, lines, gathered⟩ := feed_gathered (canonicalLines data) start fun line mem =>
    fit _ (List.mem_map_of_mem mem)
  have text : "" ++ String.ofList ((canonicalLines data).flatMap (· ++ crlf)) =
      crlfCanonical data := by
    simp [crlfCanonical]
  rw [text] at gathered
  obtain ⟨out, rfl, kept⟩ := gathered
  have whole : (if decide (ctx.config.maxMessageSize < (bytes (crlfCanonical data)).length) = true
      then none else some out) = received ctx.config data := by
    rw [received]
    by_cases small : (bytes (crlfCanonical data)).length ≤ ctx.config.maxMessageSize
    · rw [if_pos small, kept small, if_neg (by simpa using small)]
    · rw [if_neg small, if_pos (by simpa using small)]
  have short : ¬(bytes ".").length > ctx.config.maxLine := by
    have one : (bytes ".").length = 1 := rfl
    omega
  rw [feed_append, sentLines, lines]
  simp only [feed_cons, feed_nil, LmtpSession.receive, if_neg short, LmtpSession.dataLine, if_true,
    whole, LmtpSession.answerData, List.length_map, List.append_nil, List.nil_append]
  rfl

/-- A line that is too long ends the session, and nothing is answered. -/
theorem feed_tooLong {ls : List (List Char)} (gathered : Gathered ctx.config text s.reading)
    (long : ∃ line ∈ ls, ctx.config.maxLine < (bytes (String.ofList (stuffLine line))).length)
    (more : List String) :
    feed (LmtpSession.receive ctx) s
        ((ls.map fun line => String.ofList (stuffLine line)) ++ more) =
      ({ s with reading := .closed }, []) := by
  induction ls generalizing s text with
  | nil => obtain ⟨line, mem, -⟩ := long; cases mem
  | cons line rest ih =>
    by_cases fits : (bytes (String.ofList (stuffLine line))).length ≤ ctx.config.maxLine
    · obtain ⟨reading, first, now⟩ := receive_gathered gathered fits
      have later : ∃ l ∈ rest,
          ctx.config.maxLine < (bytes (String.ofList (stuffLine l))).length := by
        obtain ⟨l, mem, tooLong⟩ := long
        obtain rfl | mem := List.mem_cons.mp mem
        · omega
        · exact ⟨l, mem, tooLong⟩
      simp [feed_cons, first, ih (s := { s with reading }) now later]
    · obtain ⟨out, reading, -⟩ := gathered
      have ends : s.receive ctx (String.ofList (stuffLine line)) =
          ({ s with reading := .closed }, []) := by
        rw [LmtpSession.receive, reading]
        simp only [if_pos (Nat.lt_of_not_le fits)]
      have idle : feed (LmtpSession.receive ctx) { s with reading := .closed }
          ((rest.map fun line => String.ofList (stuffLine line)) ++ more) =
          ({ s with reading := .closed }, []) := feed_idle (fun _ => rfl) _
      simp [feed_cons, ends, idle]

end MailStack.Lmtp
