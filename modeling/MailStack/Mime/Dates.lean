import MailStack.Lib.Text
import MailStack.Lib.Word

/-! The date that a message carries in its header. -/

namespace MailStack.Mime

open Lib

def months : List String :=
  ["Jan", "Feb", "Mar", "Apr", "May", "Jun", "Jul", "Aug", "Sep", "Oct", "Nov", "Dec"]

/-- The days from the beginning of 1970. -/
def daysFromCivil (year : Int) (month day : Nat) : Int :=
  let y := if month ≤ 2 then year - 1 else year
  let era := (if y ≥ 0 then y else y - 399).tdiv 400
  let yoe := y - era * 400
  let mp : Int := if month > 2 then (month : Int) - 3 else month + 9
  let doy := (153 * mp + 2).tdiv 5 + day - 1
  let doe := yoe * 365 + yoe.tdiv 4 - yoe.tdiv 100 + doy
  era * 146097 + doe - 719468

/-- The year, the month and the day. A division of the source that can be of a negative number cuts
towards zero. -/
def civilFromDays (days : Int) : Int × Nat × Nat :=
  let z := days + 719468
  let era := (if z ≥ 0 then z else z - 146096).tdiv 146097
  let doe := z - era * 146097
  let yoe := (doe - doe / 1460 + doe / 36524 - doe / 146096) / 365
  let y := yoe + era * 400
  let doy := doe - (365 * yoe + yoe / 4 - yoe / 100)
  let mp := (5 * doy + 2) / 153
  let day := (doy - (153 * mp + 2) / 5 + 1).toNat
  let month := (if mp < 10 then mp + 3 else mp - 9).toNat
  (if month ≤ 2 then y + 1 else y, month, day)

def formatDateTime (timestamp : Int) : String :=
  let seconds := timestamp % 86400
  let (year, month, day) := civilFromDays (timestamp / 86400)
  zeroPadded 2 day ++ "-" ++ months[month - 1]?.getD "Jan" ++ "-" ++ zeroPadded 4 year ++ " " ++
    zeroPadded 2 (seconds / 3600) ++ ":" ++ zeroPadded 2 (seconds % 3600 / 60) ++ ":" ++
    zeroPadded 2 (seconds % 60) ++ " +0000"

example : formatDateTime 1792737000 = "23-Oct-2026 06:30:00 +0000" := by decide

def monthNumber (name : String) : Option Nat :=
  (months.findIdx? fun candidate => eqIgnoreAsciiCase candidate name).map (· + 1)

def isLeap (year : Int) : Bool :=
  (year.tmod 4 = 0 && year.tmod 100 ≠ 0) || year.tmod 400 = 0

def daysInMonth (year : Int) (month : Nat) : Nat :=
  if [1, 3, 5, 7, 8, 10, 12].contains month then 31
  else if [4, 6, 9, 11].contains month then 30
  else if month = 2 then (if isLeap year then 29 else 28)
  else 0

def isValidDate (year : Int) (month day : Nat) : Bool :=
  1 ≤ year && year ≤ 9999 && day ≠ 0 && day ≤ daysInMonth year month

/-- The seconds that a zone is ahead. -/
def parseZone (zone : String) : Option Int :=
  match zone.toList with
  | [sign, a, b, c, d] =>
    if (sign = '+' || sign = '-') && [a, b, c, d].all Char.isDigit then
      let value (high low : Char) : Int := 10 * (high.toNat - 48) + (low.toNat - 48)
      let hours := value a b
      let minutes := value c d
      if hours > 23 || minutes > 59 then none
      else some ((if sign = '+' then 1 else -1) * (hours * 3600 + minutes * 60))
    else none
  | _ => none

/-- The seconds since midnight. Minutes and seconds may be missing. -/
def parseClock (time : String) : Option Int :=
  let parts := (time.toList.splitOn ':').map String.ofList
  match (parts[0]?.bind parseI64) with
  | none => none
  | some hour =>
    let minute := (parts[1]?.bind parseI64).getD 0
    let second := (parts[2]?.bind parseI64).getD 0
    if 0 ≤ hour && hour < 24 && 0 ≤ minute && minute < 60 && 0 ≤ second && second ≤ 60 then
      some (hour * 3600 + minute * 60 + second)
    else none

def findZone (fields : List String) : Int :=
  (fields.findSome? fun token =>
    if token.toList.head? = some '+' || token.toList.head? = some '-' then parseZone token
    else none).getD 0

/-- The fields from the day on: the name of a weekday before it is not read. -/
def dateFields (value : String) : List String :=
  let cleaned := trim (String.ofList (value.toList.takeWhile (· ≠ '(')))
  match splitWhitespace cleaned with
  | [] => []
  | first :: fields =>
    if ((first.toList.reverse.dropWhile (· = ',')).all Char.isAlpha) then fields
    else first :: fields

def parseHeaderDate (value : String) : Option Int := do
  match dateFields value with
  | dayField :: monthField :: yearField :: fields =>
    let day ← parseUnsigned u32Max dayField
    let month ← monthNumber monthField
    let year ← parseI64 yearField
    let clock ← match fields with
      | time :: _ => parseClock time
      | [] => some 0
    let offset := findZone (fields.drop 1)
    if isValidDate year month day then
      some (daysFromCivil year month day * 86400 + clock - offset)
    else none
  | _ => none

example : parseHeaderDate "Fri, 23 Oct 2026 14:30:00 +0800" = some 1792737000 := by decide

end MailStack.Mime
