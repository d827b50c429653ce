import MailStack.Queue.Entry

/-! Loading the queue directory: all entries, or only those that are due, for which a part of each
file is read first. An entry is read from a JSON object by the names of its fields, or from an array
by their places, as derived readers do. -/

namespace MailStack.Queue

open Lib

/-- What a JSON text is made of. A number that is not a whole one keeps its text, and a string and a
key are what stands between their quotation marks. -/
inductive JsonSyntax
  | null
  | bool (b : Bool)
  | int (n : Int)
  | float (text : String)
  | string (raw : List UInt8)
  | array (items : List JsonSyntax)
  | object (fields : List (List UInt8 × JsonSyntax))

/-- What `serde_json` makes of bytes, and of what stands between quotation marks. -/
structure JsonReader where
  scan : List UInt8 → Option JsonSyntax
  text : List UInt8 → Option String

variable (json : JsonReader) {fields : List (String × JsonSyntax)} {α : Type}

def JsonReader.readText : JsonSyntax → Option String
  | .string raw => json.text raw
  | _ => none

def JsonSyntax.readInt (low high : Int) : JsonSyntax → Option Int
  | .int n => if low ≤ n ∧ n ≤ high then some n else none
  | _ => none

def JsonSyntax.readI64 : JsonSyntax → Option Int := readInt (-2 ^ 63) (2 ^ 63 - 1)

def JsonSyntax.readU32 (value : JsonSyntax) : Option Nat :=
  (value.readInt 0 (2 ^ 32 - 1)).map Int.toNat

def JsonSyntax.readU16 (value : JsonSyntax) : Option Nat :=
  (value.readInt 0 (2 ^ 16 - 1)).map Int.toNat

def JsonReader.readTexts : JsonSyntax → Option (List String)
  | .array items => items.mapM json.readText
  | _ => none

def JsonSyntax.readOption {α : Type} (read : JsonSyntax → Option α) : JsonSyntax → Option (Option α)
  | .null => some none
  | value => (read value).map some

def entryKind : String → Option EntryKind
  | "outbound" => some .outbound
  | "bounce" => some .bounce
  | _ => none

/-- A variant is its name, or an object with the name for its one key. -/
def JsonReader.readKind : JsonSyntax → Option EntryKind
  | .string raw => json.text raw >>= entryKind
  | .object [(raw, .null)] => json.text raw >>= entryKind
  | _ => none

def JsonReader.keyed
    (fields : List (List UInt8 × JsonSyntax)) : Option (List (String × JsonSyntax)) :=
  fields.mapM fun field => (json.text field.1).map fun key => (key, field.2)

def valuesOf (key : String) (fields : List (String × JsonSyntax)) : List JsonSyntax :=
  (fields.filter (·.1 = key)).map (·.2)

/-- A field must not be there twice. -/
def required {α : Type} (read : JsonSyntax → Option α) (key : String)
    (fields : List (String × JsonSyntax)) : Option α :=
  match valuesOf key fields with
  | [value] => read value
  | _ => none

def orDefault {α : Type} (default : α) (read : JsonSyntax → Option α) (key : String)
    (fields : List (String × JsonSyntax)) : Option α :=
  match valuesOf key fields with
  | [] => some default
  | [value] => read value
  | _ => none

/-- Other fields than these are passed over. -/
def JsonReader.entryOfFields (fields : List (String × JsonSyntax)) : Option QueueEntry := do
  let id ← required json.readText "id" fields
  let kind ← required json.readKind "kind" fields
  let mailFrom ← required json.readText "mailFrom" fields
  let recipients ← required json.readTexts "recipients" fields
  let data ← required json.readText "data" fields
  let createdAt ← required json.readText "createdAt" fields
  let attempts ← required JsonSyntax.readU32 "attempts" fields
  let nextAttemptUnix ← required JsonSyntax.readI64 "nextAttemptUnix" fields
  let lastError ← orDefault none (JsonSyntax.readOption json.readText) "lastError" fields
  let lastCode ← orDefault none (JsonSyntax.readOption JsonSyntax.readU16) "lastCode" fields
  pure { id, kind, mailFrom, recipients, data, createdAt, attempts, nextAttemptUnix, lastError, lastCode }

def JsonReader.readEntry : JsonSyntax → Option QueueEntry
  | .object fields => json.keyed fields >>= json.entryOfFields
  | .array [id, kind, mailFrom, recipients, data, createdAt, attempts, nextAttemptUnix, lastError,
      lastCode] => do
    let id ← json.readText id
    let kind ← json.readKind kind
    let mailFrom ← json.readText mailFrom
    let recipients ← json.readTexts recipients
    let data ← json.readText data
    let createdAt ← json.readText createdAt
    let attempts ← attempts.readU32
    let nextAttemptUnix ← nextAttemptUnix.readI64
    let lastError ← lastError.readOption json.readText
    let lastCode ← lastCode.readOption JsonSyntax.readU16
    pure { id, kind, mailFrom, recipients, data, createdAt, attempts, nextAttemptUnix, lastError, lastCode }
  | _ => none

structure EntryHeader where
  nextAttemptUnix : Int

def JsonReader.readHeader : JsonSyntax → Option EntryHeader
  | .object fields => do
    let fields ← json.keyed fields
    let nextAttemptUnix ← orDefault 0 JsonSyntax.readI64 "nextAttemptUnix" fields
    pure { nextAttemptUnix }
  | .array [] => some { nextAttemptUnix := 0 }
  | .array [nextAttemptUnix] => nextAttemptUnix.readI64.map EntryHeader.mk
  | _ => none

inductive Unreadable
  | json
  | invalid (error : QueueError)

def JsonReader.parseEntry (raw : List UInt8) : Except Unreadable QueueEntry :=
  match json.scan raw >>= json.readEntry with
  | none => .error .json
  | some entry =>
    match entry.validate with
    | .ok () => .ok entry
    | .error error => .error (.invalid error)

structure QueueFile where
  name : List UInt8
  isFile : Bool
  contents : List UInt8

def isQueueFile (file : QueueFile) : Bool :=
  let name := (fromUtf8Lossy file.name).toList
  file.isFile && name.head? ≠ some '.' && ".json".toList.isSuffixOf name

inductive Examined
  | foreign
  | loaded (entry : QueueEntry)
  | waiting
  | corrupt
deriving DecidableEq

def Examined.entry : Examined → Option QueueEntry
  | .loaded entry => some entry
  | _ => none

def JsonReader.examineAll (file : QueueFile) : Examined :=
  if !isQueueFile file then .foreign
  else
    match json.parseEntry file.contents with
    | .ok entry => .loaded entry
    | .error _ => .corrupt

def JsonReader.examineDue (now : Int) (file : QueueFile) : Examined :=
  if !isQueueFile file then .foreign
  else
    match json.scan file.contents >>= json.readHeader with
    | none => .corrupt
    | some header =>
      if header.nextAttemptUnix > now then .waiting
      else
        match json.parseEntry file.contents with
        | .ok entry => if entry.isDue now then .loaded entry else .waiting
        | .error _ => .corrupt

/-- The entries that a load returns, and the files that it moves to the corrupt area. -/
structure Loaded where
  entries : List QueueEntry
  quarantined : List QueueFile

abbrev QueueDir := Option (List QueueFile)

def byId (a b : QueueEntry) : Bool := a.id ≤ b.id

/-- The files are examined in the order in which the directory lists them. -/
def QueueDir.load (examine : QueueFile → Examined) : QueueDir → Loaded
  | none => { entries := [], quarantined := [] }
  | some files =>
    { entries := (files.filterMap fun file => (examine file).entry).mergeSort byId
      quarantined := files.filter fun file => examine file = .corrupt }

def QueueDir.loadAll : QueueDir → Loaded := load json.examineAll

def QueueDir.loadDue (now : Int) : QueueDir → Loaded := load (json.examineDue now)

variable {json} {now : Int} {entry : QueueEntry} {file : QueueFile}

theorem orDefault_of_required {read : JsonSyntax → Option α} {key : String}
    {default a : α}
    (there : required read key fields = some a) :
    orDefault default read key fields = some a := by
  rw [required] at there
  split at there
  case h_1 value one => rw [orDefault, one]; exact there
  case h_2 => cases there

theorem JsonReader.header_of_entryOfFields
    (read : json.entryOfFields fields = some entry) :
    orDefault 0 JsonSyntax.readI64 "nextAttemptUnix" fields = some entry.nextAttemptUnix := by
  simp only [entryOfFields, Option.bind_eq_bind, Option.bind_eq_some_iff] at read
  obtain ⟨_, -, _, -, _, -, _, -, _, -, _, -, _, -, nextAttemptUnix, next, _, -, _, -, built⟩ := read
  cases built
  exact orDefault_of_required next

theorem JsonReader.readHeader_object {fields : List (List UInt8 × JsonSyntax)}
    (read : json.readEntry (.object fields) = some entry) :
    json.readHeader (.object fields) = some ⟨entry.nextAttemptUnix⟩ := by
  obtain ⟨keyed, keys, read⟩ := Option.bind_eq_some_iff.mp read
  show (json.keyed fields).bind _ = _
  rw [keys, Option.bind_some, header_of_entryOfFields read]
  rfl

theorem JsonReader.readHeader_array {items : List JsonSyntax}
    (read : json.readEntry (.array items) = some entry) :
      json.readHeader (.array items) = none := by
  unfold readEntry at read
  split at read
  case h_1 same => cases same
  case h_2 same => cases same; rfl
  case h_3 => cases read

theorem JsonReader.exists_syntax {raw : List UInt8} (accepted : json.parseEntry raw = .ok entry) :
    ∃ value, json.scan raw = some value ∧ json.readEntry value = some entry := by
  rw [parseEntry] at accepted
  split at accepted
  case h_1 => cases accepted
  case h_2 e read =>
    split at accepted
    case h_1 =>
      cases accepted
      exact Option.bind_eq_some_iff.mp read
    case h_2 => cases accepted

def JsonReader.IsArray (json : JsonReader) (raw : List UInt8) : Prop :=
  ∃ items, json.scan raw = some (.array items)

/-- A queue file that `parse_entry` accepts, although it is written as an array. -/
def JsonReader.IsArrayEntry (json : JsonReader) (file : QueueFile) : Prop :=
  isQueueFile file = true ∧ json.IsArray file.contents ∧
    ∃ entry, json.parseEntry file.contents = .ok entry

theorem JsonReader.examineAll_eq_loaded :
    json.examineAll file = .loaded entry ↔
      isQueueFile file = true ∧ json.parseEntry file.contents = .ok entry := by
  rw [examineAll]
  cases isQueueFile file with
  | false => simp
  | true => cases json.parseEntry file.contents <;> simp

/-- An accepted file that is no array is looked at by its header, and waits or is loaded. -/
theorem JsonReader.examineDue_of_loaded (accepted : json.examineAll file = .loaded entry)
    (object : ¬json.IsArray file.contents) :
    json.examineDue now file = if entry.isDue now then .loaded entry else .waiting := by
  obtain ⟨queueFile, parsed⟩ := examineAll_eq_loaded.mp accepted
  obtain ⟨value, scanned, read⟩ := exists_syntax parsed
  have header : json.readHeader value = some ⟨entry.nextAttemptUnix⟩ := by
    cases value with
    | object fields => exact readHeader_object read
    | array items => exact absurd ⟨items, scanned⟩ object
    | null => cases read
    | bool b => cases read
    | int n => cases read
    | float text => cases read
    | string raw => cases read
  rw [examineDue, queueFile, scanned]
  show (match (some value).bind json.readHeader with
    | none => Examined.corrupt
    | some header => _) = _
  rw [Option.bind_some, header, parsed]
  by_cases later : entry.nextAttemptUnix > now
  · have notDue : entry.isDue now = false := by
      rw [QueueEntry.isDue, decide_eq_false_iff_not]
      omega
    simp [later, notDue]
  · simp [later]

theorem JsonReader.not_isArray (accepted : json.examineAll file = .loaded entry)
    (object : ¬json.IsArrayEntry file) : ¬json.IsArray file.contents := by
  obtain ⟨queueFile, parsed⟩ := examineAll_eq_loaded.mp accepted
  exact fun array => object ⟨queueFile, array, entry, parsed⟩

theorem JsonReader.examineDue_of_isArrayEntry (array : json.IsArrayEntry file) :
    json.examineDue now file = .corrupt := by
  obtain ⟨queueFile, ⟨items, scanned⟩, entry, parsed⟩ := array
  obtain ⟨value, scanned', read⟩ := exists_syntax parsed
  rw [scanned] at scanned'
  cases scanned'
  rw [examineDue, queueFile, scanned]
  show (match (some (JsonSyntax.array items)).bind json.readHeader with
    | none => Examined.corrupt
    | some header => _) = _
  rw [Option.bind_some, readHeader_array read]

theorem JsonReader.examineAll_of_due (loaded : json.examineDue now file = .loaded entry) :
    json.examineAll file = .loaded entry ∧ entry.isDue now = true := by
  rw [examineDue] at loaded
  split at loaded
  case isTrue => cases loaded
  case isFalse queueFile =>
    split at loaded
    case h_1 => cases loaded
    case h_2 =>
      split at loaded
      case isTrue => cases loaded
      case isFalse =>
        split at loaded
        case h_2 => cases loaded
        case h_1 e parsed =>
          split at loaded
          case isFalse => cases loaded
          case isTrue due =>
            cases loaded
            exact ⟨examineAll_eq_loaded.mpr ⟨by simpa using queueFile, parsed⟩, due⟩

theorem Examined.entry_eq_some {examined : Examined} :
    examined.entry = some entry ↔ examined = .loaded entry := by
  cases examined <;> simp [Examined.entry]

theorem JsonReader.entry_examineDue (object : ¬json.IsArrayEntry file) :
    (json.examineDue now file).entry = (json.examineAll file).entry.filter (·.isDue now) := by
  apply Option.ext
  intro entry
  rw [Option.filter_eq_some_iff, Examined.entry_eq_some, Examined.entry_eq_some]
  constructor
  · exact examineAll_of_due
  · rintro ⟨accepted, due⟩
    rw [examineDue_of_loaded accepted (not_isArray accepted object)]
    exact if_pos due

theorem JsonReader.not_corrupt_of_loaded (accepted : json.examineAll file = .loaded entry)
    (object : ¬json.IsArrayEntry file) : json.examineDue now file ≠ .corrupt := by
  rw [examineDue_of_loaded accepted (not_isArray accepted object)]
  split <;> exact nofun

theorem append_cut {p : α → Bool} {before after before' after' : List α}
    (same : before ++ after = before' ++ after') (without : ∀ b ∈ before, p b = false)
    (with_ : ∀ b ∈ after, p b = true) (without' : ∀ b ∈ before', p b = false)
    (with' : ∀ b ∈ after', p b = true) : before = before' ∧ after = after' := by
  rcases List.append_eq_append_iff.mp same with ⟨mid, rfl, rfl⟩ | ⟨mid, rfl, rfl⟩
  · have none : mid = [] := by
      rw [List.eq_nil_iff_forall_not_mem]
      intro b mem
      have := without' b (List.mem_append_right _ mem)
      rw [with_ b (List.mem_append_left _ mem)] at this
      cases this
    simp [none]
  · have none : mid = [] := by
      rw [List.eq_nil_iff_forall_not_mem]
      intro b mem
      have := without b (List.mem_append_right _ mem)
      rw [with' b (List.mem_append_left _ mem)] at this
      cases this
    simp [none]

/-- A stable sort of some of the items takes them out of the sort of all. -/
theorem filter_mergeSort {le : α → α → Bool} (trans : ∀ a b c, le a b → le b c → le a c)
    (total : ∀ a b, le a b || le b a) (p : α → Bool) (xs : List α) :
    (xs.filter p).mergeSort le = (xs.mergeSort le).filter p := by
  induction xs with
  | nil => simp
  | cons a xs ih =>
    obtain ⟨before, after, all, rest, less⟩ := List.mergeSort_cons trans total a xs
    rw [all, List.filter_append, List.filter_cons]
    by_cases kept : p a
    · rw [if_pos kept, List.filter_cons_of_pos kept]
      obtain ⟨before', after', some_, rest', less'⟩ :=
        List.mergeSort_cons trans total a (xs.filter p)
      have sorted := List.pairwise_mergeSort trans total (a :: xs)
      have sorted' := List.pairwise_mergeSort trans total (a :: xs.filter p)
      rw [all, List.pairwise_append, List.pairwise_cons] at sorted
      rw [some_, List.pairwise_append, List.pairwise_cons] at sorted'
      have parts : before' ++ after' = before.filter p ++ after.filter p := by
        rw [← rest', ih, rest, List.filter_append]
      -- both are cut where the first item begins that is not before `a`
      obtain ⟨rfl, rfl⟩ :=
        @append_cut _ (le a) _ _ _ _ parts (fun b mem => by simpa using less' b mem)
        sorted'.2.1.1 (fun b mem => by simpa using less b (List.mem_of_mem_filter mem))
        fun b mem => sorted.2.1.1 b (List.mem_of_mem_filter mem)
      exact some_
    · rw [if_neg kept, List.filter_cons_of_neg kept, ih, rest, List.filter_append]

theorem byId_trans (a b c : QueueEntry) (ab : byId a b) (bc : byId b c) : byId a c := by
  simp only [byId, decide_eq_true_eq] at *
  exact String.le_trans ab bc

theorem byId_total (a b : QueueEntry) : byId a b || byId b a := by
  simpa [byId] using String.le_total a.id b.id

theorem mem_quarantined {examine : QueueFile → Examined} {dir : QueueDir} :
    file ∈ (QueueDir.load examine dir).quarantined ↔
      file ∈ dir.getD [] ∧ examine file = .corrupt := by
  cases dir <;> simp [QueueDir.load]

/-- Loading what is due returns the due entries of the full load, and leaves alone what that
accepts, exactly if no file in the directory is an accepted entry that is written as an array. -/
theorem load_due_filtered (json : JsonReader) (dir : QueueDir) (now : Int) :
    (QueueDir.loadDue json now dir).entries =
        (QueueDir.loadAll json dir).entries.filter (·.isDue now) ∧
      (∀ file ∈ (QueueDir.loadDue json now dir).quarantined, ∀ entry,
        json.examineAll file ≠ .loaded entry) ↔
    ∀ file ∈ dir.getD [], ¬json.IsArrayEntry file := by
  constructor
  · rintro ⟨-, spared⟩ file listed array
    have moved : file ∈ (QueueDir.loadDue json now dir).quarantined :=
      mem_quarantined.mpr ⟨listed, JsonReader.examineDue_of_isArrayEntry array⟩
    obtain ⟨queueFile, -, entry, parsed⟩ := array
    exact spared file moved entry (JsonReader.examineAll_eq_loaded.mpr ⟨queueFile, parsed⟩)
  · intro objects
    constructor
    · cases dir with
      | none => rfl
      | some files =>
        have each : ∀ file ∈ files, (json.examineDue now file).entry =
            (json.examineAll file).entry.filter (·.isDue now) :=
          fun file listed => JsonReader.entry_examineDue (objects file listed)
        show (files.filterMap _).mergeSort byId = ((files.filterMap _).mergeSort byId).filter _
        rw [← filter_mergeSort byId_trans byId_total, List.filterMap_congr each,
          List.filter_filterMap]
    · intro file moved entry accepted
      obtain ⟨listed, corrupt⟩ := mem_quarantined.mp moved
      exact JsonReader.not_corrupt_of_loaded accepted (objects file listed) corrupt

def arrayText : String := "[\"A1\",\"outbound\",\"s@x\",[\"r@y\"],\"hi\",\"t\",0,0,null,null]"

/-- What is read of this one text. -/
def arrayReader : JsonReader where
  scan raw :=
    if raw = bytes arrayText then
      some (.array [.string (bytes "A1"), .string (bytes "outbound"), .string (bytes "s@x"),
        .array [.string (bytes "r@y")], .string (bytes "hi"), .string (bytes "t"), .int 0, .int 0, .null,
        .null])
    else none
  text raw := fromUtf8 raw

def arrayFile : QueueFile :=
  { name := bytes "A1.json", isFile := true, contents := bytes arrayText }

def arrayEntry : QueueEntry :=
  { id := "A1", kind := .outbound, mailFrom := "s@x", recipients := ["r@y"], data := "hi", createdAt := "t",
    attempts := 0, nextAttemptUnix := 0, lastError := none, lastCode := none }

/-- The full load returns the entry, which is due, and the other one quarantines its file. -/
theorem array_entry_quarantined :
    QueueDir.loadAll arrayReader (some [arrayFile]) =
      { entries := [arrayEntry], quarantined := [] } ∧
    arrayEntry.isDue 0 = true ∧
    QueueDir.loadDue arrayReader 0 (some [arrayFile]) =
      { entries := [], quarantined := [arrayFile] } := by
  have all : arrayReader.examineAll arrayFile = .loaded arrayEntry := by decide +kernel
  have due : arrayReader.examineDue 0 arrayFile = .corrupt := by decide +kernel
  refine ⟨?_, by decide, ?_⟩
  · simp [QueueDir.loadAll, QueueDir.load, all, Examined.entry]
  · simp [QueueDir.loadDue, QueueDir.load, due, Examined.entry]

end MailStack.Queue
