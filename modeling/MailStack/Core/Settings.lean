import MailStack.Lib.Json
import MailStack.Lib.Table
import MailStack.Lib.Word

/-! The settings of the daemon: their JSON, the patches that are applied to them, and the file that
they are kept in. -/

namespace MailStack.Core

open Lib

structure Settings where
  transparency : UInt32
  backdropBlur : UInt32
  reducedMotion : Bool
  autoUpdate : Bool
  version : String
  hostname : String
  adminEmail : String
  timezone : String
  maxMessageSizeMb : UInt32
  relayConcurrency : UInt32
  rateLimitPerHour : UInt32
  spamThreshold : UInt32
  colorTheme : String
deriving DecidableEq

/-- `VERSION`. -/
def coreVersion : String := "1.0.0"

/-- What the machine says of itself: `default_hostname` and `default_timezone`. -/
structure Machine where
  hostname : String
  timezone : String

def Settings.default (machine : Machine) : Settings :=
  { transparency := 70
    backdropBlur := 16
    reducedMotion := false
    autoUpdate := false
    version := coreVersion
    hostname := machine.hostname
    adminEmail := ""
    timezone := machine.timezone
    maxMessageSizeMb := 50
    relayConcurrency := 20
    rateLimitPerHour := 500
    spamThreshold := 6
    colorTheme := "blue" }

def settingsWriteWhitelist : List String :=
  ["transparency", "backdropBlur", "reducedMotion", "autoUpdate", "adminEmail", "maxMessageSizeMb",
    "rateLimitPerHour", "spamThreshold", "colorTheme", "hostname", "timezone"]

def settingValueRanges : List (String × Nat × Nat) :=
  [("transparency", 0, 100), ("backdropBlur", 0, 100), ("spamThreshold", 0, 100),
    ("maxMessageSizeMb", 1, 1024), ("rateLimitPerHour", 1, 1000000)]

def clampU32 (n low high : UInt32) : UInt32 := if n < low then low else if high < n then high else n

def clampSettings (s : Settings) : Settings :=
  { s with
    transparency := clampU32 s.transparency 0 100
    backdropBlur := clampU32 s.backdropBlur 0 100
    spamThreshold := clampU32 s.spamThreshold 0 100
    maxMessageSizeMb := clampU32 s.maxMessageSizeMb 1 1024
    rateLimitPerHour := clampU32 s.rateLimitPerHour 1 1000000 }

/-! ### JSON -/

abbrev Object := Table String Json

def ofU32 (n : UInt32) : Json := .number (.ofNat n.toNat)

def readU32 : Json → Option UInt32
  | .number n => (parseUnsigned u32Max n.text).map UInt32.ofNat
  | _ => none

def readBool : Json → Option Bool
  | .bool b => some b
  | _ => none

def u32Keys : List String :=
  ["transparency", "backdropBlur", "maxMessageSizeMb", "relayConcurrency", "rateLimitPerHour",
    "spamThreshold"]

def boolKeys : List String := ["reducedMotion", "autoUpdate"]

def stringKeys : List String := ["version", "hostname", "adminEmail", "timezone", "colorTheme"]

/-- `to_value`. -/
def Settings.toValue (s : Settings) : Object where
  entries :=
    [⟨"transparency", ofU32 s.transparency⟩, ⟨"backdropBlur", ofU32 s.backdropBlur⟩,
      ⟨"reducedMotion", .bool s.reducedMotion⟩, ⟨"autoUpdate", .bool s.autoUpdate⟩,
      ⟨"version", .string s.version⟩, ⟨"hostname", .string s.hostname⟩,
      ⟨"adminEmail", .string s.adminEmail⟩, ⟨"timezone", .string s.timezone⟩,
      ⟨"maxMessageSizeMb", ofU32 s.maxMessageSizeMb⟩,
      ⟨"relayConcurrency", ofU32 s.relayConcurrency⟩,
      ⟨"rateLimitPerHour", ofU32 s.rateLimitPerHour⟩, ⟨"spamThreshold", ofU32 s.spamThreshold⟩,
      ⟨"colorTheme", .string s.colorTheme⟩]
  nodupKeys := by
    show List.Nodup ["transparency", "backdropBlur", "reducedMotion", "autoUpdate", "version",
      "hostname", "adminEmail", "timezone", "maxMessageSizeMb", "relayConcurrency",
      "rateLimitPerHour", "spamThreshold", "colorTheme"]
    decide

/-- A field of an object, or its default where it is not there. -/
def readField {α : Type} (read : Json → Option α) (object : Object) (key : String) (default : α) :
    Option α :=
  match object.get key with
  | none => some default
  | some value => read value

/-- `from_value`: missing fields are those of the default, other ones are passed over. -/
def Settings.fromValue (machine : Machine) (object : Object) : Option Settings := do
  let d := Settings.default machine
  let transparency ← readField readU32 object "transparency" d.transparency
  let backdropBlur ← readField readU32 object "backdropBlur" d.backdropBlur
  let reducedMotion ← readField readBool object "reducedMotion" d.reducedMotion
  let autoUpdate ← readField readBool object "autoUpdate" d.autoUpdate
  let version ← readField Json.asStr object "version" d.version
  let hostname ← readField Json.asStr object "hostname" d.hostname
  let adminEmail ← readField Json.asStr object "adminEmail" d.adminEmail
  let timezone ← readField Json.asStr object "timezone" d.timezone
  let maxMessageSizeMb ← readField readU32 object "maxMessageSizeMb" d.maxMessageSizeMb
  let relayConcurrency ← readField readU32 object "relayConcurrency" d.relayConcurrency
  let rateLimitPerHour ← readField readU32 object "rateLimitPerHour" d.rateLimitPerHour
  let spamThreshold ← readField readU32 object "spamThreshold" d.spamThreshold
  let colorTheme ← readField Json.asStr object "colorTheme" d.colorTheme
  return { transparency, backdropBlur, reducedMotion, autoUpdate, version, hostname, adminEmail,
           timezone, maxMessageSizeMb, relayConcurrency, rateLimitPerHour, spamThreshold,
           colorTheme }

/-! ### Patches -/

/-- The machine and the JSON library: a number as the nearest `f64`, rounded, and the text of
settings. -/
structure SettingsEnv where
  machine : Machine
  roundF64 : JsonNumber → Int
  toStringPretty : Settings → String
  fromStr : String → Option Settings

variable (env : SettingsEnv) {entries : List (Sigma fun _ : String => Json)}
  {accepted : List String} {range : Nat × Nat} {m n : UInt32}

/-- The value that a patch gives a key. -/
def patchedValue (key : String) (value : Json) : Json :=
  match value with
  | .number n =>
    match settingValueRanges.lookup key with
    | some (low, high) => .number (.ofNat (max low (min (env.roundF64 n) high).toNat))
    | none => value
  | _ => value

/-- The loop over the keys of a patch. -/
@[grind =] def patchObject (object : Object) (accepted : List String) :
    List (Sigma fun _ : String => Json) → Object × List String
  | [] => (object, accepted)
  | ⟨key, value⟩ :: rest =>
    if key ∉ settingsWriteWhitelist then patchObject object accepted rest
    else patchObject (object.put key (patchedValue env key value)) (accepted ++ [key]) rest

/-- The settings after a patch, and the keys that were applied. -/
def applySettingsPatch (settings : Settings) (patch : Object) : Settings × List String :=
  let (object, accepted) := patchObject env settings.toValue [] patch.entries
  match Settings.fromValue env.machine object with
  | some updated => (clampSettings updated, accepted)
  | none => (settings, [])

/-! ### The file -/

inductive SettingsFile
  | missing
  | unreadable
  | text (content : String)
deriving DecidableEq

def readSettings : SettingsFile → Settings
  | .text content =>
    match env.fromStr content with
    | some s => if s.version.isEmpty then { s with version := coreVersion } else s
    | none => .default env.machine
  | _ => .default env.machine

def writeSettings (settings : Settings) : SettingsFile :=
  .text (env.toStringPretty settings ++ "\n")

/-! ### What a patch does -/

def settingKeys : List String := u32Keys ++ boolKeys ++ stringKeys

/-- Settings as they are written: clamped, and with a version. -/
structure Settings.Tidy (s : Settings) : Prop where
  inRange : clampSettings s = s
  versioned : s.version ≠ ""

def patchOf (patch : Object) (key : String) : Option Json :=
  if key ∈ settingsWriteWhitelist then (patch.get key).map (patchedValue env key) else none

/-- A value that a key can have. -/
def typed (key : String) (value : Json) : Bool :=
  if key ∈ u32Keys then (readU32 value).isSome
  else if key ∈ boolKeys then (readBool value).isSome
  else value.asStr.isSome

def accepts (patch : Object) : Bool :=
  settingKeys.all fun key => (patchOf env patch key).all (typed key)

variable {env} {s u : Settings} {object patch : Object} {key : String} {value : Json}

theorem mem_toValue : key ∈ s.toValue ↔ key ∈ settingKeys := by
  show key ∈ ["transparency", "backdropBlur", "reducedMotion", "autoUpdate", "version",
      "hostname", "adminEmail", "timezone", "maxMessageSizeMb", "relayConcurrency",
      "rateLimitPerHour", "spamThreshold", "colorTheme"] ↔ _
  simp only [settingKeys, u32Keys, boolKeys, stringKeys, List.cons_append, List.nil_append,
    List.mem_cons, List.not_mem_nil, or_false]
  tauto

theorem whitelist_subset : settingsWriteWhitelist ⊆ settingKeys := by decide

theorem get_patchObject
    (distinct : entries.NodupKeys) :
    (patchObject env object accepted entries).1.get key =
      (if key ∈ settingsWriteWhitelist then
        (entries.dlookup key).map (patchedValue env key) else none).or (object.get key) := by
  induction entries generalizing object accepted with
  | nil => simp [patchObject]
  | cons entry rest ih =>
    obtain ⟨name, value⟩ := entry
    obtain ⟨missing, later⟩ := List.nodupKeys_cons.mp distinct
    unfold patchObject
    by_cases same : key = name
    · subst same
      have gone : rest.dlookup key = none := List.dlookup_eq_none.mpr missing
      by_cases listed : key ∈ settingsWriteWhitelist
      · rw [if_neg (not_not.mpr listed), ih later, gone]
        simp [listed]
      · rw [if_pos listed, ih later]
        simp [listed]
    · have other : List.dlookup key (⟨name, value⟩ :: rest) = rest.dlookup key :=
        List.dlookup_cons_ne rest ⟨name, value⟩ same
      split
      · rw [ih later, other]
      · rw [ih later, other, Table.get_put_ne same]

theorem accepted_patchObject :
    (patchObject env object accepted entries).2 =
      accepted ++ entries.keys.filter (· ∈ settingsWriteWhitelist) := by
  induction entries generalizing object accepted with
  | nil => simp [patchObject]
  | cons entry rest ih =>
    obtain ⟨name, value⟩ := entry
    unfold patchObject
    by_cases listed : name ∈ settingsWriteWhitelist
    · rw [if_neg (not_not.mpr listed), ih]
      simp [listed]
    · rw [if_pos listed, ih]
      simp [listed]

theorem get_patched :
    (patchObject env s.toValue [] patch.entries).1.get key =
      (patchOf env patch key).or (s.toValue.get key) :=
  get_patchObject patch.nodupKeys

/-! The numbers of settings. -/

@[simp] theorem readU32_ofU32 (n : UInt32) : readU32 (ofU32 n) = some n := by
  have small : n.toNat ≤ u32Max := by
    have := n.toNat_lt
    simp only [u32Max]
    omega
  show (parseUnsigned u32Max (toString n.toNat)).map UInt32.ofNat = some n
  rw [parseUnsigned_toString small, Option.map_some, UInt32.ofNat_toNat]

theorem number_ofNat {n : Nat} (small : n ≤ u32Max) :
    Json.number (.ofNat n) = ofU32 (UInt32.ofNat n) := by
  have back : (UInt32.ofNat n).toNat = n := by
    rw [UInt32.toNat_ofNat']
    simp only [u32Max] at small
    omega
  rw [ofU32, back]

theorem ofU32_injective (same : ofU32 m = ofU32 n) : m = n := by
  have read := congrArg readU32 same
  simpa using read

/-! Reading settings from an object. -/

variable {machine : Machine}

/-- Each field of the settings is read from the object, or is a default. -/
structure ReadFrom (object : Object) (u : Settings) : Prop where
  u32 : ∀ key ∈ u32Keys, ∃ d n, readField readU32 object key d = some n ∧
    u.toValue.get key = some (ofU32 n)
  bool : ∀ key ∈ boolKeys, ∃ d b, readField readBool object key d = some b ∧
    u.toValue.get key = some (.bool b)
  string : ∀ key ∈ stringKeys, ∃ d t, readField Json.asStr object key d = some t ∧
    u.toValue.get key = some (.string t)

theorem ReadFrom.of_fromValue (h : Settings.fromValue machine object = some u) :
    ReadFrom object u := by
  unfold Settings.fromValue at h
  obtain ⟨_, h1, h⟩ := Option.bind_eq_some_iff.mp h
  obtain ⟨_, h2, h⟩ := Option.bind_eq_some_iff.mp h
  obtain ⟨_, h3, h⟩ := Option.bind_eq_some_iff.mp h
  obtain ⟨_, h4, h⟩ := Option.bind_eq_some_iff.mp h
  obtain ⟨_, h5, h⟩ := Option.bind_eq_some_iff.mp h
  obtain ⟨_, h6, h⟩ := Option.bind_eq_some_iff.mp h
  obtain ⟨_, h7, h⟩ := Option.bind_eq_some_iff.mp h
  obtain ⟨_, h8, h⟩ := Option.bind_eq_some_iff.mp h
  obtain ⟨_, h9, h⟩ := Option.bind_eq_some_iff.mp h
  obtain ⟨_, h10, h⟩ := Option.bind_eq_some_iff.mp h
  obtain ⟨_, h11, h⟩ := Option.bind_eq_some_iff.mp h
  obtain ⟨_, h12, h⟩ := Option.bind_eq_some_iff.mp h
  obtain ⟨_, h13, h⟩ := Option.bind_eq_some_iff.mp h
  cases h
  constructor <;> intro key mem <;>
    simp only [u32Keys, boolKeys, stringKeys, List.mem_cons, List.not_mem_nil, or_false] at mem
  · rcases mem with rfl | rfl | rfl | rfl | rfl | rfl
    · exact ⟨_, _, h1, rfl⟩
    · exact ⟨_, _, h2, rfl⟩
    · exact ⟨_, _, h9, rfl⟩
    · exact ⟨_, _, h10, rfl⟩
    · exact ⟨_, _, h11, rfl⟩
    · exact ⟨_, _, h12, rfl⟩
  · rcases mem with rfl | rfl
    · exact ⟨_, _, h3, rfl⟩
    · exact ⟨_, _, h4, rfl⟩
  · rcases mem with rfl | rfl | rfl | rfl | rfl
    · exact ⟨_, _, h5, rfl⟩
    · exact ⟨_, _, h6, rfl⟩
    · exact ⟨_, _, h7, rfl⟩
    · exact ⟨_, _, h8, rfl⟩
    · exact ⟨_, _, h13, rfl⟩

theorem not_mem_u32Keys : ∀ key ∈ boolKeys ++ stringKeys, key ∉ u32Keys := by decide

theorem not_mem_boolKeys : ∀ key ∈ stringKeys, key ∉ boolKeys := by decide

theorem readField_some {α : Type} {read : Json → Option α} {d a : α}
    (h : readField read object key d = some a) (found : object.get key = some value) :
    read value = some a := by
  rw [readField, found] at h
  exact h

theorem exists_readField {α : Type} {read : Json → Option α} (d : α)
    (readable : ∀ value, object.get key = some value → (read value).isSome = true) :
    ∃ a, readField read object key d = some a := by
  unfold readField
  split
  · exact ⟨d, rfl⟩
  · rename_i value found
    exact Option.isSome_iff_exists.mp (readable value found)

/-- An object whose values all have the types of their keys is read. -/
theorem exists_fromValue
    (readable : ∀ key ∈ settingKeys, ∀ value, object.get key = some value →
      typed key value = true) :
    ∃ u, Settings.fromValue machine object = some u := by
  have u32 : ∀ key ∈ u32Keys, ∀ d, ∃ n, readField readU32 object key d = some n := by
    intro key mem d
    refine exists_readField d fun value found => ?_
    have known := readable key (by simp [settingKeys, mem]) value found
    simpa [typed, mem] using known
  have bool : ∀ key ∈ boolKeys, ∀ d, ∃ b, readField readBool object key d = some b := by
    intro key mem d
    refine exists_readField d fun value found => ?_
    have known := readable key (by simp [settingKeys, mem]) value found
    have other : key ∉ u32Keys := not_mem_u32Keys key (by simp [mem])
    simpa [typed, mem, other] using known
  have string : ∀ key ∈ stringKeys, ∀ d, ∃ t, readField Json.asStr object key d = some t := by
    intro key mem d
    refine exists_readField d fun value found => ?_
    have known := readable key (by simp [settingKeys, mem]) value found
    have other : key ∉ u32Keys := not_mem_u32Keys key (by simp [mem])
    simpa [typed, other, not_mem_boolKeys key mem] using known
  refine Option.isSome_iff_exists.mp ?_
  unfold Settings.fromValue
  generalize Settings.default machine = d
  obtain ⟨_, h1⟩ := u32 "transparency" (by decide) d.transparency
  obtain ⟨_, h2⟩ := u32 "backdropBlur" (by decide) d.backdropBlur
  obtain ⟨_, h3⟩ := bool "reducedMotion" (by decide) d.reducedMotion
  obtain ⟨_, h4⟩ := bool "autoUpdate" (by decide) d.autoUpdate
  obtain ⟨_, h5⟩ := string "version" (by decide) d.version
  obtain ⟨_, h6⟩ := string "hostname" (by decide) d.hostname
  obtain ⟨_, h7⟩ := string "adminEmail" (by decide) d.adminEmail
  obtain ⟨_, h8⟩ := string "timezone" (by decide) d.timezone
  obtain ⟨_, h9⟩ := u32 "maxMessageSizeMb" (by decide) d.maxMessageSizeMb
  obtain ⟨_, h10⟩ := u32 "relayConcurrency" (by decide) d.relayConcurrency
  obtain ⟨_, h11⟩ := u32 "rateLimitPerHour" (by decide) d.rateLimitPerHour
  obtain ⟨_, h12⟩ := u32 "spamThreshold" (by decide) d.spamThreshold
  obtain ⟨_, h13⟩ := string "colorTheme" (by decide) d.colorTheme
  simp only [Option.bind_eq_bind, h1, h2, h3, h4, h5, h6, h7, h8, h9, h10, h11, h12, h13,
    Option.bind_some]
  rfl

theorem ReadFrom.get_toValue (h : ReadFrom object u)
    (full : ∀ key ∈ settingKeys, object.get key ≠ none)
    (numbers : ∀ key ∈ u32Keys, ∀ value n, object.get key = some value →
      readU32 value = some n → value = ofU32 n) :
    ∀ key ∈ settingKeys, u.toValue.get key = object.get key := by
  intro key mem
  obtain ⟨value, found⟩ := Option.ne_none_iff_exists'.mp (full key mem)
  rw [found]
  simp only [settingKeys, List.mem_append, or_assoc] at mem
  rcases mem with numeric | boolean | text
  · obtain ⟨d, n, read, same⟩ := h.u32 key numeric
    rw [same, numbers key numeric value n found (readField_some read found)]
  · obtain ⟨d, b, read, same⟩ := h.bool key boolean
    have known := readField_some read found
    cases value <;> simp only [readBool, reduceCtorEq, Option.some.injEq] at known
    rw [same, known]
  · obtain ⟨d, t, read, same⟩ := h.string key text
    have known := readField_some read found
    cases value <;> simp only [Json.asStr, reduceCtorEq, Option.some.injEq] at known
    rw [same, known]

theorem ReadFrom.typed (h : ReadFrom object u) :
    ∀ key ∈ settingKeys, ∀ value, object.get key = some value → typed key value = true := by
  intro key mem value found
  simp only [settingKeys, List.mem_append, or_assoc] at mem
  rcases mem with numeric | boolean | text
  · obtain ⟨d, n, read, -⟩ := h.u32 key numeric
    simp [Core.typed, numeric, readField_some read found]
  · obtain ⟨d, b, read, -⟩ := h.bool key boolean
    have other : key ∉ u32Keys := not_mem_u32Keys key (by simp [boolean])
    simp [Core.typed, other, boolean, readField_some read found]
  · obtain ⟨d, t, read, -⟩ := h.string key text
    have other : key ∉ u32Keys := not_mem_u32Keys key (by simp [text])
    simp [Core.typed, other, not_mem_boolKeys key text, readField_some read found]

theorem ReadFrom.toValue (s : Settings) : ReadFrom s.toValue s := by
  constructor <;> intro key mem <;>
    simp only [u32Keys, boolKeys, stringKeys, List.mem_cons, List.not_mem_nil, or_false] at mem
  · rcases mem with rfl | rfl | rfl | rfl | rfl | rfl <;> exact ⟨0, _, readU32_ofU32 _, rfl⟩
  · rcases mem with rfl | rfl <;> exact ⟨false, _, rfl, rfl⟩
  · rcases mem with rfl | rfl | rfl | rfl | rfl <;> exact ⟨"", _, rfl, rfl⟩

theorem get_toValue_ne_none (mem : key ∈ settingKeys) : s.toValue.get key ≠ none := by
  rw [ne_eq, Table.get_eq_none_iff, not_not]
  exact mem_toValue.mpr mem

theorem ranged : ∀ key ∈ u32Keys, key ∈ settingsWriteWhitelist →
    ∃ range, settingValueRanges.lookup key = some range ∧ range.2 ≤ u32Max := by
  simp only [u32Keys, List.forall_mem_cons]
  refine ⟨fun _ => ⟨(0, 100), by decide⟩, fun _ => ⟨(0, 100), by decide⟩,
    fun _ => ⟨(1, 1024), by decide⟩, fun mem => absurd mem (by decide),
    fun _ => ⟨(1, 1000000), by decide⟩, fun _ => ⟨(0, 100), by decide⟩, by simp⟩

theorem range_mem (found : settingValueRanges.lookup key = some range) :
    (key, range) ∈ settingValueRanges := by
  obtain ⟨before, after, shape, -⟩ := List.lookup_eq_some_iff.mp found
  rw [shape]
  exact List.mem_append_right _ List.mem_cons_self

theorem range_le : ∀ entry ∈ settingValueRanges, entry.2.1 ≤ entry.2.2 := by decide

theorem patchedValue_ranged {n : UInt32}
    (found : settingValueRanges.lookup key = some range) (small : range.2 ≤ u32Max)
    (read : readU32 (patchedValue env key value) = some n) :
    patchedValue env key value = ofU32 n ∧ range.1 ≤ n.toNat ∧ n.toNat ≤ range.2 := by
  have order := range_le _ (range_mem found)
  obtain ⟨low, high⟩ := range
  simp only at small order
  cases value with
  | number m =>
    simp only [patchedValue, found] at read ⊢
    generalize value : max low (min (env.roundF64 m) (high : Int)).toNat = v at read ⊢
    have bounds : low ≤ v ∧ v ≤ high := by omega
    have inside : v ≤ u32Max := le_trans bounds.2 small
    rw [number_ofNat inside, readU32_ofU32, Option.some.injEq] at read
    subst read
    rw [number_ofNat inside, UInt32.toNat_ofNat', Nat.mod_eq_of_lt]
    · exact ⟨rfl, bounds⟩
    · simp only [u32Max] at inside
      omega
  | null | bool | string | array | object => simp [patchedValue, readU32] at read

theorem get_fromValue
    (h : Settings.fromValue machine (patchObject env s.toValue [] patch.entries).1 = some u) :
    u.toValue.get key = (patchOf env patch key).or (s.toValue.get key) := by
  by_cases known : key ∈ settingKeys
  · rw [← get_patched]
    refine (ReadFrom.of_fromValue h).get_toValue ?_ ?_ key known
    · intro key mem
      rw [get_patched, ne_eq, Option.or_eq_none_iff]
      exact fun both => get_toValue_ne_none mem both.2
    · intro key numeric value n found read
      rw [get_patched, Option.or_eq_some_iff] at found
      rcases found with patched | ⟨-, old⟩
      · unfold patchOf at patched
        split at patched
        case isFalse => cases patched
        case isTrue listed =>
          obtain ⟨given, -, rfl⟩ := Option.map_eq_some_iff.mp patched
          obtain ⟨range, found, small⟩ := ranged key numeric listed
          exact (patchedValue_ranged found small read).1
      · obtain ⟨d, m, -, same⟩ := (ReadFrom.toValue s).u32 key numeric
        rw [same, Option.some.injEq] at old
        rw [← old, readU32_ofU32, Option.some.injEq] at read
        rw [← old, read]
  · have absent : ∀ settings : Settings, settings.toValue.get key = none := fun settings =>
      Table.get_eq_none_iff.mpr fun mem => known (mem_toValue.mp mem)
    have unlisted : key ∉ settingsWriteWhitelist := fun listed => known (whitelist_subset listed)
    rw [absent, absent, patchOf, if_neg unlisted]
    rfl

theorem exists_fromValue_iff :
    (∃ u, Settings.fromValue machine (patchObject env s.toValue [] patch.entries).1 = some u) ↔
      accepts env patch = true := by
  rw [accepts, List.all_eq_true]
  constructor
  · rintro ⟨u, h⟩ key mem
    rw [Option.all_eq_true _ _]
    intro value patched
    refine (ReadFrom.of_fromValue h).typed key mem value ?_
    rw [get_patched, patched, Option.some_or]
  · intro accepted
    refine exists_fromValue fun key mem value found => ?_
    rw [get_patched, Option.or_eq_some_iff] at found
    rcases found with patched | ⟨-, old⟩
    · exact (Option.all_eq_true _ _).mp (accepted key mem) value patched
    · exact (ReadFrom.toValue s).typed key mem value old

theorem clampU32_eq_self_iff {n low high : UInt32} (order : low ≤ high) :
    clampU32 n low high = n ↔ low.toNat ≤ n.toNat ∧ n.toNat ≤ high.toNat := by
  rw [← UInt32.le_iff_toNat_le, ← UInt32.le_iff_toNat_le]
  constructor
  · intro same
    unfold clampU32 at same
    split at same
    · rename_i below
      rw [same] at below
      exact absurd below (UInt32.lt_irrefl n)
    · rename_i above
      split at same
      · rw [← same]
        exact ⟨order, UInt32.le_refl high⟩
      · rename_i inside
        exact ⟨UInt32.not_lt.mp above, UInt32.not_lt.mp inside⟩
  · rintro ⟨above, below⟩
    rw [clampU32, if_neg (UInt32.not_lt.mpr above), if_neg (UInt32.not_lt.mpr below)]

theorem clampSettings_eq_self_iff : clampSettings s = s ↔
    (0 ≤ s.transparency.toNat ∧ s.transparency.toNat ≤ 100) ∧
    (0 ≤ s.backdropBlur.toNat ∧ s.backdropBlur.toNat ≤ 100) ∧
    (0 ≤ s.spamThreshold.toNat ∧ s.spamThreshold.toNat ≤ 100) ∧
    (1 ≤ s.maxMessageSizeMb.toNat ∧ s.maxMessageSizeMb.toNat ≤ 1024) ∧
    (1 ≤ s.rateLimitPerHour.toNat ∧ s.rateLimitPerHour.toNat ≤ 1000000) := by
  have fields : clampSettings s = s ↔ clampU32 s.transparency 0 100 = s.transparency ∧
      clampU32 s.backdropBlur 0 100 = s.backdropBlur ∧
      clampU32 s.spamThreshold 0 100 = s.spamThreshold ∧
      clampU32 s.maxMessageSizeMb 1 1024 = s.maxMessageSizeMb ∧
      clampU32 s.rateLimitPerHour 1 1000000 = s.rateLimitPerHour := by
    constructor
    · intro same
      exact ⟨congrArg Settings.transparency same, congrArg Settings.backdropBlur same,
        congrArg Settings.spamThreshold same, congrArg Settings.maxMessageSizeMb same,
        congrArg Settings.rateLimitPerHour same⟩
    · rintro ⟨h1, h2, h3, h4, h5⟩
      simp [clampSettings, h1, h2, h3, h4, h5]
  rw [fields, clampU32_eq_self_iff (by decide), clampU32_eq_self_iff (by decide),
    clampU32_eq_self_iff (by decide), clampU32_eq_self_iff (by decide),
    clampU32_eq_self_iff (by decide)]
  rfl

/-- A number with a range is in it after a patch of tidy settings. -/
theorem inRange_fromValue {low high : Nat} {n m : UInt32}
    (h : Settings.fromValue machine (patchObject env s.toValue [] patch.entries).1 = some u)
    (numeric : key ∈ u32Keys) (listed : key ∈ settingsWriteWhitelist)
    (found : settingValueRanges.lookup key = some (low, high))
    (old : s.toValue.get key = some (ofU32 n)) (now : u.toValue.get key = some (ofU32 m))
    (inRange : low ≤ n.toNat ∧ n.toNat ≤ high) : low ≤ m.toNat ∧ m.toNat ≤ high := by
  rw [get_fromValue h, Option.or_eq_some_iff] at now
  rcases now with patched | ⟨-, kept⟩
  · rw [patchOf, if_pos listed] at patched
    obtain ⟨given, -, same⟩ := Option.map_eq_some_iff.mp patched
    obtain ⟨range, found', small⟩ := ranged key numeric listed
    rw [found, Option.some.injEq] at found'
    subst found'
    have read : readU32 (patchedValue env key given) = some m := by rw [same, readU32_ofU32]
    exact (patchedValue_ranged found small read).2
  · rw [old, Option.some.injEq] at kept
    rw [← ofU32_injective kept]
    exact inRange

theorem Settings.Tidy.fromValue (tidy : s.Tidy)
    (h : Settings.fromValue machine (patchObject env s.toValue [] patch.entries).1 = some u) :
    u.Tidy := by
  obtain ⟨h1, h2, h3, h4, h5⟩ := clampSettings_eq_self_iff.mp tidy.inRange
  refine ⟨clampSettings_eq_self_iff.mpr ⟨?_, ?_, ?_, ?_, ?_⟩, ?_⟩
  · exact @inRange_fromValue _ _ _ _ "transparency" _ _ _ _ _ h (by decide) (by decide) rfl rfl rfl h1
  · exact @inRange_fromValue _ _ _ _ "backdropBlur" _ _ _ _ _ h (by decide) (by decide) rfl rfl rfl h2
  · exact @inRange_fromValue _ _ _ _ "spamThreshold" _ _ _ _ _ h (by decide) (by decide) rfl rfl rfl h3
  · exact @inRange_fromValue _ _ _ _ "maxMessageSizeMb" _ _ _ _ _ h (by decide) (by decide) rfl rfl rfl h4
  · exact @inRange_fromValue _ _ _ _ "rateLimitPerHour" _ _ _ _ _ h (by decide) (by decide) rfl rfl rfl h5
  · have same := @get_fromValue _ _ _ _ "version" _ h
    rw [patchOf, if_neg (by decide), Option.none_or] at same
    have version : u.version = s.version := by
      have value : Json.string u.version = .string s.version := Option.some.inj same
      simpa using value
    rw [version]
    exact tidy.versioned

/-- A patch keeps tidy settings tidy, and changes the keys that it applies to what it has for
them. -/
theorem applySettingsPatch_spec (tidy : s.Tidy) :
    (applySettingsPatch env s patch).1.Tidy ∧
    (∀ key, (applySettingsPatch env s patch).1.toValue.get key =
      (if accepts env patch then patchOf env patch key else none).or (s.toValue.get key)) ∧
    (applySettingsPatch env s patch).2 =
      if accepts env patch then patch.keys.filter (· ∈ settingsWriteWhitelist) else [] := by
  unfold applySettingsPatch
  cases read : Settings.fromValue env.machine (patchObject env s.toValue [] patch.entries).1 with
  | some u =>
    have accepted := exists_fromValue_iff.mp ⟨u, read⟩
    have after := tidy.fromValue read
    simp only [accepted, if_true, read, after.inRange]
    refine ⟨after, fun key => get_fromValue read, ?_⟩
    rw [accepted_patchObject, List.nil_append]
    rfl
  | none =>
    have refused : accepts env patch = false := by
      rw [Bool.eq_false_iff, ne_eq, ← @exists_fromValue_iff env s patch env.machine]
      rintro ⟨u, found⟩
      rw [read] at found
      cases found
    simp only [refused, Bool.false_eq_true, if_false, read]
    exact ⟨tidy, fun key => Option.none_or.symm, trivial⟩

theorem readSettings_writeSettings
    (roundTrip : ∀ s, env.fromStr (env.toStringPretty s ++ "\n") = some s) (tidy : s.Tidy) :
    readSettings env (writeSettings env s) = s := by
  have versioned : s.version.isEmpty = false := by simpa using tidy.versioned
  simp [readSettings, writeSettings, roundTrip, versioned]

/-! ### The text of settings -/

def numberText (n : UInt32) : List Char := (toString n.toNat).toList

def boolText (b : Bool) : List Char := if b then "true".toList else "false".toList

def stringText (t : String) : List Char := (jsonString t).toList

/-- `to_string_pretty`. -/
def prettySettings (s : Settings) : String := String.ofList <|
  "\x7b\n  \"transparency\": ".toList ++ (numberText s.transparency ++
  (",\n  \"backdropBlur\": ".toList ++ (numberText s.backdropBlur ++
  (",\n  \"reducedMotion\": ".toList ++ (boolText s.reducedMotion ++
  (",\n  \"autoUpdate\": ".toList ++ (boolText s.autoUpdate ++
  (",\n  \"version\": ".toList ++ (stringText s.version ++
  (",\n  \"hostname\": ".toList ++ (stringText s.hostname ++
  (",\n  \"adminEmail\": ".toList ++ (stringText s.adminEmail ++
  (",\n  \"timezone\": ".toList ++ (stringText s.timezone ++
  (",\n  \"maxMessageSizeMb\": ".toList ++ (numberText s.maxMessageSizeMb ++
  (",\n  \"relayConcurrency\": ".toList ++ (numberText s.relayConcurrency ++
  (",\n  \"rateLimitPerHour\": ".toList ++ (numberText s.rateLimitPerHour ++
  (",\n  \"spamThreshold\": ".toList ++ (numberText s.spamThreshold ++
  (",\n  \"colorTheme\": ".toList ++ (stringText s.colorTheme ++
  "\n\x7d".toList)))))))))))))))))))))))))

variable {lit a b : List Char}

theorem numberText_inj (ends : lit.head?.any (fun c => !c.isDigit) = true)
    (same : numberText m ++ (lit ++ a) = numberText n ++ (lit ++ b)) : m = n ∧ a = b := by
  have ends' : ∀ rest, (lit ++ rest).head?.any Char.isDigit = false := by
    intro rest
    cases lit with
    | nil => cases ends
    | cons c lit => simpa using ends
  obtain ⟨numbers, rest⟩ := toString_append_inj (ends' a) (ends' b) same
  exact ⟨UInt32.toNat_inj.mp numbers, List.append_cancel_left rest⟩

theorem boolText_inj {m n : Bool}
    (same : boolText m ++ (lit ++ a) = boolText n ++ (lit ++ b)) : m = n ∧ a = b := by
  cases m <;> cases n
  · exact ⟨rfl, List.append_cancel_left (List.append_cancel_left same)⟩
  · cases same
  · cases same
  · exact ⟨rfl, List.append_cancel_left (List.append_cancel_left same)⟩

theorem stringText_inj {m n : String}
    (same : stringText m ++ (lit ++ a) = stringText n ++ (lit ++ b)) : m = n ∧ a = b := by
  obtain ⟨texts, rest⟩ := jsonString_append_inj same
  exact ⟨texts, List.append_cancel_left rest⟩

theorem prettySettings_injective : Function.Injective prettySettings := by
  intro s t same
  have chars := List.append_cancel_left (String.ofList_inj.mp same)
  obtain ⟨h1, chars⟩ := numberText_inj (by decide) chars
  obtain ⟨h2, chars⟩ := numberText_inj (by decide) chars
  obtain ⟨h3, chars⟩ := boolText_inj chars
  obtain ⟨h4, chars⟩ := boolText_inj chars
  obtain ⟨h5, chars⟩ := stringText_inj chars
  obtain ⟨h6, chars⟩ := stringText_inj chars
  obtain ⟨h7, chars⟩ := stringText_inj chars
  obtain ⟨h8, chars⟩ := stringText_inj chars
  obtain ⟨h9, chars⟩ := numberText_inj (by decide) chars
  obtain ⟨h10, chars⟩ := numberText_inj (by decide) chars
  obtain ⟨h11, chars⟩ := numberText_inj (by decide) chars
  obtain ⟨h12, chars⟩ := numberText_inj (by decide) chars
  obtain ⟨h13, -⟩ := jsonString_append_inj chars
  cases s
  cases t
  simp_all

end MailStack.Core
