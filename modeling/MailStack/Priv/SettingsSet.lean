import MailStack.Core.Settings
import MailStack.Lib.ReadModifyWrite

/-! Requests to change the settings that are served at the same time. -/

namespace MailStack.Priv

open Lib Core ReadModifyWrite

variable {ι : Type} (env : SettingsEnv)

/-- What the handler of `settings.set` writes for a patch, and the keys that it answers with. -/
def settingsSet (file : SettingsFile) (patch : Object) : SettingsFile × List String :=
  let (settings, applied) := applySettingsPatch env (readSettings env file) patch
  (writeSettings env settings, applied)

def serve (patches : ι → Object) (i : ι) (file : SettingsFile) : SettingsFile :=
  (settingsSet env file (patches i)).1

def patchFor (patches : ι → Object) (i : ι) (key : String) : Option (Option Json) :=
  if accepts env (patches i) then (patchOf env (patches i) key).map some else none

variable {env} {patches : ι → Object}

theorem serve_patches (roundTrip : ∀ s, env.fromStr (env.toStringPretty s ++ "\n") = some s) :
    Patches (serve env patches) (fun file => (readSettings env file).Tidy)
      (fun file key => (readSettings env file).toValue.get key) (patchFor env patches) := by
  have written : ∀ i file, (readSettings env file).Tidy →
      readSettings env (serve env patches i file) =
        (applySettingsPatch env (readSettings env file) (patches i)).1 := fun i file tidy =>
    readSettings_writeSettings roundTrip (applySettingsPatch_spec tidy).1
  constructor
  · intro i file tidy
    rw [written i file tidy]
    exact (applySettingsPatch_spec tidy).1
  · intro i file key tidy
    rw [written i file tidy, (applySettingsPatch_spec tidy).2.1, patchFor]
    cases accepts env (patches i) with
    | false => rfl
    | true =>
      simp only [if_true]
      cases patchOf env (patches i) key <;> rfl

theorem patchFor_eq_none {i : ι} {key : String} (missing : key ∉ patches i) :
    patchFor env patches i key = none := by
  rw [patchFor, patchOf, Table.get_eq_none_iff.mpr missing]
  simp

variable [DecidableEq ι]

/-- When every write finds the settings that its request read, the settings hold what each request
that is done had for the keys that it applied, and the others are as they were. -/
theorem settings_kept (roundTrip : ∀ s, env.fromStr (env.toStringPretty s ++ "\n") = some s)
    (disjoint : ∀ i j key, i ≠ j → key ∈ patches i → key ∉ patches j)
    (file : SettingsFile) (tidy : (readSettings env file).Tidy)
    (steps : List (Step ι)) (w : World SettingsFile ι)
    (run : Runs (step (serve env patches)) Fresh (start file) steps w) :
    (∀ i key value read, w.phase i = .done → (patches i).get key = some value →
      (readSettings env read).Tidy → key ∈ (settingsSet env read (patches i)).2 →
      (readSettings env w.stored).toValue.get key = some (patchedValue env key value)) ∧
    ∀ key, (∀ i, key ∉ patches i) →
      (readSettings env w.stored).toValue.get key = (readSettings env file).toValue.get key := by
  have apart : ReadModifyWrite.Disjoint (patchFor env patches) := by
    intro i j key other patched
    refine patchFor_eq_none (disjoint i j key other ?_)
    by_contra missing
    exact patched (patchFor_eq_none missing)
  have holds := Holds.of_runs (serve_patches roundTrip) apart tidy run
  refine ⟨fun i key value read done given readTidy applied => ?_, fun key untouched => ?_⟩
  · have keys := (@applySettingsPatch_spec env _ (patches i) readTidy).2.2
    change key ∈ (applySettingsPatch env (readSettings env read) (patches i)).2 at applied
    rw [keys] at applied
    split at applied
    case isFalse => cases applied
    case isTrue accepted =>
      have listed : key ∈ settingsWriteWhitelist := by
        simpa using (List.mem_filter.mp applied).2
      refine holds.done i key _ done ?_
      rw [patchFor, if_pos accepted, patchOf, if_pos listed, given]
      rfl
  · exact holds.untouched key fun i => patchFor_eq_none (untouched i)

/-! Two requests. -/

open Classical in
/-- A machine, and settings as they are written there. -/
noncomputable def exampleEnv : SettingsEnv where
  machine := { hostname := "mail.example.com", timezone := "UTC" }
  roundF64 n := (parseI64 n.text).getD 0
  toStringPretty := prettySettings
  fromStr text := if h : ∃ s, prettySettings s ++ "\n" = text then some h.choose else none

theorem exampleEnv_roundTrip (s : Settings) :
    exampleEnv.fromStr (exampleEnv.toStringPretty s ++ "\n") = some s := by
  have there : ∃ t, prettySettings t ++ "\n" = prettySettings s ++ "\n" := ⟨s, rfl⟩
  simp only [exampleEnv, dif_pos there, Option.some.injEq]
  exact prettySettings_injective (String.append_left_inj "\n" |>.mp there.choose_spec)

def twoPatches (first : Bool) : Object :=
  if first then (∅ : Object).put "transparency" (.number (.ofNat 10))
  else (∅ : Object).put "colorTheme" (.string "green")

/-- One request after the other: both are held. -/
theorem settings_kept_two :
    ∃ w, exec (step (serve exampleEnv twoPatches)) (start .missing)
        [.read true, .write true, .read false, .write false] = some w ∧
      (readSettings exampleEnv w.stored).toValue.get "transparency" =
        some (patchedValue exampleEnv "transparency" (.number (.ofNat 10))) := by
  refine ⟨_, rfl, ?_⟩
  refine (settings_kept exampleEnv_roundTrip ?_ .missing ⟨by decide +kernel, by decide +kernel⟩
    [.read true, .write true, .read false, .write false] _
    (runs_of_exec rfl ⟨trivial, ?_⟩)).1 true "transparency" _ .missing rfl rfl
    ⟨by decide +kernel, by decide +kernel⟩ (by decide +kernel)
  · intro i j key other mem
    cases i <;> cases j <;> simp_all [twoPatches, Table.put, AList.mem_keys]
  · rintro _ ⟨⟩
    refine ⟨rfl, ?_⟩
    rintro _ ⟨⟩
    refine ⟨trivial, ?_⟩
    rintro _ ⟨⟩
    refine ⟨rfl, fun _ _ => trivial⟩

/-- Both requests read before one of them writes: the patch of the first one is lost. -/
theorem patch_lost :
    ∃ w, exec (step (serve exampleEnv twoPatches)) (start .missing)
        [.read true, .read false, .write true, .write false] = some w ∧
      (∀ i, w.phase i = .done) ∧
      (settingsSet exampleEnv .missing (twoPatches true)).2 = ["transparency"] ∧
      (readSettings exampleEnv w.stored).transparency = 70 := by
  refine ⟨_, rfl, by decide, by decide +kernel, ?_⟩
  have patched : (applySettingsPatch exampleEnv (readSettings exampleEnv .missing)
      (twoPatches false)).1 =
        { Settings.default exampleEnv.machine with colorTheme := "green" } := by decide +kernel
  show (readSettings exampleEnv (writeSettings exampleEnv (applySettingsPatch exampleEnv
    (readSettings exampleEnv .missing) (twoPatches false)).1)).transparency = 70
  rw [patched, readSettings_writeSettings exampleEnv_roundTrip
    ⟨by decide +kernel, by decide +kernel⟩]
  rfl

end MailStack.Priv
