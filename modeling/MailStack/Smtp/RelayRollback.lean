import MailStack.Smtp.Relay

/-! A relay is applied as a whole or not at all, over every store that acts as a map, whichever of
its operations fail. -/

namespace MailStack.Smtp

open Lib

structure RelayConfig where
  keys : String → Option String
  credentials : Option String

namespace RelayConfig

def set (config : RelayConfig) (name : String) (value : Option String) : RelayConfig :=
  { config with keys := Function.update config.keys name value }

def withCredentials (config : RelayConfig) (credentials : Option String) : RelayConfig :=
  { config with credentials }

section

variable (config : RelayConfig)

include config

@[simp] theorem set_self (name : String) (value : Option String) :
    (config.set name value).keys name = value := Function.update_self ..

theorem set_ne {name other : String} (value : Option String)
    (ne : other ≠ name) : (config.set name value).keys other = config.keys other :=
  Function.update_of_ne ne ..

theorem set_keys (name : String) :
    config = config.set name (config.keys name) := by
  rw [set, Function.update_eq_self]

@[simp] theorem withCredentials_keys (credentials : Option String) :
    (config.withCredentials credentials).keys = config.keys := rfl

end

/-- The two differ at most in the keys that are named. -/
structure SameBut (names : List String) (a b : RelayConfig) : Prop where
  credentials : a.credentials = b.credentials
  keys : ∀ name, name ∉ names → a.keys name = b.keys name

theorem SameBut.refl (names : List String) (a : RelayConfig) : SameBut names a a :=
  ⟨rfl, fun _ _ => rfl⟩

theorem SameBut.trans {names : List String} {a b c : RelayConfig} (h : SameBut names a b)
    (h' : SameBut names b c) : SameBut names a c :=
  ⟨h.credentials.trans h'.credentials, fun name off => (h.keys name off).trans (h'.keys name off)⟩

theorem SameBut.mono {names names' : List String} {a b : RelayConfig} (h : SameBut names a b)
    (sub : names ⊆ names') : SameBut names' a b :=
  ⟨h.credentials, fun name off => h.keys name fun mem => off (sub mem)⟩

theorem sameBut_set {names : List String} (a : RelayConfig) {name : String}
    (value : Option String) (mem : name ∈ names) : SameBut names (a.set name value) a :=
  ⟨rfl, fun _ off => a.set_ne value fun same => off (same ▸ mem)⟩

end RelayConfig

def applyWrittenKeys : List String :=
  [keyRelayhost, keySaslAuthEnable, keySaslPasswordMaps, keySaslSecurityOptions,
    keyTlsSecurityLevel, keyTlsWrappermode]

theorem planRelayApply_names (account : RelayAccount) :
    (planRelayApply account).keys.map (·.1) = applyWrittenKeys := rfl

theorem relayhost_mem_plan (account : RelayAccount) :
    (keyRelayhost, account.relayhost) ∈ (planRelayApply account).keys :=
  List.mem_of_getElem? (i := 0) rfl

theorem securityLevel_mem_plan (account : RelayAccount) :
    (keyTlsSecurityLevel, "encrypt") ∈ (planRelayApply account).keys :=
  List.mem_of_getElem? (i := 4) rfl

theorem wrappermode_mem_plan (account : RelayAccount) :
    (keyTlsWrappermode, yesNo account.requiresWrappermode) ∈ (planRelayApply account).keys :=
  List.mem_of_getElem? (i := 5) rfl

theorem nodup_applyWrittenKeys : applyWrittenKeys.Nodup := by decide

/-- The store gets and puts the relay keys and the credentials as a map does. An operation that
fails may have taken effect, or have left anything under its own key. -/
structure ActsAsMap {σ : Type} (store : RelayConfigStore σ) (view : σ → RelayConfig) : Prop where
  readKey : ∀ name ∈ applyWrittenKeys, ∀ s, wp (store.readKey name)
    (fun value t => value = (view s).keys name ∧ view t = view s) (fun t => view t = view s) s
  writeKey : ∀ name ∈ applyWrittenKeys, ∀ value s, wp (store.writeKey name value)
    (fun _ t => view t = (view s).set name (some value))
    (fun t => ∃ left, view t = (view s).set name left) s
  removeKey : ∀ name ∈ applyWrittenKeys, ∀ s, wp (store.removeKey name)
    (fun _ t => view t = (view s).set name none)
    (fun t => ∃ left, view t = (view s).set name left) s
  readCredentials : ∀ s, wp store.readCredentials
    (fun value t => value = (view s).credentials ∧ view t = view s) (fun t => view t = view s) s
  writeCredentials : ∀ content s, wp (store.writeCredentials content)
    (fun _ t => view t = (view s).withCredentials (some content))
    (fun t => ∃ left, view t = (view s).withCredentials left) s
  removeCredentials : ∀ s, wp store.removeCredentials
    (fun _ t => view t = (view s).withCredentials none)
    (fun t => ∃ left, view t = (view s).withCredentials left) s
  reload : ∀ s, wp store.reload (fun _ t => view t = view s) (fun t => view t = view s) s

namespace ActsAsMap

variable {σ : Type} {store : RelayConfigStore σ} {view : σ → RelayConfig}
  {keys : List (String × String)}

section

variable (h : ActsAsMap store view)

include h

theorem putKey {name : String} (mem : name ∈ applyWrittenKeys)
    (value : Option String) (s : σ) : wp (Smtp.putKey store name value)
      (fun _ t => view t = (view s).set name value)
      (fun t => ∃ left, view t = (view s).set name left) s := by
  cases value with
  | some value => exact h.writeKey name mem value s
  | none => exact h.removeKey name mem s

theorem putCredentials (value : Option String) (s : σ) :
    wp (Smtp.putCredentials store value)
      (fun _ t => view t = (view s).withCredentials value)
      (fun t => ∃ left, view t = (view s).withCredentials left) s := by
  cases value with
  | some content => exact h.writeCredentials content s
  | none => exact h.removeCredentials s

theorem takeKeys
    (known : ∀ e ∈ keys, e.1 ∈ applyWrittenKeys) (s : σ) : wp (Smtp.takeKeys store keys)
      (fun values t => values = (keys.map fun e => (e.1, (view s).keys e.1)) ∧ view t = view s)
      (fun t => view t = view s) s := by
  induction keys generalizing s with
  | nil => exact ⟨rfl, rfl⟩
  | cons e rest ih =>
    obtain ⟨name, value⟩ := e
    rw [Smtp.takeKeys, wp_bind]
    refine wp_mono (h.readKey name (known _ List.mem_cons_self) s) (fun read t step => ?_)
      fun t step => step
    obtain ⟨rfl, same⟩ := step
    rw [wp_bind]
    refine wp_mono (ih (fun e mem => known e (List.mem_cons_of_mem _ mem)) t)
      (fun values u later => ?_) fun u later => later.trans same
    rw [wp_pure, later.1, same]
    exact ⟨rfl, later.2.trans same⟩

theorem takeSnapshot (account : RelayAccount) (s : σ) :
    wp (Smtp.takeSnapshot store (planRelayApply account))
      (fun snapshot t =>
        snapshot.keys = (applyWrittenKeys.map fun name => (name, (view s).keys name)) ∧
        snapshot.credentials = (view s).credentials ∧ view t = view s)
      (fun t => view t = view s) s := by
  have known : ∀ e ∈ (planRelayApply account).keys, e.1 ∈ applyWrittenKeys := fun e mem =>
    planRelayApply_names account ▸ List.mem_map_of_mem mem
  rw [Smtp.takeSnapshot, wp_bind]
  refine wp_mono (h.takeKeys known s) (fun keys t taken => ?_) fun t same => same
  obtain ⟨rfl, same⟩ := taken
  rw [wp_bind]
  refine wp_mono (h.readCredentials t) (fun credentials u read => ?_) fun u again => again.trans same
  obtain ⟨rfl, again⟩ := read
  rw [wp_pure, same]
  exact ⟨rfl, rfl, again.trans same⟩

theorem writeKeys
    (known : ∀ e ∈ keys, e.1 ∈ applyWrittenKeys) (distinct : (keys.map (·.1)).Nodup) (s : σ) :
    wp (Smtp.writeKeys store keys)
      (fun _ t => (view t).SameBut (keys.map (·.1)) (view s) ∧
        ∀ e ∈ keys, (view t).keys e.1 = some e.2)
      (fun t => (view t).SameBut (keys.map (·.1)) (view s)) s := by
  induction keys generalizing s with
  | nil => exact ⟨.refl _ _, List.forall_mem_nil _⟩
  | cons e rest ih =>
    obtain ⟨name, value⟩ := e
    obtain ⟨fresh, distinct⟩ := List.nodup_cons.mp distinct
    have wrote : ∀ {t : σ} {left : Option String}, view t = (view s).set name left →
        (view t).SameBut (name :: rest.map (·.1)) (view s) := fun eq =>
      eq ▸ RelayConfig.sameBut_set _ _ List.mem_cons_self
    rw [Smtp.writeKeys, wp_bind]
    refine wp_mono (h.writeKey name (known _ List.mem_cons_self) value s) (fun _ t put => ?_)
      fun t ⟨left, put⟩ => wrote put
    refine wp_mono (ih (fun e mem => known e (List.mem_cons_of_mem _ mem)) distinct t)
      (fun _ u later => ⟨(later.1.mono (List.subset_cons_self ..)).trans (wrote put), ?_⟩)
      fun u later => (later.mono (List.subset_cons_self ..)).trans (wrote put)
    intro e mem
    rcases List.mem_cons.mp mem with rfl | mem
    · rw [later.1.keys name fresh, put, RelayConfig.set_self]
    · exact later.2 e mem

theorem restoreKeys {keys : List (String × Option String)}
    (known : ∀ e ∈ keys, e.1 ∈ applyWrittenKeys) (distinct : (keys.map (·.1)).Nodup) (s : σ) :
    wp (Smtp.restoreKeys store keys)
      (fun restored t => (view t).SameBut (keys.map (·.1)) (view s) ∧
        (restored = true → ∀ e ∈ keys, (view t).keys e.1 = e.2))
      (fun _ => False) s := by
  induction keys generalizing s with
  | nil => exact ⟨.refl _ _, fun _ _ mem => absurd mem List.not_mem_nil⟩
  | cons e rest ih =>
    obtain ⟨name, previous⟩ := e
    obtain ⟨fresh, distinct⟩ := List.nodup_cons.mp distinct
    rw [Smtp.restoreKeys, wp_bind]
    have put : wp (caught (Smtp.putKey store name previous))
        (fun restored t => (view t).SameBut (name :: rest.map (·.1)) (view s) ∧
          (restored.isOk = true → (view t).keys name = previous)) (fun _ => False) s := by
      refine wp_caught (h.putKey (known _ List.mem_cons_self) previous s) (fun _ t put => ?_)
        fun error t ⟨left, put⟩ => ?_
      · rw [put]
        exact ⟨RelayConfig.sameBut_set _ _ List.mem_cons_self, fun _ => RelayConfig.set_self ..⟩
      · rw [put]
        exact ⟨RelayConfig.sameBut_set _ _ List.mem_cons_self, (fun ok => by cases ok)⟩
    refine wp_mono put (fun restored t step => ?_) fun t absurd => absurd
    rw [wp_bind]
    refine wp_mono (ih (fun e mem => known e (List.mem_cons_of_mem _ mem)) distinct t)
      (fun others u later => ?_) fun u absurd => absurd
    rw [wp_pure]
    refine ⟨(later.1.mono (List.subset_cons_self ..)).trans step.1, fun ok e mem => ?_⟩
    obtain ⟨first, rest⟩ := Bool.and_eq_true_iff.mp ok
    rcases List.mem_cons.mp mem with rfl | mem
    · rw [later.1.keys name fresh]
      exact step.2 first
    · exact later.2 rest e mem

end

variable {snapshot : ConfigSnapshot} {before : RelayConfig}

/-- A roll-back that reports success leaves what the snapshot was taken of. -/
theorem rollback (h : ActsAsMap store view)
    (keys : snapshot.keys = applyWrittenKeys.map fun name => (name, before.keys name))
    (credentials : snapshot.credentials = before.credentials) (s : σ)
    (others : ∀ name, name ∉ applyWrittenKeys → (view s).keys name = before.keys name) :
    wp (Smtp.rollback store snapshot) (fun rolledBack t => rolledBack = true → view t = before)
      (fun _ => False) s := by
  have names : snapshot.keys.map (·.1) = applyWrittenKeys := by
    rw [keys, List.map_map]
    exact List.map_id _
  have known : ∀ e ∈ snapshot.keys, e.1 ∈ applyWrittenKeys := fun e mem =>
    names ▸ List.mem_map_of_mem mem
  have distinct : (snapshot.keys.map (·.1)).Nodup := names ▸ nodup_applyWrittenKeys
  have put : wp (caught (Smtp.putCredentials store snapshot.credentials))
      (fun restored t => (view t).keys = (view s).keys ∧
        (restored.isOk = true → (view t).credentials = snapshot.credentials)) (fun _ => False) s := by
    refine wp_caught (h.putCredentials snapshot.credentials s) (fun _ t put => ?_)
      fun error t ⟨left, put⟩ => ?_
    · rw [put]
      exact ⟨rfl, fun _ => rfl⟩
    · rw [put]
      exact ⟨rfl, (fun ok => by cases ok)⟩
  rw [Smtp.rollback, wp_bind]
  refine wp_mono put (fun first t step => ?_) fun t absurd => absurd
  rw [wp_bind]
  refine wp_mono (h.restoreKeys known distinct t) (fun second u later => ?_) fun u absurd => absurd
  rw [wp_bind]
  have reloaded : wp (caught store.reload) (fun _ v => view v = view u) (fun _ => False) u :=
    wp_caught (h.reload u) (fun _ v same => same) fun _ v same => same
  refine wp_mono reloaded (fun third v same => ?_) fun v absurd => absurd
  rw [wp_pure]
  intro ok
  obtain ⟨ok, -⟩ := Bool.and_eq_true_iff.mp ok
  obtain ⟨first, second⟩ := Bool.and_eq_true_iff.mp ok
  rw [same]
  have credentials_ : (view u).credentials = before.credentials := by
    rw [later.1.credentials, step.2 first, credentials]
  have keys_ : (view u).keys = before.keys := by
    funext name
    by_cases known : name ∈ applyWrittenKeys
    · exact later.2 second (name, before.keys name) (keys ▸ List.mem_map_of_mem known)
    · rw [later.1.keys name (names ▸ known), step.1, others name known]
  generalize view u = after at credentials_ keys_
  obtain ⟨keys', credentials'⟩ := after
  obtain rfl : keys' = before.keys := keys_
  obtain rfl : credentials' = before.credentials := credentials_
  rfl

/-- Writing everything leaves the keys of the plan and its credentials, or at most some of them. -/
theorem writeAll (h : ActsAsMap store view) (account : RelayAccount) (s : σ) :
    wp (Smtp.writeAll store (planRelayApply account))
      (fun _ t => (∀ e ∈ (planRelayApply account).keys, (view t).keys e.1 = some e.2) ∧
        (view t).credentials = (planRelayApply account).credentials ∧
          ∀ name, name ∉ applyWrittenKeys → (view t).keys name = (view s).keys name)
      (fun t => ∀ name, name ∉ applyWrittenKeys → (view t).keys name = (view s).keys name) s := by
  have names := planRelayApply_names account
  have known : ∀ e ∈ (planRelayApply account).keys, e.1 ∈ applyWrittenKeys := fun e mem =>
    names ▸ List.mem_map_of_mem mem
  rw [Smtp.writeAll, wp_bind]
  refine wp_mono (h.putCredentials (planRelayApply account).credentials s) (fun _ t put => ?_)
    fun t ⟨left, put⟩ name _ => by rw [put, RelayConfig.withCredentials_keys]
  rw [wp_bind]
  refine wp_mono (h.writeKeys known (names ▸ nodup_applyWrittenKeys) t) (fun _ u wrote => ?_)
    fun u wrote name other => ?_
  · have others : ∀ name, name ∉ applyWrittenKeys → (view u).keys name = (view s).keys name :=
      fun name other => by rw [wrote.1.keys name (names ▸ other), put,
        RelayConfig.withCredentials_keys]
    refine wp_mono (h.reload u) (fun _ v same => ?_) fun v same => ?_
    · rw [same, wrote.1.credentials, put]
      exact ⟨wrote.2, rfl, others⟩
    · rwa [same]
  · rw [wrote.keys name (names ▸ other), put, RelayConfig.withCredentials_keys]

end ActsAsMap

/-- A success leaves the plan, and a failure that reports a roll-back leaves what there was
before. -/
def AllOrNothing (plan : RelayPlan) (before after : RelayConfig) :
    Except RelayApplyFailure RelayApplyResult → Prop
  | .ok _ => (∀ e ∈ plan.keys, after.keys e.1 = some e.2) ∧ after.credentials = plan.credentials
  | .error failure => failure.rolledBack = true → after = before

section

variable {σ : Type} {store : RelayConfigStore σ} {view : σ → RelayConfig} {plan : RelayPlan}

theorem allOrNothing_giveUp (h : ActsAsMap store view)
    (keys : snapshot.keys = applyWrittenKeys.map fun name => (name, before.keys name))
    (credentials : snapshot.credentials = before.credentials) (error : SmtpError)
    (s : σ) (others : ∀ name, name ∉ applyWrittenKeys → (view s).keys name = before.keys name) :
    wp (giveUp store snapshot error) (fun result t => AllOrNothing plan before (view t) result)
      (fun _ => False) s := by
  rw [giveUp, wp_bind]
  exact wp_mono (h.rollback keys credentials s others) (fun _ t restored => restored) fun _ h => h

theorem allOrNothing_verify (h : ActsAsMap store view)
    (keys : snapshot.keys = applyWrittenKeys.map fun name => (name, before.keys name))
    (credentials : snapshot.credentials = before.credentials) (s : σ)
    (others : ∀ name, name ∉ applyWrittenKeys → (view s).keys name = before.keys name)
    (written : (∀ e ∈ plan.keys, (view s).keys e.1 = some e.2) ∧
      (view s).credentials = plan.credentials) :
    wp (verify store plan snapshot) (fun result t => AllOrNothing plan before (view t) result)
      (fun _ => False) s := by
  have failed : ∀ error t, view t = view s → wp (giveUp store snapshot error)
      (fun result t => AllOrNothing plan before (view t) result) (fun _ => False) t :=
    fun error t same => allOrNothing_giveUp h keys credentials error t (same ▸ others)
  have read : ∀ name ∈ applyWrittenKeys, ∀ t, view t = view s →
      wp (caught (store.readKey name)) (fun _ u => view u = view s) (fun _ => False) t :=
    fun name mem t same => wp_caught (h.readKey name mem t) (fun _ _ step => step.2.trans same)
      fun _ _ step => step.trans same
  rw [verify, wp_bind]
  refine wp_mono (read keyRelayhost (by decide) s rfl) (fun observed t same => ?_) fun _ h => h
  split
  · exact failed _ t same
  · exact failed _ t same
  · rw [wp_ite]
    refine ⟨fun _ => failed _ t same, fun _ => ?_⟩
    rw [wp_bind]
    refine wp_mono (read keyTlsWrappermode (by decide) t same) (fun mode u same => ?_) fun _ h => h
    split
    · exact failed _ u same
    · rw [wp_ite]
      refine ⟨fun _ => failed _ u same, fun _ => ?_⟩
      rw [wp_pure, same]
      exact written

theorem allOrNothing_applyRelay (h : ActsAsMap store view) (account : RelayAccount)
    (test : RelayTestResult) (s : σ) : wp (applyRelay store account test)
      (fun result t => AllOrNothing (planRelayApply account) (view s) (view t) result)
      (fun _ => False) s := by
  have taken : wp (caught (takeSnapshot store (planRelayApply account)))
      (fun taken t => view t = view s ∧ ∀ snapshot, taken = .ok snapshot →
        snapshot.keys = (applyWrittenKeys.map fun name => (name, (view s).keys name)) ∧
          snapshot.credentials = (view s).credentials) (fun _ => False) s := by
    refine wp_caught (h.takeSnapshot account s) (fun snapshot t step => ?_) fun error t same => ?_
    · refine ⟨step.2.2, fun snapshot' eq => ?_⟩
      cases eq
      exact ⟨step.1, step.2.1⟩
    · exact ⟨same, (fun _ eq => by cases eq)⟩
  refine (wp_ite _ _ _).mpr ⟨fun _ => (fun rolledBack => by cases rolledBack), fun _ => ?_⟩
  rw [wp_bind]
  refine wp_mono taken (fun taken t step => ?_) fun _ h => h
  obtain ⟨same, snapshot⟩ := step
  cases taken with
  | error error => exact (fun rolledBack => by cases rolledBack)
  | ok snapshot' =>
    obtain ⟨keys, credentials⟩ := snapshot snapshot' rfl
    dsimp only
    rw [wp_bind]
    have wrote : wp (caught (writeAll store (planRelayApply account)))
        (fun wrote u => (∀ name, name ∉ applyWrittenKeys → (view u).keys name = (view s).keys name) ∧
          (wrote = .ok () → (∀ e ∈ (planRelayApply account).keys, (view u).keys e.1 = some e.2) ∧
            (view u).credentials = (planRelayApply account).credentials)) (fun _ => False) t :=
      wp_caught (h.writeAll account t)
        (fun _ u step => ⟨same ▸ step.2.2, fun _ => ⟨step.1, step.2.1⟩⟩)
        fun error u others => ⟨same ▸ others, (fun eq => by cases eq)⟩
    refine wp_mono wrote (fun wrote u step => ?_) fun _ h => h
    cases wrote with
    | error error => exact allOrNothing_giveUp h keys credentials error u step.1
    | ok _ => exact allOrNothing_verify h keys credentials u step.1 (step.2 rfl)

/-- Whatever fails, applying a relay ends with an answer that tells what it has left. -/
theorem applyRelay_all_or_nothing (h : ActsAsMap store view) (account : RelayAccount)
    (test : RelayTestResult) (s : σ) : ∃ result t, applyRelay store account test s = .ok result t ∧
      AllOrNothing (planRelayApply account) (view s) (view t) result := by
  have run := allOrNothing_applyRelay h account test s
  unfold wp at run
  cases ran : applyRelay store account test s with
  | ok result t =>
    rw [ran] at run
    exact ⟨result, t, rfl, run⟩
  | error e t =>
    rw [ran] at run
    exact run.elim

/-- No operation fails in a good state, and each leads to one. -/
structure NeverFails {σ : Type} (store : RelayConfigStore σ) (good : σ → Prop) : Prop where
  readKey : ∀ name s, good s → wp (store.readKey name) (fun _ => good) (fun _ => False) s
  writeKey : ∀ name value s, good s →
    wp (store.writeKey name value) (fun _ => good) (fun _ => False) s
  readCredentials : ∀ s, good s → wp store.readCredentials (fun _ => good) (fun _ => False) s
  writeCredentials : ∀ content s, good s →
    wp (store.writeCredentials content) (fun _ => good) (fun _ => False) s
  removeCredentials : ∀ s, good s → wp store.removeCredentials (fun _ => good) (fun _ => False) s
  reload : ∀ s, good s → wp store.reload (fun _ => good) (fun _ => False) s

namespace NeverFails

variable {good : σ → Prop}

variable {s : σ}

theorem takeKeys (h : NeverFails store good) (keys : List (String × String)) (fine : good s) :
    wp (Smtp.takeKeys store keys) (fun _ => good) (fun _ => False) s := by
  induction keys generalizing s with
  | nil => exact fine
  | cons e rest ih =>
    rw [Smtp.takeKeys, wp_bind]
    refine wp_mono (h.readKey e.1 s fine) (fun _ t fine => ?_) fun _ h => h
    rw [wp_bind]
    exact wp_mono (ih fine) (fun _ _ fine => fine) fun _ h => h

theorem takeSnapshot (h : NeverFails store good) (plan : RelayPlan) (fine : good s) :
    wp (Smtp.takeSnapshot store plan) (fun _ => good) (fun _ => False) s := by
  rw [Smtp.takeSnapshot, wp_bind]
  refine wp_mono (h.takeKeys plan.keys fine) (fun _ t fine => ?_) fun _ h => h
  rw [wp_bind]
  exact wp_mono (h.readCredentials t fine) (fun _ _ fine => fine) fun _ h => h

theorem writeKeys (h : NeverFails store good) (keys : List (String × String)) (fine : good s) :
    wp (Smtp.writeKeys store keys) (fun _ => good) (fun _ => False) s := by
  induction keys generalizing s with
  | nil => exact fine
  | cons e rest ih =>
    rw [Smtp.writeKeys, wp_bind]
    exact wp_mono (h.writeKey e.1 e.2 s fine) (fun _ _ fine => ih fine) fun _ h => h

theorem writeAll (h : NeverFails store good) (plan : RelayPlan) (fine : good s) :
    wp (Smtp.writeAll store plan) (fun _ => good) (fun _ => False) s := by
  have credentials : wp (Smtp.putCredentials store plan.credentials) (fun _ => good)
      (fun _ => False) s := by
    cases plan.credentials with
    | some content => exact h.writeCredentials content s fine
    | none => exact h.removeCredentials s fine
  rw [Smtp.writeAll, wp_bind]
  refine wp_mono credentials (fun _ t fine => ?_) fun _ h => h
  rw [wp_bind]
  exact wp_mono (h.writeKeys plan.keys fine) (fun _ u fine => h.reload u fine) fun _ h => h

end NeverFails

theorem isYes_yesNo (b : Bool) : isYes (some (yesNo b)) = b := by
  cases b with
  | true => decide
  | false => decide

/-- When nothing fails, a relay is applied. -/
theorem applyRelay_succeeds {good : σ → Prop} (h : ActsAsMap store view)
    (never : NeverFails store good)
    {account : RelayAccount} (trimmed : trim account.relayhost = account.relayhost)
    (fine : good s) : ∃ result t, applyRelay store account ⟨true⟩ s = .ok (.ok result) t := by
  have taken : wp (caught (takeSnapshot store (planRelayApply account)))
      (fun taken t => (∃ snapshot, taken = .ok snapshot) ∧ good t) (fun _ => False) s :=
    wp_caught (never.takeSnapshot _ fine) (fun snapshot t fine => ⟨⟨snapshot, rfl⟩, fine⟩) fun _ _ h => h.elim
  have written : ∀ t, good t → wp (caught (writeAll store (planRelayApply account)))
      (fun wrote u => wrote = .ok () ∧ good u ∧
        ∀ e ∈ (planRelayApply account).keys, (view u).keys e.1 = some e.2) (fun _ => False) t := by
    intro t fine
    refine wp_caught (wp_and (h.writeAll account t) (never.writeAll _ fine)) (fun _ u step => ?_)
      fun _ _ h => h.2.elim
    exact ⟨rfl, step.2, step.1.1⟩
  have read : ∀ e ∈ (planRelayApply account).keys, ∀ t, good t →
      (∀ e ∈ (planRelayApply account).keys, (view t).keys e.1 = some e.2) →
        wp (caught (store.readKey e.1)) (fun value u => value = .ok (some e.2) ∧ good u ∧
          ∀ e ∈ (planRelayApply account).keys, (view u).keys e.1 = some e.2) (fun _ => False) t := by
    intro e mem t fine keys
    have known : e.1 ∈ applyWrittenKeys := planRelayApply_names account ▸ List.mem_map_of_mem mem
    refine wp_caught (wp_and (h.readKey e.1 known t) (never.readKey e.1 t fine))
      (fun value u step => ?_)
      fun _ _ h => h.2.elim
    obtain ⟨⟨rfl, same⟩, fine⟩ := step
    exact ⟨by rw [keys e mem], fine, same ▸ keys⟩
  have run : wp (applyRelay store account ⟨true⟩) (fun result _ => ∃ done, result = .ok done)
      (fun _ => False) s := by
    refine (wp_ite _ _ _).mpr ⟨(fun unconnected => by cases unconnected), fun _ => ?_⟩
    rw [wp_bind]
    refine wp_mono taken (fun taken t step => ?_) fun _ h => h
    obtain ⟨⟨snapshot, rfl⟩, fine⟩ := step
    dsimp only
    rw [wp_bind]
    refine wp_mono (written t fine) (fun wrote u step => ?_) fun _ h => h
    obtain ⟨rfl, fine, keys⟩ := step
    dsimp only
    rw [verify, wp_bind]
    refine wp_mono (read _ (relayhost_mem_plan account) u fine keys)
      (fun observed v step => ?_) fun _ h => h
    rw [step.1]
    dsimp only
    rw [wp_ite]
    refine ⟨fun wrong => absurd trimmed wrong, fun _ => ?_⟩
    rw [wp_bind]
    refine wp_mono (read _ (wrappermode_mem_plan account) v step.2.1 step.2.2)
      (fun mode w step => ?_) fun _ h => h
    rw [step.1]
    dsimp only
    rw [wp_ite]
    exact ⟨fun wrong => absurd (isYes_yesNo _) wrong, fun _ => ⟨_, rfl⟩⟩
  unfold wp at run
  cases ran : applyRelay store account ⟨true⟩ s with
  | ok result t =>
    rw [ran] at run
    obtain ⟨done, rfl⟩ := run
    exact ⟨done, t, rfl⟩
  | error e t =>
    rw [ran] at run
    exact run.elim

end

structure Memory where
  config : RelayConfig
  calls : Nat

/-- An operation that fails leaves the configuration as it is. -/
def Memory.operate {α : Type} (fails : Nat → Bool) (change : RelayConfig → RelayConfig)
    (answer : RelayConfig → α) : EStateM SmtpError Memory α := fun m =>
  if fails m.calls then .error (.io "injected failure") { m with calls := m.calls + 1 }
  else .ok (answer m.config) { config := change m.config, calls := m.calls + 1 }

def memoryStore (fails : Nat → Bool) : RelayConfigStore Memory where
  readKey name := Memory.operate fails id fun config => config.keys name
  writeKey name value := Memory.operate fails (·.set name (some value)) fun _ => ()
  removeKey name := Memory.operate fails (·.set name none) fun _ => ()
  readCredentials := Memory.operate fails id fun config => config.credentials
  writeCredentials content := Memory.operate fails (·.withCredentials (some content)) fun _ => ()
  removeCredentials := Memory.operate fails (·.withCredentials none) fun _ => ()
  reload := Memory.operate fails id fun _ => ()

theorem Memory.wp_operate {α : Type} (fails : Nat → Bool) (change : RelayConfig → RelayConfig)
    (answer : RelayConfig → α) (m : Memory) : wp (Memory.operate fails change answer)
      (fun a t => a = answer m.config ∧ t.config = change m.config) (fun t =>
        t.config = m.config) m := by
  unfold wp operate
  by_cases fails : fails m.calls = true
  · simp [fails]
  · simp [fails]

theorem Memory.wp_put (fails : Nat → Bool) (change : RelayConfig → RelayConfig)
    (Left : RelayConfig → Prop) (m : Memory) (same : Left m.config) :
    wp (Memory.operate fails change fun _ => ()) (fun _ t => t.config = change m.config)
      (fun t => Left t.config) m :=
  wp_mono (m.wp_operate fails change _) (fun _ _ step => step.2) fun _ eq => eq.symm ▸ same

theorem memoryStore_actsAsMap
    (fails : Nat → Bool) : ActsAsMap (memoryStore fails) Memory.config where
  readKey name _ m := m.wp_operate fails id fun config => config.keys name
  writeKey name _ value m := m.wp_put fails (·.set name (some value))
    (fun left => ∃ v, left = m.config.set name v) ⟨_, m.config.set_keys name⟩
  removeKey name _ m := m.wp_put fails (·.set name none)
    (fun left => ∃ v, left = m.config.set name v) ⟨_, m.config.set_keys name⟩
  readCredentials m := m.wp_operate fails id fun config => config.credentials
  writeCredentials content m := m.wp_put fails (·.withCredentials (some content))
    (fun left => ∃ c, left = m.config.withCredentials c) ⟨m.config.credentials, rfl⟩
  removeCredentials m := m.wp_put fails (·.withCredentials none)
    (fun left => ∃ c, left = m.config.withCredentials c) ⟨m.config.credentials, rfl⟩
  reload m := m.wp_put fails id (fun left => left = m.config) rfl

private def sendgrid : RelayAccount :=
  { host := "smtp.sendgrid.net", port := 587, tlsMode := .startTls, username := "apikey"
    password := "SG.secret" }

private def unset : Memory :=
  { config := { keys := fun _ => none, credentials := none }, calls := 0 }

/-- The ninth operation, which writes the first key after the credentials, fails, and the roll-back
does not. -/
theorem applyRelay_all_or_nothing_rolled_back : ∃ failure t,
    applyRelay (memoryStore (· = 8)) sendgrid ⟨true⟩ unset = .ok (.error failure) t ∧
      failure.rolledBack = true ∧ t.config = unset.config := by
  obtain ⟨result, t, ran, answer⟩ :=
    applyRelay_all_or_nothing (memoryStore_actsAsMap (· = 8)) sendgrid ⟨true⟩ unset
  have failed : ∃ u, applyRelay (memoryStore (· = 8)) sendgrid ⟨true⟩ unset =
      .ok (.error { error := .io "injected failure", rolledBack := true }) u := ⟨_, rfl⟩
  obtain ⟨u, failed⟩ := failed
  rw [failed] at ran
  cases ran
  exact ⟨_, _, failed, rfl, answer rfl⟩

end MailStack.Smtp
