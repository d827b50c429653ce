import MailStack.Lib.Checks
import MailStack.Smtp.RelayStore

/-! The relay that the daemon sends through: the configuration is read, taken apart and checked
again. -/

namespace MailStack.Mailstackd

open Lib Smtp

inductive DaemonError
  | relayConfig (source : SmtpError)
  | relay (source : SmtpError)
  | relayHost (value : String)
  | relayHostBareIpv6 (value : String)
  | relayNotEncrypted (port : Nat)

/-! ### Addresses -/

structure Ipv4Addr where
  a : Nat
  b : Nat
  c : Nat
  d : Nat
deriving DecidableEq

/-- A number up to 255 without zeros before it. -/
def parseOctet (part : List Char) : Option Nat :=
  if part.isEmpty || part.length > 3 || !part.all Char.isDigit then none
  else if part.length > 1 && part.head? = some '0' then none
  else
    let value := part.foldl (fun n c => 10 * n + (c.toNat - '0'.toNat)) 0
    if value ≤ 255 then some value else none

def parseIpv4 (host : String) : Option Ipv4Addr :=
  match (host.toList.splitOn '.').mapM parseOctet with
  | some [a, b, c, d] => some { a, b, c, d }
  | _ => none

def Ipv4Addr.isPrivate (ip : Ipv4Addr) : Bool :=
  ip.a = 10 || ip.a = 172 && 16 ≤ ip.b && ip.b ≤ 31 || ip.a = 192 && ip.b = 168

def Ipv4Addr.isSpecialUse (ip : Ipv4Addr) : Bool :=
  ip.a = 0 ||
  ip.a = 192 && ip.b = 0 && ip.c = 0 ||
  ip.a = 198 && (ip.b = 18 || ip.b = 19) ||
  ip.a = 100 && ip.b &&& 0xc0 = 0x40 ||
  ip.a &&& 0xf0 = 0xf0 ||
  ip.a = 192 && ip.b = 0 && ip.c = 2 ||
  ip.a = 198 && ip.b = 51 && ip.c = 100 ||
  ip.a = 203 && ip.b = 0 && ip.c = 113 ||
  ip.a = 192 && ip.b = 88 && ip.c = 99

/-- `AddressPolicy::public_only().accepts`. -/
def Ipv4Addr.acceptedPublicOnly (ip : Ipv4Addr) : Bool :=
  !(ip = ⟨0, 0, 0, 0⟩ || ip.a = 127 || 224 ≤ ip.a && ip.a ≤ 239 || ip.a = 169 && ip.b = 254 ||
    ip.isPrivate || ip.isSpecialUse)

/-- An IPv6 address has a colon, and a host with one is no relay host anyway. -/
def hostNeedsPrivateNetwork (host : String) : Bool :=
  (parseIpv4 host).any fun ip => !ip.acceptedPublicOnly

/-! ### Parts of the configuration -/

def trimStartMatches (c : Char) (s : String) : String := String.ofList (s.toList.dropWhile (· = c))

def trimEndMatches (c : Char) (s : String) : String :=
  String.ofList (s.toList.reverse.dropWhile (· = c)).reverse

/-- The host and the port of a value, with brackets left on the host. -/
def splitRelayhost (value : String) : Except DaemonError (String × Nat) :=
  match rsplitOnce ':' value with
  | none => .ok (value, 25)
  | some (head, tail) =>
    if contains tail ']' then .ok (value, 25)
    else
      match parseUnsigned 65535 tail with
      | some port => .ok (head, port)
      | none => .error (.relayHost value)

def parseRelayhost (value : String) : Except DaemonError (String × Nat) :=
  let value := trim value
  if value.toList.count ':' > 1 && value.toList.head? ≠ some '[' then
    .error (.relayHostBareIpv6 value)
  else
    match splitRelayhost value with
    | .error error => .error error
    | .ok (part, port) =>
      let host := trimEndMatches ']' (trimStartMatches '[' (trim part))
      if host.isEmpty then .error (.relayHost value) else .ok (host, port)

def encryptingSecurityLevels : List String :=
  ["encrypt", "secure", "dane", "dane-only", "fingerprint", "verify"]

def relayTlsMode (wrappermode : String) (port : Nat) (securityLevel : Option String) :
    Except DaemonError String :=
  if eqIgnoreAsciiCase (trim wrappermode) "yes" || port = 465 then .ok "SSL/TLS"
  else if encryptingSecurityLevels.contains (toAsciiLowercase (trim (securityLevel.getD ""))) then
    .ok "STARTTLS"
  else .error (.relayNotEncrypted port)

structure SaslEntry where
  relayhost : String
  username : String
  password : String

def parseSaslLine (line : String) : Option SaslEntry :=
  let line := trim line
  if line.isEmpty || line.toList.head? = some '#' then none
  else
    match splitWhitespace line with
    | [] => none
    | relayhost :: parts =>
      let credentials := parts.headD ""
      match splitOnce ':' credentials with
      | some (username, password) => some { relayhost, username, password }
      | none => some { relayhost, username := credentials, password := "" }

def parseSaslPasswd (content : String) : List SaslEntry := (lines content).filterMap parseSaslLine

/-- What an entry says when it is that of the relay. -/
def entryFor (host : String) (port : Nat) (entry : SaslEntry) : Option (String × String) :=
  match parseRelayhost entry.relayhost with
  | .error _ => none
  | .ok (entryHost, entryPort) =>
    if eqIgnoreAsciiCase entryHost host && entryPort = port then some (entry.username, entry.password)
    else none

def matchCredentials (content host : String) (port : Nat) : Option (String × String) :=
  (parseSaslPasswd content).findSome? (entryFor host port)

/-! ### The relay -/

def relayRequest (host : String) (port : Nat) (tlsMode : String) (credentials : Option String) :
    RelayValidationRequest :=
  let (username, password) :=
    (credentials.bind fun content => matchCredentials content host port).getD ("", "")
  { host, port, tlsMode, username, password
    allowPrivateNetwork := hostNeedsPrivateNetwork host }

/-- It never stops early: an error is its answer. -/
def loadRelay {σ : Type} (store : RelayConfigStore σ) (deploymentAllowsPrivate : Bool) :
    EStateM SmtpError σ (Except DaemonError (Option RelayAccount)) := do
  match ← caught (store.readKey keyRelayhost) with
  | .error error => pure (.error (.relayConfig error))
  | .ok none => pure (.ok none)
  | .ok (some relayhost) =>
    if (trim relayhost).isEmpty then pure (.ok none)
    else
      match parseRelayhost (trim relayhost) with
      | .error error => pure (.error error)
      | .ok (host, port) =>
        match ← caught (store.readKey keyTlsWrappermode) with
        | .error error => pure (.error (.relayConfig error))
        | .ok wrappermode =>
          match ← caught (store.readKey keyTlsSecurityLevel) with
          | .error error => pure (.error (.relayConfig error))
          | .ok securityLevel =>
            match relayTlsMode (wrappermode.getD "") port securityLevel with
            | .error error => pure (.error error)
            | .ok tlsMode =>
              match ← caught store.readCredentials with
              | .error error => pure (.error (.relayConfig error))
              | .ok credentials =>
                match validateRelay (relayRequest host port tlsMode credentials)
                    deploymentAllowsPrivate with
                | .error error => pure (.error (.relay error))
                | .ok account => pure (.ok (some account))

end MailStack.Mailstackd

/-! What applying a relay has written is what the daemon loads. -/

namespace MailStack.Mailstackd

open Lib Smtp

/-! ### Reading the file again -/

/-- The file has a text, which stands for `doc`. -/
def Carries (codec : DocCodec) (file : RelayFile) (doc : RelayDoc) : Prop :=
  ∃ text, file.text = some text ∧ codec.fromJson text = .ok doc

def noFault : Nat → Option String := fun _ => none

section

variable {codec : DocCodec} {file : RelayFile} {doc : RelayDoc}

theorem carries_of_lookup {key value : String}
    (found : (file.document codec).lookup key = some value) :
    Carries codec file (file.document codec) := by
  unfold RelayFile.document at found ⊢
  cases here : file.text with
  | none =>
    rw [here] at found
    cases found
  | some text =>
    rw [here] at found
    dsimp only at found ⊢
    cases read : codec.fromJson text with
    | ok doc => exact ⟨text, here, read⟩
    | error message =>
      rw [read] at found
      cases found

theorem wp_look (carries : Carries codec file doc) (look : RelayDoc → Option String) :
    wp (caught (lookDoc codec noFault look))
      (fun value file' => value = .ok (look doc) ∧ Carries codec file' doc) (fun _ =>
        False) file := by
  obtain ⟨text, here, read⟩ := carries
  have ran : lookDoc codec noFault look file =
      .ok (look doc) { file with calls := file.calls + 1 } := by
    have operated : fileOperation noFault file = .ok () { file with calls := file.calls + 1 } := rfl
    have loaded : loadDoc codec noFault file = .ok doc { file with calls := file.calls + 1 } := by
      rw [loadDoc, run_bind operated, run_bind (run_get _), here]
      dsimp only
      rw [read]
      rfl
    rw [lookDoc, run_bind loaded]
    rfl
  unfold wp caught
  rw [ran]
  exact ⟨rfl, text, here, read⟩

def answer : Except SmtpError RelayAccount → Except DaemonError (Option RelayAccount)
  | .error error => .error (.relay error)
  | .ok account => .ok (some account)

theorem wp_loadRelay (carries : Carries codec file doc)
    {relayhost wrappermode level host mode : String}
    {port : Nat} (allows : Bool) (atHost : doc.lookup keyRelayhost = some relayhost)
    (atMode : doc.lookup keyTlsWrappermode = some wrappermode)
    (atLevel : doc.lookup keyTlsSecurityLevel = some level)
    (some_ : (trim relayhost).isEmpty = false)
    (parsed : parseRelayhost (trim relayhost) = .ok (host, port))
    (tls : relayTlsMode wrappermode port (some level) = .ok mode) :
    wp (loadRelay (nativeRelayStore codec noFault) allows)
      (fun result _ => result =
        answer (validateRelay (relayRequest host port mode (doc.lookup credentialsKey)) allows))
      (fun _ => False) file := by
  rw [loadRelay, wp_bind]
  refine wp_mono (wp_look carries _) (fun value t read => ?_) fun _ h => h
  obtain ⟨rfl, carries⟩ := read
  rw [atHost]
  dsimp only
  rw [some_, parsed]
  simp only [Bool.false_eq_true, if_false]
  rw [wp_bind]
  refine wp_mono (wp_look carries _) (fun value t read => ?_) fun _ h => h
  obtain ⟨rfl, carries⟩ := read
  dsimp only
  rw [wp_bind]
  refine wp_mono (wp_look carries _) (fun value t read => ?_) fun _ h => h
  obtain ⟨rfl, carries⟩ := read
  dsimp only
  rw [atMode, atLevel, Option.getD_some, tls]
  dsimp only
  rw [wp_bind]
  refine wp_mono (wp_look carries _) (fun value t read => ?_) fun _ h => h
  obtain ⟨rfl, carries⟩ := read
  dsimp only
  cases validateRelay (relayRequest host port mode (doc.lookup credentialsKey)) allows with
  | error error => rfl
  | ok account => rfl

end

/-! ### Endpoints that were accepted -/

structure Accepted (account : RelayAccount) : Prop where
  host : isValidRelayHost account.host = true
  port : account.port ∈ allowedRelayPorts
  usernameLength : (bytes account.username).length ≤ 256
  passwordLength : (bytes account.password).length ≤ 4096
  username : hasForbidden account.username = false
  password : hasForbidden account.password = false
  noColon : ':' ∉ account.username.toList
  together : account.username.isEmpty = account.password.isEmpty

theorem accepted_of_validateRelay {request : RelayValidationRequest} {enabled : Bool}
    {account : RelayAccount}
    (h : validateRelay request enabled = .ok account) : Accepted account := by
  unfold validateRelay at h
  obtain ⟨host, h⟩ := ok_of_ite h
  obtain ⟨port, h⟩ := ok_of_ite h
  split at h
  · cases h
  · rename_i tlsMode _
    obtain ⟨usernameLength, h⟩ := ok_of_ite h
    obtain ⟨passwordLength, h⟩ := ok_of_ite h
    obtain ⟨username, h⟩ := ok_of_ite h
    obtain ⟨password, h⟩ := ok_of_ite h
    obtain ⟨noColon, h⟩ := ok_of_ite h
    obtain ⟨together, h⟩ := ok_of_ite h
    obtain ⟨-, h⟩ := ok_of_ite h
    obtain rfl := Except.ok.inj h
    exact
      { host := by simpa using host
        port := by simpa using port
        usernameLength := Nat.not_lt.mp usernameLength
        passwordLength := Nat.not_lt.mp passwordLength
        username := by simpa using username
        password := by simpa using password
        noColon := by simpa [contains] using noColon
        together := by simpa using together }

variable {host : String} {endpoint : RelayEndpoint}

theorem host_chars (valid : isValidRelayHost host = true) :
    host.toList ≠ [] ∧ ∀ c ∈ host.toList, c.isAlphanum = true ∨ c = '.' ∨ c = '-' := by
  unfold isValidRelayHost at valid
  split at valid
  · cases valid
  · rename_i size
    split at valid
    · cases valid
    · refine ⟨fun empty => size ?_, fun c mem => ?_⟩
      · simp [String.toList_eq_nil_iff.mp empty]
      · have ok := List.all_eq_true.mp valid c mem
        simp only [Bool.or_eq_true, Bool.and_eq_true, decide_eq_true_eq] at ok
        tauto

variable {c : Char}

theorem visible_of_host (valid : isValidRelayHost host = true)
    (mem : c ∈ host.toList) : 33 ≤ c.toNat ∧ c.toNat ≤ 126 ∧ c ≠ ':' ∧ c ≠ '[' ∧ c ≠ ']' := by
  rcases (host_chars valid).2 c mem with alnum | rfl | rfl
  · have range := isAlphanum_range alnum
    refine ⟨by omega, by omega, ?_, ?_, ?_⟩
    · rintro rfl
      revert alnum
      decide
    · rintro rfl
      revert alnum
      decide
    · rintro rfl
      revert alnum
      decide
  · decide
  · decide

theorem solid_of_host (valid : isValidRelayHost host = true)
    (mem : c ∈ host.toList) : isWhitespace c = false := by
  obtain ⟨low, high, -⟩ := visible_of_host valid mem
  exact isWhitespace_eq_false ⟨low, high⟩

theorem trim_host (valid : isValidRelayHost host = true) : trim host = host :=
  trim_visible fun _ => solid_of_host valid

theorem validateRelay_of_accepted {account : RelayAccount} (h : Accepted account) {mode : String}
    {tlsMode : TlsMode} (tls : parseTlsMode (trim mode) = some tlsMode) (needs enabled : Bool) :
    validateRelay
      { host := account.host, port := account.port, tlsMode := mode, username := account.username
        password := account.password, allowPrivateNetwork := needs } enabled =
      if needs && !enabled then .error .privateRelayDisabled else .ok { account with tlsMode } := by
  have allowed : allowedRelayPorts.contains account.port = true := List.contains_iff_mem.mpr h.port
  have noColon : contains account.username ':' = false := by simpa [contains] using h.noColon
  have usernameLength : ¬(bytes account.username).length > 256 := by
    have := h.usernameLength
    omega
  have passwordLength : ¬(bytes account.password).length > 4096 := by
    have := h.passwordLength
    omega
  have together : ((!account.username.isEmpty) != (!account.password.isEmpty)) = false := by
    rw [h.together]
    exact bne_self_eq_false ..
  unfold validateRelay
  dsimp only
  rw [trim_host h.host, h.host, allowed, tls]
  dsimp only
  rw [if_neg usernameLength, if_neg passwordLength, h.username, h.password, noColon, together]
  rfl

/-! ### What was written is read -/

theorem trim_brackets (valid : isValidRelayHost host = true) :
    trimEndMatches ']' (trimStartMatches '[' (trim ("[" ++ host ++ "]"))) = host := by
  have bracketed : ("[" ++ host ++ "]").toList = '[' :: (host.toList ++ [']']) := by simp
  have whole : trim ("[" ++ host ++ "]") = "[" ++ host ++ "]" :=
    trim_between bracketed (by decide) (by decide)
  have front : (host.toList ++ [']']).dropWhile (· = '[') = host.toList ++ [']'] := by
    cases eq : host.toList with
    | nil => rfl
    | cons c cs =>
      have other := (visible_of_host valid (eq ▸ List.mem_cons_self : c ∈ host.toList)).2.2.2.1
      simp [other]
  have back : host.toList.reverse.dropWhile (· = ']') = host.toList.reverse := by
    cases eq : host.toList.reverse with
    | nil => rfl
    | cons c cs =>
      have mem : c ∈ host.toList := List.mem_reverse.mp (eq ▸ List.mem_cons_self)
      have other := (visible_of_host valid mem).2.2.2.2
      simp [other]
  simp [whole, trimStartMatches, trimEndMatches, front, back]

theorem not_mem_toString {n : Nat} (other : c.isDigit = false) : c ∉ (toString n).toList := by
  intro mem
  rw [isDigit_of_mem_toString mem] at other
  cases other

theorem toList_relayhost (endpoint : RelayEndpoint) : endpoint.relayhost.toList =
    '[' :: (endpoint.host.toList ++ ']' :: ':' :: (toString endpoint.port).toList) := by
  simp [RelayEndpoint.relayhost]

theorem solid_of_relayhost
    (valid : isValidRelayHost endpoint.host = true)
    (mem : c ∈ endpoint.relayhost.toList) : isWhitespace c = false := by
  rw [toList_relayhost] at mem
  simp only [List.mem_cons, List.mem_append] at mem
  rcases mem with rfl | mem | rfl | rfl | mem
  · decide
  · exact solid_of_host valid mem
  · decide
  · decide
  · have digit := isDigit_of_mem_toString mem
    have alnum : c.isAlphanum = true := by simp [Char.isAlphanum, digit]
    have range := isAlphanum_range alnum
    exact isWhitespace_eq_false ⟨by omega, by omega⟩

theorem trim_relayhost {endpoint : RelayEndpoint} (valid : isValidRelayHost endpoint.host = true) :
    trim endpoint.relayhost = endpoint.relayhost :=
  trim_visible fun _ => solid_of_relayhost valid

theorem parseRelayhost_relayhost
    (valid : isValidRelayHost endpoint.host = true) (port : endpoint.port ≤ 65535) :
    parseRelayhost endpoint.relayhost = .ok (endpoint.host, endpoint.port) := by
  have some_ : endpoint.host.isEmpty = false := by
    have nonempty := (host_chars valid).1
    rw [Bool.eq_false_iff]
    intro empty
    exact nonempty (by rw [String.isEmpty_iff.mp empty]; rfl)
  have split : splitRelayhost endpoint.relayhost =
      .ok ("[" ++ endpoint.host ++ "]", endpoint.port) := by
    have eq : endpoint.relayhost =
        ("[" ++ endpoint.host ++ "]") ++ String.singleton ':' ++ toString endpoint.port := by
      rw [← String.toList_inj, toList_relayhost]
      simp
    have noBracket : contains (toString endpoint.port) ']' = false := by
      simpa [contains] using not_mem_toString (n := endpoint.port) (c := ']') (by decide)
    rw [splitRelayhost, eq, rsplitOnce_append _ (not_mem_toString (by decide))]
    dsimp only
    rw [noBracket, parseUnsigned_toString port]
    rfl
  have bracket : endpoint.relayhost.toList.head? = some '[' := by rw [toList_relayhost]; rfl
  unfold parseRelayhost
  rw [trim_relayhost valid]
  dsimp only
  rw [bracket, split]
  dsimp only
  rw [trim_brackets valid, some_]
  simp

/-- A text without white space. -/
def Solid (s : String) : Prop := ∀ c ∈ s.toList, isWhitespace c = false

instance (s : String) : Decidable (Solid s) :=
  inferInstanceAs (Decidable (∀ c ∈ s.toList, isWhitespace c = false))

/-- The credentials that were written are found, as long as they have no white space. -/
theorem matchCredentials_written {account : RelayAccount} (h : Accepted account)
    (username : Solid account.username) (password : Solid account.password) :
    matchCredentials (account.relayhost ++ " " ++ account.username ++ ":" ++ account.password ++
      "\n")
      account.host account.port = some (account.username, account.password) := by
  have port : account.port ≤ 65535 := by
    have mem := h.port
    simp only [allowedRelayPorts, List.mem_cons, List.not_mem_nil, or_false] at mem
    omega
  have word : IsWord account.relayhost :=
    ⟨by rw [toList_relayhost]; exact List.cons_ne_nil _ _,
      fun _ mem => solid_of_relayhost h.host mem⟩
  have pair : IsWord (account.username ++ ":" ++ account.password) := by
    refine ⟨by simp, fun c mem => ?_⟩
    simp only [String.toList_append, List.mem_append] at mem
    rcases mem with (mem | mem) | mem
    · exact username c mem
    · rw [List.mem_singleton.mp mem]
      decide
    · exact password c mem
  obtain ⟨line, eq⟩ : ∃ line, line = sentence account.relayhost
      [account.username ++ ":" ++ account.password] := ⟨_, rfl⟩
  have chars : line.toList = account.relayhost.toList ++
      ' ' :: (account.username ++ ":" ++ account.password).toList := by
    rw [eq, sentence_toList]
    simp
  have content : account.relayhost ++ " " ++ account.username ++ ":" ++ account.password ++ "\n" =
      String.join ([line].map (· ++ "\n")) := by
    rw [← String.toList_inj]
    simp [chars]
  have solid : ∀ c ∈ line.toList, c = ' ' ∨ isWhitespace c = false := by
    intro c mem
    rw [chars, List.mem_append, List.mem_cons] at mem
    rcases mem with mem | rfl | mem
    · exact .inr (word.inside c mem)
    · exact .inl rfl
    · exact .inr (pair.inside c mem)
  have last : ∀ c ∈ line.toList.getLast?, isWhitespace c = false := by
    intro c last
    have ends : line.toList = (account.relayhost.toList ++ [' ']) ++
        (account.username ++ ":" ++ account.password).toList := by
      rw [chars]
      simp
    rw [ends, List.getLast?_append_of_ne_nil _ pair.some] at last
    exact pair.inside c (List.mem_of_getLast? last)
  have read : lines (String.join ([line].map (· ++ "\n"))) = [line] := by
    refine lines_join fun l mem => ?_
    rw [List.mem_singleton.mp mem]
    refine ⟨fun lf => ?_, fun cr => ?_⟩
    · rcases solid _ lf with eq | eq
      · cases eq
      · cases eq
    · have eq := last '\r' cr
      cases eq
  have whole : trim line = line := by
    refine trim_eq_self (fun c first => ?_) last
    rw [chars, toList_relayhost] at first
    cases first
    decide
  have split : splitOnce ':' (account.username ++ ":" ++ account.password) =
      some (account.username, account.password) := splitOnce_append h.noColon _
  have parsed : parseSaslLine line = some
      { relayhost := account.relayhost, username := account.username,
        password := account.password } := by
    have first : line.toList.head? = some '[' := by
      rw [chars, toList_relayhost]
      rfl
    have filled : line.isEmpty = false := by
      rw [Bool.eq_false_iff]
      intro empty
      rw [String.isEmpty_iff.mp empty] at first
      cases first
    have words : splitWhitespace line =
        [account.relayhost, account.username ++ ":" ++ account.password] := by
      rw [eq]
      exact splitWhitespace_sentence word fun w mem => by rwa [List.mem_singleton.mp mem]
    unfold parseSaslLine
    rw [whole]
    dsimp only
    rw [filled, first, words]
    simp [split]
  have same : eqIgnoreAsciiCase account.host account.host = true := beq_self_eq_true _
  have entry : entryFor account.host account.port
      { relayhost := account.relayhost, username := account.username,
        password := account.password } =
        some (account.username, account.password) := by
    have parsed : parseRelayhost account.relayhost = .ok (account.host, account.port) :=
      parseRelayhost_relayhost h.host port
    unfold entryFor
    dsimp only
    rw [parsed]
    exact if_pos (by simp [same])
  refine (congrArg (fun text => matchCredentials text account.host account.port) content).trans ?_
  rw [matchCredentials, parseSaslPasswd, read, List.filterMap_cons_some parsed, List.filterMap_nil,
    List.findSome?_cons, entry]

def loaded (account : RelayAccount) : RelayAccount :=
  { account with tlsMode := if account.requiresWrappermode then .implicit else .startTls }

theorem relayRequest_written {account : RelayAccount} (h : Accepted account)
    (username : Solid account.username) (password : Solid account.password) (mode : String) :
    relayRequest account.host account.port mode (planRelayApply account).credentials =
      { host := account.host, port := account.port, tlsMode := mode, username := account.username
        password := account.password
        allowPrivateNetwork := hostNeedsPrivateNetwork account.host } := by
  unfold relayRequest
  cases none : account.username.isEmpty with
  | false =>
    have written : (planRelayApply account).credentials =
        some (account.relayhost ++ " " ++ account.username ++ ":" ++ account.password ++ "\n") := by
      simp [planRelayApply, RelayAccount.hasCredentials, none]
    rw [written, Option.bind_some, matchCredentials_written h username password]
    rfl
  | true =>
    have written : (planRelayApply account).credentials = Option.none := by
      simp [planRelayApply, RelayAccount.hasCredentials, none]
    have noUser := String.isEmpty_iff.mp none
    have noPassword := String.isEmpty_iff.mp (h.together ▸ none)
    rw [written, noUser, noPassword]
    rfl

theorem relayTlsMode_written (account : RelayAccount) :
    relayTlsMode (yesNo account.requiresWrappermode) account.port (some "encrypt") =
      .ok (if account.requiresWrappermode then "SSL/TLS" else "STARTTLS") := by
  cases mode : account.requiresWrappermode with
  | true =>
    have yes : eqIgnoreAsciiCase (trim (yesNo true)) "yes" = true := by decide
    exact if_pos (by rw [yes]; rfl)
  | false =>
    have no : eqIgnoreAsciiCase (trim (yesNo false)) "yes" = false := by decide
    have level : encryptingSecurityLevels.contains (toAsciiLowercase (trim "encrypt")) = true := by
      decide
    have port : account.port ≠ 465 := by
      rintro same
      simp [RelayEndpoint.requiresWrappermode, same] at mode
    simp only [relayTlsMode, no, port, Option.getD_some, level]
    rfl

section

variable {codec : DocCodec} {fault : Nat → Option String} {request : RelayValidationRequest}
  {enabled : Bool} {account : RelayAccount}

/-- What the daemon answers after a relay was applied. -/
theorem loadRelay_applied (accepted : validateRelay request enabled = .ok account)
    (username : Solid account.username) (password : Solid account.password) {test : RelayTestResult}
    {file file' : RelayFile} {result : RelayApplyResult}
    (applied : applyRelay (nativeRelayStore codec fault) account test file = .ok (.ok result) file')
    (allows : Bool) : ∃ file'', loadRelay (nativeRelayStore codec noFault) allows file' =
      .ok (if hostNeedsPrivateNetwork account.host && !allows then
          .error (.relay .privateRelayDisabled) else .ok (some (loaded account))) file'' := by
  have h := accepted_of_validateRelay accepted
  have port : account.port ≤ 65535 := by
    have mem := h.port
    simp only [allowedRelayPorts, List.mem_cons, List.not_mem_nil, or_false] at mem
    omega
  have outcome := allOrNothing_applyRelay (nativeRelayStore_actsAsMap codec fault) account test file
  rw [wp_of_ok applied] at outcome
  obtain ⟨keys, credentials⟩ := outcome
  have found : ∀ e ∈ (planRelayApply account).keys,
      (file'.document codec).lookup e.1 = some e.2 := by
    intro e mem
    have known : e.1 ∈ applyWrittenKeys := planRelayApply_names account ▸ List.mem_map_of_mem mem
    have key := keys e mem
    exact (if_neg (ne_credentialsKey known)).symm.trans key
  have atHost := found _ (relayhost_mem_plan account)
  have atMode := found _ (wrappermode_mem_plan account)
  have atLevel := found _ (securityLevel_mem_plan account)
  have trimmed := @trim_relayhost account.toRelayEndpoint h.host
  have some_ : (trim account.relayhost).isEmpty = false := by
    rw [trimmed, Bool.eq_false_iff]
    intro empty
    have chars := @toList_relayhost account.toRelayEndpoint
    rw [String.isEmpty_iff.mp empty] at chars
    cases chars
  have run := wp_loadRelay (carries_of_lookup atHost) allows atHost atMode atLevel some_
    (trimmed ▸ parseRelayhost_relayhost h.host port) (relayTlsMode_written account)
  rw [show (file'.document codec).lookup credentialsKey = (planRelayApply account).credentials from
    credentials, relayRequest_written h username password] at run
  have checked : validateRelay
      { host := account.host, port := account.port
        tlsMode := if account.requiresWrappermode then "SSL/TLS" else "STARTTLS"
        username := account.username, password := account.password
        allowPrivateNetwork := hostNeedsPrivateNetwork account.host } allows =
      if hostNeedsPrivateNetwork account.host && !allows then .error .privateRelayDisabled
      else .ok (loaded account) := by
    refine validateRelay_of_accepted h ?_ _ _
    cases account.requiresWrappermode with
    | true => decide
    | false => decide
  rw [checked] at run
  unfold wp at run
  cases ran : loadRelay (nativeRelayStore codec noFault) allows file' with
  | error e t =>
    rw [ran] at run
    exact run.elim
  | ok result t =>
    rw [ran] at run
    refine ⟨t, ?_⟩
    rw [run]
    split
    · rfl
    · rfl

/-- After a relay was applied, the daemon loads that relay, or refuses it when it is in a private
network and the deployment allows none. -/
theorem loadRelay_of_applied (accepted : validateRelay request enabled = .ok account)
    (username : Solid account.username) (password : Solid account.password) {test : RelayTestResult}
    {file file' : RelayFile} {result : RelayApplyResult}
    (applied : applyRelay (nativeRelayStore codec fault) account test file = .ok (.ok result) file')
    (allows : Bool) :
    (hostNeedsPrivateNetwork account.host = false ∨ allows = true →
      ∃ relay file'', loadRelay (nativeRelayStore codec noFault) allows file' =
          .ok (.ok (some relay)) file'' ∧
        relay.host = account.host ∧ relay.port = account.port ∧ relay.username = account.username ∧
        relay.password = account.password ∧
        (relay.tlsMode = .implicit ↔ account.requiresWrappermode = true)) ∧
    (hostNeedsPrivateNetwork account.host = true → allows = false →
      ∃ file'', loadRelay (nativeRelayStore codec noFault) allows file' =
        .ok (.error (.relay .privateRelayDisabled)) file'') := by
  obtain ⟨file'', ran⟩ := loadRelay_applied accepted username password applied allows
  constructor
  · intro reachable
    have passes : (hostNeedsPrivateNetwork account.host && !allows) = false := by
      rcases reachable with outside | allowed
      · rw [outside, Bool.false_and]
      · rw [allowed, Bool.not_true, Bool.and_false]
    rw [passes] at ran
    refine ⟨loaded account, file'', ran, rfl, rfl, rfl, rfl, ?_⟩
    cases mode : account.requiresWrappermode with
    | true => simp [loaded, mode]
    | false => simp [loaded, mode]
  · rintro private_ rfl
    rw [private_] at ran
    exact ⟨file'', ran⟩

end

/-! ### Relays that are applied -/

def Readable (codec : DocCodec) (file : RelayFile) : Prop :=
  file.text = none ∨ ∃ doc, Carries codec file doc

theorem wp_loadDoc_readable {codec : DocCodec} {file : RelayFile} (readable : Readable codec file) :
    wp (loadDoc codec noFault) (fun _ => Readable codec) (fun _ => False) file := by
  have operated : fileOperation noFault file = .ok () { file with calls := file.calls + 1 } := rfl
  unfold wp
  rcases readable with none | ⟨doc, text, here, read⟩
  · rw [loadDoc, run_bind operated, run_bind (run_get _), none]
    exact .inl rfl
  · rw [loadDoc, run_bind operated, run_bind (run_get _), here]
    dsimp only
    rw [read]
    exact .inr ⟨doc, text, rfl, read⟩

theorem wp_lookDoc_readable {codec : DocCodec} {file : RelayFile} (readable : Readable codec file)
    (look : RelayDoc → Option String) :
    wp (lookDoc codec noFault look) (fun _ => Readable codec) (fun _ => False) file := by
  rw [lookDoc, wp_bind]
  exact wp_mono (wp_loadDoc_readable readable) (fun _ _ readable => readable) fun _ h => h

theorem wp_updateDoc_readable {codec : DocCodec} {file : RelayFile} (readable : Readable codec file)
    (mutate : RelayDoc → RelayDoc) :
    wp (updateDoc codec noFault mutate) (fun _ => Readable codec) (fun _ => False) file := by
  have operated : ∀ file,
      fileOperation noFault file = .ok () { file with calls := file.calls + 1 } :=
    fun _ => rfl
  rw [updateDoc, wp_bind, wp_of_ok (operated file), wp_bind]
  refine wp_mono (wp_loadDoc_readable readable) (fun doc file' _ => ?_) fun _ h => h
  rw [storeDoc, wp_bind, wp_of_ok (operated file'), wp_modify]
  exact .inr ⟨_, _, rfl, codec.fromJson_toJson _⟩

theorem nativeRelayStore_neverFails (codec : DocCodec) :
    NeverFails (nativeRelayStore codec noFault) (Readable codec) where
  readKey _ _ readable := wp_lookDoc_readable readable _
  writeKey _ _ _ readable := wp_updateDoc_readable readable _
  readCredentials _ readable := wp_lookDoc_readable readable _
  writeCredentials _ _ readable := wp_updateDoc_readable readable _
  removeCredentials _ readable := wp_updateDoc_readable readable _
  reload _ readable := readable

theorem applyRelay_native (codec : DocCodec) {request : RelayValidationRequest} {enabled : Bool}
    {account : RelayAccount} (accepted : validateRelay request enabled = .ok account)
    (file : RelayFile)
    (readable : Readable codec file) : ∃ result file',
      applyRelay (nativeRelayStore codec noFault) account ⟨true⟩ file = .ok (.ok result) file' :=
  applyRelay_succeeds (nativeRelayStore_actsAsMap codec noFault) (nativeRelayStore_neverFails codec)
    (@trim_relayhost account.toRelayEndpoint (accepted_of_validateRelay accepted).host) readable

private def sendgrid : RelayAccount :=
  { host := "smtp.sendgrid.net", port := 587, tlsMode := .startTls, username := "apikey"
    password := "SG.secret" }

private theorem sendgrid_accepted : validateRelay
    { host := "smtp.sendgrid.net", port := 587, tlsMode := "STARTTLS", username := "apikey"
      password := "SG.secret", allowPrivateNetwork := false } false = .ok sendgrid := by
  decide

private def inHouse : RelayAccount :=
  { host := "10.0.0.1", port := 25, tlsMode := .startTls, username := "", password := "" }

private theorem inHouse_accepted : validateRelay
    { host := "10.0.0.1", port := 25, tlsMode := "STARTTLS", username := "", password := ""
      allowPrivateNetwork := false } false = .ok inHouse := by
  decide

theorem loadRelay_of_applied_sendgrid : ∃ result file',
    applyRelay (nativeRelayStore serdeCodec noFault) sendgrid ⟨true⟩ ⟨none, 0⟩ =
        .ok (.ok result) file' ∧
      ∃ relay file'', loadRelay (nativeRelayStore serdeCodec noFault) false file' =
        .ok (.ok (some relay)) file'' ∧ relay.host = "smtp.sendgrid.net" ∧
          relay.password = "SG.secret" := by
  obtain ⟨result, file', applied⟩ :=
    applyRelay_native serdeCodec sendgrid_accepted ⟨none, 0⟩ (.inl rfl)
  obtain ⟨relay, file'', ran, host, -, -, password, -⟩ :=
    (loadRelay_of_applied sendgrid_accepted (by decide +kernel) (by decide +kernel) applied false).1
      (.inl (by decide +kernel))
  exact ⟨result, file', applied, relay, file'', ran, host, password⟩

/-- A public deployment does not load a relay in a private network, although it was accepted and
applied. -/
theorem private_relay_not_loaded : ∃ result file',
    applyRelay (nativeRelayStore serdeCodec noFault) inHouse ⟨true⟩ ⟨none, 0⟩ =
        .ok (.ok result) file' ∧
      ∀ relay file'', loadRelay (nativeRelayStore serdeCodec noFault) false file' ≠
        .ok (.ok (some relay)) file'' := by
  obtain ⟨result, file', applied⟩ :=
    applyRelay_native serdeCodec inHouse_accepted ⟨none, 0⟩ (.inl rfl)
  obtain ⟨file'', ran⟩ := loadRelay_applied inHouse_accepted (by decide +kernel) (by decide +kernel)
    applied false
  have private_ : hostNeedsPrivateNetwork inHouse.host = true := by decide +kernel
  rw [private_] at ran
  refine ⟨result, file', applied, fun relay other loaded => ?_⟩
  rw [ran] at loaded
  cases loaded

end MailStack.Mailstackd
