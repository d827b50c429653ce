import MailStack.Imap.PasswordDirectory
import MailStack.Lib.Base64
import MailStack.Lib.Utf8

/-! The messages of a SCRAM-SHA-256 exchange as the server reads and builds them, and a client that
keeps to RFC 5802. -/

namespace MailStack.Imap.Scram

open Lib Core

/-! ### The server -/

structure ClientFirst where
  gs2Header : String
  bare : String
  username : String
  nonce : String

def attributes (text : String) : List String := (text.toList.splitOn ',').map String.ofList

def asciiUppercase (b : UInt8) : UInt8 := if 0x61 ≤ b && b ≤ 0x7a then b - 0x20 else b

def decodeEscapes : List UInt8 → Except String (List UInt8)
  | [] => .ok []
  | b :: rest =>
    if b = 0x3d then
      match rest with
      | x :: y :: rest =>
        let hex := [asciiUppercase x, asciiUppercase y]
        if hex = bytes "2C" then (decodeEscapes rest).map (0x2c :: ·)
        else if hex = bytes "3D" then (decodeEscapes rest).map (0x3d :: ·)
        else .error "invalid SCRAM username escape"
      | _ => .error "invalid SCRAM username escape"
    else (decodeEscapes rest).map (b :: ·)

def decodeSaslname (value : String) : Except String String :=
  match decodeEscapes (bytes value) with
  | .error e => .error e
  | .ok out =>
    match fromUtf8 out with
    | some name => .ok name
    | none => .error "SCRAM username is not UTF-8"

/-- One attribute of the client's first message: the user name and the nonce so far. -/
def firstAttribute (found : Option String × Option String) (text : String) :
    Except String (Option String × Option String) :=
  match splitOnce '=' text with
  | none => .ok found
  | some (key, value) =>
    match key with
    | "n" => (decodeSaslname value).map fun username => (some username, found.2)
    | "r" => .ok (found.1, some value)
    | _ => .ok found

def parseClientFirst (input : String) : Except String ClientFirst :=
  match splitOnce ',' input with
  | none => .error "invalid SCRAM client-first message"
  | some (flag, rest) =>
    match splitOnce ',' rest with
    | none => .error "invalid SCRAM client-first message"
    | some (authzid, bare) =>
      if !(flag = "n" || flag = "y") || !authzid.isEmpty then
        .error "channel binding and authorization identity are not supported"
      else
        match (attributes bare).foldlM firstAttribute (none, none) with
        | .error e => .error e
        | .ok (none, _) => .error "SCRAM username is missing"
        | .ok (some _, none) => .error "SCRAM nonce is missing"
        | .ok (some username, some nonce) =>
          if username.isEmpty || nonce.isEmpty || contains nonce ',' then
            .error "invalid SCRAM username or nonce"
          else .ok { gs2Header := flag ++ "," ++ authzid ++ ",", bare, username, nonce }

def serverNonce (random : List UInt8) : String :=
  String.ofList (Base64.encodeUrlSafeNoPad random)

def serverFirst (client : ClientFirst) (credentials : ScramCredentials) (serverNonce : String) :
    String :=
  "r=" ++ client.nonce ++ serverNonce ++ ",s=" ++ String.ofList (Base64.encode credentials.salt) ++
    ",i=" ++ toString credentials.iterations

/-- One attribute of the client's final message: the channel binding and the nonce so far. -/
def finalAttribute (found : Option String × Option String) (text : String) :
    Except String (Option String × Option String) :=
  match splitOnce '=' text with
  | none => .ok found
  | some (key, value) =>
    match key with
    | "c" => .ok (some value, found.2)
    | "r" => .ok (found.1, some value)
    | "m" => .error "SCRAM mandatory extension is not supported"
    | _ => .ok found

/-- The base64 of a proof, with or without its padding. -/
def decodeProof (proof : String) : Option (List UInt8) :=
  Base64.decode proof.toList <|> Base64.decodeNoPad proof.toList

def authMessage (client : ClientFirst) (serverFirst withoutProof : String) : List UInt8 :=
  bytes (client.bare ++ "," ++ serverFirst ++ "," ++ withoutProof)

def verifyClientFinal (sha : Sha256) (client : ClientFirst)
    (serverFirst serverNonce clientFinal : String)
    (credentials : ScramCredentials) : Except String (List UInt8) :=
  match rsplitOnceText ",p=" clientFinal with
  | none => .error "SCRAM proof is missing"
  | some (withoutProof, proof) =>
    if contains proof ',' then .error "SCRAM proof must be the final attribute"
    else
      match (attributes withoutProof).foldlM finalAttribute (none, none) with
      | .error e => .error e
      | .ok (channelBinding, nonce) =>
        if channelBinding ≠ some (String.ofList (Base64.encode (bytes client.gs2Header))) then
          .error "SCRAM channel binding mismatch"
        else if nonce ≠ some (client.nonce ++ serverNonce) then .error "SCRAM nonce mismatch"
        else
          match decodeProof proof with
          | none => .error "SCRAM proof is not valid base64"
          | some proof =>
            if proof.length ≠ 32 then .error "SCRAM proof has the wrong length"
            else
              match verifyClientProof sha credentials (authMessage client serverFirst withoutProof)
                proof with
              | none => .error "SCRAM proof does not verify"
              | some signature => .ok signature

/-- What the server makes of the two messages of a client, of which the second answers its own: the
user that it lets in. A name without credentials gets those of `dummy_for`. -/
def handleScram (sha : Sha256) (directory : MailboxDirectory) (random : List UInt8)
    (clientFirst : String) (answer : String → Option String) : Option String := do
  let client ← (parseClientFirst clientFirst).toOption
  let credentials := (PasswordDirectory.scramCredentials sha directory client.username).getD
    (.dummyFor sha client.username)
  let nonce := serverNonce random
  let first := serverFirst client credentials nonce
  let clientFinal ← answer first
  let _signature ← (verifyClientFinal sha client first nonce clientFinal credentials).toOption
  return toAsciiLowercase client.username

/-! ### A client -/

def known : List Char := ['a', 'n', 'm', 'r', 'c', 's', 'i', 'p', 'v', 'e']

/-- An attribute that a server has to ignore. -/
structure Extension where
  key : Char
  value : String
  letter : key.isAlpha = true
  unknown : key ∉ known
  value_comma : ',' ∉ value.toList

def Extension.text (extension : Extension) : String :=
  String.singleton extension.key ++ "=" ++ extension.value

/-- A client of RFC 5802 without channel binding and without another authorization identity. The
user name and the password are those after their preparation; `couldBind` says that the client could
bind a channel and believes that the server could not. -/
structure Client where
  user : String
  password : String
  nonce : String
  couldBind : Bool
  firstExtensions : List Extension
  finalExtensions : List Extension
  user_nonempty : user ≠ ""
  nonce_nonempty : nonce ≠ ""
  nonce_comma : ',' ∉ nonce.toList

/-- The message that the server answers with, as a client reads it. -/
structure ServerFirst where
  nonce : String
  salt : List UInt8
  iterations : Nat

def number (text : String) : Option Nat :=
  if text.isEmpty || !text.toList.all Char.isDigit then none
  else some (Nat.ofDigitChars 10 text.toList 0)

def ServerFirst.read (text : String) : Option ServerFirst :=
  match attributes text with
  | nonce :: salt :: iterations :: _ => do
    let nonce ← stripPrefix "r=" nonce
    let salt ← stripPrefix "s=" salt
    let salt ← Base64.decode salt.toList
    let iterations ← stripPrefix "i=" iterations
    let iterations ← number iterations
    return { nonce, salt, iterations }
  | _ => none

def escape (c : Char) : List Char :=
  if c = ',' then ['=', '2', 'C'] else if c = '=' then ['=', '3', 'D'] else [c]

namespace Client

variable (client : Client)

def saslname : String := String.ofList (client.user.toList.flatMap escape)

def gs2Header : String := if client.couldBind then "y,," else "n,,"

def firstBare : String :=
  ",".intercalate (["n=" ++ client.saslname, "r=" ++ client.nonce] ++
    client.firstExtensions.map Extension.text)

def first : String := client.gs2Header ++ client.firstBare

def withoutProof (nonce : String) : String :=
  ",".intercalate
    (["c=" ++ String.ofList (Base64.encode (bytes client.gs2Header)), "r=" ++ nonce] ++
    client.finalExtensions.map Extension.text)

/-- The final message of a client that has the salted password, and the signature that it expects
from the server. It goes on only when the nonce begins with its own. -/
def finalWith (sha : Sha256) (salted : ServerFirst → List UInt8) (serverFirst : String) :
    Option (String × List UInt8) := do
  let server ← ServerFirst.read serverFirst
  if client.nonce.toList.isPrefixOf server.nonce.toList then
    let salted := salted server
    let withoutProof := client.withoutProof server.nonce
    let authMessage := bytes (client.firstBare ++ "," ++ serverFirst ++ "," ++ withoutProof)
    let proof := clientProof sha salted authMessage
    return (withoutProof ++ ",p=" ++ String.ofList (Base64.encode proof),
      hmac sha (hmac sha salted (bytes "Server Key")) authMessage)
  else none

def saltedPassword (sha : Sha256) (server : ServerFirst) : List UInt8 :=
  pbkdf2Sha256 sha (bytes client.password) server.salt server.iterations 32

def final (sha : Sha256) (serverFirst : String) : Option (String × List UInt8) :=
  client.finalWith sha (client.saltedPassword sha) serverFirst

end Client

/-- The password that the record has the hash of. -/
def RightPassword (sha : Sha256) (record : PasswordRecord) (password : String) : Prop :=
  ∃ salt, hexDecode record.salt = some salt ∧
    hexDecode record.hash = some (pbkdf2Sha256 sha (bytes password) salt record.iterations hashLen)

/-! ### Attributes -/

def valueOf (key text : String) : Option String :=
  match splitOnce '=' text with
  | some (k, value) => if k = key then some value else none
  | none => none

def lastValue (key : String) : List String → Option String
  | [] => none
  | text :: texts => lastValue key texts <|> valueOf key text

variable {sha : Sha256} {record : PasswordRecord} {credentials : ScramCredentials}
  {password : String}

variable {texts : List String}

theorem attributes_intercalate (some : texts ≠ [])
    (absent : ∀ text ∈ texts, ',' ∉ text.toList) : attributes (",".intercalate texts) = texts := by
  have comma : ",".toList = [','] := by decide
  have parts : ([','].intercalate (texts.map String.toList)).splitOn ',' =
      texts.map String.toList := by
    refine List.splitOn_intercalate ',' ?_ (by simpa using some)
    intro cs mem
    obtain ⟨text, inside, rfl⟩ := List.mem_map.mp mem
    exact absent text inside
  rw [attributes, String.toList_intercalate, comma, parts]
  simp

theorem finalAttribute_ok {found next : Option String × Option String} {text : String}
    (h : finalAttribute found text = .ok next) : valueOf "m" text = none ∧
      next = (valueOf "c" text <|> found.1, valueOf "r" text <|> found.2) := by
  unfold finalAttribute at h
  unfold valueOf
  cases parts : splitOnce '=' text with
  | none =>
    rw [parts] at h
    cases h
    exact ⟨rfl, rfl⟩
  | some halves =>
    obtain ⟨key, value⟩ := halves
    simp only [parts] at h ⊢
    split at h
    · cases h
      exact ⟨rfl, rfl⟩
    · cases h
      exact ⟨rfl, rfl⟩
    · cases h
    · rename_i notC notR notM
      cases h
      exact ⟨if_neg notM, by rw [if_neg notC, if_neg notR]; rfl⟩

theorem finalAttributes_ok {found out : Option String × Option String}
    (h : texts.foldlM finalAttribute found = .ok out) : (∀ text ∈ texts, valueOf "m" text = none) ∧
      out = (lastValue "c" texts <|> found.1, lastValue "r" texts <|> found.2) := by
  induction texts generalizing found with
  | nil =>
    cases h
    exact ⟨by simp, rfl⟩
  | cons text texts ih =>
    rw [List.foldlM_cons] at h
    cases step : finalAttribute found text with
    | error e =>
      rw [step] at h
      cases h
    | ok next =>
      rw [step] at h
      obtain ⟨noMandatory, rfl⟩ := finalAttribute_ok step
      obtain ⟨others, rfl⟩ := ih h
      refine ⟨List.forall_mem_cons.mpr ⟨noMandatory, others⟩, ?_⟩
      simp only [lastValue]
      cases lastValue "c" texts <;> cases lastValue "r" texts <;> rfl

theorem foldlM_kept {σ : Type} {f : σ → String → Except String σ} {found : σ}
    (keeps : ∀ text ∈ texts, f found text = .ok found) : texts.foldlM f found = .ok found := by
  induction texts with
  | nil => rfl
  | cons text texts ih =>
    rw [List.foldlM_cons, keeps text List.mem_cons_self]
    exact ih fun text mem => keeps text (List.mem_cons_of_mem _ mem)

variable {c : Char}

theorem splitOnce_marked {key marked : String} (eq : marked = key ++ String.singleton c)
    (absent : c ∉ key.toList) (value : String) :
    splitOnce c (marked ++ value) = some (key, value) := by
  rw [eq]
  exact splitOnce_append absent value

namespace Extension

variable (extension : Extension) (found : Option String × Option String)

theorem splitOnce_text :
    splitOnce '=' extension.text = some (String.singleton extension.key, extension.value) := by
  refine splitOnce_marked rfl ?_ extension.value
  have letter := extension.letter
  simp only [String.toList_singleton, List.mem_singleton]
  rintro eq
  rw [← eq] at letter
  exact absurd letter (by decide)

theorem not_mem_text : ',' ∉ extension.text.toList := by
  have letter := extension.letter
  have key : ',' ≠ extension.key := by
    intro eq
    rw [← eq] at letter
    exact absurd letter (by decide)
  simpa [text, key] using extension.value_comma

theorem key_ne (mem : c ∈ known) : String.singleton extension.key ≠ String.singleton c := by
  intro eq
  have same : extension.key = c := by simpa using congrArg String.toList eq
  exact extension.unknown (same ▸ mem)

theorem firstAttribute_text : firstAttribute found extension.text = .ok found := by
  have notN : String.singleton extension.key ≠ "n" := extension.key_ne (c := 'n') (by decide)
  have notR : String.singleton extension.key ≠ "r" := extension.key_ne (c := 'r') (by decide)
  simp only [firstAttribute, splitOnce_text]

theorem finalAttribute_text : finalAttribute found extension.text = .ok found := by
  have notC : String.singleton extension.key ≠ "c" := extension.key_ne (c := 'c') (by decide)
  have notR : String.singleton extension.key ≠ "r" := extension.key_ne (c := 'r') (by decide)
  have notM : String.singleton extension.key ≠ "m" := extension.key_ne (c := 'm') (by decide)
  simp only [finalAttribute, splitOnce_text]

end Extension

/-! ### User names -/

theorem decodeEscapes_append {cs : List UInt8} (plain : (0x3d : UInt8) ∉ cs) (rest : List UInt8) :
    decodeEscapes (cs ++ rest) = (decodeEscapes rest).map (cs ++ ·) := by
  induction cs with
  | nil => cases eq : decodeEscapes rest <;> simp [eq, Except.map]
  | cons b cs ih =>
    rw [List.mem_cons, not_or] at plain
    rw [List.cons_append, decodeEscapes.eq_def]
    simp only [if_neg (Ne.symm plain.1), ih plain.2]
    cases decodeEscapes rest <;> rfl

/-- Every user name is read back from its escaped form. -/
theorem decodeEscapes_escape (cs : List Char) :
    decodeEscapes ((cs.flatMap escape).flatMap String.utf8EncodeChar) =
      .ok (cs.flatMap String.utf8EncodeChar) := by
  induction cs with
  | nil => rfl
  | cons c cs ih =>
    rw [List.flatMap_cons, List.flatMap_append, List.flatMap_cons]
    by_cases comma : c = ','
    · have text : (escape c).flatMap String.utf8EncodeChar = [0x3d, 0x32, 0x43] := by
        rw [comma]
        decide
      have plain : String.utf8EncodeChar c = [0x2c] := by
        rw [comma]
        decide
      rw [text, plain]
      simp only [List.cons_append, List.nil_append, decodeEscapes, ih]
      rfl
    · by_cases equals : c = '='
      · have text : (escape c).flatMap String.utf8EncodeChar = [0x3d, 0x33, 0x44] := by
          rw [equals]
          decide
        have plain : String.utf8EncodeChar c = [0x3d] := by
          rw [equals]
          decide
        rw [text, plain]
        simp only [List.cons_append, List.nil_append, decodeEscapes, ih]
        rfl
      · have plain : (0x3d : UInt8) ∉ String.utf8EncodeChar c := by
          intro mem
          obtain ⟨code, _⟩ := ascii_mem_utf8EncodeChar mem (by decide)
          exact equals (Char.ext (UInt32.toNat_inj.mp code))
        rw [escape, if_neg comma, if_neg equals, List.flatMap_singleton,
          decodeEscapes_append plain, ih]
        rfl

theorem decodeSaslname_saslname (client : Client) :
    decodeSaslname client.saslname = .ok client.user := by
  have out : decodeEscapes (bytes client.saslname) = .ok (bytes client.user) := by
    rw [Client.saslname, bytes_ofList]
    exact decodeEscapes_escape client.user.toList
  simp only [decodeSaslname, out, fromUtf8_bytes]

/-! ### The messages of a client -/

theorem mem_saslname (client : Client) : ',' ∉ client.saslname.toList := by
  rw [Client.saslname, String.toList_ofList, List.mem_flatMap]
  rintro ⟨c, _, mem⟩
  unfold escape at mem
  split at mem
  · simp at mem
  split at mem
  · simp at mem
  · rename_i other _
    exact other (List.mem_singleton.mp mem).symm

section

variable (found : Option String × Option String)

include found

theorem firstAttribute_user (client : Client) :
    firstAttribute found ("n=" ++ client.saslname) = .ok (some client.user, found.2) := by
  have parts : splitOnce '=' ("n=" ++ client.saslname) = some ("n", client.saslname) :=
    splitOnce_marked (by decide) (by decide) client.saslname
  simp only [firstAttribute, parts, decodeSaslname_saslname]
  rfl

theorem firstAttribute_nonce (nonce : String) :
    firstAttribute found ("r=" ++ nonce) = .ok (found.1, some nonce) := by
  have parts : splitOnce '=' ("r=" ++ nonce) = some ("r", nonce) :=
    splitOnce_marked (by decide) (by decide) nonce
  simp only [firstAttribute, parts]

theorem finalAttribute_binding (binding : String) :
    finalAttribute found ("c=" ++ binding) = .ok (some binding, found.2) := by
  have parts : splitOnce '=' ("c=" ++ binding) = some ("c", binding) :=
    splitOnce_marked (by decide) (by decide) binding
  simp only [finalAttribute, parts]

theorem finalAttribute_nonce (nonce : String) :
    finalAttribute found ("r=" ++ nonce) = .ok (found.1, some nonce) := by
  have parts : splitOnce '=' ("r=" ++ nonce) = some ("r", nonce) :=
    splitOnce_marked (by decide) (by decide) nonce
  simp only [finalAttribute, parts]

end

theorem contains_eq_false {s : String} (absent : c ∉ s.toList) : contains s c = false := by
  simpa [contains] using absent

def Client.asRead (client : Client) : ClientFirst where
  gs2Header := client.gs2Header
  bare := client.firstBare
  username := client.user
  nonce := client.nonce

theorem parseClientFirst_first (client : Client) :
    parseClientFirst client.first = .ok client.asRead := by
  have texts : attributes client.firstBare =
      ["n=" ++ client.saslname, "r=" ++ client.nonce] ++
        client.firstExtensions.map Extension.text := by
    refine attributes_intercalate (by simp) ?_
    intro text mem
    simp only [List.cons_append, List.nil_append, List.mem_cons, List.mem_map] at mem
    rcases mem with rfl | rfl | ⟨extension, _, rfl⟩
    · simpa using mem_saslname client
    · simpa using client.nonce_comma
    · exact extension.not_mem_text
  have found : (attributes client.firstBare).foldlM firstAttribute (none, none) =
      .ok (some client.user, some client.nonce) := by
    rw [texts, List.cons_append, List.foldlM_cons, firstAttribute_user]
    show (("r=" ++ client.nonce) :: client.firstExtensions.map Extension.text).foldlM firstAttribute
      (some client.user, none) = _
    rw [List.foldlM_cons, firstAttribute_nonce]
    refine foldlM_kept fun text mem => ?_
    obtain ⟨extension, _, rfl⟩ := List.mem_map.mp mem
    exact extension.firstAttribute_text _
  have whole : (client.user.isEmpty || client.nonce.isEmpty || contains client.nonce ',') =
      false := by
    rw [contains_eq_false client.nonce_comma]
    simp [client.user_nonempty, client.nonce_nonempty]
  have header : client.gs2Header = (if client.couldBind then "y" else "n") ++ "," ++ "" ++ "," := by
    unfold Client.gs2Header
    cases client.couldBind <;> decide
  have parts : splitOnce ',' client.first =
      some (if client.couldBind then "y" else "n", "," ++ client.firstBare) := by
    have text : client.first =
        (if client.couldBind then "y" else "n") ++ "," ++ ("," ++ client.firstBare) := by
      rw [← String.toList_inj, Client.first, header]
      simp
    rw [text]
    exact splitOnce_append (by cases client.couldBind <;> decide) _
  have rest : splitOnce ',' ("," ++ client.firstBare) = some ("", client.firstBare) :=
    splitOnce_marked (by decide) (by decide) client.firstBare
  unfold parseClientFirst
  simp only [parts, rest, found]
  rw [if_neg (by cases client.couldBind <;> decide), if_neg (by rw [whole]; decide), ← header]
  rfl

/-! ### The message of the server -/

theorem number_toString (n : Nat) : number (toString n) = some n := by
  have digits : (toString n).toList.all Char.isDigit = true :=
    List.all_eq_true.mpr fun c mem => isDigit_of_mem_toString mem
  have value : Nat.ofDigitChars 10 (toString n).toList 0 = n := by
    rw [Nat.toString_eq_repr, Nat.toList_repr]
    exact Nat.ofDigitChars_ten_toDigits
  have some : (toString n).isEmpty = false := by
    simp
  simp only [number, some, digits, value, Bool.not_true, Bool.or_self, Bool.false_eq_true, if_false]

theorem not_mem_encode (data : List UInt8) : ',' ∉ Base64.encode data := by
  intro mem
  exact absurd (Base64.mem_encode mem) (by decide)

/-- A client reads what the server has said. -/
theorem read_serverFirst {client : ClientFirst} {nonce : String}
    (clientComma : ',' ∉ client.nonce.toList) (serverComma : ',' ∉ nonce.toList) :
    ServerFirst.read (serverFirst client credentials nonce) =
      some { nonce := client.nonce ++ nonce, salt := credentials.salt,
             iterations := credentials.iterations } := by
  have text : serverFirst client credentials nonce = ",".intercalate
      ["r=" ++ (client.nonce ++ nonce), "s=" ++ String.ofList (Base64.encode credentials.salt),
        "i=" ++ toString credentials.iterations] := by
    rw [← String.toList_inj]
    simp [serverFirst]
  have digits : ',' ∉ (toString credentials.iterations).toList := by
    intro mem
    exact absurd (isDigit_of_mem_toString mem) (by decide)
  have parts : attributes (serverFirst client credentials nonce) =
      ["r=" ++ (client.nonce ++ nonce), "s=" ++ String.ofList (Base64.encode credentials.salt),
        "i=" ++ toString credentials.iterations] := by
    rw [text]
    refine attributes_intercalate (by simp) ?_
    intro text mem
    simp only [List.mem_cons, List.not_mem_nil, or_false] at mem
    rcases mem with rfl | rfl | rfl
    · simp [clientComma, serverComma]
    · simpa using not_mem_encode credentials.salt
    · simpa using digits
  simp only [ServerFirst.read, parts, stripPrefix_append, Option.bind_eq_bind, Option.bind_some,
    String.toList_ofList, Base64.decode_encode, number_toString]
  rfl

/-! ### The exchange -/

theorem rightPassword_recordOf (made : RecordOf sha password record) :
    RightPassword sha record password := by
  obtain ⟨stamp, _, iterations, salt, hash⟩ := made
  refine ⟨stamp.salt, by rw [salt, hexDecode_hexEncode], ?_⟩
  rw [hash, iterations, hexDecode_hexEncode]

theorem scramCredentialsFromRecord_some
    (given : scramCredentialsFromRecord sha record = some credentials) : ∃ salt salted,
      (record.algorithm = passwordAlgorithm ∧ pbkdf2Iterations ≤ record.iterations ∧
        (bytes record.salt).length = saltLen * 2 ∧ (bytes record.hash).length = hashLen * 2) ∧
      (hexDecode record.salt = some salt ∧ salt.length = saltLen) ∧
      (hexDecode record.hash = some salted ∧ salted.length = hashLen) ∧
      credentials =
        { salt
          iterations := record.iterations
          storedKey := sha.digest (hmac sha salted (bytes "Client Key"))
          serverKey := hmac sha salted (bytes "Server Key") } := by
  unfold scramCredentialsFromRecord at given
  split at given
  · cases given
  rename_i checked
  simp only [Bool.or_eq_true, decide_eq_true_eq, not_or, not_not, not_lt] at checked
  obtain ⟨⟨⟨algorithm, iterations⟩, saltText⟩, hashText⟩ := checked
  cases salt : hexDecode record.salt with
  | none => simp [salt] at given
  | some saltBytes =>
    cases hash : hexDecode record.hash with
    | none => simp [salt, hash] at given
    | some hashBytes =>
      simp only [salt, hash, Option.bind_eq_bind, Option.bind_some] at given
      split at given
      · cases given
      rename_i lengths
      simp only [Bool.or_eq_true, decide_eq_true_eq, not_or, not_not] at lengths
      cases given
      exact ⟨saltBytes, hashBytes, ⟨algorithm, iterations, saltText, hashText⟩, ⟨rfl, lengths.1⟩,
        ⟨rfl, lengths.2⟩, rfl⟩

theorem scramCredentials_right
    (given : scramCredentialsFromRecord sha record = some credentials)
    (right : RightPassword sha record password) :
    let salted := pbkdf2Sha256 sha (bytes password) credentials.salt credentials.iterations 32
    credentials.storedKey = sha.digest (hmac sha salted (bytes "Client Key")) ∧
      credentials.serverKey = hmac sha salted (bytes "Server Key") := by
  obtain ⟨salt, salted, _, ⟨saltHex, _⟩, ⟨hashHex, _⟩, rfl⟩ := scramCredentialsFromRecord_some given
  obtain ⟨salt', saltHex', hash⟩ := right
  obtain rfl : salt = salt' := Option.some.inj (saltHex.symm.trans saltHex')
  obtain rfl := Option.some.inj (hashHex.symm.trans hash)
  exact ⟨rfl, rfl⟩

theorem finalAttributes_withoutProof (client : Client) {nonce : String}
    (comma : ',' ∉ nonce.toList) :
    (attributes (client.withoutProof nonce)).foldlM finalAttribute (none, none) =
      .ok (some (String.ofList (Base64.encode (bytes client.gs2Header))), some nonce) := by
  have texts : attributes (client.withoutProof nonce) =
      ["c=" ++ String.ofList (Base64.encode (bytes client.gs2Header)), "r=" ++ nonce] ++
        client.finalExtensions.map Extension.text := by
    refine attributes_intercalate (by simp) ?_
    intro text mem
    simp only [List.cons_append, List.nil_append, List.mem_cons, List.mem_map] at mem
    rcases mem with rfl | rfl | ⟨extension, _, rfl⟩
    · simpa using not_mem_encode (bytes client.gs2Header)
    · simpa using comma
    · exact extension.not_mem_text
  rw [texts, List.cons_append, List.foldlM_cons, finalAttribute_binding]
  show (("r=" ++ nonce) :: client.finalExtensions.map Extension.text).foldlM finalAttribute
    (some (String.ofList (Base64.encode (bytes client.gs2Header))), none) = _
  rw [List.foldlM_cons, finalAttribute_nonce]
  refine foldlM_kept fun text mem => ?_
  obtain ⟨extension, _, rfl⟩ := List.mem_map.mp mem
  exact extension.finalAttribute_text _

theorem rsplitOnceText_proof (withoutProof : String) {proof : String} (comma : ',' ∉ proof.toList) :
    rsplitOnceText ",p=" (withoutProof ++ ",p=" ++ proof) = some (withoutProof, proof) := by
  have mark : ",p=".toList = ',' :: ['p', '='] := by decide
  have absent : ',' ∉ ['p', '='] ++ proof.toList := by simpa using comma
  have parts := rsplitOnceAt_append withoutProof.toList absent
  rw [rsplitOnceText, String.toList_append, String.toList_append, mark, List.append_assoc,
    List.cons_append, parts]
  simp

/-- The server accepts the final message of a client whose salted password gives the stored key. -/
theorem verifyClientFinal_clientProof (client : Client) {salted : List UInt8} {first nonce : String}
    (stored : credentials.storedKey = sha.digest (hmac sha salted (bytes "Client Key")))
    (comma : ',' ∉ nonce.toList) :
    let message := authMessage client.asRead first (client.withoutProof (client.nonce ++ nonce))
    verifyClientFinal sha client.asRead first nonce
      (client.withoutProof (client.nonce ++ nonce) ++ ",p=" ++
        String.ofList (Base64.encode (clientProof sha salted message))) credentials =
      .ok (hmac sha credentials.serverKey message) := by
  intro message
  have absent : ',' ∉ (String.ofList (Base64.encode (clientProof sha salted message))).toList := by
    simpa using not_mem_encode (clientProof sha salted message)
  have both : ',' ∉ (client.nonce ++ nonce).toList := by
    simpa using ⟨client.nonce_comma, comma⟩
  have found := finalAttributes_withoutProof client both
  have proof : decodeProof (String.ofList (Base64.encode (clientProof sha salted message))) =
      some (clientProof sha salted message) := by
    rw [decodeProof, String.toList_ofList, Base64.decode_encode]
    rfl
  have length : (clientProof sha salted message).length = 32 := by
    rw [clientProof, xorBytes, List.length_zipWith, length_hmac, length_hmac, min_self]
  have verified := verifyClientProof_clientProof stored message
  unfold verifyClientFinal
  simp only [rsplitOnceText_proof _ absent, contains_eq_false absent, found, proof,
    Bool.false_eq_true, if_false]
  have header : client.asRead.gs2Header = client.gs2Header := rfl
  have own : client.asRead.nonce = client.nonce := rfl
  rw [header, own, if_neg (not_not.mpr rfl), if_neg (not_not.mpr rfl), if_neg (not_not.mpr length)]
  have same : authMessage client.asRead first (client.withoutProof (client.nonce ++ nonce)) =
      message := rfl
  rw [same, verified]

/-- Such a client answers what the server says with a message that the server accepts. -/
theorem finalWith_accepted (client : Client) {salted : ServerFirst → List UInt8} {nonce : String}
    (stored : credentials.storedKey = sha.digest (hmac sha
      (salted ⟨client.nonce ++
        nonce, credentials.salt, credentials.iterations⟩) (bytes "Client Key")))
    (comma : ',' ∉ nonce.toList) :
    let first := serverFirst client.asRead credentials nonce
    let message := authMessage client.asRead first (client.withoutProof (client.nonce ++ nonce))
    ∃ final, client.finalWith sha salted first = some (final, hmac sha (hmac sha
        (salted ⟨client.nonce ++ nonce, credentials.salt, credentials.iterations⟩)
        (bytes "Server Key")) message) ∧
      verifyClientFinal sha client.asRead first nonce final credentials =
        .ok (hmac sha credentials.serverKey message) := by
  intro first message
  refine ⟨_, ?_, verifyClientFinal_clientProof client stored comma⟩
  have server : ServerFirst.read (serverFirst client.asRead credentials nonce) = _ :=
    read_serverFirst client.nonce_comma comma
  have own : client.nonce.toList.isPrefixOf (client.nonce ++ nonce).toList = true := by
    rw [String.toList_append, List.isPrefixOf_iff_prefix]
    exact List.prefix_append _ _
  simp only [Client.finalWith, first, server, Option.bind_eq_bind, Option.bind_some]
  exact if_pos own

theorem not_mem_serverNonce (random : List UInt8) : ',' ∉ (serverNonce random).toList := by
  rw [serverNonce, String.toList_ofList, Base64.encodeUrlSafeNoPad, List.mem_map]
  rintro ⟨c, mem, eq⟩
  split_ifs at eq
  · exact absurd eq (by decide)
  · exact absurd eq (by decide)
  · exact not_mem_encode random (eq ▸ List.mem_of_mem_filter mem)

/-- The server lets in a client whose salted password gives the key of the credentials that it goes
on with. -/
theorem handleScram_finalWith {directory : MailboxDirectory} (client : Client) (random : List UInt8)
    {salted : ServerFirst → List UInt8}
    (goesOn : (PasswordDirectory.scramCredentials sha directory client.user).getD
      (.dummyFor sha client.user) = credentials)
    (stored : ∀ nonce, credentials.storedKey = sha.digest (hmac sha
      (salted ⟨nonce, credentials.salt, credentials.iterations⟩) (bytes "Client Key"))) :
    handleScram sha directory random client.first
      (fun first => (client.finalWith sha salted first).map (·.1)) =
      some (toAsciiLowercase client.user) := by
  obtain ⟨final, answered, accepted⟩ := finalWith_accepted client (stored _)
    (not_mem_serverNonce random)
  have read : (parseClientFirst client.first).toOption = some client.asRead := by
    rw [parseClientFirst_first]
    rfl
  have user : client.asRead.username = client.user := rfl
  simp only [handleScram, read, user, goesOn, answered, accepted, Option.bind_eq_bind,
    Option.bind_some, Option.map_some]
  rfl

theorem verifyClientFinal_ok {client : ClientFirst} {first nonce final : String}
    {signature : List UInt8}
    (accepted : verifyClientFinal sha client first nonce final credentials = .ok signature) :
    ∃ withoutProof text proof, final = withoutProof ++ ",p=" ++ text ∧ ',' ∉ text.toList ∧
      lastValue "c" (attributes withoutProof) =
        some (String.ofList (Base64.encode (bytes client.gs2Header))) ∧
      lastValue "r" (attributes withoutProof) = some (client.nonce ++ nonce) ∧
      (∀ text ∈ attributes withoutProof, valueOf "m" text = none) ∧
      decodeProof text = some proof ∧ proof.length = 32 ∧
      sha.digest (xorBytes proof
        (hmac sha credentials.storedKey (authMessage client first withoutProof))) =
          credentials.storedKey ∧
      signature = hmac sha credentials.serverKey (authMessage client first withoutProof) := by
  unfold verifyClientFinal at accepted
  split at accepted
  · cases accepted
  rename_i withoutProof text parts
  split at accepted
  · cases accepted
  rename_i comma
  split at accepted
  · cases accepted
  rename_i channelBinding nonceFound found
  split at accepted
  · cases accepted
  rename_i binding
  split at accepted
  · cases accepted
  rename_i nonceRight
  split at accepted
  · cases accepted
  rename_i proof decoded
  split at accepted
  · cases accepted
  rename_i length
  split at accepted
  · cases accepted
  rename_i result verified
  cases accepted
  obtain ⟨noMandatory, values⟩ := finalAttributes_ok found
  obtain ⟨c, r⟩ := Prod.mk.inj values
  rw [not_not] at binding nonceRight length
  have final : final = withoutProof ++ ",p=" ++ text := by
    obtain ⟨⟨before, after⟩, at_, eq⟩ := Option.map_eq_some_iff.mp parts
    cases eq
    rw [← String.toList_inj, rsplitOnceAt_eq_some at_]
    simp
  simp only [verifyClientProof, length, ne_eq, not_true_eq_false, if_false] at verified
  split at verified
  · rename_i equal
    cases verified
    refine ⟨withoutProof, text, proof, final, by simpa [contains] using comma, ?_, ?_, noMandatory,
      decoded, length, constantTimeEq_iff.mp equal, rfl⟩
    · rw [← binding, c]
      simp
    · rw [← nonceRight, r]
      simp
  · cases verified

theorem parseClientFirst_ok {input : String} {client : ClientFirst}
    (read : parseClientFirst input = .ok client) : input = client.gs2Header ++ client.bare := by
  unfold parseClientFirst at read
  split at read
  · cases read
  rename_i flag rest first
  split at read
  · cases read
  rename_i authzid bare second
  split at read
  · cases read
  split at read
  · cases read
  · cases read
  · cases read
  split at read
  · cases read
  cases read
  rw [← String.toList_inj, (splitOnce_eq_some first).1, (splitOnce_eq_some second).1]
  simp

/-- The exchange lets in every client of RFC 5802 with the right password, and nobody whose final
message does not fit the messages before it and the stored key. -/
theorem scram_exchange :
    (∀ (client : Client) (record : PasswordRecord) (credentials : ScramCredentials) (nonce : String),
      scramCredentialsFromRecord sha record = some credentials →
      RightPassword sha record client.password → ',' ∉ nonce.toList →
      ∃ first final signature, parseClientFirst client.first = .ok first ∧
        first.username = client.user ∧ first.nonce = client.nonce ∧
        client.final sha (serverFirst first credentials nonce) = some (final, signature) ∧
        verifyClientFinal sha first (serverFirst first credentials nonce) nonce final credentials =
          .ok signature) ∧
    (∀ (input : String) (client : ClientFirst) (credentials : ScramCredentials)
        (first nonce final : String) (signature : List UInt8),
      parseClientFirst input = .ok client →
      verifyClientFinal sha client first nonce final credentials = .ok signature →
      ∃ withoutProof text proof, input = client.gs2Header ++ client.bare ∧
        final = withoutProof ++ ",p=" ++ text ∧ ',' ∉ text.toList ∧
        lastValue "c" (attributes withoutProof) =
          some (String.ofList (Base64.encode (bytes client.gs2Header))) ∧
        lastValue "r" (attributes withoutProof) = some (client.nonce ++ nonce) ∧
        (∀ text ∈ attributes withoutProof, valueOf "m" text = none) ∧
        decodeProof text = some proof ∧ proof.length = 32 ∧
        sha.digest (xorBytes proof (hmac sha credentials.storedKey
          (bytes (client.bare ++ "," ++ first ++ "," ++ withoutProof)))) = credentials.storedKey ∧
        signature = hmac sha credentials.serverKey
          (bytes (client.bare ++ "," ++ first ++ "," ++ withoutProof))) := by
  constructor
  · intro client record credentials nonce given right comma
    obtain ⟨stored, server⟩ := scramCredentials_right given right
    obtain ⟨final, answered, accepted⟩ :=
      @finalWith_accepted sha credentials client (client.saltedPassword sha) nonce stored comma
    refine ⟨client.asRead, final, _, parseClientFirst_first client, rfl, rfl, answered, ?_⟩
    rw [accepted, server]
    rfl
  · intro input client credentials first nonce final signature read accepted
    obtain ⟨withoutProof, text, proof, rest⟩ := verifyClientFinal_ok accepted
    exact ⟨withoutProof, text, proof, parseClientFirst_ok read, rest⟩

def firstBytes : Sha256 where
  digest data := (data ++ List.replicate 32 0).take 32
  length_digest data := by simp

def someClient : Client where
  user := "a,b=c"
  password := "Tr0ubadour9x"
  nonce := "clientnonce"
  couldBind := true
  firstExtensions := []
  finalExtensions := [{ key := 'x', value := "1=p", letter := by decide, unknown := by decide,
                        value_comma := by decide }]
  user_nonempty := by decide
  nonce_nonempty := by decide
  nonce_comma := by decide

def someRecord : PasswordRecord where
  username := "a"
  algorithm := passwordAlgorithm
  iterations := pbkdf2Iterations
  salt := hexEncode (List.replicate saltLen 7)
  hash := hexEncode (pbkdf2Sha256 firstBytes (bytes "Tr0ubadour9x") (List.replicate saltLen 7)
    pbkdf2Iterations hashLen)
  updatedAt := ""

theorem scram_exchange_commas : ∃ credentials first final signature withoutProof,
    parseClientFirst someClient.first = .ok first ∧ first.username = "a,b=c" ∧
      verifyClientFinal firstBytes first (serverFirst first credentials "servernonce") "servernonce"
        final credentials = .ok signature ∧
      lastValue "r" (attributes withoutProof) = some (first.nonce ++ "servernonce") ∧
      signature = hmac firstBytes credentials.serverKey (bytes (first.bare ++ "," ++
        serverFirst first credentials "servernonce" ++ "," ++ withoutProof)) := by
  have made : RecordOf firstBytes "Tr0ubadour9x" someRecord :=
    ⟨⟨List.replicate saltLen 7, rfl, ""⟩, rfl, rfl, rfl, rfl⟩
  obtain ⟨credentials, given, _⟩ := scram_recordOf made
  obtain ⟨first, final, signature, read, user, _, _, accepted⟩ :=
    (@scram_exchange firstBytes).1 someClient someRecord credentials "servernonce" given
      (rightPassword_recordOf made) (by decide)
  obtain ⟨withoutProof, _, _, _, _, _, _, nonce, _, _, _, _, signed⟩ :=
    (@scram_exchange firstBytes).2 _ first credentials _ "servernonce" final signature read
      accepted
  exact ⟨credentials, first, final, signature, withoutProof, read, user, accepted, nonce, signed⟩

end MailStack.Imap.Scram
