import MailStack.Mime.Body
import MailStack.Sieve.Match

/-! The compilation of a script and the actions that it takes on a message. -/

namespace MailStack.Sieve

open Lib Maildir Mime

def maxSteps : Nat := 20000

def maxDepth : Nat := 32

def maxActions : Nat := 256

def supportedExtensions : List String := ["fileinto", "reject", "body", "redirect", "vacation"]

def validateExtensions : List String → Except MailError Unit
  | [] => .ok ()
  | extension :: rest =>
    if supportedExtensions.contains (toAsciiLowercase extension) then validateExtensions rest
    else .error (.invalid ("unsupported Sieve extension: " ++ toAsciiLowercase extension))

mutual

def validateCommand : Command → Except MailError Unit
  | .require list => validateExtensions list
  | .ifElse branches otherwise => do
    validateBranches branches
    validateOtherwise otherwise
  | _ => .ok ()

def validateRequires : List Command → Except MailError Unit
  | [] => .ok ()
  | command :: rest => do
    validateCommand command
    validateRequires rest

def validateBranches : List (Test × List Command) → Except MailError Unit
  | [] => .ok ()
  | (_, block) :: rest => do
    validateRequires block
    validateBranches rest

def validateOtherwise : Option (List Command) → Except MailError Unit
  | none => .ok ()
  | some block => validateRequires block

end

structure Script where
  commands : List Command

def compile (source : String) : Except MailError Script := do
  let tokens ← Lexer.tokenize source
  let commands ← Parser.parse tokens
  validateRequires commands
  pure { commands }

inductive Action
  | keep
  | discard
  | fileInto (folder : String) (create : Bool)
  | reject (reason : String)
  | redirect (address : String)
  | vacation (days : Nat) (subject : Option String) (body : String)
deriving DecidableEq

/-- What a script can ask of a message. The two texts of the body, which the evaluation works out
when they are first asked for, are functions of the message. -/
structure Mail where
  headers : Headers
  size : Nat
  bodyText : String
  bodyRaw : String

section Message

variable (decodeBase64 : List UInt8 → Option (List UInt8))

/-- The text of the message and of the messages in it, `room` levels deep. -/
def collectTextAt : (room : Nat) → List UInt8 → List UInt8
  | 0, _ => []
  | room + 1, message =>
    let headers := parseHeaders message
    let content := contentType headers
    let body := (splitHeadersBody message).2
    if content.isMultipart then
      match content.param "boundary" with
      | some boundary => (multipartParts body boundary).flatMap (collectTextAt room)
      | none => []
    else if content.isText then
      let encoding := toAsciiLowercase (trim ((headers.get "content-transfer-encoding").getD ""))
      decodeTransferEncoding decodeBase64 body encoding
    else []

def collectText (message : List UInt8) : List UInt8 := collectTextAt decodeBase64 17 message

def Mail.ofMessage (message : List UInt8) : Mail :=
  { headers := parseHeaders message
    size := message.length
    bodyText := fromUtf8Lossy (collectText decodeBase64 message)
    bodyRaw := fromUtf8Lossy (splitHeadersBody message).2 }

end Message

structure Eval where
  steps : Nat
  actions : List Action
  stopped : Bool

namespace Eval

def push (e : Eval) (action : Action) : Eval :=
  if e.actions.length < maxActions then { e with actions := e.actions ++ [action] } else e

def stop (e : Eval) : Eval := { e with stopped := true }

def tick (e : Eval) : Eval := { e with steps := e.steps + 1 }

end Eval

/-- The loop of `all`, which ends at the first test that fails. -/
def allTests (test : Test → Eval → Bool × Eval) : List Test → Eval → Bool × Eval
  | [], e => (true, e)
  | one :: rest, e =>
    match test one e with
    | (true, e) => allTests test rest e
    | (false, e) => (false, e)

/-- The loop of `any`, which ends at the first test that holds. -/
def anyTests (test : Test → Eval → Bool × Eval) : List Test → Eval → Bool × Eval
  | [], e => (false, e)
  | one :: rest, e =>
    match test one e with
    | (true, e) => (true, e)
    | (false, e) => anyTests test rest e

section Run

variable (mail : Mail)

/-- The value of a test, where `room` more levels may be opened. -/
def matchesAt : (room : Nat) → Test → Eval → Bool × Eval
  | 0, _, e => (false, e.tick.stop)
  | room + 1, test, e =>
    let e := e.tick
    if e.steps > maxSteps then (false, e.stop)
    else
      match test with
      | .true => (true, e)
      | .false => (false, e)
      | .not inner =>
        let (value, e) := matchesAt room inner e
        (!value, e)
      | .allOf tests => allTests (matchesAt room) tests e
      | .anyOf tests => anyTests (matchesAt room) tests e
      | .exist names => (names.all fun name => (mail.headers.get name).isSome, e)
      | .header kind header key =>
        ((mail.headers.getAll header).any fun value => matchValue kind value key, e)
      | .address kind part header key =>
        ((mail.headers.getAll header).any fun value =>
          (addressSpecs value).any fun spec => matchValue kind (part.field spec) key, e)
      | .size larger limit => (if larger then mail.size > limit else mail.size < limit, e)
      | .body kind text key =>
        (matchValue kind (if text then mail.bodyText else mail.bodyRaw) key, e)

/-- The loop over the branches of a condition: the block to run, if any. -/
def chooseBranch (test : Test → Eval → Bool × Eval) (otherwise : Option (List Command)) :
    List (Test × List Command) → Eval → Option (List Command) × Eval
  | [], e => (otherwise, e)
  | (one, block) :: rest, e =>
    match test one e with
    | (true, e) => (some block, e)
    | (false, e) => chooseBranch test otherwise rest e

/-- What a command other than `stop` does. -/
def runCommand (test : Test → Eval → Bool × Eval) (block : List Command → Eval → Eval)
    (command : Command) (e : Eval) : Eval :=
  match command with
  | .require _ => e
  | .ifElse branches otherwise =>
    match chooseBranch test otherwise branches e with
    | (some chosen, e) => block chosen e
    | (none, e) => e
  | .keep => e.push .keep
  | .discard => e.push .discard
  | .stop => e.stop
  | .fileInto folder create => e.push (.fileInto folder create)
  | .reject reason => e.push (.reject reason)
  | .redirect address => e.push (.redirect address)
  | .vacation days subject body => e.push (.vacation days subject body)

/-- The loop over the commands of a block. -/
def runCommands (test : Test → Eval → Bool × Eval) (block : List Command → Eval → Eval) :
    List Command → Eval → Eval
  | [], e => e
  | command :: rest, e =>
    if e.stopped then e
    else if e.tick.steps > maxSteps then e.tick.stop
    else runCommands test block rest (runCommand test block command e.tick)

/-- The commands of a block, where `room` more levels may be opened. -/
def runAt : (room : Nat) → List Command → Eval → Eval
  | 0, _, e => e.stop
  | room + 1, commands, e => runCommands (matchesAt mail (room + 1)) (runAt room) commands e

end Run

/-- Levels 0 to `maxDepth` may be opened. -/
def actions (decodeBase64 : List UInt8 → Option (List UInt8)) (script : Script)
    (message : List UInt8) : List Action :=
  (runAt (Mail.ofMessage decodeBase64 message) (maxDepth + 1) script.commands
    { steps := 0, actions := [], stopped := false }).actions

example : (compile "if header :contains \"subject\" \"invoice\" \x7b discard; stop; \x7d keep;").map
    (fun script => actions (fun _ => none) script (bytes "Subject: Your Invoice 7\r\n\r\nbody")) =
    .ok [.discard] := by decide +kernel

/-- The command stands somewhere among the commands or in a block of theirs. -/
inductive Occurs (c : Command) : List Command → Prop
  | here {commands : List Command} (mem : c ∈ commands) : Occurs c commands
  | branch {commands : List Command} {branches : List (Test × List Command)}
      {otherwise : Option (List Command)} {test : Test} {block : List Command}
      (mem : .ifElse branches otherwise ∈ commands) (chosen : (test, block) ∈ branches)
      (inner : Occurs c block) : Occurs c commands
  | otherwise {commands : List Command} {branches : List (Test × List Command)}
      {block : List Command} (mem : .ifElse branches (some block) ∈ commands)
      (inner : Occurs c block) : Occurs c commands

theorem Occurs.mono {c : Command} {commands more : List Command} (h : Occurs c commands)
    (sub : ∀ x ∈ commands, x ∈ more) : Occurs c more := by
  cases h with
  | here mem => exact .here (sub _ mem)
  | branch mem chosen inner => exact .branch (sub _ mem) chosen inner
  | otherwise mem inner => exact .otherwise (sub _ mem) inner

/-- The action that a command takes. -/
def Command.action? : Command → Option Action
  | .keep => some .keep
  | .discard => some .discard
  | .fileInto folder create => some (.fileInto folder create)
  | .reject reason => some (.reject reason)
  | .redirect address => some (.redirect address)
  | .vacation days subject body => some (.vacation days subject body)
  | _ => none

theorem mem_push {e : Eval} {action other : Action} (mem : other ∈ (e.push action).actions) :
    other ∈ e.actions ∨ other = action := by
  unfold Eval.push at mem
  split at mem
  · rcases List.mem_append.mp mem with mem | mem
    · exact .inl mem
    · exact .inr (List.mem_singleton.mp mem)
  · exact .inl mem

section Tests

variable {test : Test → Eval → Bool × Eval}

section

variable (same : ∀ t e, (test t e).2.actions = e.actions)

include same

theorem allTests_actions (tests : List Test)
    (e : Eval) : (allTests test tests e).2.actions = e.actions := by
  induction tests generalizing e with
  | nil => rfl
  | cons one rest ih =>
    have first := same one e
    unfold allTests
    split
    · rename_i run
      rw [run] at first
      exact (ih _).trans first
    · rename_i run
      rw [run] at first
      exact first

theorem anyTests_actions (tests : List Test)
    (e : Eval) : (anyTests test tests e).2.actions = e.actions := by
  induction tests generalizing e with
  | nil => rfl
  | cons one rest ih =>
    have first := same one e
    unfold anyTests
    split
    · rename_i run
      rw [run] at first
      exact first
    · rename_i run
      rw [run] at first
      exact (ih _).trans first

/-- The block that is chosen is one of the condition's, and choosing takes no action. -/
theorem chooseBranch_spec
    {otherwise : Option (List Command)} {branches : List (Test × List Command)} {e e' : Eval}
    {chosen : Option (List Command)}
    (h : chooseBranch test otherwise branches e = (chosen, e')) :
    e'.actions = e.actions ∧
      ∀ block, chosen = some block → otherwise = some block ∨ ∃ t, (t, block) ∈ branches := by
  induction branches generalizing e with
  | nil =>
    cases h
    exact ⟨rfl, fun block eq => .inl eq⟩
  | cons branch rest ih =>
    obtain ⟨one, first⟩ := branch
    have kept := same one e
    unfold chooseBranch at h
    split at h
    · rename_i run
      rw [run] at kept
      cases h
      refine ⟨kept, fun block eq => .inr ⟨one, ?_⟩⟩
      cases eq
      exact List.mem_cons_self
    · rename_i run
      rw [run] at kept
      obtain ⟨unchanged, blocks⟩ := ih h
      refine ⟨unchanged.trans kept, fun block eq => ?_⟩
      rcases blocks block eq with other | ⟨t, mem⟩
      · exact .inl other
      · exact .inr ⟨t, List.mem_cons_of_mem _ mem⟩

end

end Tests

theorem matchesAt_actions (mail : Mail) (room : Nat) (test : Test) (e : Eval) :
    (matchesAt mail room test e).2.actions = e.actions := by
  induction room generalizing test e with
  | zero => rfl
  | succ room ih =>
    unfold matchesAt
    simp only
    split
    · rfl
    cases test with
    | not inner => exact ih inner e.tick
    | allOf tests => exact allTests_actions ih tests e.tick
    | anyOf tests => exact anyTests_actions ih tests e.tick
    | _ => rfl

def FromCommands (commands : List Command) (e e' : Eval) : Prop :=
  ∀ action ∈ e'.actions, action ∈ e.actions ∨ ∃ c, Occurs c commands ∧ c.action? = some action

theorem runCommand_from {test : Test → Eval → Bool × Eval} {block : List Command → Eval → Eval}
    (same : ∀ t e, (test t e).2.actions = e.actions)
    (nested : ∀ commands e, FromCommands commands e (block commands e)) (command : Command)
    (e : Eval) : FromCommands [command] e (runCommand test block command e) := by
  have pushed : ∀ action, command.action? = some action →
      FromCommands [command] e (e.push action) := by
    intro action own other mem
    rcases mem_push mem with mem | rfl
    · exact .inl mem
    · exact .inr ⟨command, .here List.mem_cons_self, own⟩
  cases command with
  | require list => exact fun action mem => .inl mem
  | stop => exact fun action mem => .inl mem
  | ifElse branches otherwise =>
    intro action mem
    simp only [runCommand] at mem
    rcases chosen : chooseBranch test otherwise branches e with ⟨block', e'⟩
    obtain ⟨kept, blocks⟩ := chooseBranch_spec same chosen
    rw [chosen] at mem
    cases block' with
    | none => exact .inl (kept ▸ mem)
    | some commands =>
      rcases nested commands e' action mem with mem | ⟨c, inner, own⟩
      · exact .inl (kept ▸ mem)
      · refine .inr ⟨c, ?_, own⟩
        rcases blocks commands rfl with rfl | ⟨t, inside⟩
        · exact .otherwise List.mem_cons_self inner
        · exact .branch List.mem_cons_self inside inner
  | keep => exact pushed .keep rfl
  | discard => exact pushed .discard rfl
  | fileInto folder create => exact pushed (.fileInto folder create) rfl
  | reject reason => exact pushed (.reject reason) rfl
  | redirect address => exact pushed (.redirect address) rfl
  | vacation days subject body => exact pushed (.vacation days subject body) rfl

theorem runCommands_from {test : Test → Eval → Bool × Eval} {block : List Command → Eval → Eval}
    (same : ∀ t e, (test t e).2.actions = e.actions)
    (nested : ∀ commands e, FromCommands commands e (block commands e)) (commands : List Command)
    (e : Eval) : FromCommands commands e (runCommands test block commands e) := by
  induction commands generalizing e with
  | nil => exact fun action mem => .inl mem
  | cons command rest ih =>
    intro action mem
    unfold runCommands at mem
    split at mem
    · exact .inl mem
    split at mem
    · exact .inl mem
    rcases ih _ action mem with mem | ⟨c, inner, own⟩
    · rcases runCommand_from same nested command e.tick action mem with mem | ⟨c, inner, own⟩
      · exact .inl mem
      · exact .inr ⟨c, inner.mono (by simp), own⟩
    · exact .inr ⟨c, inner.mono fun x mem => List.mem_cons_of_mem _ mem, own⟩

theorem runAt_from (mail : Mail) (room : Nat) (commands : List Command) (e : Eval) :
    FromCommands commands e (runAt mail room commands e) := by
  induction room generalizing commands e with
  | zero => exact fun action mem => .inl mem
  | succ room ih => exact runCommands_from (matchesAt_actions mail (room + 1)) ih commands e

theorem actions_from {decodeBase64 : List UInt8 → Option (List UInt8)} {script : Script}
    {message : List UInt8} {action : Action} (mem : action ∈ actions decodeBase64 script message) :
    ∃ c, Occurs c script.commands ∧ c.action? = some action := by
  rcases runAt_from _ _ _ _ action mem with mem | found
  · cases mem
  · exact found

end MailStack.Sieve
