import MailStack.Lib.Hex
import MailStack.Lib.Loop
import MailStack.Lib.Word

/-! The sanitizer for the HTML of messages: what it reads as tags, what it writes for them, and the
loop that puts the output together. A slice of a text that would cut a character panics; the only
ones that can are those that look for the scheme of a URL, and `none` is that panic. -/

namespace MailStack.Webmail.Sanitize

open Lib

def maxHtmlBytes : Nat := 4 * 1024 * 1024

def maxSanitizeInputBytes : Nat := 4 * 1024 * 1024

def maxSanitizeOutputBytes : Nat := maxSanitizeInputBytes + maxSanitizeInputBytes / 4

def allowedTags : List String :=
  ["a", "b", "strong", "i", "em", "u", "s", "p", "br", "hr", "div", "span", "blockquote", "pre",
    "code", "ul", "ol", "li", "table", "thead", "tbody", "tr", "td", "th", "caption", "h1", "h2",
    "h3", "h4", "h5", "h6", "img", "font", "center", "big", "small", "sub", "sup", "dl", "dt", "dd"]

def dropWithContentTags : List String :=
  ["script", "style", "iframe", "frame", "frameset", "object", "embed", "applet", "form", "input",
    "button", "textarea", "select", "option", "link", "meta", "base", "svg", "math", "template",
    "noscript"]

def voidTags : List String := ["br", "hr", "img"]

def voidElements : List String :=
  ["area", "base", "br", "col", "embed", "hr", "img", "input", "link", "meta", "source", "track",
    "wbr"]

def allowedAttributes : List String :=
  ["href", "src", "alt", "title", "width", "height", "colspan", "rowspan", "align", "valign", "dir",
    "lang", "style", "data-blocked-src"]

def safeStyleProperties : List String :=
  ["color", "background-color", "font-family", "font-size", "font-style", "font-weight",
    "font-variant", "letter-spacing", "line-height", "text-align", "text-decoration", "text-indent",
    "text-transform", "vertical-align", "white-space", "word-break", "word-wrap", "border",
    "border-top", "border-right", "border-bottom", "border-left", "border-collapse",
    "border-spacing", "border-color", "border-style", "border-width", "margin", "margin-top",
    "margin-right", "margin-bottom", "margin-left", "padding", "padding-top", "padding-right",
    "padding-bottom", "padding-left", "width", "height", "max-width", "min-width"]

def maxAttributeValueChars : Nat := 4096

def maxAttributesPerTag : Nat := 64

structure SanitizeOptions where
  allowRemoteImages : Bool
  cidUrls : String → Option String

def SanitizeOptions.default : SanitizeOptions :=
  { allowRemoteImages := false, cidUrls := fun _ => none }

structure SanitizeOutcome where
  html : String
  remoteImagesBlocked : Nat
deriving DecidableEq

def len (s : String) : Nat := (bytes s).length

structure Tag where
  isEnd : Bool
  name : String
  attributes : List (String × String)
  selfClosing : Bool

def isAsciiWhitespace (c : Char) : Bool :=
  c = ' ' || c = '\t' || c = '\n' || c = '\x0C' || c = '\r'

def isNameChar (c : Char) : Bool := c.isAlphanum || c = '-' || c = ':' || c = '_'

def isAttributeNameChar (c : Char) : Bool :=
  !(isAsciiWhitespace c || c = '=' || c = '>' || c = '/')

def isBareValueChar (c : Char) : Bool := !(isAsciiWhitespace c || c = '>')

def skipWhitespace (rest : List Char) : List Char := rest.dropWhile isAsciiWhitespace

/-- The value of an attribute and what follows it. -/
def attributeValue : List Char → Option (String × List Char)
  | [] => none
  | c :: rest =>
    if c = '"' ∨ c = '\'' then
      (splitOnceChars c rest).map fun (value, after) => (String.ofList value, after)
    else
      some (String.ofList ((c :: rest).takeWhile isBareValueChar),
        (c :: rest).dropWhile isBareValueChar)

def pushAttribute (attributes : List (String × String)) (name value : String) :
    List (String × String) :=
  if attributes.length < maxAttributesPerTag then attributes ++ [(name, value)] else attributes

/-- What is read of a tag after its name: the attributes, whether the tag closes itself, and what
follows the tag. -/
abbrev TagRest := List (String × String) × Bool × List Char

/-- One round of the loop over the attributes. -/
def attributeStep (isEnd : Bool) :
    List (String × String) × List Char →
      (List (String × String) × List Char) ⊕ Option TagRest
  | (attributes, rest) =>
    match skipWhitespace rest with
    | [] => .inr none
    | c :: more =>
      if c = '>' then .inr (some (attributes, false, more))
      else if c = '/' ∧ more.head? = some '>' then .inr (some (attributes, true, more.drop 1))
      else if isEnd then
        .inr ((splitOnceChars '>' (c :: more)).map fun (_, after) => (attributes, false, after))
      else if !isAttributeNameChar c then .inl (attributes, more)
      else
        let name := toAsciiLowercase (String.ofList ((c :: more).takeWhile isAttributeNameChar))
        match skipWhitespace ((c :: more).dropWhile isAttributeNameChar) with
        | '=' :: after =>
          match attributeValue (skipWhitespace after) with
          | none => .inr none
          | some (value, after) => .inl (pushAttribute attributes name value, after)
        | after => .inl (pushAttribute attributes name "", after)

def parseAttributes (isEnd : Bool) (rest : List Char) : Option TagRest :=
  loop (attributeStep isEnd) none (fun s => s.2.length) ([], rest)

/-- The tag that a text begins with, and what follows it. -/
def parseTag : List Char → Option (Tag × List Char)
  | '<' :: rest =>
    let isEnd := rest.head? = some '/'
    let rest := if isEnd then rest.drop 1 else rest
    let name := rest.takeWhile isNameChar
    if name.isEmpty then none
    else
      (parseAttributes isEnd (rest.dropWhile isNameChar)).map
        fun (attributes, selfClosing, after) =>
          ({ isEnd
             name := toAsciiLowercase (String.ofList name)
             attributes
             selfClosing }, after)
  | _ => none

/-- The entity and the semicolon after the `&`, if they are within reach. -/
def entityBefore (rest : List Char) : Option String :=
  (splitOnceChars ';' rest).bind fun (entity, _) =>
    if len (String.ofList entity) ≤ 10 then some (String.ofList entity) else none

def isHexDigit (c : Char) : Bool := (readHexDigit c).isSome

def isEntity (entity : String) : Bool :=
  if ["amp", "lt", "gt", "quot", "apos", "nbsp"].contains entity then true
  else
    match stripPrefix "#" entity with
    | none => false
    | some number =>
      let digits := ((stripPrefix "x" number).or (stripPrefix "X" number)).getD number
      !digits.isEmpty && digits.toList.all isHexDigit

/-- The length of the reference whose `&` stands before `rest`. -/
def entityLength (rest : List Char) : Option Nat :=
  (entityBefore rest).bind fun entity =>
    if isEntity entity then some (entity.length + 2) else none

/-- The text as it is written. So many characters of a reference are still to be copied. -/
def pushTextFrom : Nat → List Char → List Char
  | _, [] => []
  | copy + 1, c :: rest => c :: pushTextFrom copy rest
  | 0, c :: rest =>
    if c = '<' then "&lt;".toList ++ pushTextFrom 0 rest
    else if c = '>' then "&gt;".toList ++ pushTextFrom 0 rest
    else if c = '&' then
      match entityLength rest with
      | some length => '&' :: pushTextFrom (length - 1) rest
      | none => "&amp;".toList ++ pushTextFrom 0 rest
    else c :: pushTextFrom 0 rest

def pushText (text : List Char) : String := String.ofList (pushTextFrom 0 text)

def escapeChar (c : Char) : List Char :=
  if c = '&' then "&amp;".toList
  else if c = '"' then "&quot;".toList
  else if c = '\'' then "&#39;".toList
  else if c = '<' then "&lt;".toList
  else if c = '>' then "&gt;".toList
  else [c]

def escapeAttribute (value : String) : String := String.ofList (value.toList.flatMap escapeChar)

/-- The number that digits of base 16 stand for, after at most one plus sign. -/
def parseHexadecimal (s : String) : Option Nat :=
  let digits := if s.toList.head? = some '+' then s.toList.drop 1 else s.toList
  if digits.isEmpty then none
  else
    (digits.mapM readHexDigit).bind fun digits =>
      let value := digits.foldl (fun n digit => 16 * n + digit) 0
      if value ≤ u32Max then some value else none

def charFromU32 (n : Nat) : Option Char := if n.isValidChar then some (Char.ofNat n) else none

def decodeOneEntity (entity : String) : Option Char :=
  if entity = "amp" then some '&'
  else if entity = "lt" then some '<'
  else if entity = "gt" then some '>'
  else if entity = "quot" then some '"'
  else if entity = "apos" then some '\''
  else if entity = "nbsp" then some ' '
  else
    (stripPrefix "#" entity).bind fun number =>
      match (stripPrefix "x" number).or (stripPrefix "X" number) with
      | some hex => (parseHexadecimal hex).bind charFromU32
      | none => (parseUnsigned u32Max number).bind charFromU32

/-- The text with its references resolved. So many characters belong to one that was. -/
def decodeEntitiesFrom : Nat → List Char → List Char
  | _, [] => []
  | skip + 1, _ :: rest => decodeEntitiesFrom skip rest
  | 0, c :: rest =>
    if c = '&' then
      match (entityBefore rest).bind fun entity =>
          (decodeOneEntity entity).map fun decoded => (decoded, entity.length + 1) with
      | some (decoded, length) => decoded :: decodeEntitiesFrom length rest
      | none => c :: decodeEntitiesFrom 0 rest
    else c :: decodeEntitiesFrom 0 rest

def decodeEntitiesLimited (value : String) : String :=
  String.ofList (decodeEntitiesFrom 0 value.toList)

/-- The first `count` bytes of a text and what follows them, if they end where a character ends. -/
def splitAtByte : Nat → List Char → Option (List Char × List Char)
  | 0, text => some ([], text)
  | _ + 1, [] => none
  | count + 1, c :: text =>
    if c.utf8Size ≤ count + 1 then
      (splitAtByte (count + 1 - c.utf8Size) text).map fun (before, after) => (c :: before, after)
    else none

def hasScheme (value scheme : String) : Option Bool :=
  if len scheme ≤ len value then
    (splitAtByte (len scheme) value.toList).map fun (start, _) =>
      eqIgnoreAsciiCase (String.ofList start) scheme
  else some false

def stripScheme (value scheme : String) : Option (Option String) := do
  if ← hasScheme value scheme then
    (splitAtByte (len scheme) value.toList).map fun (_, after) => some (String.ofList after)
  else some none

def trimUnsafe (value : String) : String :=
  let value := trim value
  if value.toList.any isControl then "" else value

def isHttpUrl (value : String) : Option Bool := do
  if ← hasScheme value "http://" then some true else hasScheme value "https://"

def trimMarks (value : String) : String :=
  let mark := fun c : Char => c = '<' || c = '>' || c = '"'
  String.ofList (((value.toList.dropWhile mark).reverse.dropWhile mark).reverse)

inductive ImageSource
  | keep (url : String)
  | blocked (url : String)
  | drop

def classifyImageUrl (value : String) (options : SanitizeOptions) : Option ImageSource := do
  let trimmed := trimUnsafe value
  if trimmed.isEmpty then some .drop
  else
    match ← stripScheme trimmed "cid:" with
    | some cid =>
      let key := trimMarks cid
      match (options.cidUrls key).or (options.cidUrls (toAsciiLowercase key)) with
      | some url => some (.keep url)
      | none => some .drop
    | none =>
      if ← isHttpUrl trimmed then
        if options.allowRemoteImages then some (.keep trimmed) else some (.blocked trimmed)
      else some .drop

def safeLinkUrl (value : String) : Option (Option String) := do
  let trimmed := trimUnsafe value
  if trimmed.isEmpty then some none
  else if ← isHttpUrl trimmed then some (some trimmed)
  else if ← hasScheme trimmed "mailto:" then some (some trimmed)
  else some none

def unsafeStyleParts : List String :=
  ["url(", "expression", "javascript", "@import", "\\", "/*", "*/", "<", ">", "behavior"]

/-- One declaration of a style, if it is kept. -/
def styleDeclaration (declaration : List Char) : Option String :=
  (splitOnceChars ':' declaration).bind fun (property, rawValue) =>
    let property := toAsciiLowercase (trim (String.ofList property))
    let rawValue := trim (String.ofList rawValue)
    if !safeStyleProperties.contains property then none
    else if rawValue.isEmpty || len rawValue > 256 then none
    else if unsafeStyleParts.any (containsText (toAsciiLowercase rawValue)) then none
    else if rawValue.toList.any isControl then none
    else some (property ++ ": " ++ rawValue)

def sanitizeStyle (value : String) : Option String :=
  let declarations := ((value.toList.splitOn ';').filterMap styleDeclaration).take 32
  if declarations.isEmpty then none else some ("; ".intercalate declarations)

def sanitizeDimension (value : String) : Option String :=
  let trimmed := (trim value).toList
  let percent := trimmed.getLast? = some '%'
  let digits := if percent then trimmed.dropLast else trimmed
  if digits.isEmpty || len (String.ofList digits) > 6 || !digits.all Char.isDigit then none
  else some (String.ofList digits ++ if percent then "%" else "")

def written (name value : String) : String := " " ++ name ++ "=\"" ++ value ++ "\""

def writtenIf (keep : Bool) (name value : String) : String × Nat :=
  (if keep then written name value else "", 0)

/-- What is written for an attribute that is none of a URL. -/
def plainAttributeText (name decoded : String) : String × Nat :=
  if name = "style" then
    match sanitizeStyle decoded with
    | some style => (written "style" (escapeAttribute style), 0)
    | none => ("", 0)
  else if name = "width" ∨ name = "height" then
    match sanitizeDimension decoded with
    | some value => (written name value, 0)
    | none => ("", 0)
  else if name = "colspan" ∨ name = "rowspan" then
    match parseUnsigned u32Max (trim decoded) with
    | some number => writtenIf (1 ≤ number && number ≤ 1000) name (toString number)
    | none => ("", 0)
  else if name = "align" then
    let value := trim (toAsciiLowercase decoded)
    writtenIf (["left", "right", "center", "justify", "top", "middle", "bottom"].contains value)
      name (escapeAttribute value)
  else if name = "valign" then
    let value := trim (toAsciiLowercase decoded)
    writtenIf (["top", "middle", "bottom", "baseline"].contains value) name (escapeAttribute value)
  else if name = "dir" then
    let value := trim (toAsciiLowercase decoded)
    writtenIf (["ltr", "rtl", "auto"].contains value) "dir" (escapeAttribute value)
  else if name = "lang" then
    let value := trim decoded
    writtenIf (!value.isEmpty && len value ≤ 32 &&
      value.toList.all fun c => c.isAlphanum || c = '-' || c = '_') "lang" (escapeAttribute value)
  else if name = "alt" ∨ name = "title" then
    let value := String.ofList
      ((decoded.toList.filter fun c => !isControl c).take maxAttributeValueChars)
    writtenIf (!value.isEmpty) name (escapeAttribute value)
  else ("", 0)

/-- What is written for one attribute, and how many images are blocked there. -/
def attributeText (options : SanitizeOptions) (tag name rawValue : String) :
    Option (String × Nat) :=
  let decoded := decodeEntitiesLimited rawValue
  if tag = "img" ∧ name = "src" then
    (classifyImageUrl decoded options).map fun
      | .keep url => (written "src" (escapeAttribute url), 0)
      | .blocked url => (written "data-blocked-src" (escapeAttribute url), 1)
      | .drop => ("", 0)
  else if tag = "img" ∧ name = "data-blocked-src" then
    some (written "data-blocked-src" (escapeAttribute decoded), 0)
  else if tag = "a" ∧ name = "href" then
    (safeLinkUrl decoded).map fun
      | some url => (written "href" (escapeAttribute url), 0)
      | none => ("", 0)
  else if name = "href" ∨ name = "src" then some ("", 0)
  else some (plainAttributeText name decoded)

/-- The loop over the attributes of a tag. The names in `seen` have been there. -/
def sanitizeAttributesFrom (options : SanitizeOptions) (tag : String) :
    List String → List (String × String) → Option (String × Nat)
  | _, [] => some ("", 0)
  | seen, (name, rawValue) :: rest =>
    if !allowedAttributes.contains name || seen.contains name then
      sanitizeAttributesFrom options tag seen rest
    else do
      let (text, blocked) ← attributeText options tag name rawValue
      let (texts, more) ← sanitizeAttributesFrom options tag (name :: seen) rest
      some (text ++ texts, blocked + more)

def linkAttributes : String := " rel=\"noopener noreferrer nofollow\" target=\"_blank\""

def sanitizeAttributes (options : SanitizeOptions) (tag : String)
    (attributes : List (String × String)) : Option (String × Nat) :=
  (sanitizeAttributesFrom options tag [] attributes).map fun (text, blocked) =>
    (text ++ if tag = "a" then linkAttributes else "", blocked)

structure SkipState where
  name : String
  depth : Nat

/-- What is still skipped after a tag. -/
def SkipState.after (state : SkipState) (tag : Tag) : Option SkipState :=
  if tag.isEnd then
    if tag.name = state.name then
      if state.depth - 1 = 0 then none else some { state with depth := state.depth - 1 }
    else some state
  else if tag.name = state.name ∧ !tag.selfClosing then
    some { state with depth := state.depth + 1 }
  else some state

def closing (name : String) : String := "</" ++ name ++ ">"

/-- The elements that are open stand with the innermost one first. -/
structure Output where
  out : String
  opened : List String
  blocked : Nat

namespace Output

/-- The innermost open element of the name is closed, with those within it. -/
def close (o : Output) (name : String) : Output :=
  if o.opened.contains name then
    let inner := o.opened.takeWhile (· ≠ name)
    { o with
      out := o.out ++ String.join ((inner ++ [name]).map closing)
      opened := o.opened.drop (inner.length + 1) }
  else o

/-- A start tag of an allowed element. -/
def start (options : SanitizeOptions) (o : Output) (tag : Tag) : Option Output :=
  (if len o.out + 64 < maxSanitizeOutputBytes then
    (sanitizeAttributes options tag.name tag.attributes).map fun (text, blocked) =>
      { o with
        out := o.out ++ "<" ++ tag.name ++ text ++ ">"
        blocked := satAdd u32Max o.blocked blocked }
  else some o).map fun o =>
    if voidTags.contains tag.name then o else { o with opened := tag.name :: o.opened }

/-- What a tag does outside elements that are skipped, and what is skipped after it. -/
def tag (options : SanitizeOptions) (o : Output) (tag : Tag) : Option (Output × Option SkipState) :=
  if tag.isEnd then
    if voidTags.contains tag.name then some (o, none) else some (o.close tag.name, none)
  else if dropWithContentTags.contains tag.name then
    if !voidElements.contains tag.name && !tag.selfClosing then
      some (o, some { name := tag.name, depth := 1 })
    else some (o, none)
  else if !allowedTags.contains tag.name then some (o, none)
  else (o.start options tag).map (·, none)

/-- The elements that are still open are closed, as long as there is room. -/
def finish (o : Output) : SanitizeOutcome :=
  { html := o.opened.foldl (fun out name =>
      if len out + len name + 3 < maxSanitizeOutputBytes then out ++ closing name else out) o.out
    remoteImagesBlocked := o.blocked }

end Output

structure State where
  rest : List Char
  skip : Option SkipState
  output : Output

/-- One round of the loop. It ends with a state, or it panics. -/
def step (options : SanitizeOptions) (s : State) : State ⊕ Option State :=
  match s.rest with
  | [] => .inr (some s)
  | c :: more =>
    if len s.output.out ≥ maxSanitizeOutputBytes then .inr (some s)
    else
      match s.skip with
      | some state =>
        if c ≠ '<' then
          match s.rest.dropWhile (· ≠ '<') with
          | [] => .inr (some s)
          | rest => .inl { s with rest }
        else
          match parseTag s.rest with
          | some (tag, rest) => .inl { s with rest, skip := state.after tag }
          | none => .inr (some s)
      | none =>
        if c ≠ '<' then
          .inl
            { s with
              rest := s.rest.dropWhile (· ≠ '<')
              output.out := s.output.out ++ pushText (s.rest.takeWhile (· ≠ '<')) }
        else if "<!--".toList <+: s.rest then
          match splitOnceAt "-->".toList (s.rest.drop 4) with
          | some (_, rest) => .inl { s with rest }
          | none => .inr (some s)
        else if "<!".toList <+: s.rest ∨ "<?".toList <+: s.rest then
          match splitOnceChars '>' s.rest with
          | some (_, rest) => .inl { s with rest }
          | none => .inr (some s)
        else
          match parseTag s.rest with
          | none => .inl { s with rest := more, output.out := s.output.out ++ pushText ['<'] }
          | some (tag, rest) =>
            match s.output.tag options tag with
            | some (output, skip) => .inl { rest, skip, output }
            | none => .inr none

def truncateOnCharBoundary : Nat → List Char → List Char
  | _, [] => []
  | limit, c :: rest =>
    if c.utf8Size ≤ limit then c :: truncateOnCharBoundary (limit - c.utf8Size) rest else []

def State.initial (input : String) : State :=
  { rest := truncateOnCharBoundary (min maxSanitizeInputBytes maxHtmlBytes) input.toList
    skip := none
    output := { out := "", opened := [], blocked := 0 } }

def sanitizeHtml (input : String) (options : SanitizeOptions) : Option SanitizeOutcome :=
  (loop (step options) none (fun s => s.rest.length) (.initial input)).map (·.output.finish)

end MailStack.Webmail.Sanitize
