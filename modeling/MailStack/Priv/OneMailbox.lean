import MailStack.Priv.Calls
import MailStack.Webmail.AccountDirectory

/-! The Maildir of an address, as the delivery, the logins and the webmail find it. -/

namespace MailStack.Priv

open Lib Core Imap Webmail

structure GoodHome (home : String) : Prop where
  absolute : home.toList.head? = some '/'
  trimmed : trim home = home
  noNul : contains home '\x00' = false

def isLineOf (user : String) (fields : List String) : Bool := fields.head? = some user

/-- The account of a user is found by its name, whatever the case, and no other account has its
Maildir. -/
structure Settled (maildirName : String) (passwd : Passwd) (user : String) : Prop where
  spelled : ∀ fields ∈ passwd, ∀ name, fields.head? = some name → toAsciiLowercase name = user →
    name = user
  one : passwd.filter (isLineOf user) = [] ∨ ∃ uid gid home shell, GoodHome home ∧
    passwd.filter (isLineOf user) = [[user, "x", uid, gid, "", home, shell]]
  own : ∀ fields ∈ passwd, isLineOf user fields = true → ∀ other ∈ passwd,
    isLineOf user other = false → ∀ home home', fields[5]? = some home → other[5]? = some home' →
      joinPath home maildirName ≠ joinPath home' maildirName

section Lookup

variable {maildirName user : String} {passwd : Passwd} {fields : List String}

theorem skipped_of_isLineOf (isUser : userRe user = true) (line : isLineOf user fields = true) :
    skipped fields = false := by
  have head : fields.head? = some user := of_decide_eq_true line
  have named : user ≠ "" := by
    rintro rfl
    cases isUser
  have noHash : user.toList.head? ≠ some '#' := by
    intro hash
    rcases userRe_mem isUser (List.mem_of_mem_head? hash) with h | h | h | h <;>
      exact absurd h (by decide)
  rw [skipped, head, Option.any_some, Bool.or_eq_false_iff, decide_eq_false_iff_not,
    decide_eq_false_iff_not]
  refine ⟨?_, noHash⟩
  rintro rfl
  exact named (Option.some.inj head).symm

def homeLine (passwd : Passwd) (user : String) : Option String :=
  (passwd.find? (isLineOf user)).bind fun fields => fields[5]?

theorem find?_congr {α : Type*} {p q : α → Bool} {xs : List α} (h : ∀ x ∈ xs, p x = q x) :
    xs.find? p = xs.find? q := by
  rw [← List.head?_filter, ← List.head?_filter, List.filter_congr h]

theorem Settled.line (settled : Settled maildirName passwd user) (mem : fields ∈ passwd)
    (line : isLineOf user fields = true) :
    ∃ uid gid home shell, GoodHome home ∧ fields = [user, "x", uid, gid, "", home, shell] ∧
      passwd.find? (isLineOf user) = some fields := by
  have found : fields ∈ passwd.filter (isLineOf user) := List.mem_filter.mpr ⟨mem, line⟩
  rcases settled.one with none | ⟨uid, gid, home, shell, good, one⟩
  · rw [none] at found
    cases found
  · rw [one, List.mem_singleton] at found
    refine ⟨uid, gid, home, shell, good, found, ?_⟩
    rw [← List.head?_filter, one, found, List.head?_cons]

theorem toAsciiLowercase_user (isUser : userRe user = true) : toAsciiLowercase user = user := by
  rw [toAsciiLowercase, List.map_congr_left fun c mem =>
    toLower_eq_self (userRe_visible isUser mem).2.1, List.map_id', String.ofList_toList]

theorem homeOf_settled (isUser : userRe user = true) (settled : Settled maildirName passwd user) :
    homeOf passwd user = homeLine passwd user := by
  have entryOf : ∀ fields ∈ passwd, isLineOf user fields = true →
      ∃ home, homeEntry fields = some (user, home) ∧ fields[5]? = some home := by
    intro fields mem line
    have kept := skipped_of_isLineOf isUser line
    obtain ⟨uid, gid, home, shell, -, rfl, -⟩ := settled.line mem line
    refine ⟨home, ?_, rfl⟩
    rw [homeEntry, kept]
    simp [toAsciiLowercase_user isUser]
  have same : passwd.find? (fun fields => (homeEntry fields).any fun entry => entry.1 = user) =
      passwd.find? (isLineOf user) := by
    refine find?_congr fun fields mem => ?_
    cases line : isLineOf user fields with
    | true =>
      obtain ⟨home, entry, -⟩ := entryOf fields mem line
      simp [entry]
    | false =>
      rw [Option.any_eq_false]
      rintro ⟨name, home⟩ entry
      obtain ⟨named, -⟩ := homeEntry_eq_some entry
      obtain ⟨spelled, head, rfl⟩ := Option.map_eq_some_iff.mp named
      -- a name that is the user's but for its case is the user's
      rw [decide_eq_false_iff_not]
      intro lowered
      have isUser := settled.spelled fields mem spelled head lowered
      rw [isLineOf, head, isUser] at line
      simp at line
  rw [homeOf, Imap.homes, List.find?_filterMap, same, homeLine]
  cases found : passwd.find? (isLineOf user) with
  | none => rfl
  | some fields =>
    obtain ⟨home, entry, atFive⟩ :=
      entryOf fields (List.mem_of_find?_eq_some found) (List.find?_some found)
    simp [entry, atFive]

theorem lookupHome_settled (directory : AccountDirectory) (isUser : userRe user = true)
    (settled : Settled maildirName directory.passwd user) :
    directory.lookupHome user = homeLine directory.passwd user := by
  have same : directory.passwd.find? (fun fields => !skipped fields && fields.head? = some user) =
      directory.passwd.find? (isLineOf user) := by
    refine find?_congr fun fields _ => ?_
    cases line : isLineOf user fields with
    | true => rw [skipped_of_isLineOf isUser line, of_decide_eq_true line]; simp
    | false => rw [← isLineOf, line, Bool.and_false]
  rw [AccountDirectory.lookupHome, same, homeLine]
  cases found : directory.passwd.find? (isLineOf user) with
  | none => rfl
  | some fields =>
    obtain ⟨uid, gid, home, shell, good, rfl, -⟩ :=
      settled.line (List.mem_of_find?_eq_some found) (List.find?_some found)
    have nonempty : home ≠ "" := by
      rintro rfl
      exact absurd good.absolute (by decide)
    simp [good.trimmed, nonempty, good.absolute, good.noNul]

end Lookup

/-! ### Accounts that come and go -/

section Accounts

variable {maildirName user user' shell : String} {passwd : Passwd} {o : Outcomes}

theorem Settled.filter (settled : Settled maildirName passwd user) (q : List String → Bool) :
    Settled maildirName (passwd.filter q) user := by
  refine ⟨fun fields mem => settled.spelled fields (List.mem_of_mem_filter mem), ?_,
    fun fields mem line other mem' => settled.own fields (List.mem_of_mem_filter mem) line other
      (List.mem_of_mem_filter mem')⟩
  rw [List.filter_comm]
  rcases settled.one with none | ⟨uid, gid, home, shell, good, one⟩
  · rw [none]
    exact .inl rfl
  · rw [one, List.filter_singleton]
    cases q [user, "x", uid, gid, "", home, shell] with
    | true => exact .inr ⟨uid, gid, home, shell, good, rfl⟩
    | false => exact .inl rfl

/-- The account gets a home whose Maildir no other account has. -/
structure OwnHome (maildirName : String) (o : Outcomes) (passwd : Passwd) : Prop where
  good : GoodHome o.home
  apart : ∀ fields ∈ passwd, ∀ home, fields[5]? = some home →
    joinPath home maildirName ≠ joinPath o.home maildirName

theorem Settled.append (settled : Settled maildirName passwd user) (isUser : userRe user' = true)
    (free : taken passwd user' = false) (own : OwnHome maildirName o passwd) :
    Settled maildirName (passwd ++ [newLine o user' shell]) user := by
  have noLine : ∀ fields ∈ passwd, isLineOf user' fields = false := by
    rw [taken, List.any_eq_false] at free
    exact fun fields mem => Bool.eq_false_iff.mpr (free fields mem)
  refine ⟨fun fields mem name head lowered => ?_, ?_, fun fields mem line other mem' noLine' => ?_⟩
  · rcases List.mem_append.mp mem with old | new
    · exact settled.spelled fields old name head lowered
    · rw [List.mem_singleton.mp new, newLine, List.head?_cons] at head
      cases head
      rw [← lowered, toAsciiLowercase_user isUser]
  · rw [List.filter_append]
    by_cases same : user' = user
    · subst same
      refine .inr ⟨toString o.uid, toString o.gid, o.home, shell, own.good, ?_⟩
      rw [List.filter_eq_nil_iff.mpr fun fields mem => by simp [noLine fields mem]]
      simp [newLine, isLineOf]
    · have other : isLineOf user (newLine o user' shell) =
          false := by simp [newLine, isLineOf, same]
      rw [List.filter_singleton, other]
      simpa using settled.one
  · intro home home' atFive atFive'
    rcases List.mem_append.mp mem with old | new
    · rcases List.mem_append.mp mem' with old' | new'
      · exact settled.own fields old line other old' noLine' home home' atFive atFive'
      · rw [List.mem_singleton.mp new'] at atFive'
        cases atFive'
        exact own.apart fields old home atFive
    · rcases List.mem_append.mp mem' with old' | new'
      · rw [List.mem_singleton.mp new] at atFive
        cases atFive
        exact (own.apart other old' home' atFive').symm
      · rw [List.mem_singleton.mp new] at line
        rw [List.mem_singleton.mp new', line] at noLine'
        cases noLine'

end Accounts

/-! ### The registry -/

/-- An entry of the registry whose user is the part of the address before the at sign. -/
def IsEntry (item : Json) : Prop :=
  ∃ email user displayName domain, item = mailboxJson email user displayName ∧
    userRe user = true ∧ addressRe email = true ∧ (∀ c ∈ email.toList, c.isUpper = false) ∧
    splitOnce '@' email = some (user, domain)

structure Sound (users : Users) (maildirName : String) (host : Host) : Prop where
  entries : ∀ item ∈ readMailboxes users host, IsEntry item
  settled : ∀ item ∈ readMailboxes users host,
    Settled maildirName host.passwd (mailboxStr item "unixUser")
  once : ((readMailboxes users host).map (mailboxStr · "email")).Nodup

variable {users : Users} {maildirName : String} {host t : Host}

theorem Sound.congr (h : Sound users maildirName host)
    (mailboxes : readMailboxes users t = readMailboxes users host)
    (passwd : t.passwd = host.passwd) :
    Sound users maildirName t := by
  refine ⟨?_, ?_, ?_⟩
  · rw [mailboxes]
    exact h.entries
  · rw [mailboxes, passwd]
    exact h.settled
  · rw [mailboxes]
    exact h.once

theorem holds_of_mem {item : Json} (mem : item ∈ readMailboxes users host) :
    host.mailboxes = .holds (readMailboxes users host) := by
  unfold readMailboxes tryReadMailboxes at mem ⊢
  cases file : host.mailboxes with
  | holds items => rfl
  | _ => rw [file] at mem; cases mem

/-! ### The Maildir of an entry -/

/-- What the webmail reads its accounts from. -/
def accountsOf (users : Users) (maildirName : String) (fs : FileSystem) (host : Host) :
    AccountDirectory where
  passwordsPath := users.paths.mailboxPasswords
  passwords := host.passwords
  registry := host.mailboxes
  passwd := host.passwd
  maildirName := maildirName
  fs := fs

section Resolve

variable {fs : FileSystem} {item : Json}

/-- The address and the user of an entry, in the forms that the lookups use. -/
structure EntryFacts (item : Json) : Prop where
  isUser : userRe (mailboxStr item "unixUser") = true
  isAddress : addressRe (mailboxStr item "email") = true
  normal : MailboxPasswords.key (mailboxStr item "email") = mailboxStr item "email"
  localPart : ∃ domain, splitOnce '@' (mailboxStr item "email") =
    some (mailboxStr item "unixUser", domain)
  managed : ∃ displayName, ManagedMailbox.ofJson item =
    some ⟨mailboxStr item "email", mailboxStr item "unixUser", displayName⟩

theorem IsEntry.facts (h : IsEntry item) : EntryFacts item := by
  obtain ⟨email, user, displayName, domain, rfl, isUser, isAddress, noUpper, parts⟩ := h
  refine ⟨isUser, isAddress, ?_, ⟨domain, parts⟩, ⟨some displayName, rfl⟩⟩
  exact MailboxPasswords.key_eq_self fun c mem =>
    ⟨isWhitespace_eq_false (addressRe_mem isAddress mem), noUpper c mem⟩

theorem ne_empty_of_userRe {user : String} (isUser : userRe user = true) : user ≠ "" := by
  rintro rfl
  cases isUser

theorem trim_of_userRe {user : String} (isUser : userRe user = true) : trim user = user :=
  trim_visible fun _ mem => isWhitespace_eq_false (userRe_visible isUser mem).1

theorem lowercase_of_key {name : String} (normal : MailboxPasswords.key name = name) :
    toAsciiLowercase name = name := by
  conv_lhs => rw [← normal]
  rw [MailboxPasswords.key, toAsciiLowercase_toAsciiLowercase]
  exact normal

/-- The store of an entry, for the logins and for the delivery. -/
theorem resolveMaildir_entry (entry : IsEntry item)
    (settled : Settled maildirName host.passwd (mailboxStr item "unixUser")) :
    resolveMaildir fs maildirName host.passwd (mailboxStr item "email") =
      (homeLine host.passwd (mailboxStr item "unixUser")).bind fun home =>
        if fs.isDir home && fs.opens (joinPath home maildirName) then
          some (joinPath home maildirName) else none := by
  have facts := entry.facts
  obtain ⟨domain, parts⟩ := facts.localPart
  have account : accountName (mailboxStr item "email") = mailboxStr item "unixUser" :=
    accountName_eq facts.normal parts
  have nonempty : (mailboxStr item "unixUser").isEmpty = false := by
    simpa using ne_empty_of_userRe facts.isUser
  rw [resolveMaildir, account, nonempty, homeOf_settled facts.isUser settled]
  cases homeLine host.passwd (mailboxStr item "unixUser") with
  | none => rfl
  | some home =>
    simp only [Bool.false_eq_true, if_false, Option.bind_eq_bind, Option.bind_some]
    cases fs.isDir home <;> cases fs.opens (joinPath home maildirName) <;> rfl

theorem mapM_ofJson {items : List Json} (entries : ∀ item ∈ items, IsEntry item) :
    ∃ mailboxes, items.mapM ManagedMailbox.ofJson = some mailboxes ∧
      ∀ mailbox, mailbox ∈ mailboxes ↔
        ∃ item ∈ items, ManagedMailbox.ofJson item = some mailbox := by
  induction items with
  | nil => exact ⟨[], rfl, by simp⟩
  | cons item items ih =>
    obtain ⟨displayName, first⟩ := (entries item List.mem_cons_self).facts.managed
    obtain ⟨mailboxes, rest, members⟩ :=
      ih fun item mem => entries item (List.mem_cons_of_mem _ mem)
    refine ⟨_ :: mailboxes, by rw [List.mapM_cons, first, rest]; rfl, fun mailbox => ?_⟩
    simp [members, first, eq_comm]

/-- An account has an address that was checked when it was made. -/
theorem addressRe_of_resolve {login : String} {account : Account}
    (entries : ∀ item ∈ readMailboxes users host, IsEntry item)
    (found : (accountsOf users maildirName fs host).resolve login = some account) :
    addressRe account.email = true := by
  obtain ⟨mailboxes, loaded, mailbox, mem, same, -⟩ := AccountDirectory.mailbox_of_resolve found
  cases registry : host.mailboxes with
  | missing =>
    rw [AccountDirectory.loadRegistry, accountsOf, registry] at loaded
    cases loaded
    cases mem
  | holds items =>
    have listed : readMailboxes users host = items := by
      simp [readMailboxes, tryReadMailboxes, registry]
    obtain ⟨read, all, members⟩ := mapM_ofJson entries
    rw [AccountDirectory.loadRegistry, accountsOf, registry, ← listed] at loaded
    obtain rfl := Option.some.inj (all.symm.trans loaded)
    obtain ⟨item, inside, eq⟩ := (members mailbox).mp mem
    have facts := (entries item inside).facts
    obtain ⟨displayName, managed⟩ := facts.managed
    obtain rfl := Option.some.inj (managed.symm.trans eq)
    have normal : toAsciiLowercase (trim (mailboxStr item "email")) = _ := facts.normal
    rw [same, normal]
    exact facts.isAddress
  | _ =>
    rw [AccountDirectory.loadRegistry, accountsOf, registry] at loaded
    cases loaded

/-- The account of an entry, in the webmail. -/
theorem resolve_entry (h : Sound users maildirName host) (mem : item ∈ readMailboxes users host)
    (short : (bytes (mailboxStr item "email")).length ≤ maxEmailLen) :
    ((accountsOf users maildirName fs host).resolve (mailboxStr item "email")).map (·.maildir) =
      (homeLine host.passwd (mailboxStr item "unixUser")).bind fun home =>
        if fs.isDir (joinPath home maildirName) then some (joinPath home maildirName)
        else none := by
  have facts := (h.entries item mem).facts
  have isAddress := facts.isAddress
  obtain ⟨domain, parts⟩ := facts.localPart
  obtain ⟨displayName, managed⟩ := facts.managed
  obtain ⟨mailboxes, all, members⟩ := mapM_ofJson h.entries
  have registry : (accountsOf users maildirName fs host).loadRegistry = some mailboxes := by
    rw [AccountDirectory.loadRegistry, accountsOf, holds_of_mem mem]
    exact all
  -- the entry with the address is the only one with it
  have found : mailboxes.find? (fun entry =>
      eqIgnoreAsciiCase entry.email (mailboxStr item "email")) =
        some ⟨mailboxStr item "email", mailboxStr item "unixUser", displayName⟩ := by
    have one : (mailboxes.find? fun entry =>
        eqIgnoreAsciiCase entry.email (mailboxStr item "email")).isSome := by
      rw [List.find?_isSome]
      exact ⟨_, (members _).mpr ⟨item, mem, managed⟩, by simp [eqIgnoreAsciiCase]⟩
    obtain ⟨mailbox, first⟩ := Option.isSome_iff_exists.mp one
    obtain ⟨item', mem', read⟩ := (members _).mp (List.mem_of_find?_eq_some first)
    have facts' := (h.entries item' mem').facts
    obtain ⟨displayName', managed'⟩ := facts'.managed
    rw [managed'] at read
    cases read
    have same := List.find?_some first
    rw [eqIgnoreAsciiCase, beq_iff_eq, lowercase_of_key facts.normal,
      lowercase_of_key facts'.normal] at same
    obtain rfl := List.inj_on_of_nodup_map h.once mem' mem same
    rw [managed] at managed'
    cases managed'
    exact first
  have isUser := facts.isUser
  have trimmed := trim_of_userRe isUser
  have home := lookupHome_settled (accountsOf users maildirName fs host) isUser
    (h.settled item mem)
  have normal : normalizeLogin (mailboxStr item "email") = mailboxStr item "email" := facts.normal
  have canonical : toAsciiLowercase (trim (mailboxStr item "email")) = mailboxStr item "email" :=
    facts.normal
  have nonempty : mailboxStr item "email" ≠ "" := by
    intro empty
    rw [empty] at isAddress
    cases isAddress
  have at_ : contains (mailboxStr item "email") '@' = true := by
    rw [contains, List.contains_iff_mem, (splitOnce_eq_some parts).1]
    simp
  have entered : (decide (maxEmailLen < (bytes (mailboxStr item "email")).length)) = false :=
    decide_eq_false (Nat.not_lt.mpr short)
  simp only [AccountDirectory.resolve, normal, String.isEmpty_eq_false_iff.mpr nonempty, entered, at_,
    registry, found, canonical, parts, trimmed, home, Option.bind_eq_bind, Option.bind_some,
    String.isEmpty_eq_false_iff.mpr (ne_empty_of_userRe isUser), Bool.or_self, Bool.not_true,
    Bool.false_eq_true, if_false]
  show Option.map _ ((homeLine host.passwd (mailboxStr item "unixUser")).bind fun home =>
    if (!fs.isDir (joinPath home maildirName)) = true then none else _) = _
  cases homeLine host.passwd (mailboxStr item "unixUser") with
  | none => rfl
  | some home =>
    rw [Option.bind_some, Option.bind_some]
    cases fs.isDir (joinPath home maildirName) <;> rfl

end Resolve

/-! ### Calls -/

section Calls

variable {o : Outcomes} {data : Json} {new : NewMailbox}

theorem Sound.filter (h : Sound users maildirName host) (q : List String → Bool) :
    Sound users maildirName (host.setPasswd (host.passwd.filter q)) :=
  ⟨h.entries, fun item mem => (h.settled item mem).filter q, h.once⟩

theorem sound_passwords (host : Host) (file : File MailboxPasswords.Records)
    (h : Sound users maildirName host) : Sound users maildirName (host.setPasswords file) :=
  h.congr rfl rfl

theorem sound_unregister (user : String) :
    Keeps (Sound users maildirName) (unregister users o user) := by
  intro host h
  refine wp_mono unregister_spec ?_ ?_
  · rintro _ t ⟨names, items, -, read, rfl⟩
    have kept : ∀ item ∈ items.filter (fun item => mailboxStr item "unixUser" ≠ user),
        item ∈ readMailboxes users host := fun item mem =>
      readMailboxes_of_ok read ▸ List.mem_of_mem_filter mem
    refine ⟨fun item mem => h.entries item (kept item mem),
      fun item mem => h.settled item (kept item mem), ?_⟩
    have once := h.once
    rw [readMailboxes_of_ok read] at once
    exact once.sublist (List.filter_sublist.map _)
  · rintro t (rfl | ⟨names, -, rfl⟩)
    · exact h
    · exact h.congr rfl rfl

/-- The request names its user like its address, and no account has that name in capitals. -/
structure Plain (users : Users) (host : Host) (new : NewMailbox) : Prop where
  localPart : ∃ domain, splitOnce '@' new.email = some (new.user, domain)
  spelled : ∀ fields ∈ host.passwd, ∀ name, fields.head? = some name →
    toAsciiLowercase name = new.user → name = new.user

/-- A state with the account of the request. -/
structure WithAccount (users : Users) (maildirName : String) (new : NewMailbox) (host : Host) :
    Prop extends Sound users maildirName host where
  account : Settled maildirName host.passwd new.user

theorem sound_create (asked : Asked users data new) (plain : Plain users host new)
    (own : OwnHome maildirName o host.passwd) (h : Sound users maildirName host) :
    wp (createAccount users o new.user (accountGroup host) (nologinShell users))
      (fun _ => WithAccount users maildirName new) (Sound users maildirName) host := by
  refine wp_mono createAccount_spec ?_ ?_
  · rintro _ t ⟨free, rfl⟩
    have noLine : host.passwd.filter (isLineOf new.user) = [] := by
      rw [List.filter_eq_nil_iff]
      rw [taken, List.any_eq_false] at free
      exact free
    have before : Settled maildirName host.passwd new.user := by
      refine ⟨plain.spelled, .inl noLine, fun fields mem line => ?_⟩
      exact absurd line (List.filter_eq_nil_iff.mp noLine fields mem)
    exact ⟨⟨h.entries, fun item mem => (h.settled item mem).append asked.isUser free own, h.once⟩,
      before.append asked.isUser free own⟩
  · rintro t rfl
    exact h

theorem sound_register (asked : Asked users data new)
    (localPart : ∃ domain, splitOnce '@' new.email = some (new.user, domain))
    (h : WithAccount users maildirName new host) :
    wp (register users o new) (fun _ =>
      Sound users maildirName) (Sound users maildirName) host := by
  refine wp_mono register_spec ?_ ?_
  · rintro _ t ⟨items, names, read, fresh, -, -, -, rfl⟩
    have before := readMailboxes_of_ok read
    obtain ⟨domain, parts⟩ := localPart
    refine ⟨fun item mem => ?_, fun item mem => ?_, ?_⟩
    · rcases List.mem_append.mp mem with old | last
      · exact h.entries item (before ▸ old)
      · rw [List.mem_singleton.mp last]
        exact ⟨new.email, new.user, new.displayName, domain, rfl, asked.isUser, asked.isAddress,
          asked.noUpper, parts⟩
    · rcases List.mem_append.mp mem with old | last
      · exact h.settled item (before ▸ old)
      · rw [List.mem_singleton.mp last]
        exact h.account
    · show ((items ++ [_]).map _).Nodup
      rw [List.map_append, List.map_singleton, mailboxStr_email]
      refine List.nodup_append.mpr ⟨before ▸ h.once, List.nodup_singleton _, ?_⟩
      rintro a mem b last rfl
      obtain rfl := List.mem_singleton.mp last
      obtain ⟨item, inItems, same⟩ := List.mem_map.mp mem
      rw [registered, List.any_eq_false] at fresh
      refine fresh item inItems (decide_eq_true ?_)
      rw [same, asked.toLowercase_email]
  · rintro t (⟨rfl, -⟩ | ⟨names, -, -, -, rfl⟩)
    · exact h.toSound
    · exact h.toSound.congr rfl rfl

theorem sound_add (plain : ∀ new, prepare users data host = .ok new → Plain users host new)
    (own : OwnHome maildirName o host.passwd) (h : Sound users maildirName host) :
    wp (add users o data) (fun _ => Sound users maildirName) (Sound users maildirName) host := by
  simp only [add, wp_bind, wp_get, wp_ofExcept]
  refine ⟨fun new prepared => ?_, fun _ _ => h⟩
  have asked := (prepare_ok prepared).1
  have rollback : Keeps (Sound users maildirName)
      (rollbackCreatedAccount users o new.user (some new.email)) :=
    keeps_rollback (keeps_drop sound_passwords) (keeps_remove fun _ q h => h.filter q) _ _
  refine wp_mono (sound_create asked (plain new prepared) own h) (fun _ t h => ?_) fun _ h => h
  have changed : wp (setPassword users o new.user new.password)
      (fun _ => WithAccount users maildirName new) (WithAccount users maildirName new) t :=
    keeps_setPassword new.user new.password t h
  refine wp_mono (wp_orRollback rollback changed fun t h => h.toSound) (fun _ t h => ?_) fun _ h => h
  have saved : wp (saveMailboxPassword users o new.email new.password)
      (fun _ => WithAccount users maildirName new) (WithAccount users maildirName new) t := by
    refine wp_mono saveMailboxPassword_spec ?_ ?_
    · rintro _ t ⟨record, file, -, rfl, -⟩
      exact ⟨h.toSound.congr rfl rfl, h.account⟩
    · rintro t rfl
      exact h
  refine wp_mono (wp_orRollback rollback saved fun t h => h.toSound) (fun _ t h => ?_) fun _ h => h
  exact wp_orRollback rollback (sound_register asked (plain new prepared).localPart h) fun _ => id

/-- Mailboxes are made with homes of their own. -/
def OwnHomes (maildirName : String) (host : Host) (call : Call) : Prop :=
  call.operation = .add → OwnHome maildirName call.outcomes host.passwd

/-- Mailboxes are made with plain names. -/
def PlainNames (users : Users) (host : Host) (call : Call) : Prop :=
  call.operation = .add → ∀ new, prepare users call.data host = .ok new → Plain users host new

theorem Sound.call {call : Call} (h : Sound users maildirName host)
    (own : OwnHomes maildirName host call) (plain : PlainNames users host call) :
    Sound users maildirName (finalState (call.handler users) host) := by
  apply finalState_of_wp
  have bump := @keeps_bump users call.outcomes (Sound users maildirName) fun _ _ h =>
    h.congr rfl rfl
  unfold Call.handler
  cases operation : call.operation with
  | add => exact sound_add (plain operation) (own operation) h
  | delete =>
    exact delete_keeps (keeps_remove fun _ q h => h.filter q) sound_unregister
      (keeps_drop sound_passwords) host h
  | status => exact status_keeps (fun _ _ h => h.congr rfl rfl) (fun _ user _ _ => bump user) host h
  | password =>
    exact password_keeps (Q := fun _ => True) (fun _ _ _ _ _ => trivial)
      (keeps_save sound_passwords)
      (fun identity previous _ => keeps_restore sound_passwords identity previous)
      (fun _ user _ _ => bump user) host h

end Calls

/-- What the delivery, the logins and the webmail find for an address is one Maildir, which all of
them find when the directories are there. -/
structure SameMaildir (users : Users) (maildirName : String) (fs : FileSystem) (host : Host)
    (email : String) : Prop where
  login : resolveMaildir fs maildirName host.passwd email = route fs maildirName host.passwd email
  webmail : ∀ root account, route fs maildirName host.passwd email = some root →
    (accountsOf users maildirName fs host).resolve email = some account → account.maildir = root
  found : (∀ path, fs.isDir path = true) → (∀ path, fs.opens path = true) →
    (bytes email).length ≤ maxEmailLen → route fs maildirName host.passwd email =
      ((accountsOf users maildirName fs host).resolve email).map (·.maildir)

theorem length_of_resolve {fs : FileSystem} {email : String} {account : Account}
    (normal : MailboxPasswords.key email = email)
    (found : (accountsOf users maildirName fs host).resolve email = some account) :
    (bytes email).length ≤ maxEmailLen := by
  have same : normalizeLogin email = email := normal
  by_contra long
  have long' : decide (maxEmailLen < (bytes email).length) = true :=
    decide_eq_true (Nat.lt_of_not_le long)
  simp [AccountDirectory.resolve, same, long'] at found

theorem Sound.sameMaildir {fs : FileSystem} {item : Json} (h : Sound users maildirName host)
    (mem : item ∈ readMailboxes users host) :
    SameMaildir users maildirName fs host (mailboxStr item "email") := by
  have delivered := @resolveMaildir_entry _ _ fs _ (h.entries item mem) (h.settled item mem)
  refine ⟨rfl, fun root account routed resolved => ?_, fun dirs stores short => ?_⟩
  · have short := length_of_resolve (h.entries item mem).facts.normal resolved
    have webmail := @resolve_entry _ _ _ fs _ h mem short
    rw [resolved, Option.map_some] at webmail
    rw [route, delivered] at routed
    obtain ⟨home, line, same⟩ := Option.bind_eq_some_iff.mp routed
    rw [line, Option.bind_some] at webmail
    split at same
    · cases same
      split at webmail
      · exact Option.some.inj webmail
      · cases webmail
    · cases same
  · rw [route, delivered, resolve_entry h mem short]
    simp [dirs, stores]

theorem Sound.apart {fs : FileSystem} {item item' : Json} (h : Sound users maildirName host)
    (mem : item ∈ readMailboxes users host) (mem' : item' ∈ readMailboxes users host)
    (others : mailboxStr item "unixUser" ≠ mailboxStr item' "unixUser") {root root' : String}
    (routed : route fs maildirName host.passwd (mailboxStr item "email") = some root)
    (routed' : route fs maildirName host.passwd (mailboxStr item' "email") = some root') :
    root ≠ root' := by
  rw [route, resolveMaildir_entry (h.entries item mem) (h.settled item mem)] at routed
  rw [route, resolveMaildir_entry (h.entries item' mem') (h.settled item' mem')] at routed'
  obtain ⟨home, line, same⟩ := Option.bind_eq_some_iff.mp routed
  obtain ⟨home', line', same'⟩ := Option.bind_eq_some_iff.mp routed'
  obtain ⟨fields, found, atFive⟩ := Option.bind_eq_some_iff.mp line
  obtain ⟨fields', found', atFive'⟩ := Option.bind_eq_some_iff.mp line'
  split at same
  · split at same'
    · cases same
      cases same'
      have isLine' := List.find?_some found'
      have noLine : isLineOf (mailboxStr item "unixUser") fields' = false := by
        rw [isLineOf, of_decide_eq_true isLine']
        simp [Ne.symm others]
      exact (h.settled item mem).own fields (List.mem_of_find?_eq_some found)
        (List.find?_some found) fields' (List.mem_of_find?_eq_some found') noLine home home' atFive
        atFive'
    · cases same'
  · cases same

/-- Where every mailbox is made for a user that is named like the address before its at sign, and
that no account has in other letters, each registered address has one Maildir, and addresses of
different users have different ones. -/
theorem one_mailbox (users : Users) (fs : FileSystem) (maildirName : String) (host : Host)
    (empty : readMailboxes users host = []) (calls : List Call) (host' : Host)
    (run : Runs (serveCall users)
      (fun host call => OwnHomes maildirName host call ∧ PlainNames users host call)
      host calls host') :
    (∀ item ∈ readMailboxes users host',
        SameMaildir users maildirName fs host' (mailboxStr item "email")) ∧
      ∀ item ∈ readMailboxes users host', ∀ item' ∈ readMailboxes users host',
        mailboxStr item "unixUser" ≠ mailboxStr item' "unixUser" → ∀ root root',
          route fs maildirName host'.passwd (mailboxStr item "email") = some root →
          route fs maildirName host'.passwd (mailboxStr item' "email") = some root' →
          root ≠ root' := by
  have start : Sound users maildirName host := by
    refine ⟨?_, ?_, ?_⟩ <;> rw [empty]
    · exact nofun
    · exact nofun
    · exact List.nodup_nil
  have sound : Sound users maildirName host' := by
    refine run.invariant start fun host call host' h ok served => ?_
    cases served
    exact h.call ok.1 ok.2
  exact ⟨fun item mem => sound.sameMaildir mem,
    fun item mem item' mem' others root root' => sound.apart mem mem' others⟩

/-! ### Runs on the fresh host -/

instance (home : String) : Decidable (GoodHome home) :=
  decidable_of_iff (home.toList.head? = some '/' ∧ trim home = home ∧ contains home '\x00' = false)
    ⟨fun h => ⟨h.1, h.2.1, h.2.2⟩, fun h => ⟨h.absolute, h.trimmed, h.noNul⟩⟩

instance (maildirName : String) (o : Outcomes) (passwd : Passwd) :
    Decidable (OwnHome maildirName o passwd) :=
  decidable_of_iff (GoodHome o.home ∧ ∀ fields ∈ passwd, ∀ home ∈ fields[5]?,
      joinPath home maildirName ≠ joinPath o.home maildirName)
    ⟨fun h => ⟨h.1, h.2⟩, fun h => ⟨h.good, h.apart⟩⟩

/-- A check that gives `PlainNames`. -/
def plainNames (users : Users) (host : Host) (call : Call) : Bool :=
  match prepare users call.data host with
  | .ok new => (splitOnce '@' new.email).any (·.1 = new.user) &&
      host.passwd.all fun fields => fields.head?.all fun name =>
        toAsciiLowercase name ≠ new.user || name = new.user
  | .error _ => true

theorem plainNames_sound {call : Call} (check : plainNames users host call = true) :
    PlainNames users host call := by
  intro _ new prepared
  simp only [plainNames, prepared, Bool.and_eq_true, Option.any_eq_true, decide_eq_true_eq,
    List.all_eq_true, Option.all_eq_true, Bool.or_eq_true, Prod.exists] at check
  obtain ⟨⟨localPart, domain, parts, rfl⟩, spelled⟩ := check
  refine ⟨⟨domain, parts⟩, fun fields mem name head lowered => ?_⟩
  exact (spelled fields mem name head).resolve_left fun other => other lowered

def addCall (email username home : String) : Call where
  operation := .add
  data := requestFor email username "Zx7Qm2Vt9Kp4"
  outcomes := smooth home

def allThere : FileSystem := ⟨fun _ => true, fun _ => true⟩

def someMailboxes : List Call :=
  [addCall "alice@example.com" "" "/home/alice", addCall "bob@example.org" "bob" "/home/robert"]

theorem one_mailbox_two : ∃ host' : Host, ∃ alice ∈ readMailboxes debian host',
    ∃ bob ∈ readMailboxes debian host',
      SameMaildir debian "Maildir" allThere host' (mailboxStr alice "email") ∧
      route allThere "Maildir" host'.passwd (mailboxStr alice "email") =
        some "/home/alice/Maildir" ∧
      route allThere "Maildir" host'.passwd (mailboxStr bob "email") =
        some "/home/robert/Maildir" := by
  have ran : (checkedExec (serveCall debian)
      (fun host call => decide (OwnHome "Maildir" call.outcomes host.passwd) &&
        plainNames debian host call) freshHost someMailboxes).any (fun host' =>
      (readMailboxes debian host').any (fun alice =>
        route allThere "Maildir" host'.passwd (mailboxStr alice "email") =
          some "/home/alice/Maildir") &&
      (readMailboxes debian host').any (fun bob =>
        route allThere "Maildir" host'.passwd (mailboxStr bob "email") =
          some "/home/robert/Maildir")) = true := by decide +kernel
  obtain ⟨host', reached, found⟩ := (Option.any_eq_true _ _).mp ran
  simp only [Bool.and_eq_true, List.any_eq_true, decide_eq_true_eq] at found
  obtain ⟨⟨alice, mem, routed⟩, bob, mem', routed'⟩ := found
  have same := one_mailbox debian allThere "Maildir" freshHost rfl someMailboxes host'
    (runs_of_checkedExec (fun host call check => by
      rw [Bool.and_eq_true, decide_eq_true_eq] at check
      exact ⟨fun _ => check.1, plainNames_sound check.2⟩) reached)
  exact ⟨host', alice, mem, bob, mem', same.1 alice mem, routed, routed'⟩

/-- The second mailbox has a user of its own, and an address whose part before the at sign is the
user of the first. -/
def sameLocalPart : List Call :=
  [addCall "alice@example.com" "" "/home/alice", addCall "alice@example.org" "carol" "/home/carol"]

/-- Mail for the second address goes to the Maildir of the first, the webmail shows its own. -/
theorem mail_in_other_maildir : ¬∀ (users : Users) (fs : FileSystem) (maildirName : String)
    (host : Host) (calls : List Call) (host' : Host), readMailboxes users host = [] →
      Runs (serveCall users) (OwnHomes maildirName) host calls host' →
      (∀ item ∈ readMailboxes users host',
          SameMaildir users maildirName fs host' (mailboxStr item "email")) ∧
        ∀ item ∈ readMailboxes users host', ∀ item' ∈ readMailboxes users host',
          mailboxStr item "unixUser" ≠ mailboxStr item' "unixUser" → ∀ root root',
            route fs maildirName host'.passwd (mailboxStr item "email") = some root →
            route fs maildirName host'.passwd (mailboxStr item' "email") = some root' →
            root ≠ root' := by
  intro claim
  have ran : (checkedExec (serveCall debian)
      (fun host call => decide (OwnHome "Maildir" call.outcomes host.passwd)) freshHost
      sameLocalPart).any (fun host' => (readMailboxes debian host').any fun item =>
        decide (route allThere "Maildir" host'.passwd (mailboxStr item "email") =
          some "/home/alice/Maildir") &&
        ((accountsOf debian "Maildir" allThere host').resolve (mailboxStr item "email")).any
          fun account => decide (account.maildir = "/home/carol/Maildir")) = true := by
    decide +kernel
  obtain ⟨host', reached, found⟩ := (Option.any_eq_true _ _).mp ran
  simp only [Bool.and_eq_true, List.any_eq_true, Option.any_eq_true, decide_eq_true_eq] at found
  obtain ⟨item, mem, routed, account, resolved, maildir⟩ := found
  have own : ∀ (host : Host) (call : Call),
      decide (OwnHome "Maildir" call.outcomes host.passwd) = true →
        OwnHomes "Maildir" host call := fun _ _ check _ => of_decide_eq_true check
  have same := (claim debian allThere "Maildir" freshHost _ host' rfl
    (runs_of_checkedExec own reached)).1 item mem
  have equal := same.webmail _ _ routed resolved
  rw [maildir] at equal
  exact absurd equal (by decide)

end MailStack.Priv
