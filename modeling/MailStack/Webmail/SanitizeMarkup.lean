import MailStack.Webmail.SanitizeTags

/-! The output of the sanitizer as HTML: the tags that are in it, and that a reader finds these and
no other markup. -/

namespace MailStack.Webmail.Sanitize

open Lib

variable {options : SanitizeOptions} {o o' : Output} {m : Html.Markup} {outcome : SanitizeOutcome}
  {tags : List Html.Tag}

/-- A start tag that is left out because there is no room, with an element that an end tag
closes. -/
def Output.LeavesOut (o : Output) : Piece → Prop
  | .text _ => False
  | .tag found => found.isEnd = false ∧ found.name ∈ allowedTags ∧ found.name ∉ voidTags ∧
    maxSanitizeOutputBytes ≤ len o.out + 64

/-- What a piece writes: a text and some tags. -/
structure Writes (options : SanitizeOptions) (piece : Piece) (o o' : Output) (text : List Char)
    (tags : List Html.Tag) : Prop where
  out : o'.out.toList = o.out.toList ++ text ++ tags.flatMap Html.Tag.render
  settled : Settled text
  built : (∀ name ∈ o.opened, name ∈ allowedTags) →
    (∀ tag ∈ tags, Built options tag) ∧ ∀ name ∈ o'.opened, name ∈ allowedTags
  nested : ¬ o.LeavesOut piece → Html.nest voidTags.contains o.opened tags = some o'.opened
  doubled : len o.out + 64 < maxSanitizeOutputBytes →
    ((∃ tag ∈ tags, ¬ Distinct tag) ↔ piece.Doubled options)

namespace Writes

variable {piece : Piece}

theorem untagged {text : List Char} (settled : Settled text) (single : ¬ piece.Doubled options)
    (out : o'.out.toList = o.out.toList ++ text) (opened : o'.opened = o.opened) :
    Writes options piece o o' text [] := by
  refine ⟨by simpa using out, settled, fun known => ⟨?_, opened ▸ known⟩, fun _ => opened ▸ rfl,
    fun _ => iff_of_false ?_ single⟩
  · exact List.forall_mem_nil _
  · rintro ⟨tag, mem, -⟩
    cases mem

theorem same (o : Output) (single : ¬ piece.Doubled options) : Writes options piece o o [] [] :=
  untagged .nil single (by simp) rfl

theorem text (o : Output) (text : List Char) :
    Writes options (.text text) o
      { o with out := o.out ++ pushText text } (pushText text).toList [] :=
  untagged (pushText_settled text) id (by simp) rfl

theorem close (o : Output) (name : String) (single : ¬ piece.Doubled options) :
    ∃ tags, Writes options piece o (o.close name) [] tags := by
  obtain ⟨names, split, out⟩ := close_eq o name
  refine ⟨names.map Html.Tag.stop, by simpa using out, .nil, fun known => ?_, fun _ => ?_,
    fun _ => iff_of_false ?_ single⟩
  · rw [split] at known
    obtain ⟨inner, outer⟩ := List.forall_mem_append.mp known
    refine ⟨fun tag mem => ?_, outer⟩
    obtain ⟨name, from_, rfl⟩ := List.mem_map.mp mem
    exact inner name from_
  · rw [split]
    exact Html.nest_stops names _
  · rintro ⟨tag, mem, twice⟩
    obtain ⟨name, -, rfl⟩ := List.mem_map.mp mem
    exact twice trivial

theorem start {tag : Tag} (begins : tag.isEnd = false) (known : tag.name ∈ allowedTags)
    (done : o.start options tag = some o') : ∃ tags, Writes options (.tag tag) o o' [] tags := by
  obtain ⟨opened, written⟩ := start_eq done
  have stillKnown : (∀ name ∈ o.opened, name ∈ allowedTags) → ∀ name ∈ o'.opened,
      name ∈ allowedTags := by
    intro all
    rw [opened]
    split
    · exact all
    · exact List.forall_mem_cons.mpr ⟨known, all⟩
  by_cases room : len o.out + 64 < maxSanitizeOutputBytes
  · rw [if_pos room] at written
    obtain ⟨kept, out, all⟩ := written
    have each : ∀ k ∈ kept, k.1 ∈ allowedAttributes ∧ Kept options tag.name k.1 k.2 :=
      fun k mem => ⟨(all.each k mem).1, (all.each k mem).2.2⟩
    refine ⟨[.start tag.name (kept.map (·.2) ++ linkPairs tag.name)], by simpa using out, .nil,
      fun known => ⟨?_, stillKnown known⟩, fun _ => ?_, fun _ => ?_⟩
    · exact List.forall_mem_singleton.mpr ⟨‹_›, kept, rfl, each, all.distinct⟩
    · rw [opened]
      rfl
    · simp only [List.mem_singleton, exists_eq_left]
      rw [distinct_iff each, all.distinct_iff begins, not_not]
      rfl
  · rw [if_neg room] at written
    refine ⟨[], by simp [written], .nil, fun all => ⟨?_, stillKnown all⟩, fun fits => ?_,
      fun here => absurd here room⟩
    · exact List.forall_mem_nil _
    · -- only a void element may be left out, and nothing is open for it
      have void : tag.name ∈ voidTags := by
        by_contra other
        exact fits ⟨begins, known, other, Nat.le_of_not_lt room⟩
      rw [opened, if_pos (List.contains_iff_mem.mpr void)]
      rfl

end Writes

theorem tag_writes {tag : Tag} {skip : Option SkipState}
    (done : o.tag options tag = some (o', skip)) :
    ∃ tags, Writes options (.tag tag) o o' [] tags := by
  unfold Output.tag at done
  by_cases ends : tag.isEnd = true
  · have single : ¬ Piece.Doubled options (.tag tag) := fun doubled => by
      rw [doubled.1] at ends
      cases ends
    rw [if_pos ends] at done
    split at done
    · cases done
      exact ⟨[], .same o single⟩
    · cases done
      exact Writes.close o tag.name single
  rw [if_neg ends] at done
  have begins : tag.isEnd = false := by simpa using ends
  by_cases drops : dropWithContentTags.contains tag.name = true
  · have single : ¬ Piece.Doubled options (.tag tag) := fun doubled => by
      rw [doubled.2.1] at drops
      exact absurd drops (by decide)
    rw [if_pos drops] at done
    split at done
    all_goals
      cases done
      exact ⟨[], .same o single⟩
  rw [if_neg drops] at done
  by_cases known : tag.name ∈ allowedTags
  · rw [if_neg (by simpa using known)] at done
    obtain ⟨o'', started, eq⟩ := Option.map_eq_some_iff.mp done
    cases eq
    exact Writes.start begins known started
  · have single : ¬ Piece.Doubled options (.tag tag) := fun doubled => by
      rw [doubled.2.1] at known
      exact known (by decide)
    rw [if_pos (by simpa using known)] at done
    cases done
    exact ⟨[], .same o single⟩

theorem apply_writes {piece : Piece} (done : o.apply options piece = some o') :
    ∃ text tags, Writes options piece o o' text tags := by
  cases piece with
  | text text =>
    cases done
    exact ⟨_, _, .text o text⟩
  | tag tag =>
    obtain ⟨⟨o'', skip⟩, written, rfl⟩ := Option.map_eq_some_iff.mp done
    exact ⟨[], tag_writes written⟩

def Output.initial : Output :=
  { out := ""
    opened := []
    blocked := 0 }

/-- Nothing is left out of what is written of the pieces. -/
def Output.Whole (options : SanitizeOptions) : Output → List Piece → Prop
  | _, [] => True
  | o, piece :: rest => len o.out < maxSanitizeOutputBytes → ¬ o.LeavesOut piece ∧
    ∀ o', o.apply options piece = some o' → o'.Whole options rest

theorem Writes.longer {piece : Piece} {text : List Char} {tags : List Html.Tag}
    (writes : Writes options piece o o' text tags) : len o.out ≤ len o'.out := by
  rw [len_eq, len_eq, writes.out, size_append, size_append]
  omega

theorem Output.emit_longer {found : List Piece} (done : o.emit options found = some o') :
    len o.out ≤ len o'.out := by
  induction found generalizing o with
  | nil =>
    cases done
    exact Nat.le_refl _
  | cons piece found ih =>
    rw [Output.emit] at done
    split at done
    · cases done
      exact Nat.le_refl _
    · obtain ⟨o'', applied, done⟩ := Option.bind_eq_some_iff.mp done
      obtain ⟨text, tags, written⟩ := apply_writes applied
      exact written.longer.trans (ih done)

theorem Output.whole_of_room {found : List Piece} (done : o.emit options found = some o')
    (room : len o'.out + 64 < maxSanitizeOutputBytes) : o.Whole options found := by
  induction found generalizing o with
  | nil => exact trivial
  | cons piece found ih =>
    have longer := emit_longer done
    rw [Output.emit, if_neg (by omega)] at done
    obtain ⟨o'', applied, done⟩ := Option.bind_eq_some_iff.mp done
    refine fun _ => ⟨fun leftOut => ?_, fun o₂ same => ?_⟩
    · cases piece with
      | text text => exact leftOut
      | tag tag =>
        have none := leftOut.2.2.2
        omega
    · obtain rfl := Option.some.inj (applied.symm.trans same)
      exact ih done

/-- The output is the text of these tags and the texts between them. `found` is what has been
written, and `whole` says that nothing of it has been left out. -/
structure Represents (options : SanitizeOptions) (found : List Piece) (whole : Prop) (o : Output)
    (m : Html.Markup) : Prop where
  out : o.out.toList = m.render
  texts : ∀ segment ∈ m.segments, Settled segment.1
  last : Settled m.last
  built : ∀ tag ∈ m.tags, Built options tag
  opened : ∀ name ∈ o.opened, name ∈ allowedTags
  nested : whole → Html.nest voidTags.contains [] m.tags = some o.opened
  doubled : len o.out + 64 < maxSanitizeOutputBytes →
    ((∃ tag ∈ m.tags, ¬ Distinct tag) ↔ ∃ piece ∈ found, piece.Doubled options)

namespace Represents

variable {found : List Piece} {whole : Prop}

def addTags (m : Html.Markup) (tags : List Html.Tag) : Html.Markup :=
  tags.foldl Html.Markup.addTag m

theorem addTags_eq (m : Html.Markup) (tags : List Html.Tag) :
    (addTags m tags).render = m.render ++ tags.flatMap Html.Tag.render ∧
      (addTags m tags).tags = m.tags ++ tags := by
  induction tags generalizing m with
  | nil => simp [addTags]
  | cons tag tags ih =>
    obtain ⟨render, all⟩ := ih (m.addTag tag)
    refine ⟨render.trans ?_, all.trans ?_⟩
    · simp
    · simp

theorem addTags_settled (texts : ∀ segment ∈ m.segments, Settled segment.1)
    (last : Settled m.last) : (∀ segment ∈ (addTags m tags).segments, Settled segment.1) ∧
      Settled (addTags m tags).last := by
  induction tags generalizing m with
  | nil => exact ⟨texts, last⟩
  | cons tag tags ih =>
    refine ih (List.forall_mem_append.mpr ⟨texts, ?_⟩) .nil
    exact List.forall_mem_singleton.mpr last

theorem initial : Represents options [] True .initial .empty := by
  refine ⟨rfl, List.forall_mem_nil _, .nil,
    List.forall_mem_nil _, List.forall_mem_nil _, fun _ => rfl,
    fun _ => iff_of_false ?_ ?_⟩
  · exact fun ⟨_, mem, _⟩ => List.not_mem_nil mem
  · exact fun ⟨_, mem, _⟩ => List.not_mem_nil mem

theorem writes {piece : Piece} {text : List Char}
    (represents : Represents options found whole o m)
    (writes : Writes options piece o o' text tags) :
    Represents options (found ++ [piece]) (whole ∧ ¬ o.LeavesOut piece) o'
      (addTags (m.addText text) tags) := by
  obtain ⟨built, opened⟩ := writes.built represents.opened
  obtain ⟨render, all⟩ := addTags_eq (m.addText text) tags
  rw [Html.Markup.tags_addText] at all
  obtain ⟨texts, last⟩ := @addTags_settled (m.addText text) tags represents.texts
    (represents.last.append writes.settled)
  constructor
  case out => rw [writes.out, render, represents.out, Html.Markup.render_addText]
  case texts => exact texts
  case last => exact last
  case built => exact all ▸ List.forall_mem_append.mpr ⟨represents.built, built⟩
  case opened => exact opened
  case nested =>
    rintro ⟨before, here⟩
    rw [all, Html.nest_append, represents.nested before]
    exact writes.nested here
  case doubled =>
    intro room
    have earlier : len o.out + 64 < maxSanitizeOutputBytes := by
      have longer := writes.longer
      omega
    rw [all]
    simp only [List.mem_append, List.mem_singleton, or_and_right, exists_or, exists_eq_left]
    exact or_congr (represents.doubled earlier) (writes.doubled earlier)

theorem emit {pieces : List Piece} (represents : Represents options found whole o m)
    (done : o.emit options pieces = some o') :
    ∃ m', Represents options (found ++ pieces) (whole ∧ o.Whole options pieces) o' m' := by
  induction pieces generalizing o m found whole with
  | nil =>
    cases done
    rw [List.append_nil]
    exact ⟨m, { represents with nested := fun all => represents.nested all.1 }⟩
  | cons piece pieces ih =>
    rw [Output.emit] at done
    by_cases full : len o.out ≥ maxSanitizeOutputBytes
    · rw [if_pos full] at done
      cases done
      exact ⟨m, { represents with
        nested := fun all => represents.nested all.1
        doubled := fun room => absurd full (by omega) }⟩
    · rw [if_neg full] at done
      obtain ⟨o'', applied, done⟩ := Option.bind_eq_some_iff.mp done
      obtain ⟨text, tags, written⟩ := apply_writes applied
      obtain ⟨m', all⟩ := ih (represents.writes written) done
      rw [List.append_assoc] at all
      refine ⟨m', { all with nested := fun both => ?_ }⟩
      obtain ⟨before, later⟩ := both
      obtain ⟨here, later⟩ := later (Nat.lt_of_not_le full)
      exact all.nested ⟨⟨before, here⟩, later o'' applied⟩

end Represents

/-- The end tags that are written at the end. -/
def closed (opened : List String) (out : String) : List String :=
  match opened with
  | [] => []
  | name :: rest =>
    if len out + len name + 3 < maxSanitizeOutputBytes then name :: closed rest (out ++ closing name)
    else closed rest out

theorem finish_eq (o : Output) : o.finish.html.toList = o.out.toList ++
    ((closed o.opened o.out).map Html.Tag.stop).flatMap Html.Tag.render := by
  obtain ⟨out, opened, blocked⟩ := o
  unfold Output.finish
  simp only
  induction opened generalizing out with
  | nil => simp [closed]
  | cons name rest ih =>
    rw [List.foldl_cons, ih, closed]
    split
    · simp [closing, Html.Tag.render]
    · rfl

theorem closed_subset {opened : List String} {out : String} : closed opened out ⊆ opened := by
  induction opened generalizing out with
  | nil => exact List.Subset.refl _
  | cons name rest ih =>
    rw [closed]
    split
    · exact List.cons_subset_cons name ih
    · exact List.subset_cons_of_subset name ih

/-- The tags of an output with the end tags that the elements that are open get. -/
def markup (o : Output) (m : Html.Markup) : Html.Markup :=
  Represents.addTags m ((closed o.opened o.out).map Html.Tag.stop)

/-- The pieces that the loop finds in an input. -/
def inputPieces (input : String) : List Piece :=
  pieces none (truncateOnCharBoundary (min maxSanitizeInputBytes maxHtmlBytes) input.toList)

def Whole (options : SanitizeOptions) (input : String) : Prop :=
  Output.initial.Whole options (inputPieces input)

/-- The loop has ended with this output, and what is returned for it is the text of these tags. -/
structure Finished (options : SanitizeOptions) (input : String) (o : Output) (m : Html.Markup) :
    Prop where
  emitted : Output.initial.emit options (inputPieces input) = some o
  represents : Represents options (inputPieces input) (Whole options input) o m
  html : o.finish.html.toList = (markup o m).render

namespace Finished

variable {input : String}

theorem of_sanitizeHtml
    (done : sanitizeHtml input options = some outcome) :
    ∃ o m, outcome = o.finish ∧ Finished options input o m := by
  rw [sanitizeHtml_eq] at done
  obtain ⟨o, emitted, rfl⟩ := Option.map_eq_some_iff.mp done
  obtain ⟨m, represents⟩ := Represents.initial.emit emitted
  refine ⟨o, m, rfl, emitted,
    { represents with nested := fun all => represents.nested ⟨trivial, all⟩ }, ?_⟩
  rw [finish_eq, represents.out, markup, (Represents.addTags_eq _ _).1]

theorem tags_markup : (markup o m).tags = m.tags ++ (closed o.opened o.out).map Html.Tag.stop :=
  (Represents.addTags_eq _ _).2

section

variable (finished : Finished options input o m)

include finished

theorem built :
    ∀ tag ∈ (markup o m).tags, Built options tag := by
  rw [tags_markup]
  refine List.forall_mem_append.mpr ⟨finished.represents.built, fun tag mem => ?_⟩
  obtain ⟨name, from_, rfl⟩ := List.mem_map.mp mem
  exact finished.represents.opened name (closed_subset from_)

theorem settled :
    (∀ segment ∈ (markup o m).segments, Settled segment.1) ∧ Settled (markup o m).last :=
  Represents.addTags_settled finished.represents.texts finished.represents.last

theorem clean : (markup o m).Clean := by
  refine ⟨fun segment mem => ⟨(finished.settled.1 segment mem).no_tag, ?_⟩,
    finished.settled.2.no_tag⟩
  exact (finished.built _ (List.mem_map_of_mem mem)).allowed.named

theorem read :
    Html.read o.finish.html.toList = some (markup o m).tokens :=
  finished.html ▸ Html.read_render finished.clean

end

end Finished

theorem whole_of_short {input : String}
    (done : sanitizeHtml input options = some outcome)
    (short : len outcome.html + 64 < maxSanitizeOutputBytes) : Whole options input := by
  obtain ⟨o, m, rfl, finished⟩ := Finished.of_sanitizeHtml done
  rw [len_eq, finish_eq, size_append, ← len_eq] at short
  exact Output.whole_of_room finished.emitted (by omega)

/-- A reader finds only tags that may be in the output, and no other markup. -/
theorem output_allowed (input : String) (options : SanitizeOptions) (outcome : SanitizeOutcome)
    (done : sanitizeHtml input options = some outcome) :
    ∃ tokens, Html.read outcome.html.toList = some tokens ∧
      ∀ tag, .tag tag ∈ tokens → Allowed options tag := by
  obtain ⟨o, m, rfl, finished⟩ := Finished.of_sanitizeHtml done
  refine ⟨_, finished.read, fun tag mem => ?_⟩
  exact (finished.built tag (Html.Markup.mem_tokens.mp mem)).allowed

theorem output_allowed_script : ∃ tokens,
    Html.read "<b>x &lt; <a rel=\"noopener noreferrer nofollow\" target=\"_blank\"></a></b>".toList =
        some tokens ∧
      ∀ tag, .tag tag ∈ tokens → Allowed .default tag :=
  output_allowed "<script>y</script><b onclick=y>x < <a href='javascript:y'>" .default
    { html := "<b>x &lt; <a rel=\"noopener noreferrer nofollow\" target=\"_blank\"></a></b>"
      remoteImagesBlocked := 0 } (by decide +kernel)

end MailStack.Webmail.Sanitize
