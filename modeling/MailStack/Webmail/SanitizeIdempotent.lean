import MailStack.Webmail.SanitizeAgain

/-! The sanitizer on its own output: the texts and the tags are written again, with each attribute
where it is first, so that the output is the same unless a tag has two attributes of one name. -/

namespace MailStack.Webmail.Sanitize

open Lib

variable {options : SanitizeOptions} {o o' : Output} {m : Html.Markup} {name : String}

theorem firstAttributes_sublist (seen : List String) (attributes : List (String × String)) :
    (firstAttributes seen attributes).Sublist attributes := by
  induction attributes generalizing seen with
  | nil => exact List.Sublist.refl _
  | cons pair attributes ih =>
    obtain ⟨name, value⟩ := pair
    rw [firstAttributes]
    split
    · exact (ih seen).cons _
    · exact (ih _).cons_cons _

theorem firstAttributes_nodup (seen : List String) (attributes : List (String × String)) :
    ((firstAttributes seen attributes).map (·.1)).Nodup ∧
      ∀ pair ∈ firstAttributes seen attributes, pair.1 ∉ seen := by
  induction attributes generalizing seen with
  | nil => exact ⟨List.nodup_nil, List.forall_mem_nil _⟩
  | cons pair attributes ih =>
    obtain ⟨name, value⟩ := pair
    rw [firstAttributes]
    split
    · exact ih seen
    next passed =>
      obtain ⟨distinct, fresh⟩ := ih (name :: seen)
      obtain ⟨-, new⟩ : name ∈ allowedAttributes ∧ name ∉ seen := by simpa using passed
      refine ⟨List.nodup_cons.mpr ⟨fun mem => ?_, distinct⟩,
        List.forall_mem_cons.mpr ⟨new, fun pair mem old => ?_⟩⟩
      · obtain ⟨pair, mem, same⟩ := List.mem_map.mp mem
        exact fresh pair mem (same ▸ List.mem_cons_self)
      · exact fresh pair mem (List.mem_cons_of_mem _ old)

variable {attributes : List (String × String)}

theorem firstAttributes_eq {seen : List String}
    (known : ∀ pair ∈ attributes, pair.1 ∈ allowedAttributes ∧ pair.1 ∉ seen)
    (distinct : (attributes.map (·.1)).Nodup) : firstAttributes seen attributes = attributes := by
  induction attributes generalizing seen with
  | nil => rfl
  | cons pair attributes ih =>
    obtain ⟨name, value⟩ := pair
    obtain ⟨⟨allowed, new⟩, known⟩ := List.forall_mem_cons.mp known
    obtain ⟨fresh, distinct⟩ := List.nodup_cons.mp distinct
    rw [firstAttributes, if_neg (by simp [allowed, new]), ih ?_ distinct]
    intro pair mem
    refine ⟨(known pair mem).1, List.not_mem_cons_of_ne_of_not_mem ?_ (known pair mem).2⟩
    exact fun same => fresh (List.mem_map.mpr ⟨pair, mem, same⟩)

theorem firstAttributes_links (seen : List String) (attributes : List (String × String))
    (tag : String) :
    firstAttributes seen (attributes ++ linkPairs tag) = firstAttributes seen attributes := by
  induction attributes generalizing seen with
  | nil =>
    have others : ∀ name ∈ ["rel", "target"], allowedAttributes.contains name = false := by
      decide
    rw [List.nil_append, linkPairs]
    split
    · simp only [firstAttributes, others "rel" (by simp), others "target" (by simp), Bool.not_false,
        Bool.true_or, if_true]
    · rfl
  | cons pair attributes ih =>
    obtain ⟨name, value⟩ := pair
    rw [List.cons_append, firstAttributes, firstAttributes, ih, ih]

theorem sanitizeAttributesFrom_again {tag : String}
    (each : ∀ pair ∈ attributes, pair.1 ∈ allowedAttributes → ∃ blocked,
      attributeText options tag pair.1 (escapeAttribute pair.2) =
        some (written pair.1 (escapeAttribute pair.2), blocked)) (seen : List String) :
    ∃ text blocked,
      sanitizeAttributesFrom options tag seen (attributes.map escapedPair) = some (text, blocked) ∧
        text.toList = (firstAttributes seen attributes).flatMap Html.attributeText := by
  induction attributes generalizing seen with
  | nil => exact ⟨"", 0, rfl, rfl⟩
  | cons pair attributes ih =>
    obtain ⟨name, value⟩ := pair
    obtain ⟨here, each⟩ := List.forall_mem_cons.mp each
    rw [List.map_cons, escapedPair, sanitizeAttributesFrom, firstAttributes]
    by_cases passed : (!allowedAttributes.contains name || seen.contains name) = true
    · rw [if_pos passed, if_pos passed]
      exact ih each seen
    · rw [if_neg passed, if_neg passed]
      obtain ⟨allowed, -⟩ : name ∈ allowedAttributes ∧ name ∉ seen := by simpa using passed
      obtain ⟨blocked, first⟩ := here allowed
      obtain ⟨text, more, later, eq⟩ := ih each (name :: seen)
      refine ⟨written name (escapeAttribute value) ++ text, blocked + more, ?_, ?_⟩
      · rw [first, Option.bind_eq_bind, Option.bind_some, later]
        rfl
      · rw [String.toList_append, written_toList, eq]
        rfl

/-- A tag as it is written again. -/
def rewritten : Html.Tag → Html.Tag
  | .start name attributes => .start name (firstAttributes [] attributes ++ linkPairs name)
  | .stop name => .stop name

theorem Built.own
    (built : Built options (.start name attributes)) : ∃ own : List (String × String),
      attributes = own ++ linkPairs name ∧ (∀ pair ∈ own, pair.1 ∈ allowedAttributes) ∧
        own.length ≤ allowedAttributes.length ∧
        ((∀ key, options.cidUrls key = none) → ∀ pair ∈ own, ∃ blocked,
          attributeText options name pair.1 (escapeAttribute pair.2) =
            some (written pair.1 (escapeAttribute pair.2), blocked)) ∧
        (Distinct (.start name attributes) ↔ (own.map (·.1)).Nodup) := by
  obtain ⟨-, kept, rfl, each, distinct⟩ := built
  refine ⟨kept.map (·.2), rfl, fun pair mem => ?_, ?_, fun noCid pair mem => ?_, ?_⟩
  · obtain ⟨k, from_, rfl⟩ := List.mem_map.mp mem
    obtain ⟨known, kept⟩ := each k from_
    rcases kept.name with same | ⟨-, -, blocked⟩
    · exact same ▸ known
    · exact blocked ▸ (by decide)
  · have names : kept.map (·.1) ⊆ allowedAttributes := by
      intro name mem
      obtain ⟨k, from_, rfl⟩ := List.mem_map.mp mem
      exact (each k from_).1
    rw [List.length_map, ← @List.length_map _ _ kept (·.1)]
    exact List.Nodup.length_le_of_subset distinct names
  · obtain ⟨k, from_, rfl⟩ := List.mem_map.mp mem
    exact (each k from_).2.again noCid
  · rw [distinct_iff each, List.map_map]
    rfl

variable {tag : Html.Tag}

theorem Built.readable (built : Built options tag) : Readable tag := by
  refine ⟨?_, built.allowed.named, ?_⟩
  · cases tag with
    | start name attributes => exact built.1
    | stop name => exact built
  · cases tag with
    | start name attributes =>
      obtain ⟨own, rfl, -, few, -⟩ := built.own
      have two : (linkPairs name).length ≤ 2 := by
        unfold linkPairs
        split <;> decide
      have fourteen : allowedAttributes.length = 14 := by decide
      show (own ++ linkPairs name).length ≤ maxAttributesPerTag
      rw [List.length_append, maxAttributesPerTag]
      omega
    | stop name => exact trivial

theorem Built.rewritten_eq (built : Built options tag) :
    rewritten tag = tag ↔ Distinct tag := by
  cases tag with
  | stop name => exact iff_of_true rfl trivial
  | start name attributes =>
    obtain ⟨own, rfl, known, -, -, distinct⟩ := built.own
    rw [rewritten, firstAttributes_links, distinct]
    constructor
    · intro same
      have first := List.append_cancel_right (Html.Tag.start.inj same).2
      exact first ▸ (firstAttributes_nodup [] own).1
    · intro nodup
      rw [firstAttributes_eq (fun pair mem => ⟨known pair mem, List.not_mem_nil⟩) nodup]

theorem attributeText_size (pair : String × String) : 0 < size (Html.attributeText pair) := by
  have length := length_le_size (Html.attributeText pair)
  have one : 0 < (Html.attributeText pair).length := by simp [Html.attributeText]
  omega

theorem sublist_size {few all : List (String × String)} (sublist : few.Sublist all) :
    size (few.flatMap Html.attributeText) ≤ size (all.flatMap Html.attributeText) ∧
      (size (few.flatMap Html.attributeText) = size (all.flatMap Html.attributeText) →
        few = all) := by
  induction sublist with
  | slnil => exact ⟨Nat.le_refl _, fun _ => rfl⟩
  | @cons few all pair sublist ih =>
    have some_ := attributeText_size pair
    rw [List.flatMap_cons, size_append]
    exact ⟨by omega, fun same => by omega⟩
  | @cons_cons few all pair sublist ih =>
    rw [List.flatMap_cons, List.flatMap_cons, size_append, size_append]
    refine ⟨by omega, fun same => ?_⟩
    rw [ih.2 (by omega)]

theorem Built.rewritten_size (built : Built options tag) :
    size (rewritten tag).render ≤ size tag.render ∧
      (size (rewritten tag).render = size tag.render → rewritten tag = tag) := by
  cases tag with
  | stop name => exact ⟨Nat.le_refl _, fun _ => rfl⟩
  | start name attributes =>
    obtain ⟨own, rfl, -⟩ := built.own
    rw [rewritten, firstAttributes_links]
    obtain ⟨le, same⟩ := sublist_size (firstAttributes_sublist [] own)
    simp only [Html.Tag.render, List.flatMap_append, size_append]
    refine ⟨by omega, fun eq => ?_⟩
    rw [same (by omega)]

theorem start_again (noCid : ∀ key, options.cidUrls key = none)
    (built : Built options (.start name attributes))
    (room : len o.out + 64 < maxSanitizeOutputBytes) :
    ∃ o', o.start options (again (.start name attributes)) = some o' ∧
      o'.out.toList = o.out.toList ++ (rewritten (.start name attributes)).render ∧
      o'.opened = if voidTags.contains name then o.opened else name :: o.opened := by
  obtain ⟨own, rfl, -, -, same, -⟩ := built.own
  have others : ∀ name ∈ ["rel", "target"], name ∉ allowedAttributes := by decide
  have each : ∀ pair ∈ own ++ linkPairs name, pair.1 ∈ allowedAttributes → ∃ blocked,
      attributeText options name pair.1 (escapeAttribute pair.2) =
        some (written pair.1 (escapeAttribute pair.2), blocked) := by
    intro pair mem known
    rcases List.mem_append.mp mem with mem | mem
    · exact same noCid pair mem
    · rcases linkPairs_names mem with eq | eq
      · exact absurd known (eq ▸ others "rel" (by simp))
      · exact absurd known (eq ▸ others "target" (by simp))
  obtain ⟨text, blocked, sanitized, eq⟩ := sanitizeAttributesFrom_again each []
  have started : o.start options (again (.start name (own ++ linkPairs name))) = some
      (if voidTags.contains name then
        { o with
          out := o.out ++ "<" ++ name ++ (text ++ if name = "a" then linkAttributes else "") ++ ">"
          blocked := satAdd u32Max o.blocked blocked }
      else
        { out := o.out ++ "<" ++ name ++ (text ++ if name = "a" then linkAttributes else "") ++ ">"
          opened := name :: o.opened
          blocked := satAdd u32Max o.blocked blocked }) := by
    rw [Output.start, if_pos room]
    simp only [again, sanitizeAttributes, sanitized, Option.map_some]
    rfl
  refine ⟨_, started, ?_, ?_⟩
  · split
    all_goals
      simp only [String.toList_append, eq, linkPairs_text]
      simp [rewritten, Html.Tag.render]
  · split <;> rfl

theorem tag_end {tag : Tag} (ends : tag.isEnd = true) (closes : tag.name ∉ voidTags) :
    o.tag options tag = some (o.close tag.name, none) := by
  rw [Output.tag, if_pos ends, if_neg (by simpa using closes)]

theorem tag_start {tag : Tag} (begins : tag.isEnd = false) (known : tag.name ∈ allowedTags) :
    o.tag options tag = (o.start options tag).map (·, none) := by
  have kept : ∀ name ∈ allowedTags, name ∉ dropWithContentTags := by decide
  rw [Output.tag, if_neg (by simp [begins]), if_neg (by simpa using kept _ known),
    if_neg (by simpa using known)]

theorem close_again {opened : List String} (own : o.opened = name :: opened)
    (closes : name ∉ voidTags) : ∃ o', o.tag options (again (.stop name)) = some (o', none) ∧
      o'.out.toList = o.out.toList ++ (Html.Tag.stop name).render ∧ o'.opened = opened := by
  refine ⟨o.close name, ?_, ?_, ?_⟩
  · exact tag_end rfl closes
  · rw [Output.close, if_pos (by simp [own])]
    simp [own, closing, Html.Tag.render]
  · rw [Output.close, if_pos (by simp [own])]
    simp [own]

theorem emit_append {found more : List Piece} (done : o.emit options found = some o')
    (room : len o'.out < maxSanitizeOutputBytes) :
    o.emit options (found ++ more) = o'.emit options more := by
  induction found generalizing o with
  | nil =>
    cases done
    rfl
  | cons piece found ih =>
    rw [Output.emit] at done
    rw [List.cons_append, Output.emit]
    by_cases full : len o.out ≥ maxSanitizeOutputBytes
    · rw [if_pos full] at done
      cases done
      omega
    · rw [if_neg full] at done ⊢
      obtain ⟨o'', applied, done⟩ := Option.bind_eq_some_iff.mp done
      rw [applied, Option.bind_some]
      exact ih done

theorem emit_text {text : List Char} (settled : Settled text)
    (room : len o.out < maxSanitizeOutputBytes) :
    ∃ o', o.emit options (textPieces text) = some o' ∧ o'.out.toList = o.out.toList ++ text ∧
      o'.opened = o.opened := by
  cases text with
  | nil => exact ⟨o, rfl, by simp, rfl⟩
  | cons c text =>
    refine ⟨{ o with out := o.out ++ pushText (c :: text) }, ?_, ?_, rfl⟩
    · show (if len o.out ≥ maxSanitizeOutputBytes then some o else _) = _
      rw [if_neg (Nat.not_le.mpr room)]
      rfl
    · rw [String.toList_append, pushText, String.toList_ofList, pushTextFrom_settled settled]

theorem emit_tag (noCid : ∀ key, options.cidUrls key = none) {tag : Html.Tag}
    (built : Built options tag) {opened : List String}
    (nested : Html.nest voidTags.contains o.opened [tag] = some opened)
    (closes : ∀ name ∈ o.opened, name ∉ voidTags)
    (room : len o.out + 64 < maxSanitizeOutputBytes) :
    ∃ o', o.emit options [.tag (again tag)] = some o' ∧
      o'.out.toList = o.out.toList ++ (rewritten tag).render ∧ o'.opened = opened ∧
      ∀ name ∈ opened, name ∉ voidTags := by
  have single {o' : Output} (applied : o.apply options (.tag (again tag)) = some o') :
      o.emit options [.tag (again tag)] = some o' := by
    rw [Output.emit, if_neg (by omega), applied]
    rfl
  cases tag with
  | start name attributes =>
    obtain ⟨o', started, out, own⟩ := start_again noCid built room
    have applied : o.apply options (.tag (again (.start name attributes))) = some o' := by
      rw [Output.apply, tag_start rfl built.1, started]
      rfl
    have eq : (if voidTags.contains name then o.opened else name :: o.opened) = opened :=
      Option.some.inj nested
    refine ⟨o', single applied, out, own.trans eq, ?_⟩
    rw [← eq]
    split
    · exact closes
    next other => exact List.forall_mem_cons.mpr ⟨by simpa using other, closes⟩
  | stop name =>
    cases own : o.opened with
    | nil =>
      rw [own] at nested
      cases nested
    | cons innermost rest =>
      rw [own, Html.nest] at nested
      split at nested
      next same =>
        subst same
        obtain rfl : rest = opened := Option.some.inj nested
        have closes := List.forall_mem_cons.mp (own ▸ closes)
        obtain ⟨o', closed, out, left⟩ := @close_again options o name rest own closes.1
        refine ⟨o', single ?_, out, left, closes.2⟩
        rw [Output.apply, closed]
        rfl
      · cases nested

theorem emit_again (noCid : ∀ key, options.cidUrls key = none)
    {segments : List (List Char × Html.Tag)} {last : List Char}
    (texts : ∀ segment ∈ segments, Settled segment.1) (end_ : Settled last)
    (built : ∀ segment ∈ segments, Built options segment.2) {opened : List String}
    (nested : Html.nest voidTags.contains o.opened (segments.map (·.2)) = some opened)
    (closes : ∀ name ∈ o.opened, name ∉ voidTags)
    (room : len o.out + size (Html.Markup.render ⟨segments, last⟩) + 64 < maxSanitizeOutputBytes) :
    ∃ o', o.emit options (againPieces segments last) = some o' ∧
      o'.out.toList = o.out.toList ++
        Html.Markup.render ⟨segments.map fun s => (s.1, rewritten s.2), last⟩ ∧
      o'.opened = opened := by
  induction segments generalizing o with
  | nil =>
    obtain ⟨o', emitted, out, same⟩ := @emit_text options o last end_ (by omega)
    refine ⟨o', by simpa [againPieces] using emitted, by simpa [Html.Markup.render] using out, ?_⟩
    exact same.trans (Option.some.inj nested)
  | cons segment segments ih =>
    obtain ⟨before, tag⟩ := segment
    obtain ⟨beforeSettled, texts⟩ := List.forall_mem_cons.mp texts
    obtain ⟨tagBuilt, built⟩ := List.forall_mem_cons.mp built
    have size_render : size (Html.Markup.render ⟨(before, tag) :: segments, last⟩) =
        size before + size tag.render + size (Html.Markup.render ⟨segments, last⟩) := by
      simp only [Html.Markup.render, List.flatMap_cons, size_append]
      omega
    have smaller : size (rewritten tag).render ≤ size tag.render := tagBuilt.rewritten_size.1
    rw [List.map_cons, ← List.singleton_append, Html.nest_append] at nested
    obtain ⟨inner, first, nested⟩ := Option.bind_eq_some_iff.mp nested
    obtain ⟨o₁, wroteText, out₁, opened₁⟩ := @emit_text options o before beforeSettled (by omega)
    have len₁ : len o₁.out = len o.out + size before := by
      rw [len_eq, out₁, size_append, ← len_eq]
    obtain ⟨o₂, wroteTag, out₂, opened₂, closes₂⟩ := @emit_tag options o₁ noCid tag tagBuilt inner
      (opened₁ ▸ first) (opened₁ ▸ closes) (by omega)
    have len₂ : len o₂.out = len o₁.out + size (rewritten tag).render := by
      rw [len_eq, out₂, size_append, ← len_eq]
    obtain ⟨o', later, out, eq⟩ :=
      @ih o₂ texts built (opened₂ ▸ nested) (opened₂ ▸ closes₂) (by omega)
    refine ⟨o', ?_, ?_, eq⟩
    · have split : againPieces ((before, tag) :: segments) last =
          textPieces before ++ ([.tag (again tag)] ++ againPieces segments last) := by
        simp [againPieces]
      rw [split, emit_append wroteText (by omega), emit_append wroteTag (by omega)]
      exact later
    · rw [out, out₂, out₁]
      simp [Html.Markup.render]

theorem closed_of_room {opened : List String} {out : String}
    (short : ∀ name ∈ opened, len name ≤ 61)
    (room : size (out.toList ++ ((closed opened out).map Html.Tag.stop).flatMap Html.Tag.render) +
      64 <
      maxSanitizeOutputBytes) : closed opened out = opened := by
  induction opened generalizing out with
  | nil => rfl
  | cons name opened ih =>
    obtain ⟨here, short⟩ := List.forall_mem_cons.mp short
    rw [closed] at room ⊢
    by_cases fits : len out + len name + 3 < maxSanitizeOutputBytes
    · rw [if_pos fits] at room ⊢
      rw [ih short]
      simpa [closing, Html.Tag.render] using room
    · rw [size_append, ← len_eq] at room
      omega

namespace Finished

variable {input : String}

theorem room (finished : Finished options input o m)
    (small : len o.finish.html ≤ min maxSanitizeInputBytes maxHtmlBytes) :
    len o.out + 64 < maxSanitizeOutputBytes ∧ closed o.opened o.out = o.opened := by
  have limits : min maxSanitizeInputBytes maxHtmlBytes + 64 < maxSanitizeOutputBytes := by decide
  have all : size (o.out.toList ++ ((closed o.opened o.out).map Html.Tag.stop).flatMap
      Html.Tag.render) + 64 < maxSanitizeOutputBytes := by
    rw [← finish_eq, ← len_eq]
    omega
  have short : ∀ name ∈ allowedTags, len name ≤ 61 := by decide
  refine ⟨?_, closed_of_room (fun name mem => ?_) all⟩
  · rw [size_append, ← len_eq] at all
    omega
  · exact short name (finished.represents.opened name mem)

/-- All that is in the output is written again. -/
theorem sanitize_again (finished : Finished options input o m)
    (noCid : ∀ key, options.cidUrls key = none)
    (small : len o.finish.html ≤ min maxSanitizeInputBytes maxHtmlBytes) :
    ∃ outcome, sanitizeHtml o.finish.html options = some outcome ∧ outcome.html.toList =
      Html.Markup.render
        ⟨(markup o m).segments.map fun s => (s.1, rewritten s.2), (markup o m).last⟩ := by
  obtain ⟨room, all⟩ := finished.room small
  have limits : min maxSanitizeInputBytes maxHtmlBytes + 64 < maxSanitizeOutputBytes := by decide
  have nested : Html.nest voidTags.contains [] (markup o m).tags = some [] := by
    have whole := Output.whole_of_room finished.emitted room
    rw [tags_markup, Html.nest_append, finished.represents.nested whole, all, Option.bind_some]
    have stops := @Html.nest_stops voidTags.contains o.opened []
    rwa [List.append_nil] at stops
  have built : ∀ segment ∈ (markup o m).segments, Built options segment.2 :=
    fun segment mem => finished.built _ (List.mem_map_of_mem mem)
  have clean := finished.clean
  have read := pieces_render (fun segment mem => (clean.segments segment mem).1) clean.last
    fun segment mem => (built segment mem).readable
  have fits : size (Html.Markup.render ⟨(markup o m).segments, (markup o m).last⟩) ≤
      min maxSanitizeInputBytes maxHtmlBytes := by
    show size (markup o m).render ≤ _
    rw [← finished.html]
    exact small
  obtain ⟨o', emitted, out, opened⟩ := @emit_again options .initial noCid _ _ finished.settled.1
    finished.settled.2 built [] nested (List.forall_mem_nil _) (by
      rw [show len Output.initial.out = 0 from rfl]
      omega)
  refine ⟨o'.finish, ?_, ?_⟩
  · rw [sanitizeHtml_eq, finished.html, truncateOnCharBoundary_eq fits, read]
    exact congrArg (Option.map Output.finish) emitted
  · rw [finish_eq, opened, out]
    exact List.append_nil _

theorem rewritten_render {segments : List (List Char × Html.Tag)} (last : List Char)
    (built : ∀ segment ∈ segments, Built options segment.2) :
    size (Html.Markup.render ⟨segments.map fun s => (s.1, rewritten s.2), last⟩) ≤
        size (Html.Markup.render ⟨segments, last⟩) ∧
      (Html.Markup.render ⟨segments.map fun s => (s.1, rewritten s.2), last⟩ =
          Html.Markup.render ⟨segments, last⟩ ↔
        ∀ segment ∈ segments, rewritten segment.2 = segment.2) := by
  induction segments with
  | nil => exact ⟨Nat.le_refl _, iff_of_true rfl (List.forall_mem_nil _)⟩
  | cons segment segments ih =>
    obtain ⟨before, tag⟩ := segment
    obtain ⟨tagBuilt, built⟩ := List.forall_mem_cons.mp built
    obtain ⟨le, same⟩ := ih built
    obtain ⟨tagLe, tagSame⟩ : size (rewritten tag).render ≤ size tag.render ∧
        (size (rewritten tag).render = size tag.render → rewritten tag = tag) :=
      tagBuilt.rewritten_size
    have cons (tag : Html.Tag) (segments : List (List Char × Html.Tag)) :
        Html.Markup.render ⟨(before, tag) :: segments, last⟩ =
          before ++ tag.render ++ Html.Markup.render ⟨segments, last⟩ := by
      simp [Html.Markup.render]
    rw [List.map_cons, cons, cons, List.forall_mem_cons]
    refine ⟨by simp only [size_append]; omega, fun eq => ?_, ?_⟩
    · -- neither part is longer than before, so both are as long
      have sizes := congrArg size eq
      simp only [size_append] at sizes
      have here := tagSame (by omega)
      rw [here] at eq
      exact ⟨here, same.mp (List.append_cancel_left eq)⟩
    · rintro ⟨here, later⟩
      simp only at here
      rw [here, same.mpr later]

end Finished

/-- The html of an output is the html of what is made of it, unless an image has a source that is
blocked and a blocked source of its own. -/
theorem sanitizeHtml_again_iff (input : String) (options : SanitizeOptions)
    (outcome : SanitizeOutcome)
    (noCid : ∀ key, options.cidUrls key = none)
    (done : sanitizeHtml input options = some outcome)
    (fits : len input ≤ min maxSanitizeInputBytes maxHtmlBytes)
    (small : len outcome.html ≤ min maxSanitizeInputBytes maxHtmlBytes) :
    (∃ again, sanitizeHtml outcome.html options = some again ∧ again.html = outcome.html) ↔
      ∀ tag, .tag tag ∈ pieces none input.toList → ¬ tag.Doubled options := by
  obtain ⟨o, m, rfl, finished⟩ := Finished.of_sanitizeHtml done
  obtain ⟨again, twice, html⟩ := finished.sanitize_again noCid small
  have found : inputPieces input = pieces none input.toList := by
    rw [inputPieces, truncateOnCharBoundary_eq fits]
  have sameHtml : (∃ again, sanitizeHtml o.finish.html options = some again ∧
      again.html = o.finish.html) ↔ again.html.toList = o.finish.html.toList := by
    rw [twice, String.toList_inj]
    exact ⟨fun ⟨_, same, eq⟩ => Option.some.inj same ▸ eq, fun eq => ⟨again, rfl, eq⟩⟩
  have tags : (∀ segment ∈ (markup o m).segments, rewritten segment.2 = segment.2) ↔
      ∀ tag ∈ m.tags, Distinct tag := by
    have each : (∀ segment ∈ (markup o m).segments, rewritten segment.2 = segment.2) ↔
        ∀ tag ∈ (markup o m).tags, Distinct tag := by
      rw [Html.Markup.tags, List.forall_mem_map]
      exact forall₂_congr fun segment mem =>
        (finished.built _ (List.mem_map_of_mem mem)).rewritten_eq
    rw [each, Finished.tags_markup, List.forall_mem_append, List.forall_mem_map]
    exact and_iff_left fun _ _ => trivial
  have doubled := finished.represents.doubled (finished.room small).1
  rw [sameHtml, html, finished.html, (Finished.rewritten_render _ fun segment mem =>
    finished.built _ (List.mem_map_of_mem mem)).2, tags, ← found]
  rw [← not_iff_not]
  simp only [not_forall, exists_prop, not_not]
  rw [doubled]
  constructor
  · rintro ⟨piece, mem, twice⟩
    cases piece with
    | text text => exact absurd twice id
    | tag tag => exact ⟨tag, mem, twice⟩
  · rintro ⟨tag, mem, twice⟩
    exact ⟨_, mem, twice⟩

theorem sanitizeHtml_again_image :
    (∃ again, sanitizeHtml "<b>x &amp; <img data-blocked-src=\"http://e/x\"></b>" .default =
        some again ∧ again.html = "<b>x &amp; <img data-blocked-src=\"http://e/x\"></b>") ↔
      ∀ tag, .tag tag ∈ pieces none "<b>x & <img src=http://e/x>".toList →
        ¬ tag.Doubled .default :=
  sanitizeHtml_again_iff "<b>x & <img src=http://e/x>" .default
    { html := "<b>x &amp; <img data-blocked-src=\"http://e/x\"></b>"
      remoteImagesBlocked := 1 } (fun _ => rfl) (by decide +kernel) (by decide +kernel)
    (by decide +kernel)

/-- Both sources are written under one name, and only the first is found there. -/
theorem blocked_source_lost : ∃ outcome,
    sanitizeHtml "<img src=\"http://e/x\" data-blocked-src=\"y\">" .default = some outcome ∧
      ¬ ∃ again, sanitizeHtml outcome.html .default = some again ∧ again.html = outcome.html := by
  refine ⟨{ html := "<img data-blocked-src=\"http://e/x\" data-blocked-src=\"y\">"
            remoteImagesBlocked := 1 }, by decide +kernel, ?_⟩
  have twice : sanitizeHtml "<img data-blocked-src=\"http://e/x\" data-blocked-src=\"y\">"
      .default =
      some { html := "<img data-blocked-src=\"http://e/x\">"
             remoteImagesBlocked := 0 } := by decide +kernel
  rintro ⟨again, done, same⟩
  obtain rfl := Option.some.inj (twice.symm.trans done)
  exact absurd same (by decide)

end MailStack.Webmail.Sanitize
