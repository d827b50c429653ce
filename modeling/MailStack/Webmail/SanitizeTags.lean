import MailStack.Webmail.SanitizePieces
import MailStack.Webmail.SanitizeTexts
import MailStack.Webmail.SanitizeValues
import Mathlib.Data.List.Nodup

/-! The tags that the sanitizer writes: what is kept of the attributes, what may be in the output,
and when two attributes of a tag have one name. -/

namespace MailStack.Webmail.Sanitize

open Lib

variable {options : SanitizeOptions} {o o' : Output} {m : Html.Markup}
  {kept : List (String × String × String)} {tag name : String} {blocked : Nat}

structure AllowedAttribute (options : SanitizeOptions) (tag : String) (pair : String × String) :
    Prop where
  name : pair.1 ∈ allowedAttributes ∨ pair.1 = "rel" ∨ pair.1 = "target"
  link : pair.1 = "href" → IsHttpUrl pair.2 ∨ StartsWith "mailto:" pair.2
  image : tag = "img" → pair.1 = "src" →
    (∃ key, options.cidUrls key = some pair.2) ∨
      (options.allowRemoteImages = true ∧ IsHttpUrl pair.2)

/-- The tags that may be in the output. -/
def Allowed (options : SanitizeOptions) : Html.Tag → Prop
  | .start name attributes =>
    name ∈ allowedTags ∧ ∀ pair ∈ attributes, AllowedAttribute options name pair
  | .stop name => name ∈ allowedTags

theorem allowedTags_named : ∀ name ∈ allowedTags, Html.isName name = true := by decide

theorem allowedAttributes_named : ∀ name ∈ allowedAttributes ++ ["rel", "target"],
    Html.isName name = true := by
  decide

theorem Allowed.named {tag : Html.Tag} (allowed : Allowed options tag) : tag.named = true := by
  cases tag with
  | start name attributes =>
    obtain ⟨known, each⟩ := allowed
    refine Bool.and_eq_true_iff.mpr ⟨allowedTags_named name known, List.all_eq_true.mpr ?_⟩
    intro pair mem
    refine allowedAttributes_named pair.1 ?_
    rw [List.mem_append]
    exact (each pair mem).name.imp_right fun h => by
      rcases h with h | h <;> simp [h]
  | stop name => exact allowedTags_named name allowed

/-- The attributes that are looked at: those of the allowlist, each where it is first. -/
@[grind =] def firstAttributes : List String → List (String × String) → List (String × String)
  | _, [] => []
  | seen, (name, rawValue) :: rest =>
    if !allowedAttributes.contains name || seen.contains name then firstAttributes seen rest
    else (name, rawValue) :: firstAttributes (name :: seen) rest

/-- What is kept of attributes: for each one the name it had and what is written. -/
structure KeptFrom (options : SanitizeOptions) (tag : String) (seen : List String)
    (attributes : List (String × String)) (kept : List (String × String × String)) : Prop where
  each : ∀ k ∈ kept, k.1 ∈ allowedAttributes ∧ k.1 ∉ seen ∧ Kept options tag k.1 k.2
  distinct : (kept.map (·.1)).Nodup
  sound : ∀ k ∈ kept, ∃ rawValue blocked, (k.1, rawValue) ∈ firstAttributes seen attributes ∧
    attributeText options tag k.1 rawValue = some (written k.2.1 (escapeAttribute k.2.2), blocked)
  complete : ∀ p ∈ firstAttributes seen attributes, ∃ text blocked,
    attributeText options tag p.1 p.2 = some (text, blocked) ∧
      (text = "" ∨ ∃ k ∈ kept, k.1 = p.1 ∧ text = written k.2.1 (escapeAttribute k.2.2))

theorem sanitizeAttributesFrom_kept {tag text : String} {seen : List String}
    {attributes : List (String × String)}
    (done : sanitizeAttributesFrom options tag seen attributes = some (text, blocked)) :
    ∃ kept, KeptFrom options tag seen attributes kept ∧
      text.toList = (kept.map (·.2)).flatMap Html.attributeText := by
  induction attributes generalizing seen text blocked with
  | nil =>
    cases done
    exact ⟨[], ⟨List.forall_mem_nil _, List.nodup_nil,
      List.forall_mem_nil _, List.forall_mem_nil _⟩, rfl⟩
  | cons pair attributes ih =>
    obtain ⟨name, rawValue⟩ := pair
    rw [sanitizeAttributesFrom] at done
    by_cases passed : (!allowedAttributes.contains name || seen.contains name) = true
    · rw [if_pos passed] at done
      obtain ⟨kept, from_, text⟩ := ih done
      have same : firstAttributes seen ((name, rawValue) :: attributes) =
          firstAttributes seen attributes := by
        rw [firstAttributes, if_pos passed]
      exact ⟨kept, ⟨from_.each, from_.distinct, same ▸ from_.sound, same ▸ from_.complete⟩, text⟩
    · rw [if_neg passed] at done
      have firsts : firstAttributes seen ((name, rawValue) :: attributes) =
          (name, rawValue) :: firstAttributes (name :: seen) attributes := by
        rw [firstAttributes, if_neg passed]
      obtain ⟨known, fresh⟩ : name ∈ allowedAttributes ∧ name ∉ seen := by simpa using passed
      obtain ⟨⟨first, here⟩, firstDone, done⟩ := Option.bind_eq_some_iff.mp done
      obtain ⟨⟨texts, more⟩, later, done⟩ := Option.bind_eq_some_iff.mp done
      obtain ⟨rfl, -⟩ := Prod.mk.inj (Option.some.inj done)
      obtain ⟨kept, from_, written⟩ := ih later
      have each : ∀ k ∈ kept, k.1 ∈ allowedAttributes ∧ k.1 ∉ seen ∧ Kept options tag k.1 k.2 :=
        fun k mem => ⟨(from_.each k mem).1,
          fun old => (from_.each k mem).2.1 (List.mem_cons_of_mem _ old), (from_.each k mem).2.2⟩
      have sound : ∀ k ∈ kept, ∃ raw blocked,
          (k.1, raw) ∈ firstAttributes seen ((name, rawValue) :: attributes) ∧
            attributeText options tag k.1 raw =
              some (Sanitize.written k.2.1 (escapeAttribute k.2.2), blocked) := by
        intro k mem
        obtain ⟨raw, count, inFirsts, text⟩ := from_.sound k mem
        exact ⟨raw, count, firsts ▸ List.mem_cons_of_mem _ inFirsts, text⟩
      rcases attributeText_kept firstDone with nothing | ⟨pair, text, keeps⟩
      · refine ⟨kept, ⟨each, from_.distinct, sound, ?_⟩, ?_⟩
        · rw [firsts]
          exact List.forall_mem_cons.mpr ⟨⟨first, here, firstDone, .inl nothing⟩, from_.complete⟩
        · rw [nothing, ← written]
          simp
      · have fresh' : name ∉ kept.map (·.1) := by
          intro mem
          obtain ⟨k, mem, same⟩ := List.mem_map.mp mem
          exact (from_.each k mem).2.1 (same ▸ List.mem_cons_self)
        refine ⟨(name, pair) :: kept, ⟨List.forall_mem_cons.mpr ⟨⟨known, fresh, keeps⟩, each⟩,
          List.nodup_cons.mpr ⟨fresh', from_.distinct⟩, List.forall_mem_cons.mpr ⟨?_, sound⟩, ?_⟩, ?_⟩
        · exact ⟨rawValue, here, firsts ▸ List.mem_cons_self, text ▸ firstDone⟩
        · rw [firsts]
          refine List.forall_mem_cons.mpr ⟨⟨first, here, firstDone, .inr ?_⟩, fun p mem => ?_⟩
          · exact ⟨(name, pair), List.mem_cons_self, rfl, text⟩
          · obtain ⟨text, count, done, found⟩ := from_.complete p mem
            refine ⟨text, count, done, found.imp_right ?_⟩
            rintro ⟨k, mem, same⟩
            exact ⟨k, List.mem_cons_of_mem _ mem, same⟩
        · rw [String.toList_append, written, text, written_toList]
          rfl

def linkPairs (tag : String) : List (String × String) :=
  if tag = "a" then [("rel", "noopener noreferrer nofollow"), ("target", "_blank")] else []

theorem linkPairs_text (tag : String) :
    (if tag = "a" then linkAttributes else "").toList =
      (linkPairs tag).flatMap Html.attributeText := by
  unfold linkPairs
  split <;> decide

variable {pair : String × String}

theorem Kept.allowed (kept : Kept options tag name pair)
    (known : name ∈ allowedAttributes) : AllowedAttribute options tag pair := by
  refine ⟨.inl ?_, kept.link, kept.image⟩
  rcases kept.name with same | ⟨-, -, blocked⟩
  · exact same ▸ known
  · rw [blocked]
    decide

theorem linkPairs_names {tag : String} (mem : pair ∈ linkPairs tag) :
    pair.1 = "rel" ∨ pair.1 = "target" := by
  unfold linkPairs at mem
  split at mem
  · simp only [List.mem_cons, List.not_mem_nil, or_false] at mem
    exact mem.imp (congrArg Prod.fst) (congrArg Prod.fst)
  · cases mem

theorem linkPairs_allowed {tag : String} (mem : pair ∈ linkPairs tag) :
    AllowedAttribute options tag pair := by
  have names := linkPairs_names mem
  have differ : "rel" ≠ "href" ∧ "rel" ≠ "src" ∧ "target" ≠ "href" ∧ "target" ≠ "src" := by decide
  refine ⟨.inr names, fun link => ?_, fun _ image => ?_⟩
  · rcases names with name | name
    · exact absurd (name.symm.trans link) differ.1
    · exact absurd (name.symm.trans link) differ.2.2.1
  · rcases names with name | name
    · exact absurd (name.symm.trans image) differ.2.1
    · exact absurd (name.symm.trans image) differ.2.2.2

theorem pushed (o : Output) (name : String) :
    (if voidTags.contains name then o else { o with opened := name :: o.opened }).out = o.out ∧
      (if voidTags.contains name then o else { o with opened := name :: o.opened }).opened =
        if voidTags.contains name then o.opened else name :: o.opened := by
  split <;> exact ⟨rfl, rfl⟩

theorem start_eq {tag : Tag} (done : o.start options tag = some o') :
    o'.opened = (if voidTags.contains tag.name then o.opened else tag.name :: o.opened) ∧
      (if len o.out + 64 < maxSanitizeOutputBytes then
        ∃ kept : List (String × String × String),
          o'.out.toList = o.out.toList ++
              (Html.Tag.start tag.name (kept.map (·.2) ++ linkPairs tag.name)).render ∧
            KeptFrom options tag.name [] tag.attributes kept
      else o'.out = o.out) := by
  unfold Output.start at done
  obtain ⟨o'', written, rfl⟩ := Option.map_eq_some_iff.mp done
  obtain ⟨out, opened⟩ := pushed o'' tag.name
  rw [out, opened]
  by_cases room : len o.out + 64 < maxSanitizeOutputBytes
  · rw [if_pos room] at written ⊢
    obtain ⟨⟨text, blocked⟩, sanitized, rfl⟩ := Option.map_eq_some_iff.mp written
    obtain ⟨⟨own, count⟩, from_, eq⟩ := Option.map_eq_some_iff.mp sanitized
    obtain ⟨rfl, -⟩ := Prod.mk.inj eq
    obtain ⟨kept, all, text⟩ := sanitizeAttributesFrom_kept from_
    refine ⟨rfl, kept, ?_, all⟩
    simp only [String.toList_append, text, linkPairs_text]
    simp [Html.Tag.render]
  · rw [if_neg room] at written ⊢
    cases written
    exact ⟨rfl, rfl⟩

theorem split_first {name : String} {names : List String} (mem : name ∈ names) :
    names = names.takeWhile (· ≠ name) ++ [name] ++
      names.drop ((names.takeWhile (· ≠ name)).length + 1) := by
  induction names with
  | nil => cases mem
  | cons first names ih =>
    by_cases same : first = name
    · subst same
      simp
    · have later := ih ((List.mem_cons.mp mem).resolve_left fun h => same h.symm)
      rw [List.takeWhile_cons_of_pos (by simpa using same), List.cons_append, List.cons_append,
        List.length_cons, List.drop_succ_cons, ← later]

theorem close_eq (o : Output) (name : String) : ∃ names, o.opened = names ++ (o.close name).opened ∧
    (o.close name).out.toList =
      o.out.toList ++ (names.map Html.Tag.stop).flatMap Html.Tag.render := by
  unfold Output.close
  split
  next mem =>
    refine ⟨_, split_first (by simpa using mem), ?_⟩
    rw [String.toList_append, String.toList_join, List.flatMap_map, List.flatMap_map]
    congr 2
    funext n
    simp [closing, Html.Tag.render]
  · exact ⟨[], rfl, (List.append_nil _).symm⟩

def Built (options : SanitizeOptions) : Html.Tag → Prop
  | .start name attributes => name ∈ allowedTags ∧
    ∃ kept : List (String × String × String), attributes = kept.map (·.2) ++ linkPairs name ∧
      (∀ k ∈ kept, k.1 ∈ allowedAttributes ∧ Kept options name k.1 k.2) ∧ (kept.map (·.1)).Nodup
  | .stop name => name ∈ allowedTags

theorem Built.allowed {tag : Html.Tag} (built : Built options tag) : Allowed options tag := by
  cases tag with
  | start name attributes =>
    obtain ⟨known, kept, rfl, each, -⟩ := built
    refine ⟨known, fun pair mem => ?_⟩
    rcases List.mem_append.mp mem with mem | mem
    · obtain ⟨k, from_, rfl⟩ := List.mem_map.mp mem
      exact (each k from_).2.allowed (each k from_).1
    · exact linkPairs_allowed mem
  | stop name => exact built

def Distinct : Html.Tag → Prop
  | .start _ attributes => (attributes.map (·.1)).Nodup
  | .stop _ => True

/-- An image with a source that is blocked and with a blocked source of its own. -/
def Tag.Doubled (options : SanitizeOptions) (tag : Tag) : Prop :=
  tag.isEnd = false ∧ tag.name = "img" ∧
    (∃ source, ("src", source) ∈ firstAttributes [] tag.attributes ∧
      ∃ url, classifyImageUrl (decodeEntitiesLimited source) options = some (.blocked url)) ∧
    ∃ source, ("data-blocked-src", source) ∈ firstAttributes [] tag.attributes

def Piece.Doubled (options : SanitizeOptions) : Piece → Prop
  | .text _ => False
  | .tag found => found.Doubled options

theorem linkPairs_nodup (tag : String) : ((linkPairs tag).map (·.1)).Nodup := by
  unfold linkPairs
  split <;> decide

theorem Kept.not_link {pair other : String × String}
    (kept : Kept options tag name pair) (known : name ∈ allowedAttributes)
    (link : other ∈ linkPairs tag) : pair.1 ≠ other.1 := by
  have names := linkPairs_names link
  have apart : ∀ name ∈ allowedAttributes, name ≠ "rel" ∧ name ≠ "target" := by decide
  have own : pair.1 ∈ allowedAttributes := by
    rcases kept.name with same | ⟨-, -, blocked⟩
    · exact same ▸ known
    · exact blocked ▸ (by decide)
  intro same
  rcases names with name | name
  · exact (apart _ own).1 (same.trans name)
  · exact (apart _ own).2 (same.trans name)

theorem distinct_iff {name : String}
    (each : ∀ k ∈ kept, k.1 ∈ allowedAttributes ∧ Kept options name k.1 k.2) :
    Distinct (.start name (kept.map (·.2) ++ linkPairs name)) ↔ (kept.map (·.2.1)).Nodup := by
  have names : (kept.map (·.2) ++ linkPairs name).map (·.1) =
      kept.map (·.2.1) ++ (linkPairs name).map (·.1) := by
    rw [List.map_append, List.map_map]
    rfl
  rw [Distinct, names, List.nodup_append]
  refine ⟨fun all => all.1, fun own => ⟨own, linkPairs_nodup name, ?_⟩⟩
  intro a mem b link
  obtain ⟨k, from_, rfl⟩ := List.mem_map.mp mem
  obtain ⟨pair, mem, rfl⟩ := List.mem_map.mp link
  exact (each k from_).2.not_link (each k from_).1 mem

theorem written_ne (a b : String) : written "src" a ≠ written "data-blocked-src" b := by
  intro eq
  have second := congrArg (fun s : String => s.toList[1]?) eq
  simp [written] at second

theorem empty_ne_written (b : String) : "" ≠ written "data-blocked-src" b := by
  intro eq
  have first := congrArg (fun s : String => s.toList.head?) eq
  simp [written] at first

theorem attributeText_source {rawValue text : String}
    (done : attributeText options "img" "src" rawValue = some (text, blocked)) :
    (∃ url, classifyImageUrl (decodeEntitiesLimited rawValue) options = some (.blocked url)) ↔
      ∃ value, text = written "data-blocked-src" value := by
  rw [attributeText, if_pos ⟨rfl, rfl⟩] at done
  obtain ⟨source, classified, eq⟩ := Option.map_eq_some_iff.mp done
  rw [classified]
  cases source with
  | keep url =>
    obtain ⟨rfl, -⟩ := Prod.mk.inj eq
    refine iff_of_false ?_ ?_
    · rintro ⟨url, same⟩
      cases same
    · rintro ⟨value, same⟩
      exact written_ne _ _ same
  | blocked url =>
    obtain ⟨rfl, -⟩ := Prod.mk.inj eq
    exact iff_of_true ⟨url, rfl⟩ ⟨_, rfl⟩
  | drop =>
    obtain ⟨rfl, -⟩ := Prod.mk.inj eq
    refine iff_of_false ?_ ?_
    · rintro ⟨url, same⟩
      cases same
    · rintro ⟨value, same⟩
      exact empty_ne_written _ same

/-- Two that are kept have one name if one is the source of an image, which is blocked, and one is a
blocked source. -/
theorem KeptFrom.distinct_iff {tag : Tag} (start : tag.isEnd = false)
    (all : KeptFrom options tag.name [] tag.attributes kept) :
    (kept.map (·.2.1)).Nodup ↔ ¬ tag.Doubled options := by
  have own := List.inj_on_of_nodup_map all.distinct
  rw [List.nodup_map_iff_inj_on (List.Nodup.of_map _ all.distinct)]
  constructor
  · rintro distinct ⟨-, image, ⟨source, first, blocked⟩, ⟨other, second⟩⟩
    obtain ⟨text, count, done, found⟩ := all.complete _ first
    obtain ⟨text', count', done', found'⟩ := all.complete _ second
    simp only [image] at done done' found found'
    obtain ⟨value, rfl⟩ := (attributeText_source done).mp blocked
    rw [attributeText_blocked] at done'
    obtain ⟨rfl, -⟩ := Prod.mk.inj (Option.some.inj done')
    obtain ⟨k, mem, name, same⟩ := found.resolve_left fun h => empty_ne_written _ h.symm
    obtain ⟨k', mem', name', -⟩ := found'.resolve_left fun h => empty_ne_written _ h.symm
    have source : k.2.1 = "data-blocked-src" := by
      refine ((all.each k mem).2.2.name.resolve_left fun own => ?_).2.2
      rw [own, name] at same
      exact written_ne _ _ same.symm
    have blocked : k'.2.1 = "data-blocked-src" := by
      rcases (all.each k' mem').2.2.name with own | ⟨-, -, blocked⟩
      · exact own.trans name'
      · exact blocked
    have differ := congrArg Prod.fst (distinct k mem k' mem' (source.trans blocked.symm))
    rw [name, name'] at differ
    exact names_differ.2.2.1 differ.symm
  · intro single k mem k' mem' same
    by_contra differ
    have apart : k.1 ≠ k'.1 := fun eq => differ (own mem mem' eq)
    have doubled {k k' : String × String × String} (mem : k ∈ kept) (mem' : k' ∈ kept)
        (image : tag.name = "img") (source : k.1 = "src") (blocked : k.2.1 = "data-blocked-src")
        (other : k'.1 = "data-blocked-src") : tag.Doubled options := by
      obtain ⟨raw, count, first, done⟩ := all.sound k mem
      obtain ⟨raw', count', second, -⟩ := all.sound k' mem'
      rw [image, source, blocked] at done
      refine ⟨start, image, ⟨raw, source ▸ first, (attributeText_source done).mpr ⟨_, rfl⟩⟩, raw', ?_⟩
      exact other ▸ second
    rcases (all.each k mem).2.2.name with own | ⟨image, source, blocked⟩
    · rcases (all.each k' mem').2.2.name with own' | ⟨image, source, blocked⟩
      · exact apart (own.symm.trans (same.trans own'))
      · exact single (doubled mem' mem image source blocked (own.symm.trans (same.trans blocked)))
    · rcases (all.each k' mem').2.2.name with own' | ⟨-, source', -⟩
      · exact single
          (doubled mem mem' image source blocked (own'.symm.trans (same.symm.trans blocked)))
      · exact apart (source.trans source'.symm)

end MailStack.Webmail.Sanitize
