import LintBridge.Proofs.Json.Parts

namespace LintBridge

open Document

/-- One level of a document around a place in it. -/
inductive Around where
  | item (before after : List Document)
  | field (before : List (Option String × Document)) (name : String)
      (after : List (Option String × Document))

namespace Around

/-- A level with something at its place. -/
def fill : Around → Document → Document
  | item before after, d => .arr (before ++ d :: after)
  | field before name after, d => .obj (before ++ (some name, d) :: after)

/-- Whether the place is the one of a field. -/
def At (name : String) (place : Nat) : Around → Prop
  | item before _ => before.length = place
  | field _ key _ => key = name

/-- Whether all else of a level has a value. -/
def Valued (depth : Nat) : Around → Prop
  | item before after => ∀ d ∈ before ++ after, (value? depth d).isSome
  | field before _ after => ∀ f ∈ before ++ after, f.1.isSome ∧ (value? depth f.2).isSome

end Around

/-- Something within levels of a document, the outermost level first. -/
def Document.within (levels : List Around) (d : Document) : Document :=
  levels.foldr Around.fill d

section Values

variable {depth : Nat} {d d' : Document}

theorem isSome_values? {ds : List Document} :
    (values? depth ds).isSome ↔ ∀ d ∈ ds, (value? depth d).isSome := by
  induction ds with
  | nil => simp [values?]
  | cons d ds ih =>
    rw [List.forall_mem_cons, ← ih, values?]
    cases value? depth d <;> cases values? depth ds <;> simp

theorem isSome_fieldValues? {fs : List (Option String × Document)} :
    (fieldValues? depth fs).isSome ↔ ∀ f ∈ fs, f.1.isSome ∧ (value? depth f.2).isSome := by
  induction fs with
  | nil => simp [fieldValues?]
  | cons f fs ih =>
    obtain ⟨name, d⟩ := f
    rw [List.forall_mem_cons, ← ih, fieldValues?.eq_def]
    dsimp only
    cases name <;> cases value? depth d <;> cases fieldValues? depth fs <;> simp

theorem isSome_value?_fill {level : Around} : (value? depth (level.fill d)).isSome ↔
    ∃ below, depth = below + 1 ∧ level.Valued below ∧ (value? below d).isSome := by
  cases depth with
  | zero => cases level <;> simp [Around.fill, value?]
  | succ below =>
    cases level with
    | item before after =>
      simp only [Around.fill, value?, Option.isSome_map, isSome_values?, Around.Valued,
        List.forall_mem_append, List.forall_mem_cons, Nat.add_right_cancel_iff]
      constructor
      · rintro ⟨left, here, right⟩
        exact ⟨below, rfl, ⟨left, right⟩, here⟩
      · rintro ⟨_, rfl, ⟨left, right⟩, here⟩
        exact ⟨left, here, right⟩
    | field before name after =>
      simp only [Around.fill, value?, Option.isSome_map, isSome_fieldValues?, Around.Valued,
        List.forall_mem_append, List.forall_mem_cons, Nat.add_right_cancel_iff]
      constructor
      · rintro ⟨left, ⟨_, here⟩, right⟩
        exact ⟨below, rfl, ⟨left, right⟩, here⟩
      · rintro ⟨_, rfl, ⟨left, right⟩, here⟩
        exact ⟨left, ⟨rfl, here⟩, right⟩

/-- Where a document has a value, it has one with another part too that has a value. -/
theorem isSome_value?_within {levels : List Around}
    (keeps : ∀ depth, (value? depth d).isSome → (value? depth d').isSome)
    (valued : (value? depth (within levels d)).isSome) :
    (value? depth (within levels d')).isSome := by
  induction levels generalizing depth with
  | nil => exact keeps depth valued
  | cons level levels ih =>
    obtain ⟨below, rfl, others, inner⟩ := isSome_value?_fill.mp valued
    exact isSome_value?_fill.mpr ⟨below, rfl, others, ih inner⟩

end Values

namespace Decoder

variable {α β γ : Type} {outer : Decoder γ} {mid : Decoder β} {inner : Decoder α}
  {fill fill' : Document → Document} {make : α → β} {make' : β → γ}

/-- Whether a decoder makes of a filled document what it makes of the filling. -/
def Through (outer : Decoder β) (fill : Document → Document) (inner : Decoder α) (make : α → β) :
    Prop := ∀ d, (outer (fill d)).toOption = (inner d).toOption.map make

theorem Through.comp (through' : outer.Through fill' mid make')
    (through : mid.Through fill inner make) :
    outer.Through (fun d => fill' (fill d)) inner (make' ∘ make) := by
  intro d
  rw [through', through, Option.map_map]

theorem Through.nullable {level : Around}
    (through : mid.Through (fun d => level.fill (fill d)) inner make) :
    (nullable mid).Through (fun d => level.fill (fill d)) inner (some ∘ make) := by
  intro d
  have value : Decoder.nullable mid (level.fill (fill d)) =
      (mid (level.fill (fill d))).map some := by
    cases level <;> rfl
  have mapped (r : Except DecodeError β) : (r.map some).toOption = r.toOption.map some := by
    cases r <;> rfl
  rw [value, mapped, through, Option.map_map]

theorem of_nullable_fill {level : Around} {d : Document} {o : Option β}
    (decoded : Decoder.nullable mid (level.fill d) = .ok o) :
    ∃ b, mid (level.fill d) = .ok b ∧ o = some b := by
  obtain ⟨null, _⟩ | value := of_nullable decoded
  · cases level <;> cases null
  · exact value

/-- A list is read through each of its items. -/
theorem list_through {before after : List Document} {d : Document} {bs : List β}
    (decoded : list mid ((Around.item before after).fill d) = .ok bs) :
    ∃ left b right, mid d = .ok b ∧ bs = left ++ b :: right ∧
      (list mid).Through (Around.item before after).fill mid fun b => left ++ b :: right := by
  have split (d : Document) : list mid ((Around.item before after).fill d) = do
      let left ← before.mapM mid
      let b ← mid d
      let right ← after.mapM mid
      return left ++ b :: right := by
    rw [Around.fill, list, List.mapM_append, List.mapM_cons]
    simp
  rw [split] at decoded
  obtain ⟨left, first, decoded⟩ := of_bind decoded
  obtain ⟨b, here, decoded⟩ := of_bind decoded
  obtain ⟨right, last, decoded⟩ := of_bind decoded
  cases decoded
  refine ⟨left, b, right, here, rfl, fun d => ?_⟩
  rw [split, first, last]
  cases mid d <;> rfl

end Decoder

/-- What a missing field stands for, if it may be missing. -/
def Absent.value? {β : Type} : Absent β → Option β
  | required => none
  | named b => some b
  | always b => some b

namespace Record

/-- Whether a value is one that a record may come to. -/
def Makes : {α : Type} → Record α → α → Prop
  | _, .build a, made => made = a
  | _, .field before _ _ _ _, made => ∃ make b, before.Makes make ∧ made = make b

/-- Whether a record reads a field by a decoder, and makes its values of the field in such ways. -/
inductive Has {β : Type} (name : String) (read : Decoder β) :
    {α : Type} → Record α → ((β → α) → Prop) → Prop
  | last {α : Type} {before : Record (β → α)} {absent : Absent β} :
      Has name read (.field before name read absent none) before.Makes
  | before {α γ : Type} {before : Record (γ → α)} {key : String} {other : Decoder γ}
      {absent : Absent γ} {ways : (β → γ → α) → Prop} : Has name read before ways →
      Has name read (.field before key other absent none)
        fun make => ∃ make' c, ways make' ∧ make = fun b => make' b c

section Through

variable {α β : Type} {r : Record α} {name : String} {read : Decoder β} {level : Around}
  {ways : (β → α) → Prop} {d d' : Document}

theorem makes_of_sought? {look : String → Option Document} {a : α}
    (sought : r.sought? look = some a) : r.Makes a := by
  induction r with
  | build a' => exact (Option.some.inj sought).symm
  | field before key other absent found ih =>
    obtain ⟨make, earlier, sought⟩ := Option.bind_eq_some_iff.mp sought
    split at sought
    · obtain ⟨b, _, rfl⟩ := Option.map_eq_some_iff.mp sought
      exact ⟨make, b, ih earlier, rfl⟩
    · cases sought
      exact ⟨make, _, ih earlier, rfl⟩
    · cases sought
    · cases absent <;> cases sought <;> exact ⟨make, _, ih earlier, rfl⟩

theorem Has.mem_names (has : Has name read r ways) : name ∈ r.names := by
  induction has with
  | last => exact List.mem_cons_self
  | before _ ih => exact List.mem_cons_of_mem _ ih

/-- What is sought is made of the fields before the last one and of what stands for that. -/
theorem sought?_field (before : Record (β → α)) (absent : Absent β)
    (look : String → Option Document) : (field before name read absent none).sought? look =
      (before.sought? look).bind fun make =>
        ((look name).elim absent.value? fun d => (read d).toOption).map make := by
  rw [sought?]
  cases look name <;> cases absent <;> rfl

/-- What is sought is read through each field that is found. -/
theorem sought?_through (has : Has name read r ways) (distinct : r.names.Nodup)
    {look : String → Option Document} {a : α} (found : look name = some d)
    (sought : r.sought? look = some a) : ∃ make b, ways make ∧ read d = .ok b ∧ a = make b ∧
      ∀ d', r.sought? (behind look name d') = (read d').toOption.map make := by
  induction has with
  | @last _ before absent =>
    obtain ⟨fresh, distinct⟩ := List.nodup_cons.mp distinct
    rw [sought?_field, found] at sought
    obtain ⟨make, earlier, sought⟩ := Option.bind_eq_some_iff.mp sought
    obtain ⟨b, value, rfl⟩ := Option.map_eq_some_iff.mp sought
    refine ⟨make, b, makes_of_sought? earlier, of_toOption value, rfl, fun d' => ?_⟩
    have same : before.sought? (behind look name d') = before.sought? look :=
      sought?_congr fun key member => if_neg fun here : name = key => fresh (here ▸ member)
    have here : behind look name d' name = some d' := if_pos rfl
    rw [sought?_field, same, earlier, here]
    rfl
  | @before _ _ inner key other absent _ has ih =>
    obtain ⟨fresh, distinct⟩ := List.nodup_cons.mp distinct
    rw [sought?_field] at sought
    obtain ⟨make, earlier, sought⟩ := Option.bind_eq_some_iff.mp sought
    obtain ⟨c, kept, rfl⟩ := Option.map_eq_some_iff.mp sought
    obtain ⟨make', b, way, value, rfl, through⟩ := ih distinct earlier
    refine ⟨fun b => make' b c, b, ⟨make', c, way, rfl⟩, value, rfl, fun d' => ?_⟩
    -- the last field is not the one that is read through, so it has the value it had
    have same : behind look name d' key = look key :=
      if_neg fun here : name = key => fresh (here ▸ has.mem_names)
    rw [sought?_field, through, same, kept]
    cases read d' <;> rfl

theorem suits_fill (suits : r.Suits (level.fill d)) : r.Suits (level.fill d') := by
  cases level with
  | item before after =>
    rw [Around.fill, Suits, List.length_append, List.length_cons] at suits ⊢
    exact suits
  | field before key after =>
    obtain ⟨told, each⟩ := suits
    refine ⟨fun f member => ?_, fun key' member => ?_⟩
    · obtain earlier | here := List.mem_append.mp member
      · exact told f (List.mem_append_left _ earlier)
      · obtain rfl | later := List.mem_cons.mp here
        · rintro ⟨⟩
        · exact told f (List.mem_append_right _ (List.mem_cons_of_mem _ later))
    · have short := each key' member
      rw [under_append, List.length_append] at short ⊢
      by_cases same : key = key'
      · subst same
        rwa [under_cons_self, List.length_cons] at short ⊢
      · rwa [under_cons_of_ne same] at short ⊢

theorem getElem?_append_cons_of_ne {ds ds' : List Document} {i : Nat} (apart : ds.length ≠ i) :
    (ds ++ d' :: ds')[i]? = (ds ++ d :: ds')[i]? := by
  rcases Nat.lt_or_gt_of_ne apart with later | earlier
  · obtain ⟨n, rfl⟩ := Nat.exists_eq_add_of_lt later
    rw [List.getElem?_append_right (by omega), List.getElem?_append_right (by omega)]
    simp [show ds.length + n + 1 - ds.length = n + 1 by omega]
  · rw [List.getElem?_append_left earlier, List.getElem?_append_left earlier]

theorem look_item (before after : List Document) (d : Document) (key : String) :
    r.look ((Around.item before after).fill d) key = (before ++ d :: after)[r.placeOf key]? := by
  rw [Record.look, Around.fill, parts]
  cases (before ++ d :: after)[r.placeOf key]? <;> rfl

theorem look_field (before after : List (Option String × Document)) (own key : String)
    (d : Document) : r.look ((Around.field before own after).fill d) key =
      (under key before ++ under key ((some own, d) :: after)).head? := by
  rw [Record.look, Around.fill, parts, under_append]

/-- A level with another part at the place of a field has that part for the field, and what it had
for the others. -/
theorem look_fill (suits : r.Suits (level.fill d)) (named : name ∈ r.names)
    (there : level.At name (r.placeOf name)) {key : String} (known : key ∈ r.names) :
    r.look (level.fill d') key = behind (r.look (level.fill d)) name d' key := by
  rw [behind]
  cases level with
  | item before after =>
    rw [look_item, look_item]
    change before.length = r.placeOf name at there
    split
    · rename_i same
      rw [← same, ← there]
      simp
    · rename_i other
      exact getElem?_append_cons_of_ne fun same =>
        other (placeOf_injective named known (there.symm.trans same))
  | field before own after =>
    change own = name at there
    subst there
    rw [look_field, look_field]
    split
    · rename_i same
      subst same
      have short := suits.2 own named
      rw [under_append, under_cons_self, List.length_append, List.length_cons] at short
      have none : under own before = [] := List.eq_nil_of_length_eq_zero (by omega)
      rw [none, under_cons_self]
      rfl
    · rename_i other
      rw [under_cons_of_ne other, under_cons_of_ne other]

/-- A document that is suited to a structure is read by what is sought in it. -/
theorem toOption_decoder_of_suits (distinct : r.names.Nodup) (untouched : r.Untouched)
    (shape : String) (suits : r.Suits d) :
    (decoder shape r d).toOption = r.sought? (r.look d) := by
  refine Option.ext fun a => ?_
  have decoded : (decoder shape r d).toOption = some a ↔ decoder shape r d = .ok a :=
    ⟨of_toOption, fun done => by rw [done]; rfl⟩
  rw [decoded, decoder_eq_ok_iff distinct untouched]
  exact and_iff_right suits

/-- A structure is read through each of its fields. -/
theorem decoder_through (distinct : r.names.Nodup) (untouched : r.Untouched)
    (has : Has name read r ways) (there : level.At name (r.placeOf name)) {shape : String} {a : α}
    (decoded : decoder shape r (level.fill d) = .ok a) : ∃ make b, ways make ∧ read d = .ok b ∧
      a = make b ∧ (decoder shape r).Through level.fill read make := by
  have named := has.mem_names
  obtain ⟨suits, sought⟩ := (decoder_eq_ok_iff distinct untouched shape _).mp decoded
  have found : r.look (level.fill d) name = some d := by
    rw [look_fill suits named there named]
    exact if_pos rfl
  obtain ⟨make, b, way, value, made, through⟩ := sought?_through has distinct found sought
  refine ⟨make, b, way, value, made, fun d' => ?_⟩
  rw [toOption_decoder_of_suits distinct untouched shape (suits_fill suits), ← through]
  exact sought?_congr fun key known => look_fill suits named there known

/-- A structure with a title is read through what may be left out. -/
theorem titled_through {make : String → β → α} {title key shape : String} {default : β}
    (apart : title ≠ key) (there : level.At key 1) {a : α}
    (decoded : decoder shape (titled make title key read default) (level.fill d) = .ok a) :
    ∃ name b, read d = .ok b ∧ a = make name b ∧
      (decoder shape (titled make title key read default)).Through level.fill read (make name) := by
  rw [← (placeOf_key : (titled make title key read default).placeOf key = 1)] at there
  obtain ⟨_, b, ⟨_, name, rfl, rfl⟩, value, made, through⟩ :=
    decoder_through (nodup_names_titled apart) (by simp) .last there decoded
  exact ⟨name, b, value, made, through⟩

/-- A list of structures that have lists is read through any item of those. -/
theorem items_through {φ μ : Type} {make : String → List μ → φ} {title key shape : String}
    {read : Decoder μ} (apart : title ≠ key) (there : level.At key 1)
    {files files' items items' : List Document} {fs : List φ}
    (decoded : Decoder.list (decoder shape (titled make title key (Decoder.list read) []))
      ((Around.item files files').fill (level.fill ((Around.item items items').fill d))) =
        .ok fs) : ∃ left name before b after right, read d = .ok b ∧
      fs = left ++ make name (before ++ b :: after) :: right ∧
      (Decoder.list (decoder shape (titled make title key (Decoder.list read) []))).Through
        (fun d => (Around.item files files').fill
          (level.fill ((Around.item items items').fill d))) read
        fun b => left ++ make name (before ++ b :: after) :: right := by
  obtain ⟨left, f, right, file, rfl, outer⟩ := Decoder.list_through decoded
  obtain ⟨name, bs, listed, rfl, mid⟩ := titled_through apart there file
  obtain ⟨before, b, after, value, rfl, inner⟩ := Decoder.list_through listed
  exact ⟨left, name, before, b, after, right, value, rfl, (outer.comp mid).comp inner⟩

end Through

end Record

/-- Whether a document is another one with some number replaced by an integer of 64 bits. -/
def Document.Settles (d d' : Document) : Prop :=
  ∃ levels n i, Decoder.int64 (.num (some (.int i))) = .ok i ∧ d = within levels (.num n) ∧
    d' = within levels (.num (some (.int i)))

/-- Whether a decoder that reads a document still reads it with an integer of 64 bits for one of its
numbers. -/
def Decoder.Tolerant {α : Type} (read : Decoder α) : Prop :=
  ∀ d d', Document.Settles d d' → ∀ a, read d = .ok a → ∃ b, read d' = .ok b

/-- Whether all decoders of a record are tolerant. -/
def Record.Tolerant : {α : Type} → Record α → Prop
  | _, .build _ => True
  | _, .field before _ read _ _ => before.Tolerant ∧ read.Tolerant

namespace Document

variable {d d' : Document}

/-- The number is the whole document, or lies in a part of it. -/
theorem Settles.cases (settles : d.Settles d') :
    (∃ n i, Decoder.int64 d' = .ok i ∧ d = .num n ∧ d' = .num (some (.int i))) ∨
      ∃ (level : Around) (e e' : Document), e.Settles e' ∧ d = level.fill e ∧
        d' = level.fill e' := by
  obtain ⟨levels, n, i, fits, rfl, rfl⟩ := settles
  cases levels with
  | nil => exact .inl ⟨n, i, fits, rfl, rfl⟩
  | cons level levels => exact .inr ⟨level, _, _, ⟨levels, n, i, fits, rfl, rfl⟩, rfl, rfl⟩

theorem Settles.isSome_value? {depth : Nat} (settles : d.Settles d')
    (valued : (value? depth d).isSome) : (value? depth d').isSome := by
  obtain ⟨levels, n, i, _, rfl, rfl⟩ := settles
  exact isSome_value?_within (fun _ _ => by rw [value?]; rfl) valued

end Document

namespace Decoder

variable {α β : Type} {read first second : Decoder α}

theorem tolerant_text : text.Tolerant := by
  intro d d' settles s told
  obtain ⟨n, i, _, rfl, _⟩ | ⟨level, e, _, _, rfl, _⟩ := settles.cases
  · cases n <;> cases told
  · cases level <;> cases told

theorem tolerant_int64 : int64.Tolerant := by
  intro d d' settles j told
  obtain ⟨n, i, fits, _⟩ | ⟨level, e, _, _, rfl, _⟩ := settles.cases
  · exact ⟨i, fits⟩
  · cases level <;> cases told

theorem Tolerant.map (tolerant : read.Tolerant) (f : α → β) :
    Tolerant fun d => (read d).map f := by
  intro d d' settles b told
  obtain ⟨a, value, _⟩ := of_map told
  obtain ⟨a', value'⟩ := tolerant d d' settles a value
  exact ⟨f a', by dsimp only; rw [value']; rfl⟩

theorem Tolerant.nullable (tolerant : read.Tolerant) : (nullable read).Tolerant := by
  have value {d d' : Document} (settles : d.Settles d') :
      Decoder.nullable read d = (read d).map some ∧
        Decoder.nullable read d' = (read d').map some := by
    obtain ⟨n, i, _, rfl, rfl⟩ | ⟨level, e, e', _, rfl, rfl⟩ := settles.cases
    · exact ⟨rfl, rfl⟩
    · cases level <;> exact ⟨rfl, rfl⟩
  intro d d' settles o told
  rw [(value settles).1] at told
  rw [(value settles).2]
  exact tolerant.map some d d' settles o told

theorem Tolerant.list (tolerant : read.Tolerant) : (list read).Tolerant := by
  intro d d' settles as told
  obtain ⟨n, i, _, rfl, _⟩ | ⟨level, e, e', inner, rfl, rfl⟩ := settles.cases
  · cases n <;> cases told
  · cases level with
    | field => cases told
    | item before after =>
      obtain ⟨left, b, right, here, _, through⟩ := list_through told
      obtain ⟨b', there⟩ := tolerant e e' inner b here
      have whole := through e'
      rw [there] at whole
      exact ⟨_, of_toOption whole⟩

theorem either_eq_ok_iff {depth : Nat} {d : Document} {a : α} :
    either depth first second d = .ok a ↔ (d.value? depth).isSome ∧
      (first d = .ok a ∨ (first d).toOption = none ∧ second d = .ok a) := by
  rw [either]
  cases d.value? depth with
  | none => simp
  | some v =>
    cases first d with
    | ok b => simp [Except.toOption]
    | error e => cases second d <;> simp [Except.toOption]

theorem Tolerant.either {depth : Nat} (tolerant : first.Tolerant) (tolerant' : second.Tolerant) :
    (either depth first second).Tolerant := by
  intro d d' settles a told
  obtain ⟨valued, told⟩ := either_eq_ok_iff.mp told
  have valued' := settles.isSome_value? valued
  cases kept : first d' with
  | ok b => exact ⟨b, either_eq_ok_iff.mpr ⟨valued', .inl kept⟩⟩
  | error e =>
    obtain here | ⟨_, there⟩ := told
    · obtain ⟨b, same⟩ := tolerant d d' settles a here
      rw [kept] at same
      cases same
    · obtain ⟨b, same⟩ := tolerant' d d' settles a there
      exact ⟨b, either_eq_ok_iff.mpr ⟨valued', .inr ⟨by rw [kept]; rfl, same⟩⟩⟩

end Decoder

namespace Record

variable {α : Type} {r : Record α} {level : Around} {d d' : Document}

section Fields

variable {β : Type} {before : Record (β → α)} {before' : Record (Option β → α)} {name : String}
  {read : Decoder β}

@[simp]
theorem tolerant_build (a : α) : (Record.build a).Tolerant := trivial

@[simp]
theorem tolerant_required :
    (before.required name read).Tolerant ↔ before.Tolerant ∧ read.Tolerant := Iff.rfl

@[simp]
theorem tolerant_optional : (before'.optional name read).Tolerant ↔
    before'.Tolerant ∧ (Decoder.nullable read).Tolerant := Iff.rfl

@[simp]
theorem tolerant_defaulted (value : β) :
    (before.defaulted name read value).Tolerant ↔ before.Tolerant ∧ read.Tolerant := Iff.rfl

end Fields

/-- Whatever is looked up in a level is what stood there, or stands at the place. -/
theorem look_fill_or (key : String) : r.look (level.fill d') key = r.look (level.fill d) key ∨
    r.look (level.fill d) key = some d ∧ r.look (level.fill d') key = some d' := by
  cases level with
  | item before after =>
    rw [look_item, look_item]
    by_cases there : before.length = r.placeOf key
    · right
      rw [← there]
      simp
    · exact .inl (getElem?_append_cons_of_ne there)
  | field before own after =>
    rw [look_field, look_field]
    by_cases there : own = key
    · subst there
      rw [under_cons_self, under_cons_self]
      cases under own before with
      | nil => exact .inr ⟨rfl, rfl⟩
      | cons first rest => exact .inl rfl
    · rw [under_cons_of_ne there, under_cons_of_ne there]
      exact .inl rfl

theorem Tolerant.sought? (tolerant : r.Tolerant) (untouched : r.Untouched)
    {look look' : String → Option Document} {a : α}
    (each : ∀ key, look' key = look key ∨
      ∃ d d', d.Settles d' ∧ look key = some d ∧ look' key = some d')
    (sought : r.sought? look = some a) : ∃ b, r.sought? look' = some b := by
  induction r with
  | build a' => exact ⟨a', rfl⟩
  | field before key read absent found ih =>
    obtain ⟨untouched, rfl, _⟩ := untouched
    obtain ⟨others, own⟩ := tolerant
    rw [sought?_field] at sought
    obtain ⟨make, earlier, sought⟩ := Option.bind_eq_some_iff.mp sought
    obtain ⟨c, value, _⟩ := Option.map_eq_some_iff.mp sought
    obtain ⟨make', earlier'⟩ := ih others untouched earlier
    obtain ⟨c', value'⟩ : ∃ c', ((look' key).elim absent.value? fun d => (read d).toOption) =
        some c' := by
      obtain same | ⟨d, d', settles, here, here'⟩ := each key
      · exact ⟨c, same ▸ value⟩
      · rw [here] at value
        obtain ⟨c', value'⟩ := own d d' settles c (of_toOption value)
        exact ⟨c', by rw [here', Option.elim_some, value']; rfl⟩
    exact ⟨make' c', by rw [sought?_field, earlier', value']; rfl⟩

theorem Tolerant.decoder (tolerant : r.Tolerant) (distinct : r.names.Nodup)
    (untouched : r.Untouched) (shape : String) : (decoder shape r).Tolerant := by
  intro d d' settles a told
  obtain ⟨n, i, _, rfl, _⟩ | ⟨level, e, e', inner, rfl, rfl⟩ := settles.cases
  · cases n <;> cases told
  · obtain ⟨suits, sought⟩ := (decoder_eq_ok_iff distinct untouched shape _).mp told
    obtain ⟨b, sought'⟩ := tolerant.sought? untouched
      (fun key => (look_fill_or key).imp_right fun there => ⟨e, e', inner, there⟩) sought
    exact ⟨b, (decoder_eq_ok_iff distinct untouched shape _).mpr ⟨suits_fill suits, sought'⟩⟩

end Record

end LintBridge
