import LintBridge.Proofs.Rpc.Framing
import LintBridge.Proofs.Text.Lines

namespace LintBridge

namespace Frame

section Lines

/-- A line that tells a length: `Content-Length` up to its first colon, and a value behind it. -/
inductive Tells : List Char → List Char → Prop
  | intro {name value : List Char} : ':' ∉ name →
      eqIgnoringAsciiCase (String.ofList (trimChars name)) "Content-Length" = true →
      Tells (name ++ ':' :: value) value

/-- The length that a value stands for. -/
def lengthIn? (value : List Char) : Option Nat := unsigned64? (String.ofList (trimChars value))

/-- What a line says about the length. -/
inductive Says (line : List Char) : Except FrameError (Option Nat) → Prop
  | told {value : List Char} {n : Nat} : Tells line value → lengthIn? value = some n →
      Says line (.ok (some n))
  | wrong {value : List Char} {e : FrameError} : Tells line value → lengthIn? value = none →
      Says line (.error e)
  | silent : (∀ value, ¬Tells line value) → Says line (.ok none)

variable {line name value : List Char}

theorem takeWhile_colon (bare : ':' ∉ name) (value : List Char) :
    (name ++ ':' :: value).takeWhile (· != ':') = name ∧
      (name ++ ':' :: value).dropWhile (· != ':') = ':' :: value := by
  have front : ∀ c ∈ name, (c != ':') = true := fun c member =>
    bne_iff_ne.mpr fun same => bare (same ▸ member)
  rw [List.takeWhile_append_of_pos front, List.dropWhile_append_of_pos front]
  simp

/-- Which line tells what value is seen by its first colon. -/
theorem tells_iff (bare : ':' ∉ name) {v : List Char} : Tells (name ++ ':' :: value) v ↔
    eqIgnoringAsciiCase (String.ofList (trimChars name)) "Content-Length" = true ∧ v = value := by
  constructor
  · generalize whole : name ++ ':' :: value = line
    rintro ⟨bare', named⟩
    rename_i name'
    obtain ⟨front, behind⟩ := takeWhile_colon bare value
    obtain ⟨front', behind'⟩ := takeWhile_colon bare' v
    rw [whole] at front behind
    cases front.symm.trans front'
    cases behind.symm.trans behind'
    exact ⟨named, rfl⟩
  · rintro ⟨named, rfl⟩
    exact .intro bare named

theorem Tells.value_eq {v v' : List Char} (tells : Tells line v) (tells' : Tells line v') :
    v = v' := by
  obtain ⟨bare, _⟩ := tells
  exact ((tells_iff bare).mp tells').2.symm

theorem mem_of_mem_trimChars {c : Char} (member : c ∈ trimChars line) : c ∈ line := by
  obtain ⟨front, _, same⟩ := trimStartChars_eq line
  obtain ⟨behind, _, same'⟩ := trimEndChars_eq (trimStartChars line)
  rw [same, same']
  exact List.mem_append_right _ (List.mem_append_left _ member)

/-- The blanks around a line, its name and its value say nothing. -/
theorem lengthOf_says (line : List Char) : Says line (lengthOf (trimChars line)) := by
  by_cases inside : ':' ∈ line
  · obtain ⟨name, value, rfl, bare⟩ := List.eq_append_cons_of_mem inside
    have bare' : ':' ∉ trimStartChars name := fun member =>
      bare ((List.dropWhile_subset _) member)
    obtain ⟨front, behind⟩ := takeWhile_colon bare' (trimEndChars value)
    rw [trimChars_around name value (by decide), lengthOf, front, behind]
    dsimp only
    rw [trimChars_trimStartChars, trimChars_trimEndChars]
    split
    · rename_i named
      have tells : Tells (name ++ ':' :: value) value := .intro bare named
      split
      · rename_i n number
        exact .told tells number
      · rename_i number
        exact .wrong tells number
    · rename_i other
      exact .silent fun v tells => other ((tells_iff bare).mp tells).1
  · have outside : (trimChars line).dropWhile (· != ':') = [] := by
      refine List.dropWhile_eq_nil_iff.mpr fun c member => bne_iff_ne.mpr ?_
      rintro rfl
      exact inside (mem_of_mem_trimChars member)
    rw [lengthOf, outside]
    refine .silent ?_
    rintro v ⟨bare, named⟩
    exact inside (List.mem_append_right _ List.mem_cons_self)

/-- Whether a line is blank. -/
def Blank (line : List Char) : Prop := ∀ c ∈ line, isBlank c = true

/-- What a line of a header says, by its characters. -/
theorem lineMeaning_utf8Chars (found : Option Nat) (line : List Char) :
    lineMeaning found (utf8Chars line) =
      if trimChars line = [] then .blank
      else
        match lengthOf (trimChars line) with
        | .ok (some n) => .length (some n)
        | .ok none => .length found
        | .error e => .failed e := by
  rw [lineMeaning, utf8Chars?_utf8Chars]
  dsimp only
  cases trimChars line <;> rfl

theorem lineMeaning_told {found : Option Nat} {n : Nat} (shown : ¬Blank line)
    (tells : Tells line value) (number : lengthIn? value = some n) :
    lineMeaning found (utf8Chars line) = .length (some n) := by
  rw [lineMeaning_utf8Chars, if_neg fun none => shown (trimChars_eq_nil_iff.mp none)]
  have told := lengthOf_says line
  generalize lengthOf (trimChars line) = said at told
  cases told with
  | told tells' number' =>
    rw [← tells.value_eq tells', number] at number'
    rw [number']
  | wrong tells' none =>
    rw [← tells.value_eq tells', number] at none
    cases none
  | silent silent => exact absurd tells (silent value)

theorem lineMeaning_silent {found : Option Nat} (shown : ¬Blank line)
    (silent : ∀ value, ¬Tells line value) :
    lineMeaning found (utf8Chars line) = .length found := by
  rw [lineMeaning_utf8Chars, if_neg fun none => shown (trimChars_eq_nil_iff.mp none)]
  have told := lengthOf_says line
  generalize lengthOf (trimChars line) = said at told
  cases told with
  | told tells | wrong tells => exact absurd tells (silent _)
  | silent => rfl

end Lines

section Headers

/-- The length that is known behind some lines of a header, if one was before. -/
inductive Finds : Option Nat → List (List Char) → Option Nat → Prop
  | nil {found : Option Nat} : Finds found [] found
  | told {found last : Option Nat} {line value : List Char} {lines : List (List Char)} {n : Nat} :
      ¬Blank line → Tells line value → lengthIn? value = some n → Finds (some n) lines last →
      Finds found (line :: lines) last
  | silent {found last : Option Nat} {line : List Char} {lines : List (List Char)} :
      ¬Blank line → (∀ value, ¬Tells line value) → Finds found lines last →
      Finds found (line :: lines) last

/-- The bytes of lines, each with its end. -/
def lineBytes (lines : List (List Char)) : Bytes :=
  lines.flatMap fun line => utf8Chars line ++ [lineFeed]

theorem lineBytes_cons (line : List Char) (lines : List (List Char)) :
    lineBytes (line :: lines) = utf8Chars line ++ lineFeed :: lineBytes lines := by
  rw [lineBytes, List.flatMap_cons, List.append_assoc]
  rfl

/-- Lines of a header: none is blank, those that tell a length tell a number, and the last of them
tells this one. -/
structure Announces (lines : List (List Char)) (n : Nat) : Prop where
  shown : ∀ line ∈ lines, ¬Blank line
  numbers : ∀ line ∈ lines, ∀ value, Tells line value → (lengthIn? value).isSome
  last : ∃ before line after value, lines = before ++ line :: after ∧ Tells line value ∧
    lengthIn? value = some n ∧ ∀ line ∈ after, ∀ value, ¬Tells line value

variable {found last : Option Nat} {lines : List (List Char)} {n : Nat}

/-- What is known behind lines was told by the last of them that told a length, or known before. -/
theorem Finds.known (finds : Finds found lines last) :
    (∀ line ∈ lines, ¬Blank line) ∧
      (∀ line ∈ lines, ∀ value, Tells line value → (lengthIn? value).isSome) ∧
      ((∃ before line after value, lines = before ++ line :: after ∧ Tells line value ∧
          lengthIn? value = last ∧ ∀ line ∈ after, ∀ value, ¬Tells line value) ∨
        found = last ∧ ∀ line ∈ lines, ∀ value, ¬Tells line value) := by
  induction finds with
  | nil => exact ⟨nofun, nofun, .inr ⟨rfl, nofun⟩⟩
  | @told found last line value lines m shown tells number _ ih =>
    obtain ⟨others, numbers, ends⟩ := ih
    refine ⟨List.forall_mem_cons.mpr ⟨shown, others⟩,
      List.forall_mem_cons.mpr ⟨fun v tells' => ?_, numbers⟩, .inl ?_⟩
    · rw [← tells.value_eq tells', number]
      rfl
    · rcases ends with ⟨before, line', after, v, rfl, rest⟩ | ⟨same, silent⟩
      · exact ⟨line :: before, line', after, v, rfl, rest⟩
      · exact ⟨[], line, lines, value, rfl, tells, number.trans same, silent⟩
  | @silent found last line lines shown silent _ ih =>
    obtain ⟨others, numbers, ends⟩ := ih
    refine ⟨List.forall_mem_cons.mpr ⟨shown, others⟩,
      List.forall_mem_cons.mpr ⟨fun v tells => absurd tells (silent v), numbers⟩, ?_⟩
    rcases ends with ⟨before, line', after, v, rfl, rest⟩ | ⟨same, later⟩
    · exact .inl ⟨line :: before, line', after, v, rfl, rest⟩
    · exact .inr ⟨same, List.forall_mem_cons.mpr ⟨silent, later⟩⟩

/-- Behind lines that tell a length the last one told is known, and else what was known before. -/
theorem finds_of_known (shown : ∀ line ∈ lines, ¬Blank line)
    (numbers : ∀ line ∈ lines, ∀ value, Tells line value → (lengthIn? value).isSome)
    (ends : (∃ before line after value, lines = before ++ line :: after ∧ Tells line value ∧
        lengthIn? value = last ∧ ∀ line ∈ after, ∀ value, ¬Tells line value) ∨
      found = last ∧ ∀ line ∈ lines, ∀ value, ¬Tells line value) : Finds found lines last := by
  induction lines generalizing found with
  | nil =>
    rcases ends with ⟨before, _, _, _, empty, _⟩ | ⟨rfl, _⟩
    · exact absurd empty.symm (List.append_ne_nil_of_right_ne_nil _ (List.cons_ne_nil _ _))
    · exact .nil
  | cons line lines ih =>
    obtain ⟨shown, others⟩ := List.forall_mem_cons.mp shown
    obtain ⟨number, numbers⟩ := List.forall_mem_cons.mp numbers
    by_cases tells : ∃ value, Tells line value
    · obtain ⟨value, tells⟩ := tells
      obtain ⟨m, told⟩ := Option.isSome_iff_exists.mp (number value tells)
      refine .told shown tells told (ih others numbers ?_)
      rcases ends with ⟨_ | ⟨_, before⟩, line', after, v, same, tells', told', later⟩ | ⟨_, silent⟩
      · cases same
        rw [tells.value_eq tells', told'] at told
        exact .inr ⟨told.symm, later⟩
      · cases same
        exact .inl ⟨before, line', after, v, rfl, tells', told', later⟩
      · exact absurd tells ((List.forall_mem_cons.mp silent).1 value)
    · have silent (value : List Char) : ¬Tells line value := fun t => tells ⟨value, t⟩
      refine .silent shown silent (ih others numbers ?_)
      rcases ends with ⟨_ | ⟨_, before⟩, line', after, v, same, tells', rest⟩ | ⟨known, later⟩
      · cases same
        exact absurd tells' (silent v)
      · cases same
        exact .inl ⟨before, line', after, v, rfl, tells', rest⟩
      · exact .inr ⟨known, (List.forall_mem_cons.mp later).2⟩

theorem finds_none_iff : Finds none lines (some n) ↔ Announces lines n := by
  constructor
  · intro finds
    obtain ⟨shown, numbers, last | ⟨none, _⟩⟩ := finds.known
    · exact ⟨shown, numbers, last⟩
    · cases none
  · rintro ⟨shown, numbers, last⟩
    exact finds_of_known shown numbers (.inl last)

theorem of_cutLine {bs line rest : Bytes} (cut : cutLine bs = some (line, rest)) :
    bs = line ++ lineFeed :: rest ∧ lineFeed ∉ line := by
  induction bs generalizing line with
  | nil => cases cut
  | cons b bs ih =>
    rw [cutLine] at cut
    split at cut
    · rename_i ends
      cases cut
      exact ⟨by rw [ends]; rfl, List.not_mem_nil⟩
    · rename_i inside
      obtain ⟨⟨front, behind⟩, later, same⟩ := Option.map_eq_some_iff.mp cut
      cases same
      obtain ⟨rfl, outside⟩ := ih later
      exact ⟨rfl, List.not_mem_cons_of_ne_of_not_mem (Ne.symm inside) outside⟩

theorem lineFeed_mem_iff {line : List Char} : lineFeed ∈ utf8Chars line ↔ '\n' ∈ line :=
  mem_utf8Chars_iff (c := '\n') (by decide)

theorem cutLine_utf8Chars {line : List Char} (inner : '\n' ∉ line) (rest : Bytes) :
    cutLine (utf8Chars line ++ lineFeed :: rest) = some (utf8Chars line, rest) :=
  cutLine_append (fun _ member same => inner (lineFeed_mem_iff.mp (same ▸ member))) rest

/-- A line that is not refused is the bytes of some characters, and means what these say. -/
theorem of_lineMeaning (found : Option Nat) {line : Bytes} (outside : lineFeed ∉ line) :
    (∃ e, lineMeaning found line = .failed e) ∨ ∃ cs, line = utf8Chars cs ∧ '\n' ∉ cs ∧
      (lineMeaning found line = .blank ∧ Blank cs ∨
        ∃ found', lineMeaning found line = .length found' ∧
          ∀ {lines last}, Finds found' lines last → Finds found (cs :: lines) last) := by
  cases read : utf8Chars? line with
  | none => exact .inl ⟨.headerText, by rw [lineMeaning, read]⟩
  | some cs =>
    cases utf8Chars?_eq_some_iff.mp read
    have inner : '\n' ∉ cs := fun member => outside (lineFeed_mem_iff.mpr member)
    rw [lineMeaning_utf8Chars]
    split
    · rename_i none
      exact .inr ⟨cs, rfl, inner, .inl ⟨rfl, trimChars_eq_nil_iff.mp none⟩⟩
    · rename_i some
      have shown : ¬Blank cs := fun blank => some (trimChars_eq_nil_iff.mpr blank)
      have told := lengthOf_says cs
      generalize lengthOf (trimChars cs) = said at told
      cases told with
      | told tells number =>
        exact .inr ⟨cs, rfl, inner, .inr ⟨_, rfl, .told shown tells number⟩⟩
      | wrong => exact .inl ⟨_, rfl⟩
      | silent silent => exact .inr ⟨cs, rfl, inner, .inr ⟨_, rfl, .silent shown silent⟩⟩

/-- What the lines in front of some bytes are, where a header is read as a whole. -/
theorem of_header {closed started : Bool} {bs rest : Bytes}
    (complete : header closed started found bs = .complete n rest) :
    (∃ lines blank, bs = lineBytes (lines ++ [blank]) ++ rest ∧
      (∀ line ∈ lines ++ [blank], '\n' ∉ line) ∧ Blank blank ∧ Finds found lines (some n)) ∨
      rest = [] := by
  fun_induction header closed started found bs with
  | case1 started found bs line behind cut means =>
    obtain ⟨rfl, rfl⟩ := finishHeader_complete complete
    obtain ⟨rfl, outside⟩ := of_cutLine cut
    rcases of_lineMeaning (some n) outside with
      ⟨e, fails⟩ | ⟨cs, rfl, inner, ⟨_, blank⟩ | ⟨_, length, _⟩⟩
    · cases means.symm.trans fails
    · refine .inl ⟨[], cs, ?_, List.forall_mem_singleton.mpr inner, blank, .nil⟩
      rw [List.nil_append, lineBytes_cons, List.append_assoc]
      rfl
    · cases means.symm.trans length
  | case2 started found bs line behind cut found' means ih =>
    obtain ⟨rfl, outside⟩ := of_cutLine cut
    refine (ih complete).imp_left ?_
    rintro ⟨lines, blank, rfl, unbroken, ends, behind⟩
    rcases of_lineMeaning found outside with
      ⟨e, fails⟩ | ⟨cs, rfl, inner, ⟨none, _⟩ | ⟨found'', length, finds⟩⟩
    · cases means.symm.trans fails
    · cases means.symm.trans none
    · cases means.symm.trans length
      refine ⟨cs :: lines, blank, ?_, List.forall_mem_cons.mpr ⟨inner, unbroken⟩, ends,
        finds behind⟩
      rw [List.cons_append, lineBytes_cons, List.append_assoc, List.cons_append]
  | case7 => exact .inr (finishHeader_complete complete).2.symm
  | case3 | case4 | case5 | case6 | case8 | case9 => cases complete

/-- A header is read as a whole that lies in front of some bytes. -/
theorem header_lineBytes {blank : List Char} (closed started : Bool) (rest : Bytes)
    (unbroken : ∀ line ∈ lines ++ [blank], '\n' ∉ line) (ends : Blank blank)
    (finds : Finds found lines last) :
    header closed started found (lineBytes (lines ++ [blank]) ++ rest) =
      finishHeader last rest := by
  induction finds generalizing started with
  | nil =>
    obtain ⟨inner, _⟩ := List.forall_mem_cons.mp unbroken
    rw [List.nil_append, lineBytes_cons, List.append_assoc, List.cons_append,
      header_of_cutLine (cutLine_utf8Chars inner _), lineMeaning_utf8Chars,
      if_pos (trimChars_eq_nil_iff.mpr ends)]
    rfl
  | told shown tells number _ ih =>
    obtain ⟨inner, unbroken⟩ := List.forall_mem_cons.mp unbroken
    rw [List.cons_append, lineBytes_cons, List.append_assoc, List.cons_append,
      header_of_cutLine (cutLine_utf8Chars inner _), lineMeaning_told shown tells number]
    exact ih true unbroken
  | silent shown silent _ ih =>
    obtain ⟨inner, unbroken⟩ := List.forall_mem_cons.mp unbroken
    rw [List.cons_append, lineBytes_cons, List.append_assoc, List.cons_append,
      header_of_cutLine (cutLine_utf8Chars inner _), lineMeaning_silent shown silent]
    exact ih true unbroken

end Headers

/-- Lines that tell the length of a body, a blank line and the body make up a frame of a value. -/
structure Forms (limit : Nat) (lines : List (List Char)) (blank : List Char) (body : Bytes)
    (value : Json) : Prop where
  unbroken : ∀ line ∈ lines ++ [blank], '\n' ∉ line
  ends : Blank blank
  announces : Announces lines body.length
  short : body.length ≤ limit
  decoded : decodeBody body = some value

/-- A frame of a value lies at the front of some bytes, and others behind it. -/
def Lies (limit : Nat) (bs : Bytes) (value : Json) (rest : Bytes) : Prop :=
  ∃ lines blank body, Forms limit lines blank body value ∧
    bs = lineBytes (lines ++ [blank]) ++ (body ++ rest)

section Next

variable {limit : Nat} {closed : Bool} {bs rest : Bytes} {value : Json}

theorem decodeBody_nil : decodeBody [] = none := by decide

/-- A frame is read just where one lies, and what is behind it is left. -/
theorem next_eq_frame_iff :
    next limit closed bs = .frame value rest ↔ Lies limit bs value rest := by
  constructor
  · intro reads
    obtain ⟨n, behind, complete, short, whole, decoded, rfl⟩ := next_eq_frame reads
    have length : (behind.take n).length = n := List.length_take_of_le whole
    rcases of_header complete with ⟨lines, blank, rfl, unbroken, ends, finds⟩ | rfl
    · refine ⟨lines, blank, behind.take n, ⟨unbroken, ends, ?_, ?_, decoded⟩, ?_⟩
      · rw [length]
        exact finds_none_iff.mp finds
      · rw [length]
        exact short
      · rw [List.take_append_drop]
    · -- behind a last line that does not end there is no body
      rw [List.take_nil, decodeBody_nil] at decoded
      cases decoded
  · rintro ⟨lines, blank, body, forms, rfl⟩
    have header := header_lineBytes closed false (body ++ rest) forms.unbroken forms.ends
      (finds_none_iff.mpr forms.announces)
    have enough : ¬(body ++ rest).length < body.length := by
      rw [List.length_append]
      omega
    simp only [next, header, finishHeader, if_neg (Nat.not_lt.mpr forms.short), if_neg enough,
      List.take_left, List.drop_left, forms.decoded]

end Next

end Frame

end LintBridge
