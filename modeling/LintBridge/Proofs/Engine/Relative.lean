import LintBridge.Engine.Output
import LintBridge.Engine.Command
import LintBridge.Proofs.Url.FileUrl

namespace LintBridge

namespace Engine

open LintBridge.Path

section Below

variable {root p : Path} {names : List Bytes}

theorem stripPrefix?_of_absolute (absolute : root.isAbsolute = true)
    (absolute' : p.isAbsolute = true) : p.stripPrefix? root =
      (stripPieces root.segments p.pieces).map fun rest => ⟨unsplit (trimPieces rest)⟩ := by
  rw [stripPrefix?, if_pos absolute, if_pos absolute']

/-- A path whose pieces behind the project are some names is called by these names there. -/
theorem stripPrefix?_below (absolute : root.isAbsolute = true) (absolute' : p.isAbsolute = true)
    (telling : ∀ s ∈ names, isIdle s = false) (some : names ≠ []) {front idle : List Bytes}
    (before : front.filter (fun piece => !isIdle piece) = root.segments)
    (nothing : ∀ s ∈ idle, isIdle s = true) (parts : p.pieces = front ++ (names ++ idle)) :
    p.stripPrefix? root = Option.some ⟨unsplit names⟩ := by
  obtain ⟨lost, means, stripped⟩ := stripPieces_append front (names ++ idle)
  rw [stripPrefix?_of_absolute absolute absolute', parts, ← before, stripped, Option.map_some,
    trimPieces_between telling some means nothing]

/-- What a path is called below a project are the segments that the project lacks. -/
theorem of_stripPrefix? {q : Path} (absolute : root.isAbsolute = true)
    (absolute' : p.isAbsolute = true) (stripped : p.stripPrefix? root = some q) :
    p.segments = root.segments ++ q.segments ∧ q.isAbsolute = false ∧
      (IsUtf8 p.bytes → IsUtf8 q.bytes) := by
  rw [stripPrefix?_of_absolute absolute absolute'] at stripped
  obtain ⟨rest, behind, rfl⟩ := Option.map_eq_some_iff.mp stripped
  obtain ⟨front, parts, same⟩ := of_stripPieces (fun s member => (of_mem_segments member).1) behind
  obtain ⟨start, pieces⟩ := pieces_of_absolute absolute'
  have inside {s : Bytes} (member : s ∈ trimPieces rest) : s ∈ split p.bytes.tail := by
    rw [← pieces, parts]
    exact List.mem_append_right _ (mem_of_mem_trimPieces member)
  have plain : ∀ s ∈ trimPieces rest, slash ∉ s := fun s member => slash_not_mem (inside member)
  refine ⟨?_, isAbsolute_unsplit plain ?_, fun text => isUtf8_unsplit fun s member => ?_⟩
  · rw [segments_unsplit plain, filter_trimPieces, ← same, segments, parts, List.filter_append]
  · obtain ⟨_, _, _, _, _, first⟩ := trimPieces_spec rest
    rintro s head rfl
    cases first [] head
  · refine isUtf8_of_mem_split text ?_
    rw [start, split_slash]
    exact List.mem_cons_of_mem _ (inside member)

end Below

section Documents

theorem clean_slash (cs : List Char) : ∃ rest, Url.clean ('/' :: cs) = '/' :: rest := by
  have last : ∃ front, ((cs.reverse ++ ['/']).dropWhile fun c => decide (c.toNat ≤ 0x20)) =
      front ++ ['/'] := by
    rw [List.dropWhile_append]
    split
    · exact ⟨[], rfl⟩
    · exact ⟨_, rfl⟩
  obtain ⟨front, same⟩ := last
  refine ⟨front.reverse.filter fun c => c != '\t' && c != '\n' && c != '\r', ?_⟩
  have first : ('/' :: cs).dropWhile (fun c => decide (c.toNat ≤ 0x20)) = '/' :: cs := rfl
  simp only [Url.clean, first, List.reverse_cons, same, List.reverse_append]
  rfl

/-- A text that starts at the root has no scheme. -/
theorem scheme?_display {p : Path} (absolute : p.isAbsolute = true) (text : IsUtf8 p.bytes) :
    Url.scheme? (Url.clean p.display.toList) = none := by
  obtain ⟨bytes⟩ := p
  obtain ⟨cs, rfl⟩ := text
  have start := (pieces_of_absolute absolute).1
  cases cs with
  | nil => cases start
  | cons c cs =>
    obtain ⟨b, tail, bytes, _⟩ := utf8Head_utf8Char c
    have first : slash ∈ utf8Char c := by
      simp only [utf8Chars_cons, bytes, List.cons_append, List.cons.injEq] at start
      rw [bytes, start.1]
      exact List.mem_cons_self
    have same : c = '/' :=
      Decidable.byContradiction fun other => slash_not_mem_utf8Char other first
    obtain ⟨rest, cleaned⟩ := clean_slash cs
    rw [display, utf8Lossy_utf8Chars, String.toList_ofList, same, cleaned]
    rfl

theorem ofFileUrlText?_display {p : Path} (absolute : p.isAbsolute = true) (text : IsUtf8 p.bytes) :
    ofFileUrlText? p.display = none := by
  rw [ofFileUrlText?, Url.parse, scheme?_display absolute text]
  rfl

theorem documentPath_display {p : Path} (absolute : p.isAbsolute = true) (text : IsUtf8 p.bytes) :
    documentPath p.display = p := by
  rw [documentPath, ofFileUrlText?_display absolute text, Option.getD_none, ofText_display text]

theorem fileUri_of_absolute {project : Path} {path : String}
    (absolute : (project.child path).isAbsolute = true) : Output.fileUri project path =
      String.ofList ("file://".toList ++ encodeSegments (project.child path).segments) := by
  rw [Output.fileUri, fileUrl?, if_pos absolute]
  rfl

/-- The URI of a path is read as a path whose segments are known. -/
theorem documentPath_fileUri {project : Path} {path : String}
    (absolute : (project.child path).isAbsolute = true) :
    ReadFrom (project.child path).segments (documentPath (Output.fileUri project path)) := by
  obtain ⟨q, named, read⟩ := ofFileUrlText?_encodeSegments
    (fun s member => (of_mem_segments member).2) fun s member =>
      (of_mem_segments (p := project.child path) member).1
  rw [documentPath, fileUri_of_absolute absolute, named]
  exact read

/-- A name made of ordinary segments with single slashes between them. -/
def Ordinary (name : String) : Prop :=
  ∀ piece ∈ split (utf8 name), isIdle piece = false ∧ piece ≠ dotDot

instance (name : String) : Decidable (Ordinary name) :=
  inferInstanceAs (Decidable (∀ piece ∈ split (utf8 name), isIdle piece = false ∧ piece ≠ dotDot))

variable {root name : String}

theorem Ordinary.segments (ordinary : Ordinary name) :
    (ofText name).segments = split (utf8 name) := by
  rw [segments_eq]
  exact List.filter_eq_self.mpr fun s member => by simp [(ordinary s member).1]

theorem Ordinary.relative (ordinary : Ordinary name) : (ofText name).isAbsolute = false := by
  refine Bool.eq_false_iff.mpr fun absolute => ?_
  have start := congrArg split (pieces_of_absolute absolute).1
  rw [split_slash] at start
  cases (ordinary [] (start ▸ List.mem_cons_self)).1

theorem isUtf8_child (root name : String) : IsUtf8 ((ofText root).child name).bytes :=
  isUtf8_join (isUtf8_ofText root) (isUtf8_ofText name)

theorem unsplit_name : (⟨unsplit (split (utf8 name))⟩ : Path).display = name := by
  rw [unsplit_split]
  exact display_ofText name

/-- A file below a project, given as its path, is asked about under its name there. -/
theorem relativePath_child (absolute : (ofText root).isAbsolute = true)
    (ordinary : Ordinary name) :
    relativePath (ofText root) ((ofText root).child name).display = name := by
  have absolute' : ((ofText root).child name).isAbsolute = true := isAbsolute_join absolute
  obtain ⟨front, before, parts⟩ := pieces_join absolute ordinary.relative fun member => by
    cases (ordinary [] member).1
  have stripped := stripPrefix?_below absolute absolute' (fun s member => (ordinary s member).1)
    (split_ne_nil _) before (List.forall_mem_nil _)
    (parts.trans (congrArg (front ++ ·) (List.append_nil _).symm))
  rw [relativePath, documentPath_display absolute' (isUtf8_child root name), stripped,
    Option.getD_some, unsplit_name]

theorem Ordinary.child (ordinary : Ordinary name) :
    ((ofText root).child name).segments = (ofText root).segments ++ split (utf8 name) := by
  rw [Path.child, segments_join ordinary.relative, ordinary.segments]

/-- A file that is asked about under its name below the project has kept its segments on the way
through its URI. -/
theorem segments_of_relativePath {q : Path} (absolute : (ofText root).isAbsolute = true)
    (absolute' : q.isAbsolute = true) (text : IsUtf8 q.bytes) (ordinary : Ordinary name)
    (same : ((q.stripPrefix? (ofText root)).getD q).display = name) :
    q.segments = ((ofText root).child name).segments := by
  cases stripped : q.stripPrefix? (ofText root) with
  | none =>
    rw [stripped, Option.getD_none] at same
    have whole := ofText_display text
    rw [same] at whole
    rw [← whole, ordinary.relative] at absolute'
    cases absolute'
  | some r =>
    obtain ⟨parts, _, texts⟩ := of_stripPrefix? absolute absolute' stripped
    rw [stripped, Option.getD_some] at same
    rw [parts, ← ofText_display (texts text), same, child, segments_join ordinary.relative]

/-- A file below a project is asked about under its name there, whatever characters are in it; but
where it is given as the URI that its diagnostics are published under, just when the project's path
has no `..` and no drive letter with a bar stands at its front. -/
theorem relativePath_fileUri (absolute : (ofText root).isAbsolute = true)
    (ordinary : Ordinary name) :
    relativePath (ofText root) ((ofText root).child name).display = name ∧
    (relativePath (ofText root) (Output.fileUri (ofText root) name) = name ↔
      dotDot ∉ (ofText root).segments ∧
        barsDrive ((ofText root).child name).segments = false) := by
  have absolute' : ((ofText root).child name).isAbsolute = true := isAbsolute_join absolute
  have read := documentPath_fileUri absolute'
  have level (free : dotDot ∉ (ofText root).segments) :
      dotDot ∉ ((ofText root).child name).segments := by
    rw [ordinary.child]
    exact fun member => (List.mem_append.mp member).elim free fun inName =>
      (ordinary _ inName).2 rfl
  refine ⟨relativePath_child absolute ordinary, fun same => ?_, fun ⟨free, unbarred⟩ => ?_⟩
  · have kept := segments_of_relativePath absolute read.absolute
      (read.text fun s member => isUtf8_of_mem_split (isUtf8_child root name) ?_) ordinary same
    have forward : dotDot ∉ ((ofText root).child name).segments := by
      rw [← kept]
      exact fun member => read.forward ((List.mem_filter.mp member).1)
    refine ⟨fun member => forward ?_, ?_⟩
    · rw [ordinary.child]
      exact List.mem_append_left _ member
    · obtain ⟨idle, nothing, parts⟩ := read.pieces forward
      refine Bool.eq_false_iff.mpr fun bars => ?_
      obtain ⟨c, rest, letter, whole⟩ := of_barsDrive bars
      have shown : isIdle [c, 0x3a] = false := by simp [isIdle, dot]
      have first : rootedPieces ([c, 0x3a] :: rest) = [c, 0x3a] :: rest := rfl
      rw [segments, parts, whole, colonDrive_of_letter letter, first, List.cons_append,
        List.filter_cons_of_pos (by rw [shown]; rfl)] at kept
      cases (List.cons.inj kept).1
    · rw [segments_eq] at member
      exact (List.mem_filter.mp member).1
  · obtain ⟨idle, nothing, parts⟩ := read.pieces (level free)
    have some : rootedPieces ((ofText root).segments ++ split (utf8 name)) =
        (ofText root).segments ++ split (utf8 name) :=
      if_neg fun empty => split_ne_nil _ (List.append_eq_nil_iff.mp (List.isEmpty_iff.mp empty)).2
    rw [colonDrive_of_not_barsDrive unbarred, ordinary.child, some, List.append_assoc] at parts
    have stripped := stripPrefix?_below absolute read.absolute
      (fun s member => (ordinary s member).1) (split_ne_nil _)
      (List.filter_eq_self.mpr fun s member => by simp [(of_mem_segments member).1])
      (fun s member => by rw [nothing s member]; rfl) parts
    rw [relativePath, stripped, Option.getD_some, unsplit_name]

theorem relativePath_fileUri_of_marks :
    relativePath (ofText "/a |b") ((ofText "/a |b").child "50%/#é?\\.js").display =
        "50%/#é?\\.js" ∧
      relativePath (ofText "/a |b") (Output.fileUri (ofText "/a |b") "50%/#é?\\.js") =
        "50%/#é?\\.js" :=
  have both := @relativePath_fileUri "/a |b" "50%/#é?\\.js" rfl (by decide +kernel)
  ⟨both.1, both.2.mpr ⟨by decide +kernel, by decide +kernel⟩⟩

/-- In a project whose path goes through `..` the URI of a file is read as that of another. -/
theorem not_relativePath_fileUri : ¬∀ root name : String, (ofText root).isAbsolute = true →
    Ordinary name → relativePath (ofText root) (Output.fileUri (ofText root) name) = name := by
  intro all
  have asked : relativePath (ofText "/work/../app")
      (Output.fileUri (ofText "/work/../app") "a.js") = "/app/a.js" := by decide +kernel
  have name := all "/work/../app" "a.js" rfl (by decide +kernel)
  rw [asked] at name
  exact absurd name (by decide)

end Documents

end Engine

end LintBridge
