import LintBridge.Proofs.Path.Display
import LintBridge.Proofs.Url.Reading

namespace LintBridge

namespace Url

section Settled

open LintBridge.Path (coloned opened fileSegments_eq)

/-- Pieces that a file URL keeps as they are: each has a name that is no step to elsewhere, and the
first is no drive letter with a bar. -/
structure Settled (pieces : List (List Char)) : Prop where
  some : pieces ≠ []
  named : ∀ s ∈ pieces, s ≠ [] ∧ isDot s = false ∧ isDotDot s = false
  plain : ∀ s ∈ pieces, ∀ c ∈ s, Percent.isNameChar c = true ∧ c ≠ '|'

variable {pieces : List (List Char)}

theorem Settled.followDots (settled : Settled pieces) (kept : List (List Char)) :
    followDots kept pieces = kept.reverse ++ pieces := by
  have all : ∀ pieces' ⊆ pieces, ∀ kept, Url.followDots kept pieces' = kept.reverse ++ pieces' := by
    intro pieces' inside
    induction pieces' with
    | nil => exact fun kept => (List.append_nil _).symm
    | cons piece more ih =>
      intro kept
      have member := inside List.mem_cons_self
      obtain ⟨_, here, above⟩ := settled.named piece member
      rw [Url.followDots, here, above, if_neg Bool.false_ne_true, if_neg Bool.false_ne_true,
        Percent.encodeChars_of_isNameChar fun c own => (settled.plain piece member c own).1,
        ih fun s later => inside (List.mem_cons_of_mem piece later), List.reverse_cons,
        List.append_assoc, List.singleton_append]
  exact all pieces (List.Subset.refl pieces) kept

/-- What comes of some pieces, beside what comes of them with settled ones behind: the same and the
settled ones, less empty pieces at the end. -/
def Extends (own : List (List Char)) (below : List (List Char) → List (List Char)) : Prop :=
  ∃ front idle, own = front ++ idle ∧ (∀ s ∈ idle, s = []) ∧
    ∀ pieces, Settled pieces → below pieces = front ++ pieces

theorem followDots_extends (kept front : List (List Char)) :
    Extends (followDots kept front) fun pieces => followDots kept (front ++ pieces) := by
  induction front generalizing kept with
  | nil =>
    exact ⟨kept.reverse, [], (List.append_nil _).symm, nofun, fun _ settled =>
      settled.followDots kept⟩
  | cons piece front ih =>
    -- a piece that is followed leaves an empty one only where nothing comes behind it
    have ending (kept : List (List Char)) : Extends
        (if front.isEmpty then followDots ([] :: kept) front else followDots kept front)
        fun pieces => if (front ++ pieces).isEmpty then followDots ([] :: kept) (front ++ pieces)
          else followDots kept (front ++ pieces) := by
      have further {pieces : List (List Char)} (settled : Settled pieces) :
          ¬(front ++ pieces).isEmpty = true := fun none =>
        settled.some (List.append_eq_nil_iff.mp (List.isEmpty_iff.mp none)).2
      cases front with
      | nil =>
        refine ⟨kept.reverse, [[]], ?_, fun s member => List.mem_singleton.mp member,
          fun pieces settled => ?_⟩
        · rw [List.isEmpty_nil, if_pos rfl, followDots, List.reverse_cons]
        · exact (if_neg (further settled)).trans (settled.followDots kept)
      | cons next front =>
        obtain ⟨steps, idle, whole, none, below⟩ := ih kept
        exact ⟨steps, idle, whole, none, fun pieces settled =>
          (if_neg (further settled)).trans (below pieces settled)⟩
    simp only [List.cons_append, followDots]
    split
    · exact ending _
    split
    · exact ending _
    · exact ih _

theorem Settled.dropWhile (settled : Settled pieces) :
    pieces.dropWhile List.isEmpty = pieces := by
  obtain ⟨piece, more, rfl⟩ := List.exists_cons_of_ne_nil settled.some
  have shown : piece.isEmpty = false :=
    List.isEmpty_eq_false_iff.mpr (settled.named piece List.mem_cons_self).1
  rw [List.dropWhile_cons, shown]
  rfl

theorem Settled.coloned (settled : Settled pieces) : coloned pieces = pieces := by
  unfold Path.coloned
  split
  · rename_i c m more
    split
    · rename_i drive
      simp only [isDrive, Bool.and_eq_true, Bool.or_eq_true, beq_iff_eq] at drive
      have unbarred := (settled.plain [c, m] List.mem_cons_self m (by simp)).2
      rw [drive.2.resolve_right unbarred]
    · rfl
  · rfl

theorem opened_append {front more : List (List Char)} (some : more.dropWhile List.isEmpty = more)
    (first : more ≠ []) : opened (front ++ more) = front.dropWhile List.isEmpty ++ more := by
  rw [opened, List.dropWhile_append, some]
  cases front.dropWhile List.isEmpty with
  | nil => cases more with
    | nil => exact absurd rfl first
    | cons => rfl
  | cons => rfl

theorem coloned_append (piece : List Char) (front more : List (List Char)) :
    coloned (piece :: front ++ more) = coloned (piece :: front) ++ more := by
  match piece with
  | [] => rfl
  | [_] => rfl
  | [c, m] =>
    simp only [coloned, List.cons_append]
    split <;> rfl
  | _ :: _ :: _ :: _ => rfl

/-- In a file URL only empty pieces in front are lost, and the colon for a bar is in front. -/
theorem Extends.fileSegments {own : List (List Char)} {below : List (List Char) → List (List Char)}
    (grows : Extends own below) :
    Extends (fileSegments own) fun pieces => fileSegments (below pieces) := by
  obtain ⟨steps, idle, rfl, none, with'⟩ := grows
  have empty : idle.dropWhile List.isEmpty = [] :=
    List.dropWhile_eq_nil_iff.mpr fun s member => by rw [none s member]; rfl
  cases steps with
  | nil =>
    refine ⟨[], [[]], ?_, fun s member => List.mem_singleton.mp member, fun pieces settled => ?_⟩
    · have same : coloned idle = idle := by
        cases idle with
        | nil => rfl
        | cons s idle =>
          rw [none s List.mem_cons_self]
          rfl
      rw [List.nil_append, fileSegments_eq, same, opened, empty]
      rfl
    · refine (congrArg Url.fileSegments (with' pieces settled)).trans ?_
      rw [List.nil_append, fileSegments_eq, settled.coloned]
      exact @opened_append [] pieces settled.dropWhile settled.some
  | cons piece steps =>
    have behind (pieces : List (List Char)) (settled : Settled pieces) :
        Url.fileSegments (below pieces) =
          (coloned (piece :: steps)).dropWhile List.isEmpty ++ pieces := by
      rw [with' pieces settled, fileSegments_eq, coloned_append,
        opened_append settled.dropWhile settled.some]
    rw [fileSegments_eq, coloned_append, opened, List.dropWhile_append, empty]
    cases shown : (coloned (piece :: steps)).dropWhile List.isEmpty with
    | nil =>
      rw [shown] at behind
      exact ⟨[], [[]], rfl, fun s member => List.mem_singleton.mp member, behind⟩
    | cons first front =>
      rw [shown] at behind
      exact ⟨first :: front, idle, rfl, none, behind⟩

/-- The text of a path behind its root. -/
def behindRoot (cs : List Char) : List Char :=
  match cs with
  | c :: rest => if isSeparator true c then rest else cs
  | [] => []

theorem readPath_file (cs : List Char) : (readPath "file" cs).toList =
    rooted (fileSegments (followDots [] (splitPath true (behindRoot cs)))) := by
  have special : isSpecial "file" = true := by decide
  have file : ("file" == "file") = true := by decide
  have some : ¬(cs.isEmpty && !true) = true := by simp
  unfold readPath
  rw [special]
  dsimp only
  rw [if_neg some, if_pos file, String.toList_ofList]
  rfl

theorem splitPath_behindRoot (cs more : List Char) :
    splitPath true (behindRoot (cs ++ '/' :: more)) =
      (if cs = [] then [] else splitPath true (behindRoot cs)) ++ splitPath true more := by
  cases cs with
  | nil => rfl
  | cons c cs =>
    rw [if_neg (List.cons_ne_nil c cs), List.cons_append, behindRoot, behindRoot,
      ← splitPath_append_slash]
    split <;> rfl

/-- The path of a file URL with a name behind it is the path without the name, less empty pieces at
its end, and the name. -/
theorem readPath_append (cs : List Char) : ∃ front idle,
    (readPath "file" cs).toList = rooted (front ++ idle) ∧ (∀ s ∈ idle, s = []) ∧
    ∀ more, Settled (splitPath true more) →
      (readPath "file" (cs ++ '/' :: more)).toList = rooted (front ++ splitPath true more) := by
  have grows : Extends (followDots [] (splitPath true (behindRoot cs))) fun pieces =>
      followDots [] ((if cs = [] then [] else splitPath true (behindRoot cs)) ++ pieces) := by
    cases cs with
    | nil =>
      exact ⟨[], [[]], rfl, fun s member => List.mem_singleton.mp member, fun pieces settled =>
        settled.followDots []⟩
    | cons c cs =>
      simp only [List.cons_ne_nil, if_false]
      exact followDots_extends [] _
  obtain ⟨front, idle, whole, none, below⟩ := grows.fileSegments
  refine ⟨front, idle, ?_, none, fun more settled => ?_⟩
  · rw [readPath_file, whole]
  · rw [readPath_file, splitPath_behindRoot]
    exact congrArg rooted (below _ settled)

end Settled

section Pieces

variable {special : Bool} {cs piece : List Char}

theorem of_mem_splitPath (inside : piece ∈ splitPath special cs) {c : Char} (member : c ∈ piece) :
    c ∈ cs ∧ isSeparator special c = false := by
  induction cs generalizing piece with
  | nil =>
    rw [List.mem_singleton.mp inside] at member
    cases member
  | cons d cs ih =>
    obtain ⟨first, pieces, behind⟩ := List.exists_cons_of_ne_nil (splitPath_ne_nil special cs)
    rw [splitPath, behind] at inside
    split at inside
    · rcases List.mem_cons.mp inside with rfl | later
      · cases member
      · exact (ih (behind ▸ later) member).imp_left (List.mem_cons_of_mem d)
    · rename_i other
      rcases List.mem_cons.mp inside with rfl | later
      · rcases List.mem_cons.mp member with rfl | own
        · exact ⟨List.mem_cons_self, Bool.eq_false_iff.mpr other⟩
        · exact (ih (behind ▸ List.mem_cons_self) own).imp_left (List.mem_cons_of_mem d)
      · exact (ih (behind ▸ List.mem_cons_of_mem _ later) member).imp_left (List.mem_cons_of_mem d)

theorem rooted_splitPath (plain : '\\' ∉ cs) : rooted (splitPath true cs) = '/' :: cs := by
  induction cs with
  | nil => rfl
  | cons c cs ih =>
    have behind := ih fun member => plain (List.mem_cons_of_mem c member)
    rw [splitPath]
    split
    · rename_i part
      have slash : c = '/' := by
        simp only [isSeparator, Bool.true_and, Bool.or_eq_true, beq_iff_eq] at part
        exact part.resolve_right fun same => plain (same ▸ List.mem_cons_self)
      rw [rooted, behind, slash]
      rfl
    · obtain ⟨first, pieces, parts⟩ := List.exists_cons_of_ne_nil (splitPath_ne_nil true cs)
      rw [parts, rooted] at behind
      rw [parts]
      exact congrArg ('/' :: c :: ·) (List.cons.inj behind).2

/-- The first point of a piece in one of its spellings decodes to a point. -/
theorem of_plainDots {rest : List Char} (points : plainDots piece = '.' :: rest) :
    ∃ more, plainDots more = rest ∧
      Percent.decodeChars piece = 0x2e :: Percent.decodeChars more := by
  unfold plainDots at points
  split at points
  · exact ⟨_, (List.cons.inj points).2, rfl⟩
  · exact ⟨_, (List.cons.inj points).2, rfl⟩
  · obtain ⟨rfl, same⟩ := List.cons.inj points
    exact ⟨_, same, Percent.decode_of_ne (by decide) _⟩
  · cases points

theorem plainDots_eq_nil (none : plainDots piece = []) : piece = [] := by
  unfold plainDots at none
  split at none
  · cases none
  · cases none
  · cases none
  · rfl

theorem decodeChars_of_isDot (point : isDot piece = true) :
    Percent.decodeChars piece = Path.dot := by
  obtain ⟨more, none, bytes⟩ := of_plainDots (eq_of_beq (Bool.and_eq_true_iff.mp point).2)
  rw [bytes, plainDots_eq_nil none]
  rfl

theorem decodeChars_of_isDotDot (points : isDotDot piece = true) :
    Percent.decodeChars piece = Path.dotDot := by
  obtain ⟨more, point, bytes⟩ := of_plainDots (eq_of_beq (Bool.and_eq_true_iff.mp points).2)
  obtain ⟨more', none, bytes'⟩ := of_plainDots point
  rw [bytes, bytes', plainDots_eq_nil none]
  rfl

theorem decodeChars_slash (rest : List Char) :
    Percent.decodeChars ('/' :: rest) = Path.slash :: Percent.decodeChars rest :=
  Percent.decode_of_ne (by decide) _

/-- A path from a URL decodes to its pieces with slashes in front. -/
theorem split_decodeChars_rooted (pieces : List (List Char)) :
    Path.split (Percent.decodeChars (rooted pieces)) =
      [] :: pieces.flatMap fun s => Path.split (Percent.decodeChars s) := by
  induction pieces with
  | nil => rfl
  | cons piece pieces ih =>
    rw [rooted, decodeChars_slash, Path.split_slash, List.flatMap_cons]
    refine congrArg ([] :: ·) ?_
    cases pieces with
    | nil => rw [rooted, List.append_nil, List.flatMap_nil, List.append_nil]
    | cons next pieces =>
      rw [rooted, decodeChars_slash, Path.split_slash] at ih
      rw [rooted, Percent.decodeChars, utf8Chars_append, Path.utf8Chars_slash,
        Percent.decode_append (by decide) (by decide), Path.split_append_slash,
        ← Percent.decodeChars, ← Percent.decodeChars, (List.cons.inj ih).2]

theorem flatMap_splitPath (plain : '\\' ∉ cs) :
    ((splitPath true cs).flatMap fun s => Path.split (Percent.decodeChars s)) =
      Path.split (Percent.decodeChars cs) := by
  have parts := split_decodeChars_rooted (splitPath true cs)
  rw [rooted_splitPath plain, decodeChars_slash, Path.split_slash] at parts
  exact (List.cons.inj parts).2.symm

end Pieces

end Url

namespace Path

/-- Whether a text is a URI of a file, which its scheme says. -/
def IsFileUri (uri : String) : Prop :=
  (Url.scheme? (Url.clean uri.toList)).map Prod.fst = some "file"

instance (uri : String) : Decidable (IsFileUri uri) :=
  inferInstanceAs (Decidable (_ = some "file"))

theorem scheme_of_parse {uri : String} {url : Url} (parsed : Url.parse uri = .ok url) :
    (Url.scheme? (Url.clean uri.toList)).map Prod.fst = some url.scheme := by
  rw [Url.parse] at parsed
  split at parsed
  · rename_i scheme rest found
    rw [found, Option.map_some, Url.scheme_readBody parsed]
  · cases parsed

/-- A file URL is read as any other URL; other URLs are not read. -/
theorem ofFileUrlText?_eq (uri : String) :
    ofFileUrlText? uri = if IsFileUri uri then ofUrlText? uri else none := by
  rw [ofFileUrlText?, ofUrlText?]
  cases parsed : Url.parse uri with
  | error => exact (ite_self _).symm
  | ok url =>
    have scheme := scheme_of_parse parsed
    have same : IsFileUri uri ↔ url.scheme = "file" := by
      rw [IsFileUri, scheme, Option.some.injEq]
    change ((some url).filter fun u => u.scheme == "file").bind ofUrl? = _
    simp only [Option.filter, beq_iff_eq, same]
    split <;> rfl

theorem closeDrive_spec (bs : Bytes) : ∃ idle, (∀ s ∈ idle, s = []) ∧
    split (closeDrive bs) = split bs ++ idle := by
  rcases closeDrive_eq bs with same | closed
  · exact ⟨[], nofun, by rw [same, List.append_nil]⟩
  · exact ⟨[[]], fun s member => List.mem_singleton.mp member, by
      rw [closed, split_append_slash]
      rfl⟩

theorem of_ofUrl? {url : Url} {q : Path} (named : ofUrl? url = some q) :
    (∀ host ∈ url.authority.bind Authority.host, host = .domain "localhost") ∧
      url.path.startsWith "/" = true ∧ q = ⟨closeDrive (Percent.decodeChars url.path.toList)⟩ := by
  unfold ofUrl? at named
  dsimp only at named
  split at named
  · rename_i served
    obtain ⟨rooted, same⟩ := Option.ite_none_right_eq_some.mp named
    exact ⟨by rw [served]; exact nofun, (Bool.and_eq_true_iff.mp rooted).2,
      (Option.some.inj same).symm⟩
  · rename_i host served
    obtain ⟨rooted, same⟩ := Option.ite_none_right_eq_some.mp named
    simp only [Bool.and_eq_true, beq_iff_eq] at rooted
    refine ⟨fun host' own => ?_, rooted.2, (Option.some.inj same).symm⟩
    rw [served] at own
    exact Option.mem_some.mp own ▸ rooted.1.1

theorem parse_of_ofUrlText? {uri : String} {q : Path} (named : ofUrlText? uri = some q) :
    ∃ url, Url.parse uri = .ok url ∧ ofUrl? url = some q := by
  rw [ofUrlText?] at named
  cases read : Url.parse uri with
  | error =>
    rw [read] at named
    cases named
  | ok url =>
    rw [read] at named
    exact ⟨url, rfl, named⟩

/-- What a URL of any scheme names is a path from the root. -/
theorem isAbsolute_of_ofUrlText? {uri : String} {q : Path} (named : ofUrlText? uri = some q) :
    q.isAbsolute = true := by
  obtain ⟨url, _, located⟩ := parse_of_ofUrlText? named
  obtain ⟨_, start, rfl⟩ := of_ofUrl? located
  rw [String.startsWith_string_iff] at start
  obtain ⟨rest, whole⟩ := start
  have bytes : Percent.decodeChars url.path.toList = slash :: Percent.decodeChars rest := by
    rw [← whole]
    exact Url.decodeChars_slash rest
  rw [bytes]
  rcases closeDrive_eq (slash :: Percent.decodeChars rest) with same | closed
  · rw [same]
    rfl
  · rw [closed]
    rfl

/-- A path from a URL has the pieces that those of the URL decode to. -/
theorem closeDrive_rooted {pieces : List (List Char)} (some : pieces ≠ []) :
    (⟨closeDrive (Percent.decodeChars (Url.rooted pieces))⟩ : Path).isAbsolute = true ∧
    ∃ idle, (∀ s ∈ idle, s = []) ∧
      (⟨closeDrive (Percent.decodeChars (Url.rooted pieces))⟩ : Path).pieces =
        (pieces.flatMap fun s => split (Percent.decodeChars s)) ++ idle := by
  obtain ⟨idle, none, parts⟩ := closeDrive_spec (Percent.decodeChars (Url.rooted pieces))
  rw [Url.split_decodeChars_rooted, List.cons_append] at parts
  have absolute : (⟨closeDrive (Percent.decodeChars (Url.rooted pieces))⟩ : Path).isAbsolute =
      true := by
    refine isAbsolute_iff_split.mpr ⟨_, parts, List.append_ne_nil_of_left_ne_nil ?_ _⟩
    obtain ⟨piece, more, rfl⟩ := List.exists_cons_of_ne_nil some
    exact List.append_ne_nil_of_left_ne_nil (split_ne_nil _) _
  refine ⟨absolute, idle, none, ?_⟩
  rw [pieces_eq, if_pos absolute, parts, List.tail_cons]

theorem of_ofUrlText? {uri : String} {root : Path} (query : '?' ∉ uri.toList)
    (fragment : '#' ∉ uri.toList) (file : IsFileUri uri) (named : ofUrlText? uri = some root) :
    ∃ rest path, Url.scheme? (Url.clean uri.toList) = some ("file", rest) ∧
      Url.fileParts rest = .ok (none, path) ∧
      (Url.readPath "file" path).startsWith "/" = true ∧
      root = ⟨closeDrive (Percent.decodeChars (Url.readPath "file" path).toList)⟩ := by
  obtain ⟨url, parsed, located⟩ := parse_of_ofUrlText? named
  have scheme := (scheme_of_parse parsed).symm.trans file
  obtain ⟨rest, found, body⟩ := (Url.parse_eq_ok_iff query fragment).mp parsed
  rw [Option.some.inj scheme] at found body
  rw [Url.readBody_file] at body
  cases parts : Url.fileParts rest with
  | error =>
    rw [parts] at body
    cases body
  | ok found' =>
    obtain ⟨host, path⟩ := found'
    rw [parts] at body
    cases body
    obtain ⟨here, rooted, rfl⟩ := of_ofUrl? located
    cases host with
    | none => exact ⟨rest, path, found, parts, rooted, rfl⟩
    | some host =>
      rw [here host rfl] at parts
      exact absurd rfl (Url.host_of_fileParts parts)

/-- What a file URL is read as with a name behind it. The path of the URL is cut into pieces, and
those of the name come next. -/
theorem ofFileUrlText?_append {uri : String} {root : Path} (stem : Url.Stem uri.toList)
    (file : IsFileUri uri) (named : ofUrlText? uri = some root) :
    ∃ front : List Bytes, front.filter (fun s => !isIdle s) = root.segments ∧
      ∀ name, Url.Inside name → Url.Settled (Url.splitPath true name) → ∃ q idle,
        ofFileUrlText? (String.ofList (uri.toList ++ '/' :: name)) = some q ∧
        q.isAbsolute = true ∧ (∀ s ∈ idle, s = []) ∧
        q.pieces = front ++ (split (Percent.decodeChars name) ++ idle) := by
  obtain ⟨rest, path, found, parts, rooted, rfl⟩ :=
    of_ofUrlText? stem.query stem.fragment file named
  obtain ⟨front, idle, whole, none, below⟩ := Url.readPath_append path
  have some : front ++ idle ≠ [] := by
    intro empty
    rw [String.startsWith_string_iff, whole, empty] at rooted
    exact absurd rooted (by decide)
  have nothing {idle : List Bytes} (none : ∀ s ∈ idle, s = []) :
      idle.filter (fun s => !isIdle s) = [] :=
    List.filter_eq_nil_iff.mpr fun s member => by rw [none s member]; decide
  refine ⟨front.flatMap fun s => split (Percent.decodeChars s), ?_, fun name inside settled => ?_⟩
  · obtain ⟨_, idle', none', pieces⟩ := closeDrive_rooted some
    have none'' : ∀ s ∈ idle.flatMap fun s => split (Percent.decodeChars s), s = [] := by
      intro s member
      obtain ⟨piece, inside, own⟩ := List.mem_flatMap.mp member
      rw [none piece inside] at own
      exact List.mem_singleton.mp own
    rw [segments, whole, pieces, List.flatMap_append, List.filter_append, List.filter_append,
      nothing none', nothing none'', List.append_nil, List.append_nil]
  · have some' : front ++ Url.splitPath true name ≠ [] :=
      List.append_ne_nil_of_right_ne_nil _ settled.some
    obtain ⟨absolute, idle', none', pieces⟩ := closeDrive_rooted some'
    refine ⟨_, idle', ?_, absolute, none', ?_⟩
    · have first : ∀ c ∈ name.head?, Url.isSeparator true c = false := by
        intro c head
        obtain ⟨more, rfl⟩ := List.head?_eq_some_iff.mp head
        refine Bool.eq_false_iff.mpr fun part => ?_
        rw [Url.splitPath, if_pos part] at settled
        exact (settled.named [] List.mem_cons_self).1 rfl
      have parsed := Url.parse_append stem found parts inside first
      obtain ⟨piece, more, start⟩ := List.exists_cons_of_ne_nil some'
      have path' := below name settled
      rw [start, Url.rooted] at path'
      have file' : IsFileUri (String.ofList (uri.toList ++ '/' :: name)) := scheme_of_parse parsed
      rw [ofFileUrlText?_eq, if_pos file', ofUrlText?, parsed]
      refine (ofUrl?_file path').trans ?_
      rw [below name settled]
    · have straight : '\\' ∉ name := fun member =>
        (inside.printed _ (List.mem_cons_of_mem _ member)).2.2.2 rfl
      rw [pieces, List.flatMap_append, List.append_assoc, Url.flatMap_splitPath straight]

end Path

end LintBridge
