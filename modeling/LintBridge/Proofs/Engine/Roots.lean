import LintBridge.Proofs.Engine.Relative
import LintBridge.Proofs.Url.Below
import LintBridge.Rpc.Message

namespace LintBridge

namespace Engine

open LintBridge.Path

/-- A text that a relative path can stand as in a URI: its characters may stand in a path there, and
decoded it has the bytes of the path. A bar may not, which is read as the colon of a drive. -/
structure Encodes (encoded name : String) : Prop where
  plain : ∀ c ∈ encoded.toList, c = '/' ∨ Percent.isNameChar c = true ∧ c ≠ '|'
  bytes : Percent.decodeChars encoded.toList = utf8 name

instance (encoded name : String) : Decidable (Encodes encoded name) :=
  decidable_of_iff ((encoded.toList.all fun c => c == '/' || Percent.isNameChar c && c != '|') ∧
      Percent.decodeChars encoded.toList = utf8 name) <| by
    simp only [List.all_eq_true, Bool.or_eq_true, beq_iff_eq, Bool.and_eq_true, bne_iff_ne]
    exact ⟨fun ⟨plain, bytes⟩ => ⟨plain, bytes⟩, fun ⟨plain, bytes⟩ => ⟨plain, bytes⟩⟩

/-- A path that is percent-encoded is such a text, whatever else than slashes and marks of a file
name stays as it is. -/
theorem encodes_encode {keep : UInt8 → Bool}
    (kept : ∀ b, keep b = true → b = slash ∨ Percent.inFileName b = true ∧ b ≠ 0x7c)
    (name : String) : Encodes (String.ofList (Percent.encode keep (utf8 name))) name := by
  constructor
  · rw [String.toList_ofList]
    intro c member
    obtain ⟨b, _, inByte⟩ := List.mem_flatMap.mp member
    rw [Percent.encodeByte] at inByte
    split at inByte
    · rename_i own
      have char := List.mem_singleton.mp inByte
      refine (kept b own).imp (fun same => by rw [char, same]; rfl) fun name => ⟨?_, ?_⟩
      · refine Percent.isNameChar_of_mem_encodeByte (b := b) ?_
        rw [Percent.encodeByte, if_pos name.1]
        exact inByte
      · rintro rfl
        have byte := char_of_byte b
        rw [← char] at byte
        exact name.2 byte.symm
    · have each : ∀ n : Fin 256, ((Percent.escape (UInt8.ofNat n)).all fun c =>
          Percent.isNameChar c && c != '|') = true := by decide +kernel
      have own := each ⟨b.toNat, b.toNat_lt⟩
      rw [UInt8.ofNat_toNat] at own
      simpa using Or.inr (List.all_eq_true.mp own c inByte)
  · have plain : ∀ b, keep b = true → b ≠ 0x25 ∧ b.toNat < 0x80 := fun b own =>
      (kept b own).elim (fun same => by rw [same]; decide) fun name =>
        Percent.inFileName_bounds name.1
    have whole := Percent.decode_encode plain (utf8 name) []
    rw [List.append_nil] at whole
    rw [String.toList_ofList]
    exact whole.trans (List.append_nil _)

section Below

variable {uri encoded name : String} {root : Path}

theorem Encodes.inside (encodes : Encodes encoded name) : Url.Inside encoded.toList :=
  fun c member => (encodes.plain c member).imp_right And.left

/-- No piece of an encoded name is followed when it is read in a URL. -/
theorem Encodes.settled (encodes : Encodes encoded name) (ordinary : Ordinary name) :
    Url.Settled (Url.splitPath true encoded.toList) := by
  have straight : '\\' ∉ encoded.toList := fun member =>
    (encodes.inside.printed _ (List.mem_cons_of_mem _ member)).2.2.2 rfl
  have parts := Url.flatMap_splitPath straight
  rw [encodes.bytes] at parts
  have own {piece : List Char} (member : piece ∈ Url.splitPath true encoded.toList)
      {s : Bytes} (inside : s ∈ split (Percent.decodeChars piece)) :
      isIdle s = false ∧ s ≠ dotDot :=
    ordinary s (parts ▸ List.mem_flatMap.mpr ⟨piece, member, inside⟩)
  refine ⟨Url.splitPath_ne_nil true _, fun piece member => ⟨?_, ?_, ?_⟩,
    fun piece member c inside => ?_⟩
  · rintro rfl
    cases (own member List.mem_cons_self).1
  · refine Bool.eq_false_iff.mpr fun point => ?_
    have bytes := Url.decodeChars_of_isDot point
    cases (own member (s := dot) (by rw [bytes]; exact List.mem_cons_self)).1
  · refine Bool.eq_false_iff.mpr fun points => ?_
    have bytes := Url.decodeChars_of_isDotDot points
    exact (own member (s := dotDot) (by rw [bytes]; exact List.mem_cons_self)).2 rfl
  · obtain ⟨among, part⟩ := Url.of_mem_splitPath member inside
    refine (encodes.plain c among).resolve_left fun slash => ?_
    rw [slash] at part
    cases part

theorem toList_below (uri encoded : String) :
    uri ++ "/" ++ encoded = String.ofList (uri.toList ++ '/' :: encoded.toList) := by
  refine String.toList_inj.mp ?_
  rw [String.toList_ofList, String.toList_append, String.toList_append, List.append_assoc]
  rfl

/-- A document below a URI of a file is asked about by its name there. -/
theorem relativePath_of_isFileUri (stem : Url.Stem uri.toList) (file : IsFileUri uri)
    (named : ofUrlText? uri = some root) (ordinary : Ordinary name)
    (encodes : Encodes encoded name) : relativePath root (uri ++ "/" ++ encoded) = name := by
  obtain ⟨front, before, below⟩ := ofFileUrlText?_append stem file named
  obtain ⟨q, idle, read, absolute, nothing, parts⟩ :=
    below encoded.toList encodes.inside (encodes.settled ordinary)
  rw [encodes.bytes] at parts
  have stripped := stripPrefix?_below (isAbsolute_of_ofUrlText? named) absolute
    (fun s member => (ordinary s member).1) (split_ne_nil _) before
    (fun s member => by rw [nothing s member]; rfl) parts
  rw [relativePath, documentPath, toList_below, read, Option.getD_some, stripped,
    Option.getD_some, unsplit_name]

/-- A document below any other URI is asked about by its own URI. -/
theorem relativePath_of_not_isFileUri (stem : Url.Stem uri.toList) (other : ¬IsFileUri uri)
    (named : ofUrlText? uri = some root) (encodes : Encodes encoded name) :
    relativePath root (uri ++ "/" ++ encoded) = uri ++ "/" ++ encoded := by
  obtain ⟨url, parsed, _⟩ := parse_of_ofUrlText? named
  obtain ⟨⟨scheme, rest⟩, found, _⟩ := Option.map_eq_some_iff.mp (scheme_of_parse parsed)
  have found' := Url.scheme?_clean_append stem encodes.inside found
  rw [IsFileUri, found, Option.map_some] at other
  have unread : ofFileUrlText? (uri ++ "/" ++ encoded) = none := by
    rw [ofFileUrlText?_eq, toList_below]
    refine if_neg fun file => other ?_
    rwa [IsFileUri, String.toList_ofList, found', Option.map_some] at file
  have relative : (ofText (uri ++ "/" ++ encoded)).isAbsolute = false := by
    refine Bool.eq_false_iff.mpr fun absolute => ?_
    have none := scheme?_display absolute (isUtf8_ofText _)
    rw [display_ofText, toList_below, String.toList_ofList, found'] at none
    cases none
  have outside : (ofText (uri ++ "/" ++ encoded)).stripPrefix? root = none := by
    rw [stripPrefix?, if_pos (isAbsolute_of_ofUrlText? named), relative,
      if_neg Bool.false_ne_true]
  rw [relativePath, documentPath, unread, Option.getD_none, outside, Option.getD_none,
    display_ofText]

/-- A document's URI is longer than the path that it is named by. -/
theorem below_ne_name (uri : String) (encodes : Encodes encoded name) :
    uri ++ "/" ++ encoded ≠ name := by
  intro same
  have bytes : utf8 (uri ++ "/" ++ encoded) = utf8 uri ++ slash :: utf8 encoded := by
    rw [toList_below, utf8, String.toList_ofList, utf8Chars_append, utf8Chars_slash]
    rfl
  have short : (Percent.decodeChars encoded.toList).length ≤ (utf8 encoded).length :=
    Percent.length_decode_le _
  rw [encodes.bytes, ← same, bytes, List.length_append, List.length_cons] at short
  omega

theorem projectRoot?_eq_some_iff :
    (⟨some uri, none⟩ : Rpc.InitializeParams).projectRoot? = some root ↔
      ofUrlText? uri = some root := by
  rw [Rpc.InitializeParams.projectRoot?, Option.bind_some]
  cases ofUrlText? uri with
  | none => exact ⟨nofun, nofun⟩
  | some place => exact Iff.rfl

/-- The editor names a project by a URI, from which the directory is derived whatever path is given
beside it, and a document in it by that URI with an encoded name behind. The engine is asked about
the document by its name just when the URI is one of a file: of the URIs that can be read as a
directory only those of files can be read as a document. The name is encoded whichever marks of a
file name are kept as they are. -/
theorem relativePath_below_root (stem : Url.Stem uri.toList)
    (derived : (⟨some uri, none⟩ : Rpc.InitializeParams).projectRoot? = some root)
    (ordinary : Ordinary name) (encodes : Encodes encoded name) :
    (∀ rootPath, (⟨some uri, rootPath⟩ : Rpc.InitializeParams).projectRoot? = some root) ∧
    (relativePath root (uri ++ "/" ++ encoded) = name ↔ IsFileUri uri) ∧
    (∀ uri' place, ofFileUrlText? uri' = some place ↔
      (⟨some uri', none⟩ : Rpc.InitializeParams).projectRoot? = some place ∧ IsFileUri uri') ∧
    ∀ keep : UInt8 → Bool,
      (∀ b, keep b = true → b = slash ∨ Percent.inFileName b = true ∧ b ≠ 0x7c) →
      Encodes (String.ofList (Percent.encode keep (utf8 name))) name := by
  have named := projectRoot?_eq_some_iff.mp derived
  refine ⟨fun rootPath => ?_, ⟨fun same => ?_, fun file => ?_⟩, fun uri' place => ?_,
    fun keep kept => encodes_encode kept name⟩
  · rw [Rpc.InitializeParams.projectRoot?, Option.bind_some, named]
  · refine Decidable.byContradiction fun other => below_ne_name uri encodes ?_
    rw [← same, relativePath_of_not_isFileUri stem other named encodes]
  · exact relativePath_of_isFileUri stem file named ordinary encodes
  · rw [ofFileUrlText?_eq, projectRoot?_eq_some_iff, Option.ite_none_right_eq_some, and_comm]

/-- A document with an accent below a project with a blank in its path, and the same below a scheme
of the editor's own. -/
theorem relativePath_below_root_of_schemes :
    relativePath (ofText "/a b") ("file://localhost/a%20b" ++ "/" ++ "%C3%A9/x%2By.js") =
        "é/x+y.js" ∧
      relativePath (ofText "/a b") ("memfs:/a%20b" ++ "/" ++ "%C3%A9/x%2By.js") ≠ "é/x+y.js" :=
  have name : Ordinary "é/x+y.js" := by decide +kernel
  have encodes : Encodes "%C3%A9/x%2By.js" "é/x+y.js" := by decide +kernel
  have file := @relativePath_below_root "file://localhost/a%20b" _ _ (ofText "/a b")
    (by decide +kernel) (by decide +kernel) name encodes
  have other := @relativePath_below_root "memfs:/a%20b" _ _ (ofText "/a b")
    (by decide +kernel) (by decide +kernel) name encodes
  ⟨file.2.1.mpr (by decide +kernel), fun same => absurd (other.2.1.mp same) (by decide +kernel)⟩

/-- A project may be read from a URI that names no file, while the documents below it are not. -/
theorem not_relativePath_below_root : ¬∀ (uri encoded name : String) (root : Path),
    Url.Stem uri.toList →
    (⟨some uri, none⟩ : Rpc.InitializeParams).projectRoot? = some root → Ordinary name →
    Encodes encoded name → relativePath root (uri ++ "/" ++ encoded) = name := by
  intro all
  have asked : relativePath (ofText "/work") ("memfs:/work" ++ "/" ++ "a.js") =
      "memfs:/work/a.js" := by decide +kernel
  have name := all "memfs:/work" "a.js" "a.js" (ofText "/work")
    (by decide +kernel) (by decide +kernel) (by decide +kernel) (by decide +kernel)
  rw [asked] at name
  exact absurd name (by decide)

end Below

end Engine

end LintBridge
