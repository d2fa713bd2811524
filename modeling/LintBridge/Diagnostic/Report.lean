import LintBridge.Diagnostic.Basic

namespace LintBridge

/-- Diagnostics by file URI, no URI twice. -/
structure Report where
  files : List (String × List Diagnostic)
  /-- Where each URI stands among the files. -/
  index : List (String × Nat)
  deriving DecidableEq

namespace Report

def empty : Report := ⟨[], []⟩

/-- Where a file stands, at the end if it is new. -/
def place (r : Report) (uri : String) : Report × Nat :=
  match r.index.lookup uri with
  | some slot => (r, slot)
  | none =>
    (⟨r.files ++ [(uri, [])], (uri, r.files.length) :: r.index⟩, r.files.length)

def extend (r : Report) (uri : String) (items : List Diagnostic) : Report :=
  let (r, slot) := r.place uri
  { r with files := r.files.modify slot fun file => (file.1, file.2 ++ items) }

def get? (r : Report) (uri : String) : Option (List Diagnostic) :=
  (r.index.lookup uri).bind fun slot => (r.files[slot]?).map (·.2)

def size (r : Report) : Nat := r.files.length

def diagnostics (r : Report) : List Diagnostic := r.files.flatMap (·.2)

def total (r : Report) : Nat := r.diagnostics.length

def errors (r : Report) : Nat := r.diagnostics.countP fun d => d.message.severity.isError

end Report

end LintBridge
