import FatForensic.Core.Audit

/-!
# The command line

`main.rs` of `fat4n6`: the tree of a volume, and its anomalies.  What is written is the list of
the lines; the files that can be opened are a function of the path, which gives the bytes of a
file or the text of the error.  The characters that `{:?}` escapes are a parameter, beyond Latin-1,
and so is the format `{:?}` of a severity, which is a type of another crate.
-/

namespace FatForensic
namespace Cli

/-- The version of the crate. -/
def CARGO_PKG_VERSION : String := "0.1.0"

/-- The format `{:?}` of a variant. -/
def debugVariant : FatVariant → String
  | .fat12 => "Fat12"
  | .fat16 => "Fat16"
  | .fat32 => "Fat32"
  | .exFat => "ExFat"

/-- The line of a node at a depth. -/
def line (depth : ℕ) (node : Node) : String :=
  let indent := String.join (List.replicate (depth + 1) "  ")
  let mark := if node.isDeleted then " (deleted)" else ""
  if node.isDir then s!"{indent}{node.name}/{mark}"
  else s!"{indent}{node.name} ({node.size.toNat} bytes){mark}"

/-- One round of the loop over the nodes of a directory, `descend` being the recursive call. -/
def listNode (descend : FileId → List String) (depth : ℕ) (node : Node) : List String :=
  if node.name = "." ∨ node.name = ".." ∨ node.isVolumeLabel then []
  else line depth node :: if node.isDir ∧ ¬ node.isDeleted then descend node.id else []

/-- The depth at which `list` returns. -/
def LIST_DEPTH : ℕ := 64

/-- Recursively print the directory tree, the first argument being the levels left below the
bound on the depth. -/
def list (fs : FatFs) : ℕ → ℕ → FileId → List String
  | 0, _, _ => []
  | levels + 1, depth, dir =>
    match fs.readDir dir with
    | .error _ => []
    | .ok nodes => nodes.flatMap (listNode (list fs levels (depth + 1)) depth)

variable (beyond : Char → Bool) (debugSeverity : Severity → String)
  (openFile : String → Except String (List UInt8))

/-- The line of an anomaly. -/
def anomalyLine (a : Anomaly) : String :=
  s!"  [{debugSeverity a.severity}] {a.code}: {a.kind.note beyond}"

/-- The lines of an audit. -/
def auditLines : Result (List Anomaly) → List String
  | .ok [] => ["  (none)"]
  | .ok anoms => anoms.map (anomalyLine beyond debugSeverity)
  | .error e => [s!"  audit error: {e.toText beyond}"]

/-- List the volume tree and audit it: the exit code, and the lines written. -/
def run (path : String) : ℕ × List String :=
  match openFile path with
  | .error e => (1, [s!"error: cannot open {path}: {e}"])
  | .ok img =>
    match FatFs.openImage img with
    | .error e => (1, [s!"error: not a FAT/exFAT volume: {e.toText beyond}"])
    | .ok fs =>
      (0, s!"variant: {debugVariant fs.geom.variant}" :: "files:" ::
        list fs LIST_DEPTH 0 FatFs.root ++ "anomalies:" ::
          auditLines beyond debugSeverity (Audit.auditPath openFile path))

/-- Parse `args` and dispatch: the exit code, and the lines written. -/
def runArgs (args : List String) : ℕ × List String :=
  if args.any fun a => a = "-V" ∨ a = "--version" then (0, [s!"fat4n6 {CARGO_PKG_VERSION}"])
  else match args[1]? with
    | none => (2, ["usage: fat4n6 [-V|--version] <image>"])
    | some path => run beyond debugSeverity openFile path

end Cli
end FatForensic
