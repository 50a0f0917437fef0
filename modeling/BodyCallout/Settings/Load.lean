import BodyCallout.Settings.Rules
import BodyCallout.Text.Utf8
import BodyCallout.Toml.Document

set_option autoImplicit false

namespace BodyCallout

open Data

inductive LoadFault where
  | missingFile
  | notText
  | notToml
  | mismatch (mismatch : Mismatch)
  | broken (violations : List Violation)

def LoadFault.message : LoadFault → String
  | .missingFile => "IO error: No such file or directory (os error 2)"
  | .notText => "IO error: stream did not contain valid UTF-8"
  | .notToml => "Parse error: not a TOML document"
  | .mismatch m => "Parse error: " ++ m.message .config
  | .broken vs => "Validation failed: " ++ ", ".intercalate (vs.map Violation.message)

namespace Settings

/-- The settings of a table, whether or not they keep the rules. -/
def ofNode (n : Toml.Node) : Reading Settings :=
  ((Described.shape Settings).held Toml.dialect n).map (valueOf Settings)

def check (s : Settings) : Except LoadFault Settings :=
  if s.violations.isEmpty then .ok s else .error (.broken s.violations)

def ofToml (text : List Char) : Except LoadFault Settings :=
  match Toml.read? text with
  | none => .error .notToml
  | some n =>
    match ofNode n with
    | .ok s => s.check
    | .error (.mismatch m) => .error (.mismatch m)
    | .error (.stop _) => .error .notToml

def ofFile : Option (List UInt8) → Except LoadFault Settings
  | none => .error .missingFile
  | some bytes =>
    match Utf8.decode? bytes with
    | none => .error .notText
    | some text => ofToml text

end Settings

end BodyCallout
