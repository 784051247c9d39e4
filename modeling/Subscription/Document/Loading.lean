import Subscription.Document.ConfigError
import Subscription.Toml.Statement

/-! # Loading a document

A document is TOML text.  It comes from a text, from the contents of a named
file, or from the file that an environment variable names; the outside world
enters as the functions that look these up.
-/

namespace Subscription

namespace Document

/-- The sound document that a text holds. -/
def ofText (text : String) : Except ConfigError Document :=
  match (Toml.parse text).bind Stored.decode? with
  | none => .error .unparsable
  | some (d : Document) =>
    match d.validate with
    | .ok () => .ok d
    | .error fault => .error (.invalid fault)

/-- The document in the file at `path`, `read` giving the contents of files. -/
def load (read : String → Option String) (path : String) : Except ConfigError Document :=
  match read path with
  | none => .error .unreadable
  | some text => ofText text

/-- The document that the environment names. -/
def loadDefault (environment read : String → Option String) : Except ConfigError Document :=
  match environment locationVariable with
  | none => .error .notConfigured
  | some path => load read path

end Document
end Subscription
