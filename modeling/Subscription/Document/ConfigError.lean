import Subscription.Document.Validity

/-! # Why there is no document -/

namespace Subscription

/-- Why a document is not available. -/
inductive ConfigError where
  | unreadable
  | unparsable
  | invalid (fault : DocumentFault)
  | notConfigured
deriving DecidableEq

/-- The environment variable that names the default document. -/
def Document.locationVariable : String := "TARIFFWORK_CATALOG"

def ConfigError.message : ConfigError → String
  | unreadable => "failed to read config file"
  | unparsable => "failed to parse config file"
  | invalid fault => "invalid config value: " ++ fault.message
  | notConfigured => "no catalog configured (set " ++ Document.locationVariable ++ ")"

end Subscription
