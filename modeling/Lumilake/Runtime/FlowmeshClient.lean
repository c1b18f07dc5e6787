import Lumilake.Utils.Text
import Lumilake.Value
import Lumilake.Library.Fallible

namespace Lumilake

-- What urlsplit finds; reading the port raises when it is not a number in range.
structure SplitResult where
  scheme : String
  hostname : Option String
  port : Except String (Option Nat)

-- The settings that decide where the server's own token may go. How a URL is cut is a
-- parameter: nothing here depends on it.
structure ApiSettings where
  RUNTIME_TOKEN : Option String
  LUMILAKE_API_DEFAULT_URL : String
  LUMILAKE_API_TRUSTED_ORIGINS : String
  urlsplit : String → Except String SplitResult

abbrev Origin := String × String × Option Nat

def DEFAULT_API_ORIGIN : String := "https://lum.id"
def DEFAULT_PORTS : List (String × Nat) := [("https",443),("http",80)]

def split_at_commas : List Char → List (List Char)
  | [] => [[]]
  | c :: cs =>
      match split_at_commas cs with
      | [] => [[]]
      | word :: words => if c = ',' then [] :: word :: words else (c :: word) :: words

def origin (settings : ApiSettings) (url : String) : Except String Origin := do
  let parts ← settings.urlsplit url
  let host := parts.hostname.getD ""
  if host = "" then .error ("invalid API endpoint origin (no host): " ++ url)
  else
    let port ← parts.port
    pure (parts.scheme.toLower,host.toLower,port.or (DEFAULT_PORTS.lookup parts.scheme.toLower))

def listed_origins (raw : String) : List String :=
  if raw = "" then []
  else ((split_at_commas raw.toList).map fun item => strip (String.ofList item)).filter (· ≠ "")

def trusted_origins (settings : ApiSettings) : Except String (List Origin) := do
  let own ← origin settings DEFAULT_API_ORIGIN
  let configured ← origin settings settings.LUMILAKE_API_DEFAULT_URL
  let listed ← (listed_origins (strip settings.LUMILAKE_API_TRUSTED_ORIGINS)).mapM (origin settings)
  pure (own :: configured :: listed)

def is_api_origin_trusted (settings : ApiSettings) (url : String) : Except String Bool := do
  let here ← origin settings url
  let trusted ← trusted_origins settings
  pure (decide (here ∈ trusted))

-- The server's token, for a trusted origin only.
def resolve_api_credential (settings : ApiSettings) (url : String) : Except String (Option String) := do
  let trusted ← is_api_origin_trusted settings url
  pure (if trusted then settings.RUNTIME_TOKEN else none)

def with_token (settings : ApiSettings) (token : Option String) : ApiSettings := { settings with RUNTIME_TOKEN := token }

-- Whether an origin is trusted does not depend on the token.
theorem trusted_with_token (settings : ApiSettings) (token : Option String) (url : String) :
    is_api_origin_trusted (with_token settings token) url = is_api_origin_trusted settings url := rfl

end Lumilake
