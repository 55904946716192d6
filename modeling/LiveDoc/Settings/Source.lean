import LiveDoc.Decimal.Integer
import LiveDoc.KeyMap
import LiveDoc.Text.Blank

/-!
# LiveDoc — where settings come from

Settings are texts under keys. A key that is not set yields the default, and a text that does not
read as what the key asks for is an error that names the key, the text and the reason.
-/

namespace LiveDoc.Settings

abbrev Source := KeyMap String

inductive SettingsError where
  | missing (key : String)
  | invalid (key value reason : String)
  deriving DecidableEq, Repr

def SettingsError.message : SettingsError → String
  | .missing key => s!"Missing required configuration key {key}"
  | .invalid key value reason => s!"Invalid value '{value}' for {key}: {reason}"

namespace Source

variable (source : Source)

def text? (key : String) : Option String := KeyMap.get? source key

def text (key default : String) : String := (source.text? key).getD default

/-- The text under a key, which has to be there and not blank. -/
def required (key : String) : Except SettingsError String :=
  match source.text? key with
  | some text => if Text.trim text = "" then .error (.missing key) else .ok text
  | none => .error (.missing key)

/-- Reads the text under a key, white space around it trimmed, by a rule that may refuse it. -/
def readWith (read : String → Except String α) (key : String) (default : α) :
    Except SettingsError α :=
  match source.text? key with
  | none => .ok default
  | some text =>
    match read (Text.trim text) with
    | .ok value => .ok value
    | .error reason => .error (.invalid key text reason)

def integer (range : Decimal.IntegerRange) (key : String) (default : Int) :
    Except SettingsError Int :=
  source.readWith (fun text => (range.read text).mapError (·.message)) key default

def word (key : String) (default : Nat) : Except SettingsError Nat :=
  (source.integer (.unsigned 64) key default).map Int.toNat

def bool (key : String) (default : Bool) : Except SettingsError Bool :=
  source.readWith
    (fun
      | "true" => .ok true
      | "false" => .ok false
      | _ => .error "provided string was not `true` or `false`")
    key default

/-- A switch by one of its names; blank is off. -/
def flag (key : String) (default : Bool) : Except SettingsError Bool :=
  match (source.text? key).map Text.trim with
  | none => .ok default
  | some text =>
    if ["1", "true", "yes", "on"].contains text then .ok true
    else if ["0", "false", "no", "off", ""].contains text then .ok false
    else .error (.invalid key text "expected a boolean")

/-- Whether this is a production environment. -/
def isProduction : Bool := (source.text? "MODELCAST_ENV").any (·.toLower = "production")

end Source

end LiveDoc.Settings
