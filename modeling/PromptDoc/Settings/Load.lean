import PromptDoc.Files.Tree
import PromptDoc.Settings.Decode
import PromptDoc.Settings.Layer
import PromptDoc.Text.Utf8
import PromptDoc.Toml.Reader

/-!
# Loading settings

`Settings.load` layers the settings files of the working folder, the one of the
user, one that is asked for by name, and the environment, each over those
before it. Only the file that is asked for has to exist.
-/

namespace PromptDoc

/-- Why there are no settings. -/
inductive SettingsError where
  | notFound (name : String)
  /-- The name of the file ends with an extension that says nothing. -/
  | unknownFormat (name : String)
  /-- The file is no settings file. -/
  | malformed (name : String)
  /-- A setting has a value of the wrong kind. -/
  | wrongKind
deriving DecidableEq

def SettingsError.message : SettingsError → String
  | .notFound name => "configuration file \"" ++ name ++ "\" not found"
  | .unknownFormat name =>
    "configuration file \"" ++ name ++ "\" is not of a registered file format"
  | .malformed name => "invalid TOML in " ++ name
  | .wrongKind => "invalid type of a setting"

namespace Settings

/-- The settings files of the working folder, later ones over earlier ones. -/
def standardFiles : List Path :=
  [⟨"nexus-prompt.toml"⟩, ⟨".nexus-prompt.toml"⟩, ⟨"config/nexus-prompt.toml"⟩]

def withExtension (p : Path) : Path :=
  ⟨String.ofList (p.spelling.toList.reverse.dropWhile (· = '/')).reverse ++ ".toml"⟩

/-- The settings file that a name stands for: the file of this name or, where
there is none, of this name with the extension added. -/
def find (t : FileTree) (p : Path) : Except SettingsError Path :=
  if t.isFile p then
    if p.extension? = some "toml" then .ok p else .error (.unknownFormat p.spelling)
  else if p.name?.isSome ∧ t.isFile (withExtension p) then .ok (withExtension p)
  else .error (.notFound p.spelling)

/-- Bytes without a byte order mark at their start. -/
def dropByteOrderMark : List UInt8 → List UInt8
  | 0xEF :: 0xBB :: 0xBF :: rest => rest
  | bytes => bytes

def readFile (t : FileTree) (p : Path) : Except SettingsError (List (String × Toml)) :=
  let bytes := ((t.read? p).getD .empty).data.toList
  match Toml.read? (Text.decodeLossy (dropByteOrderMark bytes)) with
  | some table => .ok table.fields
  | none => .error (.malformed p.spelling)

def readOptional (t : FileTree) (p : Path) : Except SettingsError (List (String × Toml)) :=
  match find t p with
  | .ok found => readFile t found
  | .error _ => .ok []

/-- The text with every pair of underscores, from the left, made a dot. -/
def dotted : List Char → List Char
  | [] => []
  | '_' :: '_' :: rest => '.' :: dotted rest
  | c :: rest => c :: dotted rest

/-- The start of the names of environment variables that are settings. -/
def variableStart : List Char := "nexus_prompt__".toList

/-- The address that an environment variable stands for, if it is a setting;
the case of its name does not count. -/
def variableAddress? (name : String) : Option String :=
  let name := (Text.lowercase name).toList
  if variableStart.isPrefixOf name then
    some (String.ofList (dotted (name.drop variableStart.length)))
  else none

def variableInteger? (cs : List Char) : Option Int :=
  let (negative, digits) := Numeral.takeSign cs
  match Digits.read? 10 digits with
  | some n =>
    let n : Int := if negative then -(n : Int) else n
    if Width.fitsSigned n then some n else none
  | none => none

def variableValue (s : String) : Toml :=
  let word := s.toLower
  if word = "true" then .bool true
  else if word = "false" then .bool false
  else match variableInteger? s.toList, Extended.read? s.toList with
    | some n, _ => .int n
    | none, some x => .float x
    | none, none => .text s

def readEnvironment (environment : List (String × String)) : List (String × Toml) :=
  environment.filterMap fun (name, s) =>
    (variableAddress? name).map fun address => (address, variableValue s)

/-- Loads the settings; `user` is the settings file of the user and `asked` the
name of the file that is asked for. -/
def load (t : FileTree) (user : Path) (asked : Option String)
    (environment : List (String × String)) : Except SettingsError Settings := do
  let standard ← standardFiles.mapM (readOptional t)
  let ofUser ← if (t.node? user).isSome then readOptional t user else .ok []
  let ofFile ← match asked with
    | some name => (find t ⟨name⟩).bind (readFile t)
    | none => .ok []
  let table := (standard ++ [ofUser, ofFile, readEnvironment environment]).foldl Toml.layer
    (.table [])
  match ofToml? table with
  | some settings => .ok settings
  | none => .error .wrongKind

end Settings

end PromptDoc
