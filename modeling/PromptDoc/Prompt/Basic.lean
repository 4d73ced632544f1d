import PromptDoc.Schema.Edition

/-!
# Prompts

The typed form of a prompt document. Fields that a document may leave out are
optional; free records keep the JSON fields they were given, in order.
-/

namespace PromptDoc

/-- A declared input of a template. -/
structure Input where
  name : String
  type : InputKind
  required : Bool
  /-- The name of a group of options. -/
  reference : Option String
  description : Option String
  /-- Any value; one that is null differs from none. -/
  standard : Option Json
deriving DecidableEq

/-- The model that a prompt is meant for. -/
structure Model where
  provider : String
  name : String
  params : Option Fields
deriving DecidableEq

/-- What a test asserts of an answer. -/
structure Assertions where
  contains : Option (List String)
  notContains : Option (List String)
  maxTokens : Option Nat
deriving DecidableEq

/-- A test of a prompt: inputs and assertions. -/
structure TestCase where
  name : String
  inputs : Fields
  assertions : Assertions
deriving DecidableEq

/-- A prompt. -/
structure Prompt where
  version : Nat
  id : String
  name : String
  slug : Option String
  template : String
  inputs : List Input
  model : Option Model
  controls : Option Fields
  /-- Named groups of options. -/
  enums : Option (List (String × List String))
  /-- Labels by language and name. -/
  labels : Option (List (String × List (String × String)))
  metadata : Option Fields
  tests : Option (List TestCase)
  context : Option Fields
  policies : Option Fields
  tags : List String
  /-- Inputs of recorded renderings. -/
  snapshots : Option (List Json)
  frameworkRef : Option String
deriving DecidableEq

namespace Prompt

/-- The names of the inputs, in order. -/
def inputNames (p : Prompt) : List String :=
  p.inputs.map Input.name

/-- The first input with a name. -/
def input? (p : Prompt) (name : String) : Option Input :=
  p.inputs.find? fun i => i.name = name

end Prompt

end PromptDoc
