import PromptDoc.Files.Tree

/-!
# Outcomes of commands

A command says something on two streams, leaves a file tree behind and ends with
an exit code.
-/

namespace PromptDoc

/-- Where a message goes. -/
inductive Stream where
  | output
  | errors
deriving DecidableEq

/-- Something that a command says; the text holds its line breaks. -/
structure Message where
  stream : Stream
  text : String
deriving DecidableEq

namespace Message

def line (text : String) : Message :=
  ⟨.output, text ++ "\n"⟩

def errorLine (text : String) : Message :=
  ⟨.errors, text ++ "\n"⟩

end Message

/-- What a command leaves behind. -/
structure Outcome where
  code : Nat
  messages : List Message
  tree : FileTree

def Outcome.said (o : Outcome) (stream : Stream) : String :=
  String.join ((o.messages.filter (·.stream = stream)).map Message.text)

end PromptDoc
