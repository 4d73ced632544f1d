import PromptDoc.Yaml.Token.Lexer

/-!
# YAML nodes

The tree that the tokens of a document describe: scalars, sequences and
mappings with their anchors and tags, and aliases. A node is written in block
or in flow style, which no longer shows in the tree.

The readers below take the tokens from the front of a list and give the node
with the remaining tokens. `fuel` bounds the nesting of their calls; the number
of tokens suffices twice over, because of any two nested calls one takes a
token.
-/

namespace PromptDoc.Yaml

/-- A tag: private to the document's application, or a global name. -/
inductive Tag where
  | localTag (name : List Char)
  | globalTag (name : List Char)
deriving DecidableEq

/-- The anchor and the tag of a node. Anchors are named by `α`. -/
structure Properties (α : Type) where
  anchor : Option α
  tag : Option Tag

/-- A node with anchors and aliases named by `α`. -/
inductive Node (α : Type) where
  | alias (target : α)
  | scalar (properties : Properties α) (plain : Bool) (text : List Char)
  | sequence (properties : Properties α) (items : List (Node α))
  | mapping (properties : Properties α) (entries : List (Node α × Node α))

/-- The tag handles of a document and what they stand for. -/
abbrev TagHandles := List (List Char × List Char)

namespace Tag

def ofName : List Char → Tag
  | '!' :: name => .localTag name
  | name => .globalTag name

/-- The tag with a handle and a suffix; none when the handle is unknown. The
empty handle stands for nothing. -/
def ofHandle? (handles : TagHandles) (handle suffix : List Char) : Option Tag :=
  if handle.isEmpty then some (ofName suffix)
  else (handles.lookup handle).map fun replacement => ofName (replacement ++ suffix)

end Tag

namespace Properties

def none {α : Type} : Properties α := ⟨.none, .none⟩

/-- The properties of a scalar that is written out: the lone exclamation mark
is no tag there. -/
def ofScalar {α : Type} (p : Properties α) : Properties α :=
  match p.tag with
  | some (.localTag []) => { p with tag := .none }
  | _ => p

/-- Takes an anchor and a tag, in either order, from the front of the tokens.
The outer option is empty for an unknown tag handle, the inner one when there
is neither. -/
def take? (handles : TagHandles) :
    List Token → Option (Option (Properties (List Char)) × List Token)
  | .anchor a :: .tag h s :: rest =>
    (Tag.ofHandle? handles h s).map fun t => (some ⟨some a, some t⟩, rest)
  | .tag h s :: .anchor a :: rest =>
    (Tag.ofHandle? handles h s).map fun t => (some ⟨some a, some t⟩, rest)
  | .anchor a :: rest => some (some ⟨some a, .none⟩, rest)
  | .tag h s :: rest =>
    (Tag.ofHandle? handles h s).map fun t => (some ⟨.none, some t⟩, rest)
  | rest => some (.none, rest)

end Properties

namespace Node

/-- The node of a place where nothing is written. -/
def absent {α : Type} : Node α :=
  .scalar .none true []

/-- Tokens after which a block entry has nothing written in it. -/
def endsBlockEntry : Token → Bool
  | .blockEntry | .blockEnd => true
  | _ => false

/-- Tokens after which an entry of a sequence without indentation of its own
has nothing written in it. -/
def endsIndentlessEntry : Token → Bool
  | .blockEntry | .key | .value | .blockEnd => true
  | _ => false

/-- Tokens after which a part of a block mapping has nothing written in it. -/
def endsBlockPart : Token → Bool
  | .key | .value | .blockEnd => true
  | _ => false

/-- Tokens after which a key in a flow sequence has nothing written in it. -/
def endsSequenceKey : Token → Bool
  | .value | .flowEntry | .flowSequenceEnd => true
  | _ => false

/-- Tokens after which a value in a flow sequence has nothing written in it. -/
def endsSequenceValue : Token → Bool
  | .flowEntry | .flowSequenceEnd => true
  | _ => false

/-- Tokens after which a key in a flow mapping has nothing written in it. -/
def endsMappingKey : Token → Bool
  | .value | .flowEntry | .flowMappingEnd => true
  | _ => false

/-- Tokens after which a value in a flow mapping has nothing written in it. -/
def endsMappingValue : Token → Bool
  | .flowEntry | .flowMappingEnd => true
  | _ => false

/-- Whether the first token is one of a class. -/
def startsWith (p : Token → Bool) : List Token → Bool
  | [] => false
  | t :: _ => p t

/-- A node with anchors by name, and the tokens after it. -/
abbrev Result := Node (List Char) × List Token

/-- Drops the comma before an entry of a flow collection; the first entry has
none. -/
def dropComma? (first : Bool) : List Token → Option (List Token)
  | .flowEntry :: rest => if first then some (.flowEntry :: rest) else some rest
  | tokens => if first then some tokens else none

mutual

/-- Reads a node. `block` allows block collections, `indentless` a sequence
that has no indentation of its own. -/
def read? (handles : TagHandles) (fuel : Nat) (block indentless : Bool) (tokens : List Token) :
    Option Result :=
  match fuel with
  | 0 => none
  | fuel + 1 =>
    match tokens with
    | .alias a :: rest => some (.alias a, rest)
    | _ =>
      match Properties.take? handles tokens with
      | none => none
      | some (properties?, rest) =>
        let properties := properties?.getD .none
        match rest with
        | .scalar plain text :: rest => some (.scalar properties.ofScalar plain text, rest)
        | .flowSequenceStart :: rest =>
          (flowItems? handles fuel true rest).map fun (items, rest) =>
            (.sequence properties items, rest)
        | .flowMappingStart :: rest =>
          (flowEntries? handles fuel true rest).map fun (entries, rest) =>
            (.mapping properties entries, rest)
        | .blockSequenceStart :: rest' =>
          if block then
            (blockItems? handles fuel rest').map fun (items, rest) =>
              (.sequence properties items, rest)
          else absentWith properties? rest
        | .blockMappingStart :: rest' =>
          if block then
            (blockEntries? handles fuel rest').map fun (entries, rest) =>
              (.mapping properties entries, rest)
          else absentWith properties? rest
        | .blockEntry :: _ =>
          if indentless then
            (indentlessItems? handles fuel rest).map fun (items, rest) =>
              (.sequence properties items, rest)
          else absentWith properties? rest
        | _ => absentWith properties? rest
where
  /-- A node of which only an anchor or a tag is written. -/
  absentWith (properties? : Option (Properties (List Char))) (rest : List Token) :
      Option Result :=
    properties?.map fun p => (.scalar p true [], rest)

/-- Reads a node, or the absence of one before the tokens of a class. -/
def readUnless? (handles : TagHandles) (fuel : Nat) (block indentless : Bool)
    (ends : Token → Bool) (tokens : List Token) : Option Result :=
  match fuel with
  | 0 => none
  | fuel + 1 =>
    if startsWith ends tokens then some (absent, tokens)
    else read? handles fuel block indentless tokens

/-- Reads the value after a key, if a value token announces one. -/
def readValue? (handles : TagHandles) (fuel : Nat) (block : Bool) (ends : Token → Bool)
    (tokens : List Token) : Option Result :=
  match fuel with
  | 0 => none
  | fuel + 1 =>
    match tokens with
    | .value :: rest => readUnless? handles fuel block block ends rest
    | tokens => some (absent, tokens)

/-- Reads the entries of a block sequence up to its end. -/
def blockItems? (handles : TagHandles) (fuel : Nat) (tokens : List Token) :
    Option (List (Node (List Char)) × List Token) :=
  match fuel with
  | 0 => none
  | fuel + 1 =>
    match tokens with
    | .blockEnd :: rest => some ([], rest)
    | .blockEntry :: rest =>
      match readUnless? handles fuel true false endsBlockEntry rest with
      | none => none
      | some (item, rest) =>
        (blockItems? handles fuel rest).map fun (items, rest) => (item :: items, rest)
    | _ => none

/-- Reads the entries of a sequence without indentation of its own. -/
def indentlessItems? (handles : TagHandles) (fuel : Nat) (tokens : List Token) :
    Option (List (Node (List Char)) × List Token) :=
  match fuel with
  | 0 => none
  | fuel + 1 =>
    match tokens with
    | .blockEntry :: rest =>
      match readUnless? handles fuel true false endsIndentlessEntry rest with
      | none => none
      | some (item, rest) =>
        (indentlessItems? handles fuel rest).map fun (items, rest) => (item :: items, rest)
    | rest => some ([], rest)

/-- Reads the entries of a block mapping up to its end. -/
def blockEntries? (handles : TagHandles) (fuel : Nat) (tokens : List Token) :
    Option (List (Node (List Char) × Node (List Char)) × List Token) :=
  match fuel with
  | 0 => none
  | fuel + 1 =>
    match tokens with
    | .blockEnd :: rest => some ([], rest)
    | .key :: rest =>
      match readUnless? handles fuel true true endsBlockPart rest with
      | none => none
      | some (key, rest) =>
        match readValue? handles fuel true endsBlockPart rest with
        | none => none
        | some (value, rest) =>
          (blockEntries? handles fuel rest).map fun (entries, rest) =>
            ((key, value) :: entries, rest)
    | _ => none

/-- Reads the entries of a flow sequence up to its end. An entry that starts
with a key is a mapping of that one entry; when the key is not written, the
token after its indicator is lost. -/
def flowItems? (handles : TagHandles) (fuel : Nat) (first : Bool) (tokens : List Token) :
    Option (List (Node (List Char)) × List Token) :=
  match fuel with
  | 0 => none
  | fuel + 1 =>
    match tokens with
    | .flowSequenceEnd :: rest => some ([], rest)
    | _ =>
      match dropComma? first tokens with
      | none => none
      | some (.flowSequenceEnd :: rest) => some ([], rest)
      | some (.key :: rest) =>
        let key? := if startsWith endsSequenceKey rest then some (absent, rest.drop 1)
          else read? handles fuel false false rest
        match key? with
        | none => none
        | some (key, rest) =>
          match readValue? handles fuel false endsSequenceValue rest with
          | none => none
          | some (value, rest) =>
            (flowItems? handles fuel false rest).map fun (items, rest) =>
              (.mapping .none [(key, value)] :: items, rest)
      | some rest =>
        match read? handles fuel false false rest with
        | none => none
        | some (item, rest) =>
          (flowItems? handles fuel false rest).map fun (items, rest) => (item :: items, rest)

/-- Reads the entries of a flow mapping up to its end. An entry that is no key
has no value. -/
def flowEntries? (handles : TagHandles) (fuel : Nat) (first : Bool) (tokens : List Token) :
    Option (List (Node (List Char) × Node (List Char)) × List Token) :=
  match fuel with
  | 0 => none
  | fuel + 1 =>
    match tokens with
    | .flowMappingEnd :: rest => some ([], rest)
    | _ =>
      match dropComma? first tokens with
      | none => none
      | some (.flowMappingEnd :: rest) => some ([], rest)
      | some (.key :: rest) =>
        match readUnless? handles fuel false false endsMappingKey rest with
        | none => none
        | some (key, rest) =>
          match readValue? handles fuel false endsMappingValue rest with
          | none => none
          | some (value, rest) =>
            (flowEntries? handles fuel false rest).map fun (entries, rest) =>
              ((key, value) :: entries, rest)
      | some rest =>
        match read? handles fuel false false rest with
        | none => none
        | some (key, rest) =>
          (flowEntries? handles fuel false rest).map fun (entries, rest) =>
            ((key, absent) :: entries, rest)

end

/-- The fuel that suffices for a list of tokens. -/
def fuelFor (tokens : List Token) : Nat :=
  3 * tokens.length + 3

/-- The directives of a document: whether a version was given, and its tag
handles. -/
structure Directives where
  version : Bool
  handles : TagHandles

/-- Takes the directives from the front of the tokens: at most one version, of
the first major kind, and at most one for each handle. -/
def directives? : Directives → List Token → Option (Directives × List Token)
  | d, .versionDirective major minor :: rest =>
    if d.version || major ≠ 1 || !(minor = 1 || minor = 2) then none
    else directives? { d with version := true } rest
  | d, .tagDirective handle replacement :: rest =>
    if (d.handles.lookup handle).isSome then none
    else directives? { d with handles := (handle, replacement) :: d.handles } rest
  | d, rest => some (d, rest)

/-- The handles that every document has, unless it gives them itself. -/
def defaultHandles : TagHandles :=
  [(['!'], ['!']), (['!', '!'], "tag:yaml.org,2002:".toList)]

def endsDocument : Token → Bool
  | .versionDirective _ _ | .tagDirective _ _ | .documentStart | .documentEnd => true
  | _ => false

def announcesDocument : Token → Bool
  | .versionDirective _ _ | .tagDirective _ _ | .documentStart => true
  | _ => false

/-- The root node of the first document. -/
def first? (tokens : List Token) : Option Result :=
  if startsWith announcesDocument tokens then
    match directives? ⟨false, []⟩ tokens with
    | some (d, .documentStart :: rest) =>
      if rest.isEmpty || startsWith endsDocument rest then some (absent, rest)
      else read? (d.handles ++ defaultHandles) (fuelFor rest) true false rest
    | _ => none
  else read? defaultHandles (fuelFor tokens) true false tokens

def dropEnds (tokens : List Token) : List Token :=
  tokens.dropWhile (· == .documentEnd)

/-- The root node of a text that holds one document; the inner option is empty
for a text without any. -/
def ofTokens? (tokens : List Token) : Option (Option (Node (List Char))) :=
  if tokens.isEmpty then some none
  else match first? tokens with
    | some (node, rest) => if (dropEnds rest).isEmpty then some (some node) else none
    | none => none

end Node

end PromptDoc.Yaml
