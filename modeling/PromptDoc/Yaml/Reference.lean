import PromptDoc.Yaml.Node

/-!
# Anchors and aliases

An alias stands for the node with its anchor. Anchors are numbered in the order
of the document: an anchor takes the number of different names before it, or
under a name that is in use already, the number of all of them. An alias takes
the number its name has at that point; the last node with that number is what
it stands for.
-/

namespace PromptDoc.Yaml

/-- The numbers of the anchors met so far, by name. -/
abbrev AnchorNumbers := List (List Char × Nat)

namespace AnchorNumbers

/-- The numbers after one more anchor, and its number. -/
def add (numbers : AnchorNumbers) (name : List Char) : AnchorNumbers × Nat :=
  let number := numbers.length
  if (numbers.lookup name).isSome then
    (numbers.map fun (n, i) => if n = name then (n, number) else (n, i), number)
  else ((name, number) :: numbers, number)

/-- The numbers after a node's properties, and the properties with the anchor's
number. -/
def addProperties (numbers : AnchorNumbers) (p : Properties (List Char)) :
    AnchorNumbers × Properties Nat :=
  match p.anchor with
  | none => (numbers, ⟨none, p.tag⟩)
  | some name =>
    let (numbers, number) := numbers.add name
    (numbers, ⟨some number, p.tag⟩)

end AnchorNumbers

namespace Node

mutual

/-- Numbers the anchors and aliases of a node; none when an alias has no
anchor before it. -/
def number? (numbers : AnchorNumbers) : Node (List Char) → Option (AnchorNumbers × Node Nat)
  | .alias name => (numbers.lookup name).map fun i => (numbers, .alias i)
  | .scalar p plain text =>
    let (numbers, p) := numbers.addProperties p
    some (numbers, .scalar p plain text)
  | .sequence p items =>
    let (numbers, p) := numbers.addProperties p
    (numberItems? numbers items).map fun (numbers, items) => (numbers, .sequence p items)
  | .mapping p entries =>
    let (numbers, p) := numbers.addProperties p
    (numberEntries? numbers entries).map fun (numbers, entries) => (numbers, .mapping p entries)

def numberItems? (numbers : AnchorNumbers) :
    List (Node (List Char)) → Option (AnchorNumbers × List (Node Nat))
  | [] => some (numbers, [])
  | item :: items =>
    match number? numbers item with
    | none => none
    | some (numbers, item) =>
      (numberItems? numbers items).map fun (numbers, items) => (numbers, item :: items)

/-- Numbers the anchors and aliases of entries in turn, keys before values. -/
def numberEntries? (numbers : AnchorNumbers) :
    List (Node (List Char) × Node (List Char)) →
      Option (AnchorNumbers × List (Node Nat × Node Nat))
  | [] => some (numbers, [])
  | (key, value) :: entries =>
    match number? numbers key with
    | none => none
    | some (numbers, key) =>
      match number? numbers value with
      | none => none
      | some (numbers, value) =>
        (numberEntries? numbers entries).map fun (numbers, entries) =>
          (numbers, (key, value) :: entries)

end

/-- A node with its anchor's number, if it has one. -/
def anchorOf (p : Properties Nat) (node : Node Nat) : List (Nat × Node Nat) :=
  match p.anchor with
  | none => []
  | some i => [(i, node)]

mutual

/-- All nodes with an anchor, in the order of the document. -/
def anchored : Node Nat → List (Nat × Node Nat)
  | .alias _ => []
  | .scalar p plain text => anchorOf p (.scalar p plain text)
  | .sequence p items => anchorOf p (.sequence p items) ++ anchoredItems items
  | .mapping p entries => anchorOf p (.mapping p entries) ++ anchoredEntries entries

def anchoredItems : List (Node Nat) → List (Nat × Node Nat)
  | [] => []
  | item :: items => anchored item ++ anchoredItems items

def anchoredEntries : List (Node Nat × Node Nat) → List (Nat × Node Nat)
  | [] => []
  | (key, value) :: entries => anchored key ++ (anchored value ++ anchoredEntries entries)

end

mutual

/-- The number of marks that a node takes in a stream of its parts: one for a
scalar or an alias, two around the parts of a collection. -/
def marks {α : Type} : Node α → Nat
  | .alias _ => 1
  | .scalar _ _ _ => 1
  | .sequence _ items => marksItems items + 2
  | .mapping _ entries => marksEntries entries + 2

def marksItems {α : Type} : List (Node α) → Nat
  | [] => 0
  | item :: items => marks item + marksItems items

def marksEntries {α : Type} : List (Node α × Node α) → Nat
  | [] => 0
  | (key, value) :: entries => marks key + marks value + marksEntries entries

end

end Node

end PromptDoc.Yaml
