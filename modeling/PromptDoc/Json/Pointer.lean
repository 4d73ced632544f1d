/-!
# JSON pointers

A place in a document is a list of tokens, the keys and indices that lead to
it. Its pointer puts a slash before each token, where slashes and tildes of the
token itself are escaped.
-/

namespace PromptDoc.Pointer

def escape (token : String) : String :=
  String.ofList <| token.toList.flatMap fun c =>
    if c = '~' then ['~', '0'] else if c = '/' then ['~', '1'] else [c]

def render (tokens : List String) : String :=
  tokens.foldl (fun text token => text ++ "/" ++ escape token) ""

end PromptDoc.Pointer
