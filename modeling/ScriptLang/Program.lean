import ScriptLang.Source
import ScriptLang.Tree.Meaning
import ScriptLang.Tree.Reader

set_option autoImplicit false

/-! # Programs

A program text is read in three steps: statement ends become semicolons, the text is read as a parse
tree, and the tree is given its meaning. -/

namespace ScriptLang.Program

/-- The statements of a program text, where characters have the given names. An error of the grammar
anywhere comes before any other. -/
def parse (names : Text.Names) (source : String) : Except Failure (List Node) := do
  let text := Source.terminate source
  let tree ← (Tree.read text).mapError .script
  match ← tree.meaning names text.toList with
  | .node (.program body) => return body
  | _ => return []

end ScriptLang.Program
