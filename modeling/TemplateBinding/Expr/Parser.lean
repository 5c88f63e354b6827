import TemplateBinding.Grammar.Scan
import TemplateBinding.Grammar.Progress

/-!
Reading an expression. The first piece of text that is no token decides, before the grammar
is looked at.
-/
namespace TemplateBinding

namespace Grammar

def lexicalError? : List Token → Option Error
  | [] => none
  | ⟨start, _, .invalid fault⟩ :: _ => some (.lexical start fault)
  | _ :: ts => lexicalError? ts

def wholeText (c : Cursor) : Except Fault Expr :=
  match run : chain (allowance c) c with
  | .ok (e, _) => .ok e
  | .error (.fault fault) => .error fault
  | .error .exhausted => absurd run (chain_ne_exhausted c)

end Grammar

open Grammar in
def Expr.parse (source : Text) : Except Grammar.Error Expr :=
  let ts := tokens source
  match lexicalError? ts with
  | some error => .error error
  | none =>
    match wholeText (Cursor.start (Text.byteSize source) ts) with
    | .ok e => .ok e
    | .error fault => .error (.grammatical fault)

end TemplateBinding
