import TemplateBinding.Grammar.Cursor

/-!
The grammar as a recursive descent. From loose to tight: a filter application, an
assignment, a conditional, six levels of binary operators, prefix operators, member access
and calls, and the primary expressions. One token ahead decides every step.

Each function takes an allowance for its recursion, and `Stop.exhausted` says that it was
too small. `TemplateBinding.Grammar.Progress` shows how much is always enough.
-/
namespace TemplateBinding.Grammar

inductive Stop
  | exhausted
  | fault (fault : Fault)

/-- A step of the descent ends early, or gives a result and the place behind it. -/
abbrev Step := Except Stop

def Cursor.fail {α : Type} (c : Cursor) (cause : Cause) : Step α :=
  .error (.fault ⟨cause, c.column⟩)

def Cursor.expect (c : Cursor) (mark : Char) : Step Cursor :=
  match c.accept? (.punctuation mark) with
  | some d => .ok d
  | none => c.fail (.missing mark)

/-- The binary operators, level by level from loose to tight. All associate to the left. -/
def precedence : List (List Lexeme) :=
  [[.operator "||"],
   [.operator "&&"],
   [.operator "==", .operator "!=", .operator "===", .operator "!=="],
   [.operator "<", .operator ">", .operator "<=", .operator ">=", .keyword "in"],
   [.operator "+", .operator "-"],
   [.operator "*", .operator "/", .operator "%"]]

def signs : List Lexeme := [.operator "+", .operator "-"]

/-- The name that has to follow a point. Keywords are names there. -/
def Cursor.memberName (c : Cursor) : Step (Text × Cursor) :=
  match c.next? with
  | some (.identifier name, d) => .ok (name, d)
  | some (.keyword word, d) => .ok (word, d)
  | some (other, _) => c.fail (.memberNameExpected (some other.text))
  | none => c.fail (.memberNameExpected none)

def Cursor.filterName (c : Cursor) : Step (Text × Cursor) :=
  match c.next? with
  | some (.identifier name, d) => .ok (name, d)
  | _ => c.fail .filterNameExpected

def Cursor.entryKey (c : Cursor) : Step (Key × Cursor) :=
  match c.next? with
  | some (.identifier name, d) => .ok (⟨name, false⟩, d)
  | some (.keyword word, d) => .ok (⟨word, false⟩, d)
  | some (.string value, d) => .ok (⟨value, true⟩, d)
  | _ => c.fail .keyExpected

def ofKeyword? (span : Span) (word : Text) : Option Expr :=
  if word = "null" then some (.literal span .null)
  else if word = "undefined" then some (.literal span .undefined)
  else if word = "true" then some (.literal span (.boolean true))
  else if word = "false" then some (.literal span (.boolean false))
  else if word = "this" then some (.explicitThis span)
  else none

mutual

/-- `expression ('|' name (':' expression)*)*` -/
def filtered : Nat → Cursor → Step (Expr × Cursor)
  | 0, _ => .error .exhausted
  | n + 1, c => do
    let (subject, d) ← expression n c
    filterTail n c.column subject d

def filterTail : Nat → Nat → Expr → Cursor → Step (Expr × Cursor)
  | 0, _, _, _ => .error .exhausted
  | n + 1, start, subject, c =>
    match c.accept? (.operator "|") with
    | none => .ok (subject, c)
    | some d => do
      let (name, d) ← d.filterName
      let (args, d) ← filterArgs n d
      filterTail n start (.filter ⟨start, d.passed⟩ subject name args) d

def filterArgs : Nat → Cursor → Step (List Expr × Cursor)
  | 0, _ => .error .exhausted
  | n + 1, c =>
    match c.accept? (.punctuation ':') with
    | none => .ok ([], c)
    | some d => do
      let (arg, d) ← expression n d
      let (args, d) ← filterArgs n d
      .ok (arg :: args, d)

/-- `conditional ('=' expression)?`, where only a property or a keyed read may be set. -/
def expression : Nat → Cursor → Step (Expr × Cursor)
  | 0, _ => .error .exhausted
  | n + 1, c => do
    let (target, d) ← conditional n c
    match d.accept? (.operator "=") with
    | none => .ok (target, d)
    | some e =>
      match target with
      | .property _ receiver name => do
        let (value, f) ← expression n e
        .ok (.setProperty ⟨c.column, f.passed⟩ receiver name value, f)
      | .keyed _ receiver key => do
        let (value, f) ← expression n e
        .ok (.setKeyed ⟨c.column, f.passed⟩ receiver key value, f)
      | other => d.fail (.notAssignable other.span)

/-- `binary ('?' expression ':' expression)?` -/
def conditional : Nat → Cursor → Step (Expr × Cursor)
  | 0, _ => .error .exhausted
  | n + 1, c => do
    let (condition, d) ← binary n precedence c
    match d.accept? (.operator "?") with
    | none => .ok (condition, d)
    | some d => do
      let (yes, d) ← expression n d
      match d.accept? (.punctuation ':') with
      | none => d.fail (.incompleteConditional ⟨c.column, d.column⟩)
      | some d => do
        let (no, d) ← expression n d
        .ok (.conditional ⟨c.column, d.passed⟩ condition yes no, d)

/-- The operators of the first level, over operands of the levels after it. -/
def binary : Nat → List (List Lexeme) → Cursor → Step (Expr × Cursor)
  | 0, _, _ => .error .exhausted
  | n + 1, [], c => prefixed n c
  | n + 1, level :: tighter, c => do
    let (left, d) ← binary n tighter c
    binaryTail n level tighter c.column left d

def binaryTail : Nat → List Lexeme → List (List Lexeme) → Nat → Expr → Cursor → Step (Expr × Cursor)
  | 0, _, _, _, _, _ => .error .exhausted
  | n + 1, level, tighter, start, left, c =>
    match c.acceptAny? level with
    | none => .ok (left, c)
    | some (operation, d) => do
      let (right, d) ← binary n tighter d
      binaryTail n level tighter start (.binary ⟨start, d.passed⟩ operation left right) d

/-- `('!' | '+' | '-') prefixed | member` -/
def prefixed : Nat → Cursor → Step (Expr × Cursor)
  | 0, _ => .error .exhausted
  | n + 1, c =>
    match c.accept? (.operator "!") with
    | some d => do
      let (operand, d) ← prefixed n d
      .ok (.negation ⟨c.column, d.passed⟩ operand, d)
    | none =>
      match c.acceptAny? signs with
      | some (sign, d) => do
        let (operand, d) ← prefixed n d
        .ok (.unary ⟨c.column, d.passed⟩ sign operand, d)
      | none => member n c

def member : Nat → Cursor → Step (Expr × Cursor)
  | 0, _ => .error .exhausted
  | n + 1, c => do
    let (head, d) ← primary n c
    memberTail n c.column head d

def memberTail : Nat → Nat → Expr → Cursor → Step (Expr × Cursor)
  | 0, _, _, _ => .error .exhausted
  | n + 1, start, head, c =>
    match c.next? with
    | some (.punctuation '.', d) => do
      let (name, d) ← d.memberName
      memberTail n start (.property ⟨start, d.passed⟩ head name) d
    | some (.punctuation '[', d) => do
      let (key, d) ← expression n d
      let d ← d.expect ']'
      memberTail n start (.keyed ⟨start, d.passed⟩ head key) d
    | some (.punctuation '(', d) => do
      let (args, d) ← callArgs n d
      memberTail n start (.call ⟨start, d.passed⟩ head args) d
    | _ => .ok (head, c)

def callArgs : Nat → Cursor → Step (List Expr × Cursor)
  | 0, _ => .error .exhausted
  | n + 1, c =>
    match c.accept? (.punctuation ')') with
    | some d => .ok ([], d)
    | none => do
      let (items, d) ← arguments n c
      let d ← d.expect ')'
      .ok (items, d)

def arrayItems : Nat → Cursor → Step (List Expr × Cursor)
  | 0, _ => .error .exhausted
  | n + 1, c =>
    match c.accept? (.punctuation ']') with
    | some d => .ok ([], d)
    | none => do
      let (items, d) ← elements n c
      let d ← d.expect ']'
      .ok (items, d)

def objectEntries : Nat → Cursor → Step (List (Key × Expr) × Cursor)
  | 0, _ => .error .exhausted
  | n + 1, c =>
    match c.accept? (.punctuation '}') with
    | some d => .ok ([], d)
    | none => do
      let (items, d) ← entries n c
      let d ← d.expect '}'
      .ok (items, d)

def arguments : Nat → Cursor → Step (List Expr × Cursor)
  | 0, _ => .error .exhausted
  | n + 1, c => do
    let (item, d) ← filtered n c
    match d.accept? (.punctuation ',') with
    | none => .ok ([item], d)
    | some d => do
      let (items, d) ← arguments n d
      .ok (item :: items, d)

def elements : Nat → Cursor → Step (List Expr × Cursor)
  | 0, _ => .error .exhausted
  | n + 1, c => do
    let (item, d) ← expression n c
    match d.accept? (.punctuation ',') with
    | none => .ok ([item], d)
    | some d => do
      let (items, d) ← elements n d
      .ok (item :: items, d)

def entries : Nat → Cursor → Step (List (Key × Expr) × Cursor)
  | 0, _ => .error .exhausted
  | n + 1, c => do
    let (key, d) ← c.entryKey
    let d ← d.expect ':'
    let (value, d) ← expression n d
    match d.accept? (.punctuation ',') with
    | none => .ok ([(key, value)], d)
    | some d => do
      let (rest, d) ← entries n d
      .ok ((key, value) :: rest, d)

def primary : Nat → Cursor → Step (Expr × Cursor)
  | 0, _ => .error .exhausted
  | n + 1, c =>
    match c.next? with
    | none => c.fail .endOfText
    | some (.punctuation '(', d) => do
      let (inner, d) ← filtered n d
      let d ← d.expect ')'
      .ok (.parenthesized ⟨c.column, d.passed⟩ inner, d)
    | some (.punctuation '[', d) => do
      let (items, d) ← arrayItems n d
      .ok (.array ⟨c.column, d.passed⟩ items, d)
    | some (.punctuation '{', d) => do
      let (items, d) ← objectEntries n d
      .ok (.object ⟨c.column, d.passed⟩ (items.map (·.1)) (items.map (·.2)), d)
    | some (.keyword word, d) =>
      match ofKeyword? ⟨c.column, d.passed⟩ word with
      | some e => .ok (e, d)
      | none => c.fail (.reserved word)
    | some (.identifier name, d) =>
      .ok (.property ⟨c.column, d.passed⟩ (.implicitThis ⟨c.column, c.column⟩) name, d)
    | some (.number value _, d) => .ok (.literal ⟨c.column, d.passed⟩ (.number value), d)
    | some (.string value, d) => .ok (.literal ⟨c.column, d.passed⟩ (.string value), d)
    | some (other, _) => c.fail (.unexpected other.text)

end

def upTo {α : Type} (mark : Char) (none : α) (list : Cursor → Step (α × Cursor)) (c : Cursor) :
    Step (α × Cursor) :=
  match c.accept? (.punctuation mark) with
  | some d => .ok (none, d)
  | Option.none => do
    let (found, d) ← list c
    let d ← d.expect mark
    .ok (found, d)

def separated (one : Cursor → Step (Expr × Cursor)) (more : Cursor → Step (List Expr × Cursor))
    (c : Cursor) : Step (List Expr × Cursor) := do
  let (item, d) ← one c
  match d.accept? (.punctuation ',') with
  | none => .ok ([item], d)
  | some d => do
    let (items, d) ← more d
    .ok (item :: items, d)

theorem callArgs_succ (n : Nat) : callArgs (n + 1) = upTo ')' [] (arguments n) := rfl

theorem arrayItems_succ (n : Nat) : arrayItems (n + 1) = upTo ']' [] (elements n) := rfl

theorem objectEntries_succ (n : Nat) : objectEntries (n + 1) = upTo '}' [] (entries n) := rfl

theorem arguments_succ (n : Nat) : arguments (n + 1) = separated (filtered n) (arguments n) := rfl

theorem elements_succ (n : Nat) : elements (n + 1) = separated (expression n) (elements n) := rfl

def closers : List Lexeme := [.punctuation ')', .punctuation '}', .punctuation ']']

/-- The expressions of a chain. `chained` says that a semicolon came before. -/
def chainItems : Nat → Bool → Cursor → Step (List Expr × Cursor)
  | 0, _, _ => .error .exhausted
  | n + 1, chained, c =>
    match c.next? with
    | none => .ok ([], c)
    | some (first, _) =>
      if first ∈ closers then c.fail (.unconsumed first.text)
      else do
        let (item, d) ← filtered n c
        let e := d.skipSemicolons
        let separated := decide (e.left < d.left)
        if (chained || separated) && item.isFilter then e.fail .filterInChain
        else
          match e.next? with
          | none => .ok ([item], e)
          | some (other, _) =>
            if separated then do
              let (items, f) ← chainItems n true e
              .ok (item :: items, f)
            else e.fail (.trailing other.text)

def chain (n : Nat) (c : Cursor) : Step (Expr × Cursor) := do
  let d := c.skipSemicolons
  let (items, e) ← chainItems n (decide (d.left < c.left)) d
  match items with
  | [] => .ok (.empty ⟨0, c.size⟩, e)
  | [item] => .ok (item, e)
  | _ => .ok (.chain ⟨c.column, e.passed⟩ items, e)

end TemplateBinding.Grammar
