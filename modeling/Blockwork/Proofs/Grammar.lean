import Mathlib
import Blockwork.Python.Expr
import Blockwork.Python.NameTable

-- The grammar of expressions, as a reader of text. It knows nothing of how
-- expressions are written: what is not in the grammar it does not read.
namespace Blockwork.Python

inductive Token where
  | name (id : String)
  | constant (id : String)
  | numeral (digits : String)
  | text (value : String)
  | operator (operator : Operator)
  | notWord
  | ifWord
  | elseWord
  | leftParen
  | rightParen
  | leftBracket
  | rightBracket
  | comma
  | dot
  deriving DecidableEq

def constants : List String := ["None", "True", "False"]

-- The token of a word. Of the keywords only some belong to expressions.
def wordToken? (word : String) : Option Token :=
  if word = "and" then some (.operator .both)
  else if word = "or" then some (.operator .either)
  else if word = "not" then some .notWord
  else if word = "if" then some .ifWord
  else if word = "else" then some .elseWord
  else if constants.contains word then some (.constant word)
  else if keywords.contains word then none
  else some (.name word)

-- Digits, or digits with a point after the first of them. Whole numbers have no leading
-- zeros.
def isNumeral (cs : List Char) : Bool :=
  let whole := cs.takeWhile Char.isDigit
  !whole.isEmpty && match cs.dropWhile Char.isDigit with
    | [] => whole.head? != some '0' || whole.all (· == '0')
    | '.' :: places => places.all Char.isDigit
    | _ => false

def unescape? : Char → Option Char
  | '\\' => some '\\'
  | '\x27' => some '\x27'
  | '"' => some '"'
  | 'n' => some '\n'
  | 'r' => some '\r'
  | _ => none

def readLiteral (quote : Char) : List Char → Option (List Char × List Char)
  | [] => none
  | '\\' :: c :: rest => do
    let c ← unescape? c
    let (value, after) ← readLiteral quote rest
    return (c :: value, after)
  | c :: rest =>
    if c = quote then some ([], rest)
    else if c = '\\' ∨ c = '\n' ∨ c = '\r' then none
    else do
      let (value, after) ← readLiteral quote rest
      return (c :: value, after)

def readSymbol : List Char → Option (Token × List Char)
  | '(' :: rest => some (.leftParen, rest)
  | ')' :: rest => some (.rightParen, rest)
  | '[' :: rest => some (.leftBracket, rest)
  | ']' :: rest => some (.rightBracket, rest)
  | ',' :: rest => some (.comma, rest)
  | '.' :: rest => if rest.head?.any Char.isDigit then none else some (.dot, rest)
  | '*' :: '*' :: rest => operatorBefore .power rest
  | '=' :: '=' :: rest => operatorBefore .equal rest
  | '!' :: '=' :: rest => operatorBefore .notEqual rest
  | '<' :: '=' :: rest => operatorBefore .lessEqual rest
  | '>' :: '=' :: rest => operatorBefore .greaterEqual rest
  | '<' :: rest => operatorBefore .less rest
  | '>' :: rest => operatorBefore .greater rest
  | '+' :: rest => operatorBefore .add rest
  | '-' :: rest => operatorBefore .subtract rest
  | '*' :: rest => operatorBefore .multiply rest
  | '/' :: rest => operatorBefore .divide rest
  | '%' :: rest => operatorBefore .modulo rest
  | _ => none
where
  -- Longer symbols, such as those of assignments, are not operators.
  operatorBefore (operator : Operator) (rest : List Char) : Option (Token × List Char) :=
    if rest.head?.any "=<>*/".toList.contains then none else some (.operator operator, rest)

def isQuote (c : Char) : Bool := c == '\x27' || c == '"'

-- The first token of a text that does not start with a blank. Tokens are as long as
-- possible; strings with a prefix or three quotes are not in the grammar.
def readToken (cs : List Char) : Option (Token × List Char) :=
  match cs with
  | [] => none
  | c :: rest =>
    if c.isDigit then
      let digits := cs.takeWhile fun c => isNameChar c || c == '.'
      if isNumeral digits then
        some (.numeral (String.ofList digits), cs.dropWhile fun c => isNameChar c || c == '.')
      else none
    else if isNameChar c then
      let after := cs.dropWhile isNameChar
      if after.head?.any isQuote then none
      else (wordToken? (String.ofList (cs.takeWhile isNameChar))).map fun token => (token, after)
    else if isQuote c then
      if [c, c].isPrefixOf rest then none
      else (readLiteral c rest).map fun (value, after) => (.text (String.ofList value), after)
    else readSymbol cs

def readTokens (cs : List Char) : Option (List Token) :=
  match cs with
  | [] => some []
  | c :: rest =>
    if c = ' ' then readTokens rest
    else match readToken (c :: rest) with
      | none => none
      | some (token, after) =>
        if after.length ≤ rest.length then (readTokens after).map (token :: ·) else none
termination_by cs.length

-- The levels of the grammar, from tight to loose.
inductive Level where
  | atom
  | primary
  | power
  | factor
  | term
  | sum
  | comparison
  | inversion
  | conjunction
  | disjunction
  | expression
  deriving DecidableEq

namespace Level

def rank : Level → Nat
  | .atom => 0
  | .primary => 1
  | .power => 2
  | .factor => 3
  | .term => 4
  | .sum => 5
  | .comparison => 6
  | .inversion => 7
  | .conjunction => 8
  | .disjunction => 9
  | .expression => 10

def joins : Level → Operator → Bool
  | .term, .multiply | .term, .divide | .term, .modulo => true
  | .sum, .add | .sum, .subtract => true
  | .conjunction, .both => true
  | .disjunction, .either => true
  | _, _ => false

end Level

def Operator.compares : Operator → Bool
  | .equal | .notEqual | .less | .lessEqual | .greater | .greaterEqual => true
  | _ => false

-- Goes on after something was read. Reading takes at least one token.
def follow {α β : Type} (ts : List Token) (read : Option (α × List Token))
    (next : α → (rest : List Token) → rest.length < ts.length → Option β) : Option β :=
  match read with
  | none => none
  | some (a, rest) => if shorter : rest.length < ts.length then next a rest shorter else none

mutual

def readAt (level : Level) (ts : List Token) : Option (Expr × List Token) :=
  match level with
  | .expression =>
    follow ts (readAt .disjunction ts) fun value rest shorter =>
      match rest, shorter with
      | .ifWord :: rest, _ =>
        follow rest (readAt .disjunction rest) fun condition rest shorter =>
          match rest, shorter with
          | .elseWord :: rest, _ =>
            follow rest (readAt .expression rest) fun otherwise rest _ =>
              some (.conditional value condition otherwise, rest)
          | _, _ => none
      | rest, _ => some (value, rest)
  | .disjunction =>
    follow ts (readAt .conjunction ts) fun e rest _ => readChain .disjunction .conjunction e rest
  | .conjunction =>
    follow ts (readAt .inversion ts) fun e rest _ => readChain .conjunction .inversion e rest
  | .inversion =>
    match ts with
    | .notWord :: rest =>
      follow rest (readAt .inversion rest) fun e rest _ => some (.negation e, rest)
    | ts => readAt .comparison ts
  | .comparison =>
    follow ts (readAt .sum ts) fun left rest shorter =>
      match rest, shorter with
      | .operator op :: rest, _ =>
        if op.compares then
          follow rest (readAt .sum rest) fun right rest _ => some (.binary op left right, rest)
        else some (left, .operator op :: rest)
      | rest, _ => some (left, rest)
  | .sum => follow ts (readAt .term ts) fun e rest _ => readChain .sum .term e rest
  | .term => follow ts (readAt .factor ts) fun e rest _ => readChain .term .factor e rest
  | .factor =>
    match ts with
    | .operator .subtract :: rest =>
      follow rest (readAt .factor rest) fun e rest _ => some (.opposite e, rest)
    | ts => readAt .power ts
  | .power =>
    follow ts (readAt .primary ts) fun left rest shorter =>
      match rest, shorter with
      | .operator .power :: rest, _ =>
        follow rest (readAt .factor rest) fun right rest _ => some (.binary .power left right, rest)
      | rest, _ => some (left, rest)
  | .primary => follow ts (readAt .atom ts) fun e rest _ => readTrailers e rest
  | .atom =>
    match ts with
    | .name id :: rest | .constant id :: rest => some (.name id, rest)
    | .numeral digits :: rest => some (.numeral digits, rest)
    | .text value :: rest => some (.text value, rest)
    | .leftParen :: rest =>
      follow rest (readAt .expression rest) fun e rest _ =>
        match rest with
        | .rightParen :: rest => some (e, rest)
        | _ => none
    | .leftBracket :: rest =>
      (readItems .rightBracket rest).map fun (items, rest) => (.list items, rest)
    | _ => none
termination_by (ts.length, level.rank)
decreasing_by
  all_goals first
    | exact Prod.Lex.right _ (by decide)
    | exact Prod.Lex.left _ _ (by grind)

def readChain (level operand : Level) (left : Expr) (ts : List Token) : Option (Expr × List Token) :=
  match ts with
  | .operator op :: rest =>
    if level.joins op then
      follow rest (readAt operand rest) fun right rest _ =>
        readChain level operand (.binary op left right) rest
    else some (left, .operator op :: rest)
  | ts => some (left, ts)
termination_by (ts.length, 0)
decreasing_by
  all_goals exact Prod.Lex.left _ _ (by grind)

def readTrailers (object : Expr) (ts : List Token) : Option (Expr × List Token) :=
  match ts with
  | .dot :: .name member :: rest => readTrailers (.attribute object member) rest
  | .leftParen :: rest =>
    follow rest (readItems .rightParen rest) fun args rest _ => readTrailers (.call object args) rest
  | .leftBracket :: rest =>
    follow rest (readAt .expression rest) fun position rest shorter =>
      match rest, shorter with
      | .rightBracket :: rest, _ => readTrailers (.item object position) rest
      | _, _ => none
  | ts => some (object, ts)
termination_by (ts.length, 0)
decreasing_by
  all_goals exact Prod.Lex.left _ _ (by grind)

def readItems (closing : Token) (ts : List Token) : Option (List Expr × List Token) :=
  match ts with
  | [] => none
  | token :: rest => if token = closing then some ([], rest) else readMore closing (token :: rest)
termination_by (ts.length, 12)
decreasing_by
  exact Prod.Lex.right _ (by decide)

def readMore (closing : Token) (ts : List Token) : Option (List Expr × List Token) :=
  follow ts (readAt .expression ts) fun e rest shorter =>
    match rest, shorter with
    | token :: rest, _ =>
      if token = closing then some ([e], rest)
      else if token = .comma then
        (readMore closing rest).map fun (others, rest) => (e :: others, rest)
      else none
    | [], _ => none
termination_by (ts.length, 11)
decreasing_by
  · exact Prod.Lex.right _ (by decide)
  · exact Prod.Lex.left _ _ (by grind)

end

def readExpr (s : String) : Option Expr :=
  match (readTokens s.toList).bind (readAt .expression) with
  | some (e, []) => some e
  | _ => none

end Blockwork.Python
