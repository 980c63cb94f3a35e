import Blockwork.Json.Document

-- Reading JSON text one character at a time. Containers that are still open are
-- kept on a stack, so the depth of a text costs nothing here; whoever reads a
-- document for its content sets the limit.
namespace Blockwork.Json

inductive NumberPhase where
  | minus | zero | integer | point | fraction | mark | markSign | exponent
  deriving DecidableEq

-- A number literal so far, its digits in reverse.
structure NumberScan where
  phase : NumberPhase
  negative : Bool := false
  whole : List Char := []
  places : List Char := []
  exponentNegative : Bool := false
  exponent : Nat := 0

namespace NumberScan

def start? (c : Char) : Option NumberScan :=
  if c = '-' then some ⟨.minus, true, [], [], false, 0⟩
  else if c = '0' then some ⟨.zero, false, [c], [], false, 0⟩
  else if isDigit c then some ⟨.integer, false, [c], [], false, 0⟩
  else none

def addDigit (scan : NumberScan) (c : Char) (phase : NumberPhase) : NumberScan :=
  { scan with phase := phase, whole := c :: scan.whole }

def addPlace (scan : NumberScan) (c : Char) : NumberScan :=
  { scan with phase := .fraction, places := c :: scan.places }

def addExponent (scan : NumberScan) (c : Char) : NumberScan :=
  { scan with phase := .exponent, exponent := scan.exponent * 10 + digitValue c }

def leaveInteger (scan : NumberScan) (c : Char) : Option NumberScan :=
  if c = '.' then some { scan with phase := .point }
  else if c = 'e' ∨ c = 'E' then some { scan with phase := .mark }
  else none

def step (scan : NumberScan) (c : Char) : Option NumberScan :=
  match scan.phase with
  | .minus =>
    if c = '0' then some (scan.addDigit c .zero)
    else if isDigit c then some (scan.addDigit c .integer)
    else none
  | .zero => scan.leaveInteger c
  | .integer => if isDigit c then some (scan.addDigit c .integer) else scan.leaveInteger c
  | .point => if isDigit c then some (scan.addPlace c) else none
  | .fraction =>
    if isDigit c then some (scan.addPlace c)
    else if c = 'e' ∨ c = 'E' then some { scan with phase := .mark }
    else none
  | .mark =>
    if c = '+' then some { scan with phase := .markSign }
    else if c = '-' then some { scan with phase := .markSign, exponentNegative := true }
    else if isDigit c then some (scan.addExponent c)
    else none
  | .markSign => if isDigit c then some (scan.addExponent c) else none
  | .exponent => if isDigit c then some (scan.addExponent c) else none

def finish? (scan : NumberScan) : Option Literal :=
  let exponent : Int := if scan.exponentNegative then -scan.exponent else scan.exponent
  let literal := Literal.mk scan.negative scan.whole.reverse scan.places.reverse
  match scan.phase with
  | .zero | .integer | .fraction => some (literal none)
  | .exponent => some (literal (some exponent))
  | _ => none

end NumberScan

inductive TextPhase where
  | plain
  | escape
  | hex (missing : Nat) (value : Nat)

-- A string literal so far. `high` is the first half of a surrogate pair whose second
-- half has to follow; `broken` says that some half stood alone.
structure TextScan where
  phase : TextPhase := .plain
  reversed : List Char := []
  high : Option Nat := none
  broken : Bool := false

namespace TextScan

def push (scan : TextScan) (c : Char) : TextScan :=
  ⟨.plain, c :: scan.reversed, none, scan.broken || scan.high.isSome⟩

def pushUnit (scan : TextScan) (unit : Nat) : TextScan :=
  let isHigh := decide (0xd800 ≤ unit) && decide (unit < 0xdc00)
  let isLow := decide (0xdc00 ≤ unit) && decide (unit < 0xe000)
  match scan.high with
  | some high =>
    if isLow then
      ⟨.plain, Char.ofNat (0x10000 + (high - 0xd800) * 0x400 + (unit - 0xdc00)) :: scan.reversed,
        none, scan.broken⟩
    else ⟨.plain, scan.reversed, none, true⟩
  | none =>
    if isHigh then ⟨.plain, scan.reversed, some unit, scan.broken⟩
    else if isLow then ⟨.plain, scan.reversed, none, true⟩
    else ⟨.plain, Char.ofNat unit :: scan.reversed, none, scan.broken⟩

def hexValue? (c : Char) : Option Nat :=
  if isDigit c then some (digitValue c)
  else if 'a' ≤ c ∧ c ≤ 'f' then some (c.toNat - 87)
  else if 'A' ≤ c ∧ c ≤ 'F' then some (c.toNat - 55)
  else none

def named? (c : Char) : Option Char :=
  if c = '"' ∨ c = '\\' ∨ c = '/' then some c
  else if c = 'b' then some (Char.ofNat 8)
  else if c = 'f' then some (Char.ofNat 12)
  else if c = 'n' then some '\n'
  else if c = 'r' then some '\r'
  else if c = 't' then some '\t'
  else none

def step (scan : TextScan) (c : Char) : Option TextScan :=
  match scan.phase with
  | .plain =>
    if c = '\\' then some { scan with phase := .escape }
    else if c.toNat < 0x20 then none
    else some (scan.push c)
  | .escape =>
    if c = 'u' then some { scan with phase := .hex 4 0 } else (named? c).map scan.push
  | .hex missing value =>
    (hexValue? c).map fun digit =>
      if missing ≤ 1 then scan.pushUnit (value * 16 + digit)
      else { scan with phase := .hex (missing - 1) (value * 16 + digit) }

def closes (scan : TextScan) (c : Char) : Bool :=
  match scan.phase with
  | .plain => c == '"'
  | _ => false

def spelled (scan : TextScan) : Option String :=
  if scan.broken || scan.high.isSome then none else some (String.ofList scan.reversed.reverse)

end TextScan

-- A container that is still open, its content in reverse. `member` waits for the value
-- of a key.
inductive Frame where
  | array (items : List Document)
  | object (members : List (Option String × Document))
  | member (members : List (Option String × Document)) (key : Option String)

inductive Mode where
  | value
  | firstItem
  | key
  | firstKey
  | colon
  | after
  | text (scan : TextScan) (isKey : Bool)
  | number (scan : NumberScan)
  | word (rest : List Char) (meaning : Document)
  | done (document : Document)

structure Reader where
  mode : Mode
  stack : List Frame

namespace Reader

def init : Reader := ⟨.value, []⟩

def deliver (stack : List Frame) (document : Document) : Option Reader :=
  match stack with
  | [] => some ⟨.done document, []⟩
  | .array items :: rest => some ⟨.after, .array (document :: items) :: rest⟩
  | .member members key :: rest => some ⟨.after, .object ((key, document) :: members) :: rest⟩
  | .object _ :: _ => none

def deliverKey (stack : List Frame) (key : Option String) : Option Reader :=
  match stack with
  | .object members :: rest => some ⟨.colon, .member members key :: rest⟩
  | _ => none

def openValue (stack : List Frame) (c : Char) : Option Reader :=
  if c = '"' then some ⟨.text {} false, stack⟩
  else if c = '[' then some ⟨.firstItem, .array [] :: stack⟩
  else if c = '\x7b' then some ⟨.firstKey, .object [] :: stack⟩
  else if c = 't' then some ⟨.word ['r', 'u', 'e'] (.bool true), stack⟩
  else if c = 'f' then some ⟨.word ['a', 'l', 's', 'e'] (.bool false), stack⟩
  else if c = 'n' then some ⟨.word ['u', 'l', 'l'] .null, stack⟩
  else (NumberScan.start? c).map fun scan => ⟨.number scan, stack⟩

def openKey (stack : List Frame) (c : Char) : Option Reader :=
  if c = '"' then some ⟨.text {} true, stack⟩ else none

def closeOrContinue (stack : List Frame) (c : Char) : Option Reader :=
  match stack with
  | .array items :: rest =>
    if c = ',' then some ⟨.value, stack⟩
    else if c = ']' then deliver rest (.array items.reverse)
    else none
  | .object members :: rest =>
    if c = ',' then some ⟨.key, stack⟩
    else if c = '\x7d' then deliver rest (.object members.reverse)
    else none
  | _ => none

def isSpace (c : Char) : Bool := c == ' ' || c == '\t' || c == '\n' || c == '\r'

def between (reader : Reader) (c : Char) : Option Reader :=
  if isSpace c then some reader
  else match reader.mode with
    | .value => openValue reader.stack c
    | .firstItem =>
      if c = ']' then closeOrContinue reader.stack c else openValue reader.stack c
    | .key => openKey reader.stack c
    | .firstKey => if c = '\x7d' then closeOrContinue reader.stack c else openKey reader.stack c
    | .colon => if c = ':' then some ⟨.value, reader.stack⟩ else none
    | .after => closeOrContinue reader.stack c
    | _ => none

def endNumber (reader : Reader) (scan : NumberScan) : Option Reader :=
  scan.finish?.bind fun literal => deliver reader.stack (.number literal)

def step (reader : Reader) (c : Char) : Option Reader :=
  match reader.mode with
  | .text scan isKey =>
    if scan.closes c then
      if isKey then deliverKey reader.stack scan.spelled
      else deliver reader.stack (.text scan.spelled)
    else (scan.step c).map fun scan => { reader with mode := .text scan isKey }
  | .number scan =>
    match scan.step c with
    | some scan => some { reader with mode := .number scan }
    | none => (reader.endNumber scan).bind fun reader => reader.between c
  | .word (next :: rest) meaning =>
    if c ≠ next then none
    else if rest.isEmpty then deliver reader.stack meaning
    else some { reader with mode := .word rest meaning }
  | _ => reader.between c

def finish? (reader : Reader) : Option Document :=
  match reader.mode with
  | .done document => some document
  | .number scan =>
    match reader.endNumber scan with
    | some ⟨.done document, _⟩ => some document
    | _ => none
  | _ => none

def run (reader : Reader) (cs : List Char) : Option Reader := cs.foldlM step reader

end Reader

def Document.read? (s : String) : Option Document := (Reader.init.run s.toList).bind Reader.finish?

end Blockwork.Json
