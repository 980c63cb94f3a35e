import Mathlib
import Blockwork.Proofs.Lexing

-- The words of a line of source, found character by character. Words, numbers and
-- strings are as long as possible. A character that may not stand outside of strings
-- stops the scan, and so does a string with a prefix or with three quotes.
namespace Blockwork.Python

inductive Lexeme where
  | word (name : String)
  | number
  | literal
  | mark (c : Char)
  deriving DecidableEq

-- What the characters so far have begun. After two quotes a third one would open another kind
-- of string.
inductive Mode where
  | ready
  | word (cs : List Char)
  | number (cs : List Char)
  | literal (quote : Char) (filled escaped : Bool)
  | twoQuotes (quote : Char)
  deriving DecidableEq

def isMark (c : Char) : Bool := "()[],.:=+-*/%<>!".toList.contains c

namespace Mode

def start (c : Char) : Option (List Lexeme × Mode) :=
  if c = ' ' then some ([], .ready)
  else if c.isDigit then some ([], .number [c])
  else if isNameChar c then some ([], .word [c])
  else if isQuote c then some ([], .literal c false false)
  else if isMark c then some ([.mark c], .ready)
  else none

def leave (lexeme : Lexeme) (c : Char) : Option (List Lexeme × Mode) :=
  (start c).map fun p => (lexeme :: p.1, p.2)

def step : Mode → Char → Option (List Lexeme × Mode)
  | .ready, c => start c
  | .word cs, c =>
    if isNameChar c then some ([], .word (cs ++ [c]))
    else if isQuote c then none
    else leave (.word (String.ofList cs)) c
  | .number cs, c =>
    if isNameChar c || c == '.' then some ([], .number (cs ++ [c]))
    else if isNumeral cs then leave .number c
    else none
  | .literal quote _ true, c =>
    if c = '\n' ∨ c = '\r' then none else some ([], .literal quote true false)
  | .literal quote filled false, c =>
    if c = '\n' ∨ c = '\r' then none
    else if c = '\\' then some ([], .literal quote true true)
    else if c = quote then some ([.literal], if filled then .ready else .twoQuotes quote)
    else some ([], .literal quote true false)
  | .twoQuotes quote, c => if isQuote c ∧ c = quote then none else start c

-- At the end of the line.
def finish : Mode → Option (List Lexeme)
  | .ready | .twoQuotes _ => some []
  | .word cs => some [.word (String.ofList cs)]
  | .number cs => if isNumeral cs then some [.number] else none
  | .literal .. => none

end Mode

def advance : Mode → List Char → Option (List Lexeme × Mode)
  | mode, [] => some ([], mode)
  | mode, c :: cs => (mode.step c).bind fun p => (advance p.2 cs).map fun q => (p.1 ++ q.1, q.2)

def scan (mode : Mode) (cs : List Char) : Option (List Lexeme) :=
  (advance mode cs).bind fun p => p.2.finish.map (p.1 ++ ·)

-- The lexemes of a line, if it is one that can be scanned.
def lexemes? (s : String) : Option (List Lexeme) := scan .ready s.toList

theorem advance_append (mode : Mode) (first second : List Char) : advance mode (first ++ second)
    = (advance mode first).bind fun p => (advance p.2 second).map fun q => (p.1 ++ q.1, q.2) := by
  induction first generalizing mode with
  | nil => simp [advance]
  | cons c cs ih =>
    rw [List.cons_append, advance, advance]
    cases mode.step c with
    | none => rfl
    | some p =>
      simp only [Option.bind_some, ih]
      cases advance p.2 cs with
      | none => rfl
      | some q => simp [Function.comp_def]

theorem scan_append (mode : Mode) (first second : List Char) : scan mode (first ++ second)
    = (advance mode first).bind fun p => (scan p.2 second).map (p.1 ++ ·) := by
  unfold scan
  rw [advance_append]
  cases advance mode first with
  | none => rfl
  | some p =>
    simp only [Option.bind_some]
    cases advance p.2 second with
    | none => rfl
    | some q => simp [Function.comp_def]

theorem scan_cons (mode : Mode) (c : Char) (cs : List Char) :
    scan mode (c :: cs) = (mode.step c).bind fun p => (scan p.2 cs).map (p.1 ++ ·) := by
  have split := scan_append mode [c] cs
  rw [List.singleton_append] at split
  rw [split, advance]
  cases mode.step c with
  | none => rfl
  | some p => simp [advance]

-- Nothing pending, all that was scanned stands by itself.
theorem scan_glue {cs : List Char} {found : List Lexeme} (closed : advance .ready cs = some (found, .ready))
    (rest : List Char) : scan .ready (cs ++ rest) = (scan .ready rest).map (found ++ ·) := by
  rw [scan_append, closed]
  rfl

-- What follows does not run into a word, a number or a string.
def Separates (rest : List Char) : Prop :=
  ∀ c ∈ rest.head?, isNameChar c = false ∧ isQuote c = false ∧ c ≠ '.'

-- What is pending ends before such a text as it ends with the line.
theorem scan_finish {mode : Mode} {found : List Lexeme} (ended : mode.finish = some found) {rest : List Char}
    (leaves : ∀ c ∈ rest.head?, mode.step c = (Mode.start c).map fun p => (found ++ p.1, p.2)) :
    scan mode rest = (scan .ready rest).map (found ++ ·) := by
  cases rest with
  | nil =>
    have none : scan .ready [] = some [] := rfl
    rw [none, Option.map_some, List.append_nil, scan, advance, Option.bind_some]
    simp only [ended, Option.map_some, List.nil_append]
  | cons c cs =>
    rw [scan_cons, scan_cons, leaves c rfl, Mode.step]
    cases Mode.start c with
    | none => rfl
    | some p => simp [Function.comp_def]

theorem Separates.leaves {rest : List Char} (apart : Separates rest) {mode : Mode} {found : List Lexeme}
    (ended : mode.finish = some found) :
    ∀ c ∈ rest.head?, mode.step c = (Mode.start c).map fun p => (found ++ p.1, p.2) := by
  intro c first
  obtain ⟨named, quoted, dotted⟩ := apart c first
  cases mode with
  | ready =>
    cases ended
    simp [Mode.step]
  | word cs =>
    cases ended
    simp [Mode.step, Mode.leave, named, quoted]
  | number cs =>
    simp only [Mode.finish, Option.ite_none_right_eq_some, Option.some.injEq] at ended
    obtain ⟨proper, rfl⟩ := ended
    simp [Mode.step, Mode.leave, named, dotted, proper]
  | literal quote filled escaped => cases ended
  | twoQuotes quote =>
    cases ended
    simp [Mode.step, quoted]

theorem scan_phrase {cs : List Char} {found : List Lexeme} (read : scan .ready cs = some found)
    {rest : List Char} (apart : Separates rest) :
    scan .ready (cs ++ rest) = (scan .ready rest).map (found ++ ·) := by
  rw [scan, Option.bind_eq_some_iff] at read
  obtain ⟨⟨seen, mode⟩, reached, read⟩ := read
  obtain ⟨pending, ended, rfl⟩ := Option.map_eq_some_iff.mp read
  rw [scan_append, reached, Option.bind_some, scan_finish ended (apart.leaves ended), Option.map_map]
  congr 1
  funext more
  simp

-- Expressions. Their tokens are their lexemes, but for symbols of two characters.
def Token.lexemes : Token → List Lexeme
  | .name id | .constant id => [.word id]
  | .numeral _ => [.number]
  | .text _ => [.literal]
  | .operator .both => [.word "and"]
  | .operator .either => [.word "or"]
  | .operator op => op.symbol.toList.map .mark
  | .notWord => [.word "not"]
  | .ifWord => [.word "if"]
  | .elseWord => [.word "else"]
  | .leftParen => [.mark '(']
  | .rightParen => [.mark ')']
  | .leftBracket => [.mark '[']
  | .rightBracket => [.mark ']']
  | .comma => [.mark ',']
  | .dot => [.mark '.']

theorem scan_nameChars {cs : List Char} (all : ∀ c ∈ cs, isNameChar c = true) (begun rest : List Char) :
    scan (.word begun) (cs ++ rest) = scan (.word (begun ++ cs)) rest := by
  induction cs generalizing begun with
  | nil => simp
  | cons c cs ih =>
    rw [List.forall_mem_cons] at all
    rw [List.cons_append, scan_cons, Mode.step, if_pos all.1, Option.bind_some, ih all.2]
    simp

theorem scan_digits {cs : List Char} (all : ∀ c ∈ cs, (isNameChar c || c == '.') = true)
    (begun rest : List Char) : scan (.number begun) (cs ++ rest) = scan (.number (begun ++ cs)) rest := by
  induction cs generalizing begun with
  | nil => simp
  | cons c cs ih =>
    rw [List.forall_mem_cons] at all
    rw [List.cons_append, scan_cons, Mode.step, if_pos all.1, Option.bind_some, ih all.2]
    simp

-- From within a string to behind it.
theorem scan_literal {quote : Char} (quoted : isQuote quote = true) {cs value after : List Char}
    (read : readLiteral quote cs = some (value, after)) (filled : Bool) :
    scan (.literal quote filled false) cs
      = (scan (if filled || !value.isEmpty then .ready else .twoQuotes quote) after).map (.literal :: ·) := by
  have slash : quote ≠ '\\' := by
    rintro rfl
    cases quoted
  have single : ¬ (quote = '\n' ∨ quote = '\r') := by
    rintro (rfl | rfl) <;> cases quoted
  fun_induction readLiteral quote cs generalizing value filled with
  | case1 => cases read
  | case2 c rest ih =>
    obtain ⟨meant, known, read⟩ := Option.bind_eq_some_iff.mp read
    obtain ⟨⟨more, behind⟩, inner, same⟩ := Option.bind_eq_some_iff.mp read
    cases same
    have plain : ¬ (c = '\n' ∨ c = '\r') := by
      rintro (rfl | rfl) <;> cases known
    rw [scan_cons, Mode.step, if_neg (by decide), if_pos rfl, Option.bind_some, scan_cons, Mode.step,
      if_neg plain, Option.bind_some, ih inner]
    simp [Function.comp_def]
  | case3 rest =>
    cases read
    rw [scan_cons, Mode.step, if_neg single, if_neg slash, if_pos rfl]
    simp
  | case4 => cases read
  | case5 c rest _ other plain ih =>
    obtain ⟨⟨more, behind⟩, inner, same⟩ := Option.bind_eq_some_iff.mp read
    cases same
    rw [not_or] at plain
    rw [scan_cons, Mode.step, if_neg plain.2, if_neg plain.1, if_neg other, Option.bind_some, ih inner]
    simp [Function.comp_def]

theorem scan_word {word : String} (shape : Word word.toList) {rest : List Char} (apart : Apart rest) :
    scan .ready (word.toList ++ rest) = (scan .ready rest).map (.word word :: ·) := by
  obtain ⟨filled, letter, chars⟩ := shape
  rw [List.all_eq_true] at chars
  cases split : word.toList with
  | nil => exact absurd split filled
  | cons c cs =>
    rw [split, List.forall_mem_cons] at chars
    rw [split] at letter
    have letter : c.isDigit = false := by simpa using letter
    have solid : c ≠ ' ' := by
      rintro rfl
      cases chars.1
    have start : Mode.start c = some ([], .word [c]) := by
      simp [Mode.start, solid, letter, chars.1]
    have back : String.ofList ([c] ++ cs) = word := by rw [List.singleton_append, ← split, String.ofList_toList]
    rw [List.cons_append, scan_cons, Mode.step, start, Option.bind_some]
    rw [scan_nameChars chars.2, scan_finish rfl, back]
    · rw [Option.map_map]
      rfl
    · intro d first
      obtain ⟨named, quoted⟩ := apart d first
      simp [Mode.step, Mode.leave, named, quoted]

theorem scan_numeral {cs rest : List Char} (proper : isNumeral cs = true)
    (stop : ∀ c ∈ rest.head?, (isNameChar c || c == '.') = false) :
    scan .ready (cs ++ rest) = (scan .ready rest).map (.number :: ·) := by
  obtain ⟨chars, c, digits, rfl, digit⟩ := numeral_chars proper
  rw [List.forall_mem_cons] at chars
  have solid : c ≠ ' ' := by
    rintro rfl
    cases digit
  have start : Mode.start c = some ([], .number [c]) := by simp [Mode.start, solid, digit]
  have ended : Mode.finish (.number ([c] ++ digits)) = some [.number] := if_pos proper
  rw [List.cons_append, scan_cons, Mode.step, start, Option.bind_some, scan_digits chars.2,
    scan_finish ended]
  · rw [Option.map_map]
    rfl
  · intro d first
    rw [Mode.step, if_neg (by simp [stop d first]), if_pos (by exact proper)]
    rfl

theorem scan_mark {c : Char} (mark : isMark c = true) (rest : List Char) :
    scan .ready (c :: rest) = (scan .ready rest).map (.mark c :: ·) := by
  have start : Mode.start c = some ([.mark c], .ready) := by
    have listed : c ∈ "()[],.:=+-*/%<>!".toList := by simpa [isMark] using mark
    fin_cases listed <;> rfl
  rw [scan_cons, Mode.step, start]
  rfl

theorem scan_symbol {cs after : List Char} {token : Token} (read : readSymbol cs = some (token, after)) :
    scan .ready cs = (scan .ready after).map (token.lexemes ++ ·) := by
  have operator : ∀ {op : Operator} {rest : List Char},
      readSymbol.operatorBefore op rest = some (token, after) → token = .operator op ∧ after = rest := by
    intro op rest before
    unfold readSymbol.operatorBefore at before
    split at before
    · cases before
    · cases before
      exact ⟨rfl, rfl⟩
  have one : ∀ {c : Char} {rest : List Char} {op : Operator}, isMark c = true →
      Token.lexemes (.operator op) = [.mark c] → readSymbol.operatorBefore op rest = some (token, after) →
      scan .ready (c :: rest) = (scan .ready after).map (token.lexemes ++ ·) := by
    intro c rest op mark symbol before
    obtain ⟨rfl, rfl⟩ := operator before
    rw [scan_mark mark, symbol]
    rfl
  have two : ∀ {c d : Char} {rest : List Char} {op : Operator}, isMark c = true → isMark d = true →
      Token.lexemes (.operator op) = [.mark c, .mark d] →
      readSymbol.operatorBefore op rest = some (token, after) →
      scan .ready (c :: d :: rest) = (scan .ready after).map (token.lexemes ++ ·) := by
    intro c d rest op first second symbol before
    obtain ⟨rfl, rfl⟩ := operator before
    rw [scan_mark first, scan_mark second, symbol, Option.map_map]
    rfl
  unfold readSymbol at read
  split at read
  case h_1 | h_2 | h_3 | h_4 | h_5 =>
    cases read
    exact scan_mark (by decide) _
  case h_6 =>
    split at read
    · cases read
    · cases read
      exact scan_mark (by decide) _
  case h_7 | h_8 | h_9 | h_10 | h_11 => exact two (by decide) (by decide) (by decide) read
  case h_12 | h_13 | h_14 | h_15 | h_16 | h_17 | h_18 => exact one (by decide) (by decide) read
  case h_19 => cases read

theorem wordToken?_lexemes {word : String} {token : Token} (known : wordToken? word = some token) :
    token.lexemes = [.word word] := by
  unfold wordToken? at known
  split_ifs at known with both either inverted first last
  all_goals cases known
  · rw [both]
    rfl
  · rw [either]
    rfl
  · rw [inverted]
    rfl
  · rw [first]
    rfl
  · rw [last]
    rfl
  · rfl
  · rfl

theorem readLiteral_nil {quote : Char} {cs after : List Char}
    (read : readLiteral quote cs = some ([], after)) : cs = quote :: after := by
  unfold readLiteral at read
  split at read
  · cases read
  · obtain ⟨c, _, read⟩ := Option.bind_eq_some_iff.mp read
    obtain ⟨p, _, same⟩ := Option.bind_eq_some_iff.mp read
    cases same
  · split at read
    · next c rest _ here =>
      cases read
      rw [here]
    · split at read
      · cases read
      · obtain ⟨p, _, same⟩ := Option.bind_eq_some_iff.mp read
        cases same

theorem scan_text {c : Char} {rest value after : List Char} (quoted : isQuote c = true)
    (once : [c, c].isPrefixOf rest = false) (read : readLiteral c rest = some (value, after)) :
    scan .ready (c :: rest) = (scan .ready after).map (.literal :: ·) := by
  have plain : c ≠ ' ' ∧ c.isDigit = false ∧ isNameChar c = false := by
    simp only [isQuote, Bool.or_eq_true, beq_iff_eq] at quoted
    rcases quoted with rfl | rfl <;> decide
  have start : Mode.start c = some ([], .literal c false false) := by
    simp [Mode.start, plain, quoted]
  rw [scan_cons, Mode.step, start, Option.bind_some, scan_literal quoted read]
  cases value with
  | cons d value => simp [Function.comp_def]
  | nil =>
    cases readLiteral_nil read
    have other : ∀ d ∈ after.head?, d ≠ c := by
      intro d first same
      cases after with
      | nil => cases first
      | cons e after =>
        cases first
        simp [List.isPrefixOf, same] at once
    have closed : scan (.twoQuotes c) after = (scan .ready after).map ([] ++ ·) := by
      refine scan_finish rfl fun d first => ?_
      simp [Mode.step, other d first]
    simp [closed, Function.comp_def]

theorem dropWhile_stops (p : Char → Bool) (cs : List Char) : ∀ c ∈ (cs.dropWhile p).head?, p c = false := by
  intro c first
  have kept := List.head?_dropWhile_not p cs
  rw [first] at kept
  exact kept

theorem scan_token {cs after : List Char} {token : Token} (read : readToken cs = some (token, after)) :
    scan .ready cs = (scan .ready after).map (token.lexemes ++ ·) := by
  cases cs with
  | nil => cases read
  | cons c rest =>
    rw [readToken] at read
    dsimp only at read
    split at read
    · split at read
      · next proper =>
        cases read
        have whole := scan_numeral proper (dropWhile_stops _ (c :: rest))
        rw [List.takeWhile_append_dropWhile] at whole
        exact whole
      · cases read
    · next letter =>
      split at read
      · next named =>
        split at read
        · cases read
        · next unquoted =>
          obtain ⟨token, known, same⟩ := Option.map_eq_some_iff.mp read
          cases same
          have shape : Word (String.ofList ((c :: rest).takeWhile isNameChar)).toList := by
            rw [String.toList_ofList, List.takeWhile_cons_of_pos named]
            refine ⟨by simp, by simpa using letter, ?_⟩
            rw [List.all_cons, named, Bool.true_and]
            exact List.all_takeWhile
          have apart : Apart ((c :: rest).dropWhile isNameChar) := by
            intro d first
            refine ⟨dropWhile_stops _ _ d first, ?_⟩
            rw [first] at unquoted
            simpa using unquoted
          have whole := scan_word shape apart
          rw [String.toList_ofList, List.takeWhile_append_dropWhile] at whole
          rw [whole, wordToken?_lexemes known]
          rfl
      · next unnamed =>
        split at read
        · next quoted =>
          split at read
          · cases read
          · next once =>
            obtain ⟨⟨value, behind⟩, inner, same⟩ := Option.map_eq_some_iff.mp read
            cases same
            exact scan_text quoted (Bool.eq_false_iff.mpr once) inner
        · exact scan_symbol read

theorem scan_tokens {cs : List Char} {ts : List Token} (read : readTokens cs = some ts) :
    scan .ready cs = some (ts.flatMap Token.lexemes) := by
  fun_induction readTokens cs generalizing ts with
  | case1 =>
    cases read
    rfl
  | case2 rest ih =>
    rw [scan_cons]
    simpa [Mode.step, Mode.start] using ih read
  | case3 => cases read
  | case4 c rest solid token after known shorter ih =>
    obtain ⟨others, later, rfl⟩ := Option.map_eq_some_iff.mp read
    rw [scan_token known, ih later]
    rfl
  | case5 => cases read

-- A word after a dot is a member, whatever it is called. Every other word has to be known.
def Explained (known : String → Prop) : Bool → List Lexeme → Prop
  | _, [] => True
  | dotted, lexeme :: rest =>
    (∀ name, lexeme = .word name → dotted = true ∨ known name) ∧ Explained known (lexeme == .mark '.') rest

section

variable {known : String → Prop} {dotted : Bool} {first second : List Lexeme}

theorem Explained.append (one : Explained known dotted first) (two : Explained known false second) :
    Explained known dotted (first ++ second) := by
  induction first generalizing dotted with
  | nil =>
    cases second with
    | nil => trivial
    | cons lexeme rest => exact ⟨fun name same => .inr ((two.1 name same).resolve_left (by simp)), two.2⟩
  | cons lexeme rest ih => exact ⟨one.1, ih one.2⟩

theorem Explained.word (explained : Explained known dotted first) {before after : List Lexeme} {name : String}
    (split : first = before ++ .word name :: after) :
    known name ∨ before.getLast? = some (.mark '.') ∨ dotted = true ∧ before = [] := by
  induction first generalizing dotted before with
  | nil => simp at split
  | cons lexeme rest ih =>
    cases before with
    | nil =>
      cases split
      rcases explained.1 name rfl with member | here
      · exact .inr (.inr ⟨member, rfl⟩)
      · exact .inl here
    | cons front before =>
      obtain ⟨rfl, same⟩ := List.cons.inj split
      rcases ih explained.2 same with here | last | ⟨dot, none⟩
      · exact .inl here
      · right
        left
        rw [List.getLast?_cons, last]
        rfl
      · rw [beq_iff_eq] at dot
        rw [dot, none]
        exact .inr (.inl rfl)

theorem explained_word {name : String} (here : known name) : Explained known false [.word name] :=
  ⟨fun _ same => .inr (Lexeme.word.inj same ▸ here), trivial⟩

theorem explained_mark (c : Char) : Explained known dotted [.mark c] := ⟨nofun, trivial⟩

theorem Explained.of_words {found : List Lexeme} (each : ∀ name, .word name ∈ found → known name) :
    Explained known dotted found := by
  induction found generalizing dotted with
  | nil => trivial
  | cons lexeme rest ih =>
    refine ⟨fun name same => .inr (each name (same ▸ .head _)), ih fun name listed => ?_⟩
    exact each name (.tail _ listed)

-- A text whose words are all known, and one that nothing runs into.
def Reads (known : String → Prop) (s : String) : Prop :=
  ∃ found, lexemes? s = some found ∧ Explained known false found

def Glues (known : String → Prop) (s : String) : Prop :=
  ∃ found, advance .ready s.toList = some (found, .ready) ∧ Explained known false found

theorem Glues.reads {a b : String} (glues : Glues known a) (reads : Reads known b) : Reads known (a ++ b) := by
  obtain ⟨front, closed, one⟩ := glues
  obtain ⟨back, read, two⟩ := reads
  refine ⟨front ++ back, ?_, one.append two⟩
  rw [lexemes?, String.toList_append, scan_glue closed]
  exact congrArg (Option.map (front ++ ·)) read

theorem Glues.alone {s : String} (glues : Glues known s) : Reads known s := by
  obtain ⟨found, closed, explained⟩ := glues
  refine ⟨found, ?_, explained⟩
  rw [lexemes?, scan, closed]
  simp [Mode.finish]

theorem Reads.join {a b : String} (one : Reads known a) (apart : Separates b.toList) (two : Reads known b) :
    Reads known (a ++ b) := by
  obtain ⟨front, read, explained⟩ := one
  obtain ⟨back, read', explained'⟩ := two
  refine ⟨front ++ back, ?_, explained.append explained'⟩
  rw [lexemes?, String.toList_append, scan_phrase read apart]
  exact congrArg (Option.map (front ++ ·)) read'

theorem Reads.of_word {name : String} (shape : Word name.toList) (here : known name) : Reads known name := by
  have apart : Apart [] := by simp [Apart]
  have whole := scan_word shape apart
  rw [List.append_nil] at whole
  exact ⟨[.word name], whole, explained_word here⟩

end

def Lexeme.isAmong (words : List String) : Lexeme → Bool
  | .word name => words.contains name
  | _ => true

-- Fixed text between the parts of a line, with no words but these. A joint may also follow a
-- word, a number or a string, as it does not begin like more of one.
def isFixed (words : List String) (s : String) : Bool :=
  (advance .ready s.toList).any fun p => p.2 == .ready && p.1.all (·.isAmong words)

def isJoint (words : List String) (s : String) : Bool :=
  isFixed words s && s.toList.head?.any fun c => !isNameChar c && !isQuote c && c != '.'

theorem fixed_of_joint {words : List String} {s : String} (joint : isJoint words s = true) :
    isFixed words s = true := (Bool.and_eq_true_iff.mp joint).1

theorem separates_of_joint {words : List String} {s : String} (joint : isJoint words s = true) (more : String) :
    Separates (s ++ more).toList := by
  have apart := (Bool.and_eq_true_iff.mp joint).2
  rw [String.toList_append]
  cases split : s.toList with
  | nil => simp [split] at apart
  | cons c cs =>
    intro _ first
    cases first
    simpa [split, and_assoc] using apart

namespace Expr

mutual

-- The names in an expression, members apart.
def ids : Expr → List String
  | .name id => [id]
  | .numeral _ | .text _ => []
  | .list items => idsAll items
  | .call function args => function.ids ++ idsAll args
  | .attribute object _ => object.ids
  | .item object position => object.ids ++ position.ids
  | .opposite operand | .negation operand => operand.ids
  | .binary _ left right => left.ids ++ right.ids
  | .conditional value condition otherwise => value.ids ++ (condition.ids ++ otherwise.ids)

def idsAll : List Expr → List String
  | [] => []
  | e :: rest => e.ids ++ idsAll rest

end

theorem idsAll_eq (items : List Expr) : idsAll items = items.flatMap ids := by
  induction items with
  | nil => rfl
  | cons e rest ih => rw [idsAll, ih, List.flatMap_cons]

theorem tokensAll_eq (items : List Expr) : tokensAll items = items.map tokens := by
  induction items with
  | nil => rfl
  | cons e rest ih => rw [tokensAll, ih, List.map_cons]

end Expr

section

variable {known : String → Prop}

theorem explained_marks (cs : List Char) (dotted : Bool) : Explained known dotted (cs.map .mark) := by
  induction cs generalizing dotted with
  | nil => trivial
  | cons c cs ih => exact ⟨nofun, ih _⟩

-- Tokens whose words are known.
def Spoken (known : String → Prop) (ts : List Token) : Prop :=
  Explained known false (ts.flatMap Token.lexemes)

theorem Spoken.append {first second : List Token} (one : Spoken known first) (two : Spoken known second) :
    Spoken known (first ++ second) := by
  unfold Spoken
  rw [List.flatMap_append]
  exact Explained.append one two

theorem Spoken.cons {token : Token} {ts : List Token} (one : Explained known false token.lexemes)
    (more : Spoken known ts) : Spoken known (token :: ts) := Explained.append one more

theorem Spoken.enclosed {ts : List Token} (spoken : Spoken known ts) (parens : Bool) :
    Spoken known (enclosed parens ts) := by
  unfold Python.enclosed
  split
  · exact .cons (explained_mark '(') (spoken.append (.cons (explained_mark ')') trivial))
  · exact spoken

theorem Spoken.separated {parts : List (List Token)} (each : ∀ ts ∈ parts, Spoken known ts) :
    Spoken known (separated parts) := by
  induction parts with
  | nil => trivial
  | cons ts rest ih =>
    rw [List.forall_mem_cons] at each
    cases rest with
    | nil => exact each.1
    | cons next rest => exact each.1.append (.cons (explained_mark ',') (ih each.2))

variable (keyword : ∀ word ∈ keywords, known word)

include keyword

theorem explained_operator (op : Operator) : Explained known false (Token.operator op).lexemes := by
  cases op with
  | both => exact explained_word (keyword "and" (by decide))
  | either => exact explained_word (keyword "or" (by decide))
  | _ => exact explained_marks _ _

theorem Expr.Legible.spoken {e : Expr} (legible : e.Legible) (named : ∀ id ∈ e.ids, known id) :
    Spoken known e.tokens := by
  have items : ∀ {es : List Expr}, (∀ e ∈ es, (∀ id ∈ e.ids, known id) → Spoken known e.tokens) →
      (∀ id ∈ idsAll es, known id) → Spoken known (separated (tokensAll es)) := by
    intro es each known'
    rw [idsAll_eq] at known'
    refine .separated fun ts listed => ?_
    rw [tokensAll_eq] at listed
    obtain ⟨e, member, rfl⟩ := List.mem_map.mp listed
    exact each e member fun id inside => known' id (List.mem_flatMap.mpr ⟨e, member, inside⟩)
  have paren : Spoken known [.rightParen] := .cons (explained_mark ')') trivial
  have bracket : Spoken known [.rightBracket] := .cons (explained_mark ']') trivial
  induction legible with
  | @name id proper =>
    rw [tokens]
    have here := named id (by simp [ids])
    split
    · exact .cons (explained_word here) trivial
    · exact .cons (explained_word here) trivial
  | numeral proper => exact .cons ⟨fun _ same => (by cases same), trivial⟩ trivial
  | text value => exact .cons ⟨fun _ same => (by cases same), trivial⟩ trivial
  | list each ih =>
    rw [tokens]
    exact .cons (explained_mark '[') ((items ih named).append bracket)
  | call caller each ihF ihA =>
    rw [ids, List.forall_mem_append] at named
    rw [tokens]
    exact ((ihF named.1).enclosed _).append (.cons (explained_mark '(') ((items ihA named.2).append paren))
  | @member object member owner solid proper ih =>
    rw [tokens]
    refine ((ih named).enclosed _).append ?_
    exact ⟨fun _ same => (by cases same), fun _ _ => .inl rfl, trivial⟩
  | item owner index ihO ihP =>
    rw [ids, List.forall_mem_append] at named
    rw [tokens]
    exact ((ihO named.1).enclosed _).append (.cons (explained_mark '[') ((ihP named.2).append bracket))
  | opposite inner ih =>
    rw [tokens]
    exact .cons (explained_operator keyword .subtract) ((ih named).enclosed _)
  | negation inner ih =>
    rw [tokens]
    exact .cons (explained_word (keyword "not" (by decide))) ((ih named).enclosed _)
  | binary first second ihL ihR =>
    rw [ids, List.forall_mem_append] at named
    rw [tokens]
    exact ((ihL named.1).enclosed _).append
      (.cons (explained_operator keyword _) ((ihR named.2).enclosed _))
  | conditional first second third ihV ihC ihO =>
    rw [ids, List.forall_mem_append, List.forall_mem_append] at named
    rw [tokens]
    refine ((ihV named.1).enclosed _).append (.cons (explained_word (keyword "if" (by decide))) ?_)
    refine ((ihC named.2.1).enclosed _).append (.cons (explained_word (keyword "else" (by decide))) ?_)
    exact (ihO named.2.2).enclosed _

theorem Expr.Legible.reads_within {e : Expr} (legible : e.Legible) (named : ∀ id ∈ e.ids, known id)
    (context : Order) (binding : Binding) : Reads known (e.within context binding) :=
  ⟨_, scan_tokens (legible.readTokens_within context binding), (legible.spoken keyword named).enclosed _⟩

theorem Expr.Legible.reads {e : Expr} (legible : e.Legible) (named : ∀ id ∈ e.ids, known id) :
    Reads known e.render := by
  rw [← e.within_loosest]
  exact legible.reads_within keyword named .loosest .loose

end

-- Lines are put together from their parts, with fixed text before, between and after them.
section

variable {known : String → Prop} {words : List String} (listed : ∀ word ∈ words, known word)

include listed

theorem explained_among {found : List Lexeme} (among : found.all (·.isAmong words) = true) (dotted : Bool) :
    Explained known dotted found := by
  refine .of_words fun name member => listed name ?_
  have here := List.all_eq_true.mp among _ member
  simpa [Lexeme.isAmong] using here

theorem Reads.of_fixed {s : String} (check : (lexemes? s).any (·.all (·.isAmong words)) = true) :
    Reads known s := by
  cases read : lexemes? s with
  | none => simp [read] at check
  | some found =>
    rw [read, Option.any_some] at check
    exact ⟨found, read, explained_among listed check false⟩

theorem Glues.of_fixed {s : String} (fixed : isFixed words s = true) : Glues known s := by
  unfold isFixed at fixed
  cases reached : advance .ready s.toList with
  | none => simp [reached] at fixed
  | some p =>
    obtain ⟨found, mode⟩ := p
    rw [reached, Option.any_some, Bool.and_eq_true, beq_iff_eq] at fixed
    obtain ⟨rfl, among⟩ := fixed
    exact ⟨found, reached, explained_among listed among false⟩

theorem Reads.opened {a s : String} (reads : Reads known a) (fixed : isFixed words s = true) :
    Reads known (s ++ a) := (Glues.of_fixed listed fixed).reads reads

theorem Reads.between {a b s : String} (one : Reads known a) (joint : isJoint words s = true)
    (two : Reads known b) : Reads known (a ++ s ++ b) := by
  rw [String.append_assoc]
  exact one.join (separates_of_joint joint b) (two.opened listed (fixed_of_joint joint))

theorem Reads.ended {a s : String} (one : Reads known a) (joint : isJoint words s = true) :
    Reads known (a ++ s) := by
  have apart := separates_of_joint joint ""
  rw [String.append_empty] at apart
  exact one.join apart (Glues.of_fixed listed (fixed_of_joint joint)).alone

theorem Reads.intercalate {s : String} (joint : isJoint words s = true) {parts : List String}
    (each : ∀ part ∈ parts, Reads known part) : Reads known (String.intercalate s parts) := by
  induction parts with
  | nil => exact ⟨[], rfl, trivial⟩
  | cons part rest ih =>
    rw [List.forall_mem_cons] at each
    cases rest with
    | nil => simpa using each.1
    | cons next rest =>
      rw [String.intercalate_cons_cons]
      exact each.1.between listed joint (ih each.2)

end

-- Nothing that can be scanned has a carriage return in it.
theorem step_return (mode : Mode) : mode.step '\r' = none := by
  have stopped : Mode.start '\r' = none := by decide
  cases mode with
  | ready => exact stopped
  | word cs => simp [Mode.step, Mode.leave, stopped, show isNameChar '\r' = false by decide]
  | number cs => simp [Mode.step, Mode.leave, stopped, show isNameChar '\r' = false by decide]
  | literal quote filled escaped => cases escaped <;> simp [Mode.step]
  | twoQuotes quote => simp [Mode.step, stopped]

theorem advance_return {cs : List Char} (inside : '\r' ∈ cs) (mode : Mode) : advance mode cs = none := by
  obtain ⟨before, after, rfl⟩ := List.append_of_mem inside
  rw [advance_append]
  cases advance mode before with
  | none => rfl
  | some p => simp [advance, step_return]

theorem Reads.unbroken {known : String → Prop} {s : String} (reads : Reads known s) : '\r' ∉ s.toList := by
  intro inside
  obtain ⟨found, read, _⟩ := reads
  rw [lexemes?, scan, advance_return inside] at read
  cases read

-- Source texts. Each of them falls into rows, and a row into lexemes; comments have none.
def rows (cs : List Char) : List String := ((cs.splitOn '\n').map String.ofList).filter (· ≠ "")

-- Lines end with a line feed, a carriage return or both.
def universal : List Char → List Char
  | [] => []
  | '\r' :: '\n' :: cs => '\n' :: universal cs
  | '\r' :: cs => '\n' :: universal cs
  | c :: cs => c :: universal cs

def isIndent (c : Char) : Bool := c == ' ' || c == '\t'

def rowLexemes? (row : String) : Option (List Lexeme) :=
  let cs := row.toList.dropWhile isIndent
  if cs.head? = some '#' then some [] else scan .ready cs

theorem universal_eq {cs : List Char} (none : '\r' ∉ cs) : universal cs = cs := by
  induction cs with
  | nil => rfl
  | cons c cs ih =>
    rw [List.mem_cons, not_or] at none
    rw [universal, ih none.2]
    · rintro rest rfl rfl
      exact none.1 rfl
    · rintro rfl
      exact none.1 rfl

theorem rowLexemes?_comment {row : String} {cs : List Char} (marked : row.toList = '#' :: cs) :
    rowLexemes? row = some [] := by
  have kept : ('#' :: cs).dropWhile isIndent = '#' :: cs := List.dropWhile_cons_of_neg (by decide)
  simp only [rowLexemes?, marked, kept]
  rfl

theorem rowLexemes?_indent {front : String} (indents : ∀ c ∈ front.toList, isIndent c = true) (row : String) :
    rowLexemes? (front ++ row) = rowLexemes? row := by
  simp only [rowLexemes?, String.toList_append, List.dropWhile_append_of_pos indents]

-- What can be scanned has no comment in it, and blanks only where they do not matter.
theorem rowLexemes?_of_lexemes {row : String} {found : List Lexeme} (read : lexemes? row = some found) :
    rowLexemes? row = some found := by
  unfold lexemes? at read
  unfold rowLexemes?
  generalize row.toList = cs at read
  dsimp only
  induction cs with
  | nil => exact read
  | cons c cs ih =>
    rw [scan_cons] at read
    by_cases blank : c = ' '
    · rw [blank] at read ⊢
      rw [List.dropWhile_cons_of_pos (by decide)]
      exact ih (by simpa [Mode.step, Mode.start] using read)
    · have other : ∀ d, Mode.start d = none → c ≠ d := by
        intro d stopped same
        rw [same, Mode.step, stopped] at read
        cases read
      have solid : ¬isIndent c = true := by
        simp [isIndent, blank, other '\t' (by decide)]
      have code : ¬some c = some '#' := fun same => other '#' (by decide) (Option.some.inj same)
      rw [List.dropWhile_cons_of_neg solid, List.head?_cons, if_neg code, scan_cons]
      exact read

theorem Reads.row {known : String → Prop} {row : String} (reads : Reads known row) :
    ∃ found, rowLexemes? row = some found ∧ Explained known false found := by
  obtain ⟨found, read, explained⟩ := reads
  exact ⟨found, rowLexemes?_of_lexemes read, explained⟩

end Blockwork.Python
