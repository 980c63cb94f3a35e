import Mathlib
import Blockwork.Proofs.Reading

-- The text of an expression falls into its tokens. Where tokens meet without a
-- blank between them, the second one cannot be taken for more of the first.
namespace Blockwork.Python

theorem readTokens_space (rest : List Char) : readTokens (' ' :: rest) = readTokens rest := by
  rw [readTokens]
  simp

theorem readTokens_token {c : Char} {rest after : List Char} {token : Token} (solid : c ≠ ' ')
    (read : readToken (c :: rest) = some (token, after)) (shorter : after.length ≤ rest.length) :
    readTokens (c :: rest) = (readTokens after).map (token :: ·) := by
  rw [readTokens, if_neg solid, read]
  simp [shorter]

-- What follows does not run into a word or a string.
def Apart (rest : List Char) : Prop := ∀ c ∈ rest.head?, isNameChar c = false ∧ isQuote c = false

theorem span_all {p : Char → Bool} {cs rest : List Char} (all : ∀ c ∈ cs, p c = true)
    (stop : ∀ c ∈ rest.head?, p c = false) :
    (cs ++ rest).takeWhile p = cs ∧ (cs ++ rest).dropWhile p = rest := by
  rw [List.takeWhile_append_of_pos all, List.dropWhile_append_of_pos all]
  cases rest with
  | nil => simp
  | cons c rest => simp [stop c rfl]

structure Word (cs : List Char) : Prop where
  filled : cs ≠ []
  letter : cs.head?.any Char.isDigit = false
  chars : cs.all isNameChar = true

theorem readTokens_word {word : String} {token : Token} {rest : List Char} (shape : Word word.toList)
    (means : wordToken? word = some token) (apart : Apart rest) :
    readTokens (word.toList ++ rest) = (readTokens rest).map (token :: ·) := by
  have chars := List.all_eq_true.mp shape.chars
  have ⟨take, drop⟩ := span_all chars fun c first => (apart c first).1
  have unquoted : rest.head?.any isQuote = false := by
    cases rest with
    | nil => rfl
    | cons c rest => simpa using (apart c rfl).2
  cases split : word.toList with
  | nil => exact absurd split shape.filled
  | cons c cs =>
    rw [split] at take drop
    have letter : c.isDigit = false := by simpa [split] using shape.letter
    have named : isNameChar c = true := chars c (by rw [split]; simp)
    have back : String.ofList (c :: cs) = word := by rw [← split, String.ofList_toList]
    rw [List.cons_append] at take drop ⊢
    refine readTokens_token ?_ ?_ (by simp)
    · rintro rfl
      revert named
      decide
    · rw [readToken]
      simp [letter, named, take, drop, unquoted, back, means]

theorem Word.of_identifier {id : String} (proper : isIdentifier id = true) : Word id.toList := by
  unfold isIdentifier at proper
  cases split : id.toList with
  | nil =>
    rw [split] at proper
    cases proper
  | cons c rest =>
    rw [split] at proper
    simp only [Bool.and_eq_true, Bool.not_eq_true', List.all_eq_true] at proper
    obtain ⟨⟨⟨named, letter⟩, all⟩, _⟩ := proper
    refine ⟨by simp, by simpa using letter, ?_⟩
    exact List.all_eq_true.mpr (List.forall_mem_cons.mpr ⟨named, all⟩)

theorem keyword_of_constant {id : String} (listed : id ∈ constants) : id ∈ keywords := by
  fin_cases listed <;> decide

theorem wordToken?_identifier {id : String} (proper : isIdentifier id = true) :
    id ∉ constants ∧ wordToken? id = some (.name id) := by
  have free : id ∉ keywords := by
    intro keyword
    unfold isIdentifier at proper
    split at proper
    · cases proper
    · simp [keyword] at proper
  have other : ∀ word ∈ keywords, id ≠ word := by
    rintro word keyword rfl
    exact free keyword
  have plain : id ∉ constants := fun listed => free (keyword_of_constant listed)
  refine ⟨plain, ?_⟩
  rw [wordToken?, if_neg (other "and" (by decide)), if_neg (other "or" (by decide)),
    if_neg (other "not" (by decide)), if_neg (other "if" (by decide)), if_neg (other "else" (by decide))]
  simp [plain, free]

theorem readTokens_identifier {id : String} (proper : isIdentifier id = true) {rest : List Char}
    (apart : Apart rest) : readTokens (id.toList ++ rest) = (readTokens rest).map (.name id :: ·) :=
  readTokens_word (.of_identifier proper) (wordToken?_identifier proper).2 apart

theorem Word.of_constant {id : String} (listed : id ∈ constants) : Word id.toList := by
  fin_cases listed <;> exact ⟨by decide, by decide, by decide⟩

theorem readTokens_constant {id : String} (listed : id ∈ constants) {rest : List Char}
    (apart : Apart rest) :
    readTokens (id.toList ++ rest) = (readTokens rest).map (.constant id :: ·) := by
  refine readTokens_word (.of_constant listed) ?_ apart
  fin_cases listed <;> decide

-- Numerals end where nothing follows that could be part of one.
theorem numeral_chars {digits : List Char} (proper : isNumeral digits = true) :
    (∀ c ∈ digits, (isNameChar c || c == '.') = true) ∧ ∃ c rest, digits = c :: rest ∧ c.isDigit = true := by
  have named : ∀ c : Char, c.isDigit = true → isNameChar c = true := by
    intro c digit
    simp [isNameChar, Char.isAlphanum, digit]
  have split := List.takeWhile_append_dropWhile (p := Char.isDigit) (l := digits)
  have whole : ∀ c ∈ digits.takeWhile Char.isDigit, c.isDigit = true := fun c member =>
    List.mem_takeWhile_imp member
  unfold isNumeral at proper
  simp only [Bool.and_eq_true, Bool.not_eq_true', List.isEmpty_eq_false_iff] at proper
  obtain ⟨filled, after⟩ := proper
  constructor
  · rw [← split]
    intro c member
    rcases List.mem_append.mp member with inside | behind
    · simp [named c (whole c inside)]
    · split at after
      · next none =>
        rw [none] at behind
        cases behind
      · next places point =>
        rw [point] at behind
        rcases List.mem_cons.mp behind with rfl | place
        · simp
        · simp [named c (List.all_eq_true.mp after c place)]
      · cases after
  · cases first : digits.takeWhile Char.isDigit with
    | nil => exact absurd first filled
    | cons c rest =>
      rw [first] at split
      exact ⟨c, _, split.symm, whole c (by rw [first]; simp)⟩

theorem readTokens_numeral {digits : String} (proper : isNumeral digits.toList = true) {rest : List Char}
    (apart : Apart rest) (undotted : rest.head? ≠ some '.') :
    readTokens (digits.toList ++ rest) = (readTokens rest).map (.numeral digits :: ·) := by
  obtain ⟨chars, c, cs, split, digit⟩ := numeral_chars proper
  have stop : ∀ c ∈ rest.head?, (isNameChar c || c == '.') = false := by
    intro c first
    have other : c ≠ '.' := by
      rintro rfl
      exact undotted first
    simp [(apart c first).1, other]
  have ⟨take, drop⟩ := span_all chars stop
  have back : String.ofList (c :: cs) = digits := by rw [← split, String.ofList_toList]
  rw [split] at take drop proper ⊢
  rw [List.cons_append] at take drop ⊢
  refine readTokens_token ?_ ?_ (by simp)
  · rintro rfl
    revert digit
    decide
  · rw [readToken]
    simp [digit, take, drop, proper, back]

-- A string literal gives back its text, whichever quotes were chosen.
theorem readLiteral_char {quote c : Char} {single : Bool} (rest : List Char)
    (escaped : c = quote → c = '\x27' ∧ single = true) :
    readLiteral quote ((literalChar single c).toList ++ rest)
      = (readLiteral quote rest).bind fun p => some (c :: p.1, p.2) := by
  unfold literalChar
  split
  · next here =>
    rw [here]
    simp [readLiteral, unescape?]
  split
  · next here =>
    rw [here]
    simp [readLiteral, unescape?]
  split
  · next here =>
    rw [here]
    simp [readLiteral, unescape?]
  split
  · next here =>
    rw [here.1]
    simp [readLiteral, unescape?]
  · next slash feed return_ single' =>
    have other : c ≠ quote := fun same => single' (escaped same)
    have single : c.toString.toList = [c] := by simp
    rw [single, List.singleton_append, readLiteral.eq_def]
    split
    · next h => cases h
    · next h =>
      cases h
      exact absurd rfl slash
    · next h =>
      cases h
      simp [other, slash, feed, return_]

theorem readLiteral_end {quote : Char} (slash : quote ≠ '\\') (rest : List Char) :
    readLiteral quote (quote :: rest) = some ([], rest) := by
  rw [readLiteral.eq_def]
  split
  · next h => cases h
  · next h =>
    cases h
    exact absurd rfl slash
  · next h =>
    cases h
    rw [if_pos rfl]

theorem readLiteral_chars {quote : Char} {single : Bool} (slash : quote ≠ '\\') {cs : List Char}
    (escaped : ∀ c ∈ cs, c = quote → c = '\x27' ∧ single = true) (rest : List Char) :
    readLiteral quote ((String.join (cs.map (literalChar single))).toList ++ quote :: rest)
      = some (cs, rest) := by
  induction cs with
  | nil => exact readLiteral_end slash rest
  | cons c cs ih =>
    rw [List.forall_mem_cons] at escaped
    rw [List.map_cons, String.join_cons, String.toList_append, List.append_assoc,
      readLiteral_char _ escaped.1, ih escaped.2]
    rfl

theorem literalChar_head {quote c : Char} {single : Bool} (slash : quote ≠ '\\')
    (escaped : c = quote → c = '\x27' ∧ single = true) :
    ∃ first rest, (literalChar single c).toList = first :: rest ∧ quote ≠ first := by
  unfold literalChar
  split
  · exact ⟨'\\', ['\\'], by simp, slash⟩
  split
  · exact ⟨'\\', ['n'], by simp, slash⟩
  split
  · exact ⟨'\\', ['r'], by simp, slash⟩
  split
  · exact ⟨'\\', ['\x27'], by simp, slash⟩
  · next plain => exact ⟨c, [], by simp, fun same => plain (escaped same.symm)⟩

-- The quote is not repeated after the first one, unless the text is empty.
theorem literal_head {quote : Char} {single : Bool} (slash : quote ≠ '\\') {cs : List Char}
    (escaped : ∀ c ∈ cs, c = quote → c = '\x27' ∧ single = true) {rest : List Char}
    (unquoted : ∀ c ∈ rest.head?, isQuote c = false) (quoted : isQuote quote = true) : [quote, quote].isPrefixOf
      ((String.join (cs.map (literalChar single))).toList ++ quote :: rest) = false := by
  cases cs with
  | nil =>
    cases rest with
    | nil => simp [List.isPrefixOf]
    | cons c rest =>
      have other : quote ≠ c := by
        rintro rfl
        have plain := unquoted quote rfl
        rw [quoted] at plain
        cases plain
      simp [List.isPrefixOf, other]
  | cons c cs =>
    obtain ⟨first, more, split, other⟩ := literalChar_head slash (escaped c List.mem_cons_self)
    rw [List.map_cons, String.join_cons, String.toList_append, List.append_assoc, split]
    simp [List.isPrefixOf, other]

theorem solid_of_quote {mark : Char} (quoted : isQuote mark = true) :
    mark ≠ '\\' ∧ mark ≠ ' ' ∧ mark.isDigit = false ∧ isNameChar mark = false := by
  simp only [isQuote, Bool.or_eq_true, beq_iff_eq] at quoted
  rcases quoted with rfl | rfl <;> decide

theorem readToken_literal {mark : Char} {single : Bool} (quoted : isQuote mark = true) (value : String)
    (escaped : ∀ c ∈ value.toList, c = mark → c = '\x27' ∧ single = true) {rest : List Char}
    (unquoted : ∀ c ∈ rest.head?, isQuote c = false) :
    readToken (mark :: ((String.join (value.toList.map (literalChar single))).toList ++ mark :: rest))
      = some (.text value, rest) := by
  have ⟨slash, _, digit, named⟩ := solid_of_quote quoted
  have read := readLiteral_chars slash escaped rest
  have once := literal_head slash escaped unquoted quoted
  simp only [readToken, digit, named, quoted, once, read, Bool.false_eq_true, if_false, if_true,
    Option.map_some, String.ofList_toList]

-- Only a single quote is ever escaped, and then all of them are.
theorem quote_shape (value : String) : ∃ mark single, isQuote mark = true ∧
    (quote value).toList = mark :: ((String.join (value.toList.map (literalChar single))).toList ++ [mark]) ∧
    ∀ c ∈ value.toList, c = mark → c = '\x27' ∧ single = true := by
  unfold quote
  simp only [List.contains_iff_mem]
  split
  · next single =>
    split
    · exact ⟨'\x27', true, rfl, by simp, fun c _ same => ⟨same, rfl⟩⟩
    · next double => exact ⟨'"', false, rfl, by simp, fun c member same => absurd (same ▸ member) double⟩
  · next single => exact ⟨'\x27', false, rfl, by simp, fun c member same => absurd (same ▸ member) single⟩

theorem readToken_quote (value : String) {rest : List Char} (unquoted : ∀ c ∈ rest.head?, isQuote c = false) :
    readToken ((quote value).toList ++ rest) = some (.text value, rest) := by
  obtain ⟨mark, single, quoted, shape, escaped⟩ := quote_shape value
  rw [shape, List.cons_append, List.append_assoc, List.singleton_append]
  exact readToken_literal quoted value escaped unquoted

theorem readTokens_text (value : String) {rest : List Char} (apart : Apart rest) :
    readTokens ((quote value).toList ++ rest) = (readTokens rest).map (.text value :: ·) := by
  have read := readToken_quote value fun c first => (apart c first).2
  obtain ⟨mark, single, quoted, shape, _⟩ := quote_shape value
  rw [shape, List.cons_append] at read ⊢
  refine readTokens_token (solid_of_quote quoted).2.1 read ?_
  rw [List.length_append]
  omega

theorem readTokens_symbol {c : Char} {rest after : List Char} {token : Token}
    (symbol : isNameChar c = false ∧ isQuote c = false ∧ c ≠ ' ')
    (read : readSymbol (c :: rest) = some (token, after)) (shorter : after.length ≤ rest.length) :
    readTokens (c :: rest) = (readTokens after).map (token :: ·) := by
  have digit : c.isDigit = false := by
    have named := symbol.1
    simp only [isNameChar, Char.isAlphanum, Bool.or_eq_false_iff] at named
    exact named.1.2
  refine readTokens_token symbol.2.2 ?_ shorter
  simp only [readToken, digit, symbol.1, symbol.2.1, Bool.false_eq_true, if_false]
  exact read

-- Before the rest of a text, some characters are read as these tokens.
def Spells (cs : List Char) (ts : List Token) (rest : List Char) : Prop :=
  readTokens (cs ++ rest) = (readTokens rest).map (ts ++ ·)

namespace Spells

variable {cs cs' rest : List Char} {ts ts' : List Token}

theorem append (first : Spells cs ts (cs' ++ rest)) (second : Spells cs' ts' rest) :
    Spells (cs ++ cs') (ts ++ ts') rest := by
  unfold Spells at *
  rw [List.append_assoc, first, second, Option.map_map]
  congr 1
  funext tokens
  simp

theorem blank (spells : Spells cs ts rest) : Spells (' ' :: cs) ts rest := by
  unfold Spells
  rw [List.cons_append, readTokens_space]
  exact spells

theorem nothing (rest : List Char) : Spells [] [] rest := by
  simp [Spells]

theorem space (rest : List Char) : Spells [' '] [] rest := (nothing rest).blank

theorem leftParen (rest : List Char) : Spells ['('] [.leftParen] rest :=
  readTokens_symbol (by decide) rfl le_rfl

theorem rightParen (rest : List Char) : Spells [')'] [.rightParen] rest :=
  readTokens_symbol (by decide) rfl le_rfl

theorem leftBracket (rest : List Char) : Spells ['['] [.leftBracket] rest :=
  readTokens_symbol (by decide) rfl le_rfl

theorem rightBracket (rest : List Char) : Spells [']'] [.rightBracket] rest :=
  readTokens_symbol (by decide) rfl le_rfl

theorem comma (rest : List Char) : Spells [',', ' '] [.comma] rest := by
  have read := readTokens_symbol (by decide) (show readSymbol (',' :: ' ' :: rest) = _ from rfl) le_rfl
  rw [readTokens_space] at read
  exact read

theorem dot {c : Char} (letter : c.isDigit = false) (rest : List Char) :
    Spells ['.'] [.dot] (c :: rest) := by
  refine readTokens_symbol (by decide) ?_ le_rfl
  simp [readSymbol, letter]

theorem word {word : String} {token : Token} (shape : Word word.toList)
    (means : wordToken? word = some token) (rest : List Char) :
    Spells (word.toList ++ [' ']) [token] rest := by
  have apart : Apart (' ' :: rest) := by
    rintro _ ⟨⟩
    decide
  have read : Spells word.toList [token] ([' '] ++ rest) := readTokens_word shape means apart
  exact read.append (space rest)

theorem notWord (rest : List Char) : Spells ("not".toList ++ [' ']) [.notWord] rest :=
  word ⟨by decide, by decide, by decide⟩ (by decide) rest

theorem ifWord (rest : List Char) : Spells ("if".toList ++ [' ']) [.ifWord] rest :=
  word ⟨by decide, by decide, by decide⟩ (by decide) rest

theorem elseWord (rest : List Char) : Spells ("else".toList ++ [' ']) [.elseWord] rest :=
  word ⟨by decide, by decide, by decide⟩ (by decide) rest

theorem symbol {op : Operator} (c : Char) (cs : List Char) {rest : List Char} (shape : op.symbol.toList = c :: cs)
    (symbol : isNameChar c = false ∧ isQuote c = false ∧ c ≠ ' ')
    (read : readSymbol (c :: (cs ++ ' ' :: rest)) = some (.operator op, ' ' :: rest)) :
    Spells (op.symbol.toList ++ [' ']) [.operator op] rest := by
  have tokens := readTokens_symbol symbol read (by simp)
  rw [readTokens_space] at tokens
  rw [shape]
  unfold Spells
  simp only [List.cons_append, List.append_assoc, List.nil_append]
  exact tokens

theorem operator (op : Operator) (rest : List Char) :
    Spells (op.symbol.toList ++ [' ']) [.operator op] rest := by
  cases op with
  | both | either => exact word ⟨by decide, by decide, by decide⟩ (by decide) rest
  | add => exact symbol '+' [] rfl (by decide) (by simp [readSymbol, readSymbol.operatorBefore])
  | subtract => exact symbol '-' [] rfl (by decide) (by simp [readSymbol, readSymbol.operatorBefore])
  | multiply => exact symbol '*' [] rfl (by decide) (by simp [readSymbol, readSymbol.operatorBefore])
  | divide => exact symbol '/' [] rfl (by decide) (by simp [readSymbol, readSymbol.operatorBefore])
  | modulo => exact symbol '%' [] rfl (by decide) (by simp [readSymbol, readSymbol.operatorBefore])
  | less => exact symbol '<' [] rfl (by decide) (by simp [readSymbol, readSymbol.operatorBefore])
  | greater => exact symbol '>' [] rfl (by decide) (by simp [readSymbol, readSymbol.operatorBefore])
  | power => exact symbol '*' ['*'] rfl (by decide) (by simp [readSymbol, readSymbol.operatorBefore])
  | equal => exact symbol '=' ['='] rfl (by decide) (by simp [readSymbol, readSymbol.operatorBefore])
  | notEqual => exact symbol '!' ['='] rfl (by decide) (by simp [readSymbol, readSymbol.operatorBefore])
  | lessEqual => exact symbol '<' ['='] rfl (by decide) (by simp [readSymbol, readSymbol.operatorBefore])
  | greaterEqual => exact symbol '>' ['='] rfl (by decide) (by simp [readSymbol, readSymbol.operatorBefore])

theorem minus {c : Char} (solid : "=<>*/".toList.contains c = false) (rest : List Char) :
    Spells ['-'] [.operator .subtract] (c :: rest) := by
  have read : readSymbol ('-' :: c :: rest) = some (.operator .subtract, c :: rest) := by
    simp only [readSymbol, readSymbol.operatorBefore, List.head?_cons, Option.any_some, solid,
      Bool.false_eq_true, if_false]
  exact readTokens_symbol (by decide) read le_rfl

end Spells

def opensText (c : Char) : Bool := isNameChar c || isQuote c || c == '(' || c == '[' || c == '-'

theorem solid_of_opensText {c : Char} (opens : opensText c = true) :
    "=<>*/".toList.contains c = false := by
  by_contra symbol
  rw [Bool.not_eq_false, List.contains_iff_mem] at symbol
  fin_cases symbol <;> revert opens <;> decide

theorem quote_opens (value : String) : ∃ c cs, (quote value).toList = c :: cs ∧ opensText c = true := by
  unfold quote
  dsimp only
  split
  · split
    · exact ⟨'\x27', _, by simp; rfl, by decide⟩
    · exact ⟨'"', _, by simp; rfl, by decide⟩
  · exact ⟨'\x27', _, by simp; rfl, by decide⟩

namespace Expr

theorem enclose_opens {text : String} (opens : ∃ c cs, text.toList = c :: cs ∧ opensText c = true)
    (child context : Order) (binding : Binding) (more : String) :
    ∃ c cs, (enclose text child context binding ++ more).toList = c :: cs ∧ opensText c = true := by
  obtain ⟨c, cs, split, opens⟩ := opens
  unfold enclose
  split
  · exact ⟨'(', text.toList ++ ')' :: more.toList, by simp, by decide⟩
  · exact ⟨c, cs ++ more.toList, by simp [split], opens⟩

theorem Legible.opens {e : Expr} (legible : e.Legible) :
    ∃ c cs, e.render.toList = c :: cs ∧ opensText c = true := by
  induction legible with
  | @name id proper =>
    rw [render]
    have word : Word id.toList := proper.elim .of_identifier .of_constant
    cases split : id.toList with
    | nil => exact absurd split word.filled
    | cons c cs =>
      have named : isNameChar c = true := List.all_eq_true.mp word.chars c (by rw [split]; simp)
      exact ⟨c, cs, rfl, by simp [opensText, named]⟩
  | numeral proper =>
    rw [render]
    obtain ⟨_, c, cs, split, digit⟩ := numeral_chars proper
    exact ⟨c, cs, split, by simp [opensText, isNameChar, Char.isAlphanum, digit]⟩
  | text value =>
    rw [render]
    exact quote_opens value
  | list each _ =>
    rw [render]
    exact ⟨'[', _, by simp; rfl, by decide⟩
  | call _ _ ih _ | item _ _ ih _ =>
    rw [render, String.append_assoc, String.append_assoc]
    exact enclose_opens ih _ _ _ _
  | member _ _ _ ih =>
    rw [render, String.append_assoc]
    exact enclose_opens ih _ _ _ _
  | opposite _ _ =>
    rw [render, minus]
    split
    · exact ⟨'-', _, by simp; rfl, by decide⟩
    · exact ⟨'-', _, by simp; rfl, by decide⟩
  | negation _ _ =>
    rw [render]
    exact ⟨'n', _, by simp; rfl, by decide⟩
  | binary _ _ ih _ =>
    rw [render]
    simp only [String.append_assoc]
    exact enclose_opens ih _ _ _ _
  | conditional _ _ _ ih _ _ =>
    rw [render]
    simp only [String.append_assoc]
    exact enclose_opens ih _ _ _ _

structure Before (e : Expr) (rest : List Char) : Prop where
  apart : Apart rest
  dotted : rest.head? = some '.' → e.order.rank ≤ 1 ∧ ∀ digits, e ≠ .numeral digits

theorem Before.of_head (e : Expr) (c : Char)
    (separates : isNameChar c = false ∧ isQuote c = false ∧ c ≠ '.') (rest : List Char) :
    e.Before (c :: rest) := by
  refine ⟨?_, fun same => absurd (Option.some.inj same) separates.2.2⟩
  rintro _ ⟨⟩
  exact ⟨separates.1, separates.2.1⟩

-- After an operator or a conditional no member follows.
theorem Before.last {e : Expr} {rest : List Char} (before : e.Before rest) (loose : 1 < e.order.rank)
    (operand : Expr) : operand.Before rest := by
  refine ⟨before.apart, fun same => ?_⟩
  have tight := (before.dotted same).1
  omega

theorem spells_enclosed {e : Expr} (spells : ∀ rest, e.Before rest → Spells e.render.toList e.tokens rest)
    (context : Order) (binding : Binding) {rest : List Char}
    (before : needsParens e.order context binding = false → e.Before rest) :
    Spells (enclose e.render e.order context binding).toList
      (enclosed (needsParens e.order context binding) e.tokens) rest := by
  unfold enclose enclosed
  split
  · have inner := spells (')' :: rest) (.of_head e ')' (by decide) rest)
    have whole := (Spells.leftParen _).append (inner.append (Spells.rightParen rest))
    simpa using whole
  · next bare => exact spells rest (before (by simpa using bare))

theorem spells_items {items : List Expr} {rest : List Char}
    (each : ∀ e ∈ items, ∀ rest, e.Before rest → Spells e.render.toList e.tokens rest)
    (last : ∀ e, Before e rest) :
    Spells (String.intercalate ", " (renderAll items)).toList (separated (tokensAll items)) rest := by
  induction items with
  | nil =>
    simp only [renderAll, tokensAll, separated, String.intercalate_nil]
    exact Spells.nothing rest
  | cons e items ih =>
    rw [List.forall_mem_cons] at each
    cases items with
    | nil =>
      simp only [renderAll, tokensAll, separated, String.intercalate_singleton]
      exact each.1 rest (last e)
    | cons e' items =>
      have more := (Spells.comma _).append (ih each.2)
      have first := each.1 _ (.of_head e ',' (by decide) (' ' :: ((String.intercalate ", "
        (renderAll (e' :: items))).toList ++ rest)))
      have comma : ", ".toList = [',', ' '] := by simp
      have whole := first.append more
      simp only [renderAll, tokensAll, separated, String.intercalate_cons_cons, String.toList_append,
        List.append_assoc, comma] at whole ⊢
      exact whole

theorem Legible.spells {e : Expr} (legible : e.Legible) :
    ∀ rest, e.Before rest → Spells e.render.toList e.tokens rest := by
  induction legible with
  | @name id proper =>
    intro rest before
    rw [render, tokens]
    rcases proper with proper | listed
    · rw [if_neg (wordToken?_identifier proper).1]
      exact readTokens_identifier proper before.apart
    · rw [if_pos listed]
      exact readTokens_constant listed before.apart
  | numeral proper =>
    intro rest before
    rw [render, tokens]
    exact readTokens_numeral proper before.apart fun same => (before.dotted same).2 _ rfl
  | text value =>
    intro rest before
    rw [render, tokens]
    exact readTokens_text value before.apart
  | list each ih =>
    intro rest before
    have items := spells_items ih fun e => .of_head e ']' (by decide) rest
    have whole := (Spells.leftBracket _).append (items.append (Spells.rightBracket rest))
    rw [render, tokens]
    simpa using whole
  | call caller each ihF ihA =>
    intro rest before
    have args := spells_items ihA fun e => .of_head e ')' (by decide) rest
    have list := (Spells.leftParen _).append (args.append (Spells.rightParen rest))
    have whole := (spells_enclosed ihF .member .loose fun _ => .of_head _ '(' (by decide) _).append list
    rw [render, tokens]
    simpa using whole
  | @member object member owner solid proper ih =>
    intro rest before
    obtain ⟨filled, letter, _⟩ := Word.of_identifier proper
    have name : Spells member.toList [.name member] rest := readTokens_identifier proper before.apart
    cases split : member.toList with
    | nil => exact absurd split filled
    | cons c cs =>
      rw [split] at letter name
      have dot := (Spells.dot (by simpa using letter) (cs ++ rest)).append name
      have owned : needsParens object.order .member .loose = false →
          object.Before ('.' :: (c :: cs ++ rest)) := fun bare =>
        ⟨by rintro _ ⟨⟩; decide, fun _ => ⟨needsParens_loose bare, solid⟩⟩
      have whole := (spells_enclosed ih .member .loose owned).append dot
      rw [render, tokens]
      simpa [split] using whole
  | item owner index ihO ihP =>
    intro rest before
    have position := ihP (']' :: rest) (.of_head _ ']' (by decide) rest)
    have index := (Spells.leftBracket _).append (position.append (Spells.rightBracket rest))
    have whole := (spells_enclosed ihO .member .loose fun _ => .of_head _ '[' (by decide) _).append index
    rw [render, tokens]
    simpa using whole
  | @opposite operand inner ih =>
    intro rest before
    have last := before.last (by simp [order, Order.rank]) operand
    have text := spells_enclosed ih .unarySign .loose fun _ => last
    obtain ⟨c, cs, split, opens⟩ := enclose_opens inner.opens operand.order .unarySign .loose ""
    rw [String.append_empty] at split
    rw [render, tokens, minus]
    split
    · have whole := (Spells.minus (c := ' ') (by decide) _).append text.blank
      simpa using whole
    · have solid := solid_of_opensText opens
      rw [split] at text
      have whole := (Spells.minus solid _).append text
      simpa [split] using whole
  | @negation operand inner ih =>
    intro rest before
    have last := before.last (by simp [order, Order.rank]) operand
    have whole := (Spells.notWord _).append (spells_enclosed ih .logicalNot .loose fun _ => last)
    rw [render, tokens]
    simpa using whole
  | @binary op left right first second ihL ihR =>
    intro rest before
    have last := before.last (by cases op <;> simp [order, Operator.order, Order.rank]) right
    have after := (Spells.operator op _).append (spells_enclosed ihR op.order op.right fun _ => last)
    have whole := (spells_enclosed ihL op.order op.left fun _ => .of_head _ ' ' (by decide) _).append
      after.blank
    rw [render, tokens]
    simpa using whole
  | @conditional value condition otherwise first second third ihV ihC ihO =>
    intro rest before
    have last := before.last (by simp [order, Order.rank]) otherwise
    have alternative := ((Spells.elseWord _).append
      (spells_enclosed ihO .conditional .loose fun _ => last)).blank
    have test := (spells_enclosed ihC .conditional .strict fun _ => .of_head _ ' ' (by decide) _).append
      alternative
    have whole := (spells_enclosed ihV .conditional .strict fun _ => .of_head _ ' ' (by decide) _).append
      ((Spells.ifWord _).append test).blank
    rw [render, tokens]
    simpa using whole

-- At any place, with or without parentheses around it.
theorem Legible.readTokens_within {e : Expr} (legible : e.Legible) (context : Order) (binding : Binding) :
    readTokens (e.within context binding).toList
      = some (enclosed (needsParens e.order context binding) e.tokens) := by
  have alone : ∀ e : Expr, e.Before [] := fun e => ⟨by simp [Apart], by simp⟩
  have spells := spells_enclosed legible.spells context binding fun _ => alone e
  rw [Spells, List.append_nil, readTokens] at spells
  rw [within]
  simpa using spells

theorem Legible.readExpr_within {e : Expr} (legible : e.Legible) (context : Order) (binding : Binding) :
    readExpr (e.within context binding) = some e.regroup := by
  have read : readAt .expression (enclosed (needsParens e.order context binding) e.tokens ++ [])
      = some (e.regroup, []) := legible.readable.operand (fun _ => e.order_le) (by simp [Stops])
  rw [List.append_nil] at read
  rw [readExpr, legible.readTokens_within, Option.bind_some, read]

theorem within_loosest (e : Expr) : e.within .loosest .loose = e.render := by
  have bound : e.order.rank ≤ 10 := e.order_le
  have bare : needsParens e.order .loosest .loose = false := by
    show decide (11 < e.order.rank) = false
    simp only [decide_eq_false_iff_not]
    omega
  rw [within, enclose, bare]
  rfl

theorem Legible.readExpr_render {e : Expr} (legible : e.Legible) :
    readExpr e.render = some e.regroup := by
  rw [← e.within_loosest]
  exact legible.readExpr_within .loosest .loose

end Expr
end Blockwork.Python
