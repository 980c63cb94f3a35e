import Mathlib
import Blockwork.Proofs.Regrouping

-- Written expressions are read as they were meant: parentheses are there
-- wherever the grammar needs them.
namespace Blockwork.Python

def enclosed (parens : Bool) (ts : List Token) : List Token :=
  if parens then .leftParen :: (ts ++ [.rightParen]) else ts

def separated : List (List Token) → List Token
  | [] => []
  | [ts] => ts
  | ts :: rest => ts ++ .comma :: separated rest

namespace Expr

mutual

def tokens : Expr → List Token
  | .name id => [if id ∈ constants then .constant id else .name id]
  | .numeral digits => [.numeral digits]
  | .text value => [.text value]
  | .list items => .leftBracket :: (separated (tokensAll items) ++ [.rightBracket])
  | .call function args =>
    enclosed (needsParens function.order .member .loose) function.tokens
      ++ .leftParen :: (separated (tokensAll args) ++ [.rightParen])
  | .attribute object member =>
    enclosed (needsParens object.order .member .loose) object.tokens ++ [.dot, .name member]
  | .item object position =>
    enclosed (needsParens object.order .member .loose) object.tokens
      ++ .leftBracket :: (position.tokens ++ [.rightBracket])
  | .opposite operand =>
    .operator .subtract :: enclosed (needsParens operand.order .unarySign .loose) operand.tokens
  | .negation operand =>
    .notWord :: enclosed (needsParens operand.order .logicalNot .loose) operand.tokens
  | .binary op left right =>
    enclosed (needsParens left.order op.order op.left) left.tokens
      ++ .operator op :: enclosed (needsParens right.order op.order op.right) right.tokens
  | .conditional value condition otherwise =>
    enclosed (needsParens value.order .conditional .strict) value.tokens
      ++ .ifWord :: (enclosed (needsParens condition.order .conditional .strict) condition.tokens
      ++ .elseWord :: enclosed (needsParens otherwise.order .conditional .loose) otherwise.tokens)

def tokensAll : List Expr → List (List Token)
  | [] => []
  | e :: rest => e.tokens :: tokensAll rest

end

end Expr

theorem needsParens_loose {child context : Order} (bare : needsParens child context .loose = false) :
    child.rank ≤ context.rank := by
  simpa [needsParens] using bare

theorem needsParens_strict {child context : Order} (bare : needsParens child context .strict = false)
    (inner : context ≠ .loosest) : child.rank < context.rank := by
  simpa [needsParens, inner] using bare

theorem Operator.order_inner (op : Operator) : op.order ≠ .loosest := by
  cases op <;> decide

theorem Operator.fits {op : Operator} {child : Order} {binding : Binding}
    (bare : needsParens child op.order binding = false) : child.rank ≤ op.order.rank := by
  cases binding with
  | loose => exact needsParens_loose bare
  | strict => exact (needsParens_strict bare op.order_inner).le

namespace Expr

structure Starts (rank : Nat) (ts : List Token) : Prop where
  filled : ts ≠ []
  opens : ts.head? ≠ some .rightParen ∧ ts.head? ≠ some .rightBracket
  unsigned : rank ≤ 2 → ts.head? ≠ some (.operator .subtract)
  affirmed : rank ≤ 6 → ts.head? ≠ some .notWord

theorem Starts.append {rank : Nat} {ts : List Token} (starts : Starts rank ts) (more : List Token) :
    Starts rank (ts ++ more) := by
  obtain ⟨filled, opens, unsigned, affirmed⟩ := starts
  cases ts with
  | nil => exact absurd rfl filled
  | cons first rest => exact ⟨by simp, opens, unsigned, affirmed⟩

theorem Starts.enclosed {rank context : Nat} {parens : Bool} {ts : List Token} (starts : Starts rank ts)
    (tight : parens = false → rank ≤ context) : Starts context (enclosed parens ts) := by
  cases parens with
  | true => exact ⟨by simp [Python.enclosed], by simp [Python.enclosed], by simp [Python.enclosed],
      by simp [Python.enclosed]⟩
  | false =>
    have tight := tight rfl
    exact ⟨starts.filled, starts.opens, fun low => starts.unsigned (tight.trans low),
      fun low => starts.affirmed (tight.trans low)⟩

theorem Legible.starts {e : Expr} (legible : e.Legible) : Starts e.order.rank e.tokens := by
  induction legible with
  | @name id _ =>
    rw [tokens]
    split <;> exact ⟨by simp, by simp, by simp, by simp⟩
  | numeral _ | text _ | list _ _ =>
    rw [tokens]
    exact ⟨by simp, by simp, by simp, by simp⟩
  | call _ _ ih _ | item _ _ ih _ =>
    rw [tokens]
    exact (ih.enclosed fun bare => needsParens_loose bare).append _
  | member _ _ _ ih =>
    rw [tokens]
    exact (ih.enclosed fun bare => needsParens_loose bare).append _
  | opposite _ _ =>
    rw [tokens]
    exact ⟨by simp, by simp, by simp [order, Order.rank], by simp⟩
  | negation _ _ =>
    rw [tokens]
    exact ⟨by simp, by simp, by simp, by simp [order, Order.rank]⟩
  | binary _ _ ih _ =>
    rw [tokens]
    exact (ih.enclosed Operator.fits).append _
  | conditional _ _ _ ih _ _ =>
    rw [tokens]
    exact (ih.enclosed fun bare => (needsParens_strict bare (by simp [order])).le).append _

end Expr

@[simp] theorem follow_some {α β : Type} {ts rest : List Token} {a : α}
    {next : α → (rest : List Token) → rest.length < ts.length → Option β}
    (shorter : rest.length < ts.length) : follow ts (some (a, rest)) next = next a rest shorter := by
  simp [follow, shorter]

namespace Level

def below : Level → Level
  | .atom | .primary => .atom
  | .power => .primary
  | .factor => .power
  | .term => .factor
  | .sum => .term
  | .comparison => .sum
  | .inversion => .comparison
  | .conjunction => .inversion
  | .disjunction => .conjunction
  | .expression => .disjunction

def chains : Level → Bool
  | .term | .sum | .conjunction | .disjunction => true
  | _ => false

theorem rank_ne {a b : Level} (different : a ≠ b) : a.rank ≠ b.rank := by
  intro same
  apply different
  cases a <;> cases b <;> first | rfl | cases same

theorem rank_below {level : Level} (loose : level ≠ .atom) : level.below.rank + 1 = level.rank := by
  cases level <;> first | rfl | exact absurd rfl loose

end Level

-- The rank at which a token goes on with an expression before it.
def Token.rank? : Token → Option Nat
  | .dot | .leftParen | .leftBracket => some 1
  | .operator op => some op.order.rank
  | .ifWord => some 10
  | _ => none

def Stops (level : Level) (ts : List Token) : Prop :=
  ∀ token ∈ ts.head?, ∀ n ∈ token.rank?, level.rank < n

theorem Stops.tighter {level tight : Level} {ts : List Token} (stops : Stops level ts)
    (le : tight.rank ≤ level.rank) : Stops tight ts :=
  fun token first n goes => le.trans_lt (stops token first n goes)

-- No token goes on at the level of signs alone.
theorem Stops.factor {ts : List Token} (stops : Stops .power ts) : Stops .factor ts := by
  intro token first n goes
  have above : 2 < n := stops token first n goes
  have other : n ≠ 3 := by
    rintro rfl
    cases token with
    | operator op => cases op <;> cases goes
    | _ => cases goes
  show 3 < n
  omega

theorem Level.rank_joins {level : Level} {op : Operator} (joins : level.joins op = true) :
    op.order.rank = level.rank := by
  cases level <;> cases op <;> first | rfl | cases joins

theorem Level.absorbs_of_joins {level : Level} {outer op : Operator} (first : level.joins outer = true)
    (second : level.joins op = true) (loose : outer.right = .loose) : outer.absorbs op = true := by
  cases outer <;> simp [Operator.right] at loose <;> cases level <;> simp [Level.joins] at first <;>
    cases op <;> simp [Level.joins] at second <;> rfl

theorem Operator.rank_compares {op : Operator} (compares : op.compares = true) :
    op.order.rank = Level.comparison.rank := by
  cases op <;> first | rfl | cases compares

theorem readChain_stop {level operand : Level} {e : Expr} {ts : List Token} (stops : Stops level ts) :
    readChain level operand e ts = some (e, ts) := by
  rw [readChain.eq_def]
  split
  · next op rest =>
    have other : level.joins op = false := by
      by_contra joins
      have before := stops (.operator op) rfl _ rfl
      rw [Level.rank_joins (by simpa using joins)] at before
      omega
    simp [other]
  · rfl

theorem readTrailers_stop {e : Expr} {ts : List Token} (stops : Stops .primary ts) :
    readTrailers e ts = some (e, ts) := by
  have other : ∀ token ∈ ts.head?, token ≠ .dot ∧ token ≠ .leftParen ∧ token ≠ .leftBracket := by
    intro token first
    refine ⟨?_, ?_, ?_⟩ <;>
    · rintro rfl
      have before := stops _ first 1 rfl
      exact absurd before (by decide)
  rw [readTrailers.eq_def]
  split
  · exact absurd rfl (other _ rfl).1
  · exact absurd rfl (other _ rfl).2.1
  · exact absurd rfl (other _ rfl).2.2
  · rfl

theorem readAt_chain {level : Level} (chains : level.chains = true) {ts rest : List Token} {e : Expr}
    (read : readAt level.below ts = some (e, rest)) (shorter : rest.length < ts.length) :
    readAt level ts = readChain level level.below e rest := by
  cases level with
  | term | sum | conjunction | disjunction =>
    simp only [Level.below] at read ⊢
    rw [readAt, read, follow_some shorter]
  | _ => cases chains

-- What was read at the next tighter level is read at a level, if nothing goes on with it.
theorem readAt_lift {level : Level} (loose : level ≠ .atom) {ts rest : List Token} {e : Expr}
    (read : readAt level.below ts = some (e, rest)) (shorter : rest.length < ts.length)
    (stops : Stops level rest) (unsigned : level = .factor → ts.head? ≠ some (.operator .subtract))
    (affirmed : level = .inversion → ts.head? ≠ some .notWord) :
    readAt level ts = some (e, rest) := by
  cases level with
  | atom => exact absurd rfl loose
  | primary =>
    rw [readAt, show readAt .atom ts = _ from read, follow_some shorter]
    exact readTrailers_stop stops
  | power =>
    rw [readAt, show readAt .primary ts = _ from read, follow_some shorter]
    split
    · next rest _ => exact absurd (stops _ rfl _ rfl) (by simp [Operator.order, Order.rank, Level.rank])
    · rfl
  | factor =>
    rw [readAt]
    · exact read
    · rintro rest rfl
      exact unsigned rfl rfl
  | term | sum | conjunction | disjunction =>
    rw [readAt_chain rfl read shorter]
    exact readChain_stop stops
  | comparison =>
    rw [readAt, show readAt .sum ts = _ from read, follow_some shorter]
    split
    · next op rest _ =>
      have other : op.compares = false := by
        by_contra compares
        have before := stops (.operator op) rfl _ rfl
        rw [Operator.rank_compares (by simpa using compares)] at before
        omega
      simp [other]
    · rfl
  | inversion =>
    rw [readAt]
    · exact read
    · rintro rest rfl
      exact affirmed rfl rfl
  | expression =>
    rw [readAt, show readAt .disjunction ts = _ from read, follow_some shorter]
    split
    · next rest _ => exact absurd (stops _ rfl _ rfl) (by simp [Level.rank])
    · rfl

theorem readAt_climb {level tight : Level} {ts rest : List Token} {e : Expr}
    (read : readAt tight ts = some (e, rest)) (shorter : rest.length < ts.length)
    (le : tight.rank ≤ level.rank) (stops : Stops level rest)
    (unsigned : tight.rank ≤ 2 → ts.head? ≠ some (.operator .subtract))
    (affirmed : tight.rank ≤ 6 → ts.head? ≠ some .notWord) : readAt level ts = some (e, rest) := by
  induction gap : level.rank - tight.rank generalizing level with
  | zero =>
    have same : level = tight := by
      by_contra different
      exact Level.rank_ne different (by omega)
    rw [same]
    exact read
  | succ n ih =>
    have loose : level ≠ .atom := by
      rintro rfl
      simp [Level.rank] at gap
    have step := Level.rank_below loose
    refine readAt_lift loose (ih (by omega) (stops.tighter (by omega)) (by omega)) shorter stops ?_ ?_
    · rintro rfl
      exact unsigned (by simp [Level.rank] at *; omega)
    · rintro rfl
      exact affirmed (by simp [Level.rank] at *; omega)

namespace Expr

theorem order_le (e : Expr) : e.order.rank ≤ Level.expression.rank := by
  cases e with
  | binary op left right =>
    show op.order.rank ≤ _
    cases op <;> decide
  | _ => simp [order, Order.rank, Level.rank]

structure Readable (e : Expr) : Prop where
  starts : Starts e.order.rank e.tokens
  -- At any level that is loose enough, up to what does not go on with it.
  whole : ∀ level rest, e.order.rank ≤ level.rank → Stops level rest →
    readAt level (e.tokens ++ rest) = some (e.regroup, rest)
  -- What follows an expression without operators may belong to it.
  trailed : e.order.rank ≤ Level.primary.rank → ∀ rest,
    readAt .primary (e.tokens ++ rest) = readTrailers e.regroup rest
  -- The first operand of a chain may be a chain.
  leads : ∀ level rest, level.chains = true → e.order.rank ≤ level.rank → Stops level.below rest →
    readAt level (e.tokens ++ rest) = readChain level level.below e.regroup rest
  -- A chain after an operator is taken into the chain before it.
  follows : ∀ level op left rest, level.joins op = true → op.right = .loose →
    e.order.rank ≤ level.rank → Stops level.below rest →
    readChain level level.below left (.operator op :: (e.tokens ++ rest))
      = readChain level level.below (graft op left e.regroup) rest

end Expr

theorem readChain_step {level operand : Level} {op : Operator} (joins : level.joins op = true)
    {ts rest : List Token} {left right : Expr} (read : readAt operand ts = some (right, rest))
    (shorter : rest.length < ts.length) :
    readChain level operand left (.operator op :: ts)
      = readChain level operand (.binary op left right) rest := by
  rw [readChain, if_pos joins, read, follow_some shorter]

namespace Expr

theorem Starts.shorter {rank : Nat} {ts : List Token} (starts : Starts rank ts) (rest : List Token) :
    rest.length < (ts ++ rest).length := by
  have filled := List.length_pos_of_ne_nil starts.filled
  rw [List.length_append]
  omega

-- Chains take whole operands that bind tighter.
theorem leads_tight {e : Expr} (starts : Starts e.order.rank e.tokens) {level : Level}
    {rest : List Token} (chains : level.chains = true)
    (whole : readAt level.below (e.tokens ++ rest) = some (e.regroup, rest)) :
    readAt level (e.tokens ++ rest) = readChain level level.below e.regroup rest :=
  readAt_chain chains whole (starts.shorter rest)

theorem follows_tight {e : Expr} (starts : Starts e.order.rank e.tokens) {level : Level}
    {op : Operator} {rest : List Token} (left : Expr) (joins : level.joins op = true)
    (tight : e.order.rank < level.rank)
    (whole : readAt level.below (e.tokens ++ rest) = some (e.regroup, rest)) :
    readChain level level.below left (.operator op :: (e.tokens ++ rest))
      = readChain level level.below (graft op left e.regroup) rest := by
  rw [graft_apart left (.inl ?_), readChain_step joins whole (starts.shorter rest)]
  rw [order_regroup, Level.rank_joins joins]
  exact tight.ne

theorem chains_of_joins {level : Level} {op : Operator} (joins : level.joins op = true) :
    level.chains = true := by
  cases level <;> first | rfl | cases joins

theorem loose_of_chains {level : Level} (chains : level.chains = true) : level ≠ .atom := by
  rintro rfl
  cases chains

theorem high_of_chains {level : Level} (chains : level.chains = true) : 4 ≤ level.rank := by
  cases level <;> first | (simp [Level.rank]; done) | cases chains

-- An expression that is no chain is read whole, and by that in every other way.
theorem Readable.of_own {e : Expr} (starts : Starts e.order.rank e.tokens) {own : Level}
    (same : own.rank = e.order.rank) (single : own.chains = false)
    (read : ∀ rest, Stops own rest → readAt own (e.tokens ++ rest) = some (e.regroup, rest))
    (trailed : e.order.rank ≤ Level.primary.rank → ∀ rest,
      readAt .primary (e.tokens ++ rest) = readTrailers e.regroup rest) : e.Readable := by
  have whole : ∀ level rest, e.order.rank ≤ level.rank → Stops level rest →
      readAt level (e.tokens ++ rest) = some (e.regroup, rest) := by
    intro level rest fits stops
    have starts' := starts.append rest
    rw [← same] at fits starts'
    exact readAt_climb (read rest (stops.tighter fits)) (starts.shorter rest) fits stops
      starts'.unsigned starts'.affirmed
  have tight : ∀ level : Level, level.chains = true → e.order.rank ≤ level.rank →
      e.order.rank < level.rank := by
    intro level chains fits
    rcases fits.lt_or_eq with lt | eq
    · exact lt
    · have different : own ≠ level := by
        rintro rfl
        rw [chains] at single
        cases single
      exact absurd (same.trans eq) (Level.rank_ne different)
  refine ⟨starts, whole, trailed, ?_, ?_⟩
  · intro level rest chains fits stops
    have below := Level.rank_below (loose_of_chains chains)
    have lt := tight level chains fits
    exact leads_tight starts chains (whole _ _ (by omega) stops)
  · intro level op left rest joins _ fits stops
    have chains := chains_of_joins joins
    have below := Level.rank_below (loose_of_chains chains)
    have lt := tight level chains fits
    exact follows_tight starts left joins lt (whole _ _ (by omega) stops)

theorem stops_closing (level : Level) {token : Token} (closes : token.rank? = none)
    (rest : List Token) : Stops level (token :: rest) := by
  rintro _ ⟨⟩ n goes
  rw [closes] at goes
  cases goes

-- In parentheses an expression is read at any level.
theorem Readable.parenthesized {e : Expr} (readable : e.Readable) (rest : List Token) :
    readAt .atom (.leftParen :: (e.tokens ++ .rightParen :: rest)) = some (e.regroup, rest) := by
  have inner := readable.whole .expression (.rightParen :: rest) e.order_le (stops_closing _ rfl rest)
  rw [readAt, inner, follow_some (readable.starts.shorter _)]

theorem Readable.operand {e : Expr} (readable : e.Readable) {parens : Bool} {level : Level}
    {rest : List Token} (fits : parens = false → e.order.rank ≤ level.rank) (stops : Stops level rest) :
    readAt level (enclosed parens e.tokens ++ rest) = some (e.regroup, rest) := by
  cases parens with
  | false => exact readable.whole level rest (fits rfl) stops
  | true =>
    have read := readable.parenthesized rest
    have whole : enclosed true e.tokens ++ rest = .leftParen :: (e.tokens ++ .rightParen :: rest) := by
      simp [enclosed]
    rw [whole]
    exact readAt_climb read (by simp; omega) (Nat.zero_le _) stops (by simp) (by simp)

theorem Readable.owner {e : Expr} (readable : e.Readable) {parens : Bool}
    (fits : parens = false → e.order.rank ≤ Level.primary.rank) (rest : List Token) :
    readAt .primary (enclosed parens e.tokens ++ rest) = readTrailers e.regroup rest := by
  cases parens with
  | false => exact readable.trailed (fits rfl) rest
  | true =>
    have read := readable.parenthesized rest
    have whole : enclosed true e.tokens ++ rest = .leftParen :: (e.tokens ++ .rightParen :: rest) := by
      simp [enclosed]
    rw [whole, readAt, read, follow_some]
    simp
    omega

theorem Readable.leading {e : Expr} (readable : e.Readable) {parens : Bool} {level : Level}
    {rest : List Token} (chains : level.chains = true)
    (fits : parens = false → e.order.rank ≤ level.rank) (stops : Stops level.below rest) :
    readAt level (enclosed parens e.tokens ++ rest) = readChain level level.below e.regroup rest := by
  cases parens with
  | false => exact readable.leads level rest chains (fits rfl) stops
  | true =>
    refine readAt_chain chains (readable.operand (by simp) stops) ?_
    simp [enclosed]
    omega

theorem readMore_items {closing : Token} (closes : closing.rank? = none) (other : closing ≠ .comma)
    {items : List Expr} (filled : items ≠ []) (readable : ∀ e ∈ items, e.Readable) (rest : List Token) :
    readMore closing (separated (tokensAll items) ++ closing :: rest)
      = some (regroupAll items, rest) := by
  induction items with
  | nil => exact absurd rfl filled
  | cons e items ih =>
    rw [List.forall_mem_cons] at readable
    cases items with
    | nil =>
      have read := readable.1.whole .expression (closing :: rest) e.order_le (stops_closing _ closes rest)
      rw [readMore]
      simp only [tokensAll, separated, regroupAll]
      rw [read, follow_some (readable.1.starts.shorter _)]
      simp
    | cons e' items =>
      have more := ih (by simp) readable.2
      have read := readable.1.whole .expression
        (.comma :: (separated (tokensAll (e' :: items)) ++ closing :: rest)) e.order_le
        (stops_closing _ rfl _)
      have split : separated (tokensAll (e :: e' :: items)) ++ closing :: rest
          = e.tokens ++ .comma :: (separated (tokensAll (e' :: items)) ++ closing :: rest) := by
        simp [tokensAll, separated]
      rw [readMore, split, read, follow_some (readable.1.starts.shorter _)]
      simp only [if_neg other.symm, if_true]
      rw [more]
      rfl

theorem readItems_items {closing : Token} (closes : closing = .rightParen ∨ closing = .rightBracket)
    {items : List Expr} (readable : ∀ e ∈ items, e.Readable) (rest : List Token) :
    readItems closing (separated (tokensAll items) ++ closing :: rest)
      = some (regroupAll items, rest) := by
  have loose : closing.rank? = none ∧ closing ≠ .comma := by
    rcases closes with rfl | rfl <;> exact ⟨rfl, by decide⟩
  cases items with
  | nil =>
    rw [tokensAll, separated, List.nil_append, readItems, if_pos rfl]
    rfl
  | cons e items =>
    have more := readMore_items loose.1 loose.2 (List.cons_ne_nil e items) readable rest
    have starts : Starts e.order.rank (separated (tokensAll (e :: items))) := by
      have starts := (readable e List.mem_cons_self).starts
      cases items with
      | nil => exact starts
      | cons e' items => exact starts.append _
    have opens := starts.opens
    generalize separated (tokensAll (e :: items)) = ts at more starts opens
    cases ts with
    | nil => exact absurd rfl starts.filled
    | cons first ts =>
      have different : first ≠ closing := by
        rcases closes with rfl | rfl
        · simpa using opens.1
        · simpa using opens.2
      rw [List.cons_append, readItems, if_neg different]
      exact more

-- The next operand of a chain, when the operator may be regrouped.
theorem Readable.extend {e : Expr} (readable : e.Readable) {parens : Bool} {level : Level}
    {op : Operator} {rest : List Token} (left : Expr) (joins : level.joins op = true)
    (loose : op.right = .loose) (bare : parens = false → e.order.rank ≤ level.rank)
    (closed : parens = true → level.rank < e.order.rank) (stops : Stops level.below rest) :
    readChain level level.below left (.operator op :: (enclosed parens e.tokens ++ rest))
      = readChain level level.below (graft op left e.regroup) rest := by
  cases parens with
  | false => exact readable.follows level op left rest joins loose (bare rfl) stops
  | true =>
    have read : readAt level.below (enclosed true e.tokens ++ rest) = some (e.regroup, rest) :=
      readable.operand (by simp) stops
    rw [readChain_step joins read (by simp [enclosed]; omega), graft_apart left (.inl ?_)]
    rw [order_regroup, Level.rank_joins joins]
    exact (closed rfl).ne'

theorem Readable.next {e : Expr} (readable : e.Readable) {level : Level} {op : Operator}
    {rest : List Token} (left : Expr) (joins : level.joins op = true) (stops : Stops level.below rest) :
    readChain level level.below left
      (.operator op :: (enclosed (needsParens e.order op.order op.right) e.tokens ++ rest))
      = readChain level level.below (graft op left e.regroup) rest := by
  have same := Level.rank_joins joins
  cases binding : op.right with
  | loose =>
    refine readable.extend left joins binding (fun bare => ?_) (fun parens => ?_) stops
    · rw [← same]
      exact needsParens_loose bare
    · rw [← same]
      simpa [needsParens] using parens
  | strict =>
    have below := Level.rank_below (loose_of_chains (chains_of_joins joins))
    have fits : needsParens e.order op.order .strict = false → e.order.rank ≤ level.below.rank := by
      intro bare
      have tight := needsParens_strict bare op.order_inner
      omega
    rw [graft_apart left (.inr binding), readChain_step joins (readable.operand fits stops)]
    unfold enclosed
    have filled := readable.starts.shorter rest
    split
    · simp
      omega
    · exact filled

theorem stops_operator {level : Level} {op : Operator} (above : level.rank < op.order.rank)
    (rest : List Token) : Stops level (.operator op :: rest) := by
  rintro _ ⟨⟩ n ⟨⟩
  exact above

theorem Readable.of_chain {op : Operator} {left right : Expr} (own : Level) (joins : own.joins op = true)
    (first : left.Readable) (second : right.Readable)
    (starts : Starts (binary op left right).order.rank (binary op left right).tokens) :
    (binary op left right).Readable := by
  have same := Level.rank_joins joins
  have chains := chains_of_joins joins
  have below := Level.rank_below (loose_of_chains chains)
  have binding : op.left = .loose := by
    cases own <;> cases op <;> first | rfl | cases joins
  have bare : needsParens left.order op.order op.left = false → left.order.rank ≤ own.rank := by
    rw [← same]
    exact Operator.fits
  have tokens_append : ∀ rest, (binary op left right).tokens ++ rest
      = enclosed (needsParens left.order op.order op.left) left.tokens ++ (.operator op ::
        (enclosed (needsParens right.order op.order op.right) right.tokens ++ rest)) := by
    intro rest
    rw [tokens]
    simp
  have before : ∀ rest, Stops own.below (.operator op :: rest) := stops_operator (by omega)
  have leads : ∀ rest, Stops own.below rest → readAt own ((binary op left right).tokens ++ rest)
      = readChain own own.below (binary op left right).regroup rest := by
    intro rest stops
    rw [tokens_append, first.leading chains bare (before _), second.next _ joins stops, regroup]
  have whole : ∀ level rest, op.order.rank ≤ level.rank → Stops level rest →
      readAt level ((binary op left right).tokens ++ rest) = some ((binary op left right).regroup, rest) := by
    intro level rest fits stops
    have starts' : Starts op.order.rank _ := starts.append rest
    rw [same] at fits starts'
    have read := (leads rest (stops.tighter (by omega))).trans (readChain_stop (stops.tighter fits))
    exact readAt_climb read (starts.shorter rest) fits stops starts'.unsigned starts'.affirmed
  refine ⟨starts, whole, fun low => ?_, fun level rest chains' fits stops => ?_, ?_⟩
  · have low : op.order.rank ≤ 1 := low
    have high := high_of_chains chains
    omega
  · have fits : op.order.rank ≤ level.rank := fits
    by_cases here : level = own
    · rw [here] at stops ⊢
      exact leads rest stops
    · have apart := Level.rank_ne here
      have below' := Level.rank_below (loose_of_chains chains')
      exact leads_tight starts chains' (whole _ _ (by omega) stops)
  · intro level outer far rest joins' loose fits stops
    have fits : op.order.rank ≤ level.rank := fits
    by_cases here : level = own
    · rw [here] at stops joins' ⊢
      have absorbs := Level.absorbs_of_joins joins' joins loose
      have closed : needsParens left.order op.order op.left = true → own.rank < left.order.rank := by
        rw [binding, ← same]
        simp [needsParens]
      rw [tokens_append, first.extend far joins' loose bare closed (before _), second.next _ joins stops,
        regroup, graft_graft absorbs]
    · have apart := Level.rank_ne here
      have below' := Level.rank_below (loose_of_chains (chains_of_joins joins'))
      exact follows_tight starts far joins' (show op.order.rank < _ by omega)
        (whole _ _ (by omega) stops)

theorem Readable.of_level {e : Expr} (starts : Starts e.order.rank e.tokens) (own : Level)
    (same : own.rank = e.order.rank) (single : own.chains = false) (high : 1 < own.rank)
    (read : ∀ rest, Stops own rest → readAt own (e.tokens ++ rest) = some (e.regroup, rest)) :
    e.Readable := by
  refine .of_own starts same single read fun low => ?_
  have low : e.order.rank ≤ 1 := low
  omega

theorem Readable.of_atom {e : Expr} (starts : Starts e.order.rank e.tokens)
    (atomic : e.order.rank = Level.atom.rank)
    (read : ∀ rest, readAt .atom (e.tokens ++ rest) = some (e.regroup, rest)) : e.Readable := by
  refine .of_own starts atomic.symm rfl (fun rest _ => read rest) fun _ rest => ?_
  rw [readAt, read, follow_some (starts.shorter rest)]

theorem Readable.of_primary {e : Expr} (starts : Starts e.order.rank e.tokens)
    (same : e.order.rank = Level.primary.rank)
    (read : ∀ rest, readAt .primary (e.tokens ++ rest) = readTrailers e.regroup rest) : e.Readable := by
  refine .of_own starts same.symm rfl (fun rest stops => ?_) fun _ => read
  rw [read]
  exact readTrailers_stop stops

theorem Readable.enclosed_shorter {e : Expr} (readable : e.Readable) (parens : Bool)
    (rest : List Token) : rest.length < (enclosed parens e.tokens ++ rest).length := by
  cases parens with
  | true =>
    simp [enclosed]
    omega
  | false => exact readable.starts.shorter rest

theorem Readable.of_comparison {op : Operator} {left right : Expr} (compares : op.compares = true)
    (first : left.Readable) (second : right.Readable)
    (starts : Starts (binary op left right).order.rank (binary op left right).tokens) :
    (binary op left right).Readable := by
  have same := Operator.rank_compares compares
  have strict : op.left = .strict ∧ op.right = .strict := by
    cases op <;> first | exact ⟨rfl, rfl⟩ | cases compares
  have tight : ∀ {e : Expr}, needsParens e.order op.order .strict = false →
      e.order.rank ≤ Level.sum.rank := by
    intro e bare
    have lt := needsParens_strict bare op.order_inner
    rw [same] at lt
    exact Nat.le_of_lt_succ lt
  refine .of_level starts .comparison same.symm rfl (by decide) fun rest stops => ?_
  have before : Stops .sum (.operator op ::
      (enclosed (needsParens right.order op.order .strict) right.tokens ++ rest)) :=
    stops_operator (by rw [same]; decide) _
  rw [tokens, strict.1, strict.2, List.append_assoc, List.cons_append, readAt, first.operand tight before,
    follow_some (first.enclosed_shorter _ _)]
  simp only [compares, if_true]
  rw [second.operand tight (stops.tighter (by decide)), follow_some (second.enclosed_shorter _ _), regroup,
    graft_apart _ (.inr strict.2)]

theorem Readable.of_power {left right : Expr} (first : left.Readable) (second : right.Readable)
    (starts : Starts (binary .power left right).order.rank (binary .power left right).tokens) :
    (binary .power left right).Readable := by
  refine .of_level starts .power rfl rfl (by decide) fun rest stops => ?_
  have tight : needsParens left.order Operator.power.order .strict = false →
      left.order.rank ≤ Level.primary.rank := fun bare =>
    Nat.le_of_lt_succ (needsParens_strict bare (by decide))
  have fits : needsParens right.order Operator.power.order .loose = false →
      right.order.rank ≤ Level.factor.rank := fun bare =>
    (needsParens_loose bare).trans (by decide)
  have before : Stops .primary (.operator .power ::
      (enclosed (needsParens right.order Operator.power.order .loose) right.tokens ++ rest)) :=
    stops_operator (by decide) _
  have alone : graft .power left.regroup right.regroup = .binary .power left.regroup right.regroup := by
    cases right.regroup <;> simp [graft, Operator.absorbs]
  rw [tokens, Operator.left, Operator.right, List.append_assoc, List.cons_append, readAt,
    first.operand tight before, follow_some (first.enclosed_shorter _ _)]
  simp only
  rw [second.operand fits stops.factor, follow_some (second.enclosed_shorter _ _), regroup, alone]

theorem Legible.readable {e : Expr} (legible : e.Legible) : e.Readable := by
  have starts := legible.starts
  induction legible with
  | @name id _ =>
    refine .of_atom starts rfl fun rest => ?_
    rw [tokens]
    split <;> simp [readAt, regroup]
  | numeral _ | text _ =>
    refine .of_atom starts rfl fun rest => ?_
    simp [tokens, readAt, regroup]
  | list each ih =>
    refine .of_atom starts rfl fun rest => ?_
    have read := readItems_items (.inr rfl) (fun e member => ih e member (each e member).starts) rest
    simp [tokens, readAt, regroup, read]
  | call caller each ihF ihA =>
    refine .of_primary starts rfl fun rest => ?_
    have read := readItems_items (.inl rfl) (fun e member => ihA e member (each e member).starts) rest
    rw [tokens, List.append_assoc, (ihF caller.starts).owner fun bare => needsParens_loose bare,
      List.cons_append, List.append_assoc, List.singleton_append, readTrailers, read, follow_some, regroup]
    simp
    omega
  | member owner _ _ ih =>
    refine .of_primary starts rfl fun rest => ?_
    rw [tokens, List.append_assoc, (ih owner.starts).owner fun bare => needsParens_loose bare]
    simp [readTrailers, regroup]
  | @item object position owner index ihO ihP =>
    refine .of_primary starts rfl fun rest => ?_
    have inner := ihP index.starts
    have read := inner.whole .expression (.rightBracket :: rest) position.order_le
      (stops_closing _ rfl rest)
    rw [tokens, List.append_assoc, (ihO owner.starts).owner fun bare => needsParens_loose bare,
      List.cons_append, List.append_assoc, List.singleton_append, readTrailers, read,
      follow_some (inner.starts.shorter _), regroup]
  | opposite inner ih =>
    refine .of_level starts .factor rfl rfl (by decide) fun rest stops => ?_
    have operand := ih inner.starts
    rw [tokens, List.cons_append, readAt, operand.operand (fun bare => needsParens_loose bare) stops,
      follow_some (operand.enclosed_shorter _ _), regroup]
  | negation inner ih =>
    refine .of_level starts .inversion rfl rfl (by decide) fun rest stops => ?_
    have operand := ih inner.starts
    rw [tokens, List.cons_append, readAt, operand.operand (fun bare => needsParens_loose bare) stops,
      follow_some (operand.enclosed_shorter _ _), regroup]
  | @binary op left right first second ihL ihR =>
    have before := ihL first.starts
    have after := ihR second.starts
    cases op with
    | add | subtract => exact .of_chain .sum rfl before after starts
    | multiply | divide | modulo => exact .of_chain .term rfl before after starts
    | both => exact .of_chain .conjunction rfl before after starts
    | either => exact .of_chain .disjunction rfl before after starts
    | power => exact .of_power before after starts
    | _ => exact .of_comparison rfl before after starts
  | @conditional value condition otherwise first second third ihV ihC ihO =>
    have yes := ihV first.starts
    have test := ihC second.starts
    have no := ihO third.starts
    refine .of_level starts .expression rfl rfl (by decide) fun rest stops => ?_
    have tight : ∀ {e : Expr}, needsParens e.order .conditional .strict = false →
        e.order.rank ≤ Level.disjunction.rank := fun bare =>
      Nat.le_of_lt_succ (needsParens_strict bare (by decide))
    have goesOn : ∀ rest, Stops .disjunction (.ifWord :: rest) := by
      rintro rest _ ⟨⟩ n ⟨⟩
      decide
    rw [tokens, List.append_assoc, List.cons_append, List.append_assoc, List.cons_append, readAt,
      yes.operand tight (goesOn _), follow_some (yes.enclosed_shorter _ _)]
    simp only
    rw [test.operand tight (stops_closing _ rfl _), follow_some (test.enclosed_shorter _ _)]
    simp only
    rw [no.operand (fun bare => needsParens_loose bare) stops, follow_some (no.enclosed_shorter _ _),
      regroup]

end Expr
end Blockwork.Python
