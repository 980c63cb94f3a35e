import Mathlib
import Blockwork.Proofs.NumberText

-- JSON that was written is read as the document it spells, whether it stands on
-- one line or is indented. A text is read as a part of a larger one: whatever is
-- open around it and whatever comes after it.
namespace Blockwork.Json

mutual

-- The document that the text of some data spells.
def spelled : Json → Document
  | .null => .null
  | .bool value => .bool value
  | .number value => .number value.literal
  | .text value => .text (some value)
  | .array items => .array (spelledItems items)
  | .object members => .object (spelledMembers members)

def spelledItems : List Json → List Document
  | [] => []
  | item :: rest => item.spelled :: spelledItems rest

def spelledMembers : List (String × Json) → List (Option String × Document)
  | [] => []
  | (key, value) :: rest => (some key, value.spelled) :: spelledMembers rest

end

theorem spelledItems_eq (items : List Json) : spelledItems items = items.map spelled := by
  induction items with
  | nil => rfl
  | cons item rest ih => rw [spelledItems, ih, List.map_cons]

theorem spelledMembers_eq (members : List (String × Json)) :
    spelledMembers members = members.map fun m => (some m.1, m.2.spelled) := by
  induction members with
  | nil => rfl
  | cons member rest ih => rw [spelledMembers, ih, List.map_cons]

-- Data whose numbers are all written as numbers.
inductive Writable : Json → Prop where
  | null : Writable .null
  | bool (value : Bool) : Writable (.bool value)
  | number {value : Number} (writable : value.Writable) : Writable (.number value)
  | text (value : String) : Writable (.text value)
  | array {items : List Json} (each : ∀ item ∈ items, Writable item) : Writable (.array items)
  | object {members : List (String × Json)} (each : ∀ member ∈ members, Writable member.2) :
      Writable (.object members)

-- Between literals, where blanks may stand.
def Mode.idle : Mode → Bool
  | .value | .firstItem | .key | .firstKey | .colon | .after | .done _ => true
  | .text .. | .number _ | .word .. => false

namespace Reader

theorem run_append (reader : Reader) (first second : List Char) :
    reader.run (first ++ second) = (reader.run first).bind (run · second) :=
  List.foldlM_append

theorem run_cons (reader : Reader) (c : Char) (rest : List Char) :
    reader.run (c :: rest) = (reader.step c).bind (run · rest) := rfl

theorem step_idle {mode : Mode} (idle : mode.idle = true) (stack : List Frame) (c : Char) :
    step ⟨mode, stack⟩ c = between ⟨mode, stack⟩ c := by
  cases mode <;> first | rfl | cases idle

theorem run_blank {mode : Mode} (idle : mode.idle = true) (stack : List Frame) {blank : List Char}
    (spaces : ∀ c ∈ blank, isSpace c = true) (rest : List Char) :
    run ⟨mode, stack⟩ (blank ++ rest) = run ⟨mode, stack⟩ rest := by
  induction blank with
  | nil => rfl
  | cons c blank ih =>
    rw [List.forall_mem_cons] at spaces
    have stays : step ⟨mode, stack⟩ c = some ⟨mode, stack⟩ := by
      rw [step_idle idle, between, if_pos spaces.1]
    rw [List.cons_append, run_cons, stays]
    exact ih spaces.2

theorem deliver_idle {stack : List Frame} {document : Document} {reader : Reader}
    (delivered : deliver stack document = some reader) : reader.mode.idle = true := by
  unfold deliver at delivered
  split at delivered <;> cases delivered <;> rfl

-- What may come after a value: a literal does not go on there.
def Delimited (rest : List Char) : Prop :=
  ∃ c tail, rest = c :: tail ∧ (isSpace c || c == ',' || c == ']' || c == '\x7d') = true

-- The text is a value for the reader, wherever a value may stand.
def Reads (text : List Char) (document : Document) : Prop :=
  ∀ (mode : Mode) (stack : List Frame) (rest : List Char), mode = .value ∨ mode = .firstItem →
    Delimited rest →
    run ⟨mode, stack⟩ (text ++ rest) = (deliver stack document).bind (run · rest)

theorem step_value {mode : Mode} (opening : mode = .value ∨ mode = .firstItem) (stack : List Frame)
    {c : Char} (solid : isSpace c = false) (other : c ≠ ']') :
    step ⟨mode, stack⟩ c = openValue stack c := by
  rcases opening with rfl | rfl <;> simp [step, between, solid, other]

theorem reads_null : Reads "null".toList .null := by
  intro mode stack rest opening _
  show run ⟨mode, stack⟩ ('n' :: _) = _
  rw [run_cons, step_value opening stack (by decide) (by decide)]
  rfl

theorem reads_bool (value : Bool) : Reads (if value then "true" else "false").toList (.bool value) := by
  intro mode stack rest opening _
  cases value with
  | true =>
    show run ⟨mode, stack⟩ ('t' :: _) = _
    rw [run_cons, step_value opening stack (by decide) (by decide)]
    rfl
  | false =>
    show run ⟨mode, stack⟩ ('f' :: _) = _
    rw [run_cons, step_value opening stack (by decide) (by decide)]
    rfl

theorem scan_delimiter (scan : NumberScan) {c : Char}
    (delimiter : (isSpace c || c == ',' || c == ']' || c == '\x7d') = true) : scan.step c = none := by
  simp only [isSpace, Bool.or_eq_true, beq_iff_eq] at delimiter
  rcases delimiter with (((((rfl | rfl) | rfl) | rfl) | rfl) | rfl) | rfl <;> cases phase : scan.phase <;>
    simp [NumberScan.step, NumberScan.leaveInteger, phase, isDigit]

theorem openValue_number {c : Char} {scan : NumberScan} (starts : NumberScan.start? c = some scan)
    (stack : List Frame) :
    isSpace c = false ∧ c ≠ ']' ∧ openValue stack c = some ⟨.number scan, stack⟩ := by
  have different (d : Char) (none : NumberScan.start? d = none) : c ≠ d := by
    rintro rfl
    rw [starts] at none
    cases none
  have solid : isSpace c = false := by
    simp [isSpace, different ' ' rfl, different '\t' rfl, different '\n' rfl, different '\r' rfl]
  refine ⟨solid, different ']' rfl, ?_⟩
  simp [openValue, different '"' rfl, different '[' rfl, different '\x7b' rfl, different 't' rfl,
    different 'f' rfl, different 'n' rfl, starts]

theorem run_number {scan final : NumberScan} {cs : List Char}
    (scanned : cs.foldlM NumberScan.step scan = some final) (stack : List Frame) :
    run ⟨.number scan, stack⟩ cs = some ⟨.number final, stack⟩ := by
  induction cs generalizing scan with
  | nil =>
    cases scanned
    rfl
  | cons c cs ih =>
    obtain ⟨next, first, scanned⟩ := Option.bind_eq_some_iff.mp scanned
    have stepped : step ⟨.number scan, stack⟩ c = some ⟨.number next, stack⟩ := by simp [step, first]
    rw [run_cons, stepped]
    exact ih scanned

theorem reads_number {text : List Char} {literal : Literal} (read : Literal.read? text = some literal) :
    Reads text (.number literal) := by
  intro mode stack rest opening delimited
  cases text with
  | nil => cases read
  | cons c cs =>
    obtain ⟨scan, starts, read⟩ := Option.bind_eq_some_iff.mp read
    obtain ⟨final, scanned, finished⟩ := Option.bind_eq_some_iff.mp read
    obtain ⟨d, tail, rfl, delimiter⟩ := delimited
    obtain ⟨solid, other, opened⟩ := openValue_number starts stack
    rw [List.cons_append, run_cons, step_value opening stack solid other, opened]
    show run ⟨.number scan, stack⟩ _ = _
    rw [run_append, run_number scanned]
    show run ⟨.number final, stack⟩ (d :: tail) = _
    rw [run_cons]
    simp only [step, scan_delimiter final delimiter, endNumber, finished, Option.bind_some]
    cases delivered : deliver stack (.number literal) with
    | none => rfl
    | some reader =>
      rw [Option.bind_some, Option.bind_some, run_cons, step_idle (deliver_idle delivered)]

-- A text literal, behind its opening quote.
theorem run_escaped (c : Char) (reversed : List Char) (isKey : Bool) (stack : List Frame) :
    run ⟨.text ⟨.plain, reversed, none, false⟩ isKey, stack⟩ (escapeChar c).toList
      = some ⟨.text ⟨.plain, c :: reversed, none, false⟩ isKey, stack⟩ := by
  by_cases control : c.toNat < 32
  · obtain ⟨n, small, rfl⟩ : ∃ n, n < 32 ∧ c = Char.ofNat n := ⟨c.toNat, control, (Char.ofNat_toNat c).symm⟩
    interval_cases n <;> rfl
  · by_cases quote : c = '"'
    · subst quote
      rfl
    · by_cases backslash : c = '\\'
      · subst backslash
        rfl
      · have other (d : Char) (low : d.toNat < 32) : c ≠ d := fun same => control (same ▸ low)
        have plain : escapeChar c = c.toString := by
          simp only [escapeChar, quote, backslash, other '\n' (by decide), other '\r' (by decide),
            other '\t' (by decide), if_false]
          rw [if_neg (by omega), if_neg (by omega), if_neg (by omega), if_neg (by omega)]
        rw [plain, Char.toString_eq_singleton, String.toList_singleton, run_cons]
        simp [step, TextScan.closes, TextScan.step, TextScan.push, quote, backslash, control, run]

theorem run_quoted (value : String) (isKey : Bool) (stack : List Frame) (rest : List Char) :
    run ⟨.text {} isKey, stack⟩ ((String.join (value.toList.map escapeChar)).toList ++ '"' :: rest)
      = (if isKey then deliverKey stack (some value) else deliver stack (.text (some value))).bind
          (run · rest) := by
  have each (cs reversed : List Char) (rest : List Char) :
      run ⟨.text ⟨.plain, reversed, none, false⟩ isKey, stack⟩ ((String.join (cs.map escapeChar)).toList ++ rest)
        = run ⟨.text ⟨.plain, cs.reverse ++ reversed, none, false⟩ isKey, stack⟩ rest := by
    induction cs generalizing reversed with
    | nil => simp
    | cons c cs ih =>
      rw [List.map_cons, String.join_cons, String.toList_append, List.append_assoc, run_append, run_escaped]
      show run _ _ = _
      rw [ih, List.reverse_cons, List.append_assoc]
      rfl
  have spelled : TextScan.spelled ⟨.plain, value.toList.reverse ++ [], none, false⟩ = some value := by
    simp [TextScan.spelled]
  rw [each, run_cons]
  simp only [step, TextScan.closes, beq_self_eq_true, if_true, spelled]

theorem quoted_toList (value : String) :
    (quoted value).toList = '"' :: ((String.join (value.toList.map escapeChar)).toList ++ ['"']) := by
  simp [quoted]

theorem reads_text (value : String) : Reads (quoted value).toList (.text (some value)) := by
  intro mode stack rest opening _
  rw [quoted_toList, List.cons_append, List.append_assoc, run_cons,
    step_value opening stack (by decide) (by decide)]
  exact run_quoted value false stack rest

-- What is between the brackets of a container: nothing, or entries with commas and blanks.
def listed (gap last : List Char) : List (List Char) → List Char
  | [] => []
  | first :: rest => gap ++ (first ++ (rest.flatMap (fun text => ',' :: (gap ++ text)) ++ last))

-- How the reader takes the entries of one sort of container.
structure Container {β : Type} (first next : Mode) (close : Char) (frame : List β → Frame)
    (whole : List β → Document) : Prop where
  first_idle : first.idle = true
  next_idle : next.idle = true
  delimiter : close = ']' ∨ close = '\x7d'
  comma (done : List β) (stack : List Frame) :
    step ⟨.after, frame done :: stack⟩ ',' = some ⟨next, frame done :: stack⟩
  closes (done : List β) (stack : List Frame) {mode : Mode} (ended : mode = first ∨ mode = .after) :
    step ⟨mode, frame done :: stack⟩ close = deliver stack (whole done.reverse)

theorem arrays : Container .firstItem .value ']' .array .array where
  first_idle := rfl
  next_idle := rfl
  delimiter := .inl rfl
  comma _ _ := rfl
  closes done stack mode ended := by rcases ended with rfl | rfl <;> rfl

theorem objects : Container .firstKey .key '\x7d' .object .object where
  first_idle := rfl
  next_idle := rfl
  delimiter := .inr rfl
  comma _ _ := rfl
  closes done stack mode ended := by rcases ended with rfl | rfl <;> rfl

section Entries

variable {β : Type} {first next : Mode} {close : Char} {frame : List β → Frame} {whole : List β → Document}
variable {gap last : List Char}

def Enters (first next : Mode) (frame : List β → Frame) (text : List Char) (entry : β) : Prop :=
  ∀ (mode : Mode) (done : List β) (stack : List Frame) (rest : List Char), mode = first ∨ mode = next →
    Delimited rest →
    run ⟨mode, frame done :: stack⟩ (text ++ rest) = run ⟨.after, frame (entry :: done) :: stack⟩ rest

theorem delimited_close (container : Container first next close frame whole) (rest : List Char) :
    Delimited (close :: rest) := by
  refine ⟨close, rest, rfl, ?_⟩
  rcases container.delimiter with rfl | rfl <;> decide

theorem Delimited.blank {blank rest : List Char} (spaces : ∀ c ∈ blank, isSpace c = true)
    (delimited : Delimited rest) : Delimited (blank ++ rest) := by
  cases blank with
  | nil => exact delimited
  | cons c blank =>
    refine ⟨c, blank ++ rest, rfl, ?_⟩
    simp [spaces c List.mem_cons_self]

theorem run_later (container : Container first next close frame whole)
    (gaps : ∀ c ∈ gap, isSpace c = true) (lasts : ∀ c ∈ last, isSpace c = true)
    {texts : List (List Char)} {entries : List β} (each : List.Forall₂ (Enters first next frame) texts entries)
    (done : List β) (stack : List Frame) (rest : List Char) :
    Delimited (texts.flatMap (fun text => ',' :: (gap ++ text)) ++ (last ++ close :: rest)) ∧
    run ⟨.after, frame done :: stack⟩
        (texts.flatMap (fun text => ',' :: (gap ++ text)) ++ (last ++ close :: rest))
      = (deliver stack (whole (done.reverse ++ entries))).bind (run · rest) := by
  induction each generalizing done with
  | nil =>
    have ends : Delimited (last ++ close :: rest) := .blank lasts (delimited_close container rest)
    refine ⟨ends, ?_⟩
    rw [List.flatMap_nil, List.nil_append, run_blank rfl _ lasts, run_cons,
      container.closes done stack (.inr rfl), List.append_nil]
  | @cons text entry texts entries enters _ ih =>
    refine ⟨⟨',', _, by rw [List.flatMap_cons, List.cons_append, List.cons_append], by decide⟩, ?_⟩
    obtain ⟨delimited, later⟩ := ih (entry :: done)
    rw [List.flatMap_cons, List.cons_append, List.cons_append, run_cons, container.comma, Option.bind_some,
      List.append_assoc, List.append_assoc, run_blank container.next_idle _ gaps,
      enters next done stack _ (.inr rfl) delimited, later, List.reverse_cons, List.append_assoc,
      List.singleton_append]

theorem run_listed (container : Container first next close frame whole)
    (gaps : ∀ c ∈ gap, isSpace c = true) (lasts : ∀ c ∈ last, isSpace c = true)
    {texts : List (List Char)} {entries : List β} (each : List.Forall₂ (Enters first next frame) texts entries)
    (stack : List Frame) (rest : List Char) :
    run ⟨first, frame [] :: stack⟩ (listed gap last texts ++ close :: rest)
      = (deliver stack (whole entries)).bind (run · rest) := by
  cases each with
  | nil =>
    rw [listed, List.nil_append, run_cons, container.closes [] stack (.inl rfl), List.reverse_nil]
  | @cons text entry texts entries enters each =>
    obtain ⟨delimited, later⟩ := run_later container gaps lasts each [entry] stack rest
    rw [listed, List.append_assoc, List.append_assoc, List.append_assoc,
      run_blank container.first_idle _ gaps, enters first [] stack _ (.inl rfl) delimited, later]
    rfl

end Entries

variable {gap last space : List Char}

theorem Reads.item {text : List Char} {document : Document} (reads : Reads text document) :
    Enters .firstItem .value .array text document := by
  intro mode done stack rest opening delimited
  exact reads mode _ rest opening.symm delimited

theorem Reads.member (key : String) (spaces : ∀ c ∈ space, isSpace c = true) {text : List Char}
    {document : Document} (reads : Reads text document) :
    Enters .firstKey .key .object ((quoted key).toList ++ (':' :: (space ++ text))) (some key, document) := by
  intro mode done stack rest opening delimited
  have quote : step ⟨mode, .object done :: stack⟩ '"' = some ⟨.text {} true, .object done :: stack⟩ := by
    rcases opening with rfl | rfl <;> rfl
  rw [quoted_toList, List.cons_append, List.cons_append, run_cons, quote, List.append_assoc, List.append_assoc]
  show run ⟨.text {} true, _⟩ (_ ++ '"' :: ':' :: ((space ++ text) ++ rest)) = _
  rw [run_quoted]
  show run ⟨.value, .member done (some key) :: stack⟩ ((space ++ text) ++ rest) = _
  rw [List.append_assoc, run_blank rfl _ spaces, reads .value _ rest (.inl rfl) delimited]
  rfl

variable {mode : Mode} (opening : mode = .value ∨ mode = .firstItem) (gaps : ∀ c ∈ gap, isSpace c = true)
  (lasts : ∀ c ∈ last, isSpace c = true)
include opening gaps lasts

theorem run_array {texts : List (List Char)} {documents : List Document}
    (each : List.Forall₂ Reads texts documents) (stack : List Frame) (rest : List Char) :
    run ⟨mode, stack⟩ ('[' :: (listed gap last texts ++ ']' :: rest))
      = (deliver stack (.array documents)).bind (run · rest) := by
  rw [run_cons, step_value opening stack (by decide) (by decide)]
  exact run_listed arrays gaps lasts (each.imp fun _ _ reads => reads.item) stack rest

theorem run_object (spaces : ∀ c ∈ space, isSpace c = true) {members : List (String × List Char)}
    {entries : List (Option String × Document)}
    (each : List.Forall₂ (fun member entry => entry.1 = some member.1 ∧ Reads member.2 entry.2) members entries)
    (stack : List Frame) (rest : List Char) :
    run ⟨mode, stack⟩ ('\x7b' :: (listed gap last (members.map fun member =>
        (quoted member.1).toList ++ (':' :: (space ++ member.2))) ++ '\x7d' :: rest))
      = (deliver stack (.object entries)).bind (run · rest) := by
  rw [run_cons, step_value opening stack (by decide) (by decide)]
  refine run_listed objects gaps lasts ?_ stack rest
  rw [List.forall₂_map_left_iff]
  refine each.imp fun member entry known => ?_
  obtain ⟨key, document⟩ := entry
  obtain ⟨rfl, reads⟩ := known
  exact reads.member member.1 spaces

end Reader

-- A way of writing JSON. Only the blanks between the entries of containers are left open.
structure Writing (write : Nat → Json → String) where
  gap : Nat → List Char
  space : List Char
  gaps : ∀ level, ∀ c ∈ gap level, Reader.isSpace c = true
  spaces : ∀ c ∈ space, Reader.isSpace c = true
  null (level : Nat) : write level .null = "null"
  bool (level : Nat) (value : Bool) : write level (.bool value) = if value then "true" else "false"
  number (level : Nat) (value : Number) : write level (.number value) = value.written
  text (level : Nat) (value : String) : write level (.text value) = quoted value
  array (level : Nat) (items : List Json) : (write level (.array items)).toList
    = '[' :: (Reader.listed (gap (level + 1)) (gap level)
        (items.map fun item => (write (level + 1) item).toList) ++ [']'])
  object (level : Nat) (members : List (String × Json)) : (write level (.object members)).toList
    = '\x7b' :: (Reader.listed (gap (level + 1)) (gap level) (members.map fun member =>
        (quoted member.1).toList ++ (':' :: (space ++ (write (level + 1) member.2).toList))) ++ ['\x7d'])

namespace Writing

variable {write : Nat → Json → String}

theorem run_object (writing : Writing write) {level : Nat} {members : List (String × Json)}
    (each : ∀ member ∈ members, Reader.Reads (write (level + 1) member.2).toList member.2.spelled)
    {mode : Mode} (opening : mode = .value ∨ mode = .firstItem) (stack : List Frame) (rest : List Char) :
    Reader.run ⟨mode, stack⟩ ((write level (.object members)).toList ++ rest)
      = (Reader.deliver stack (spelled (.object members))).bind (Reader.run · rest) := by
  have entries : List.Forall₂ (fun (member : String × List Char) (entry : Option String × Document) =>
      entry.1 = some member.1 ∧ Reader.Reads member.2 entry.2)
      (members.map fun member => (member.1, (write (level + 1) member.2).toList))
      (members.map fun member => (some member.1, member.2.spelled)) := by
    rw [List.forall₂_map_left_iff, List.forall₂_map_right_iff, List.forall₂_same]
    exact fun member listed => ⟨rfl, each member listed⟩
  have run := Reader.run_object opening (writing.gaps (level + 1)) (writing.gaps level) writing.spaces entries
    stack rest
  rw [List.map_map] at run
  rw [writing.object, spelled, spelledMembers_eq, List.cons_append, List.append_assoc]
  exact run

theorem reads (writing : Writing write) {json : Json} (writable : json.Writable) (level : Nat) :
    Reader.Reads (write level json).toList json.spelled := by
  induction writable generalizing level with
  | null =>
    rw [writing.null]
    exact Reader.reads_null
  | bool value =>
    rw [writing.bool]
    exact Reader.reads_bool value
  | number writable =>
    rw [writing.number]
    exact Reader.reads_number (Number.literal_read writable)
  | text value =>
    rw [writing.text]
    exact Reader.reads_text value
  | @array items each ih =>
    intro mode stack rest opening _
    rw [writing.array, spelled, spelledItems_eq, List.cons_append, List.append_assoc]
    refine Reader.run_array opening (writing.gaps _) (writing.gaps _) ?_ stack rest
    rw [List.forall₂_map_left_iff, List.forall₂_map_right_iff, List.forall₂_same]
    exact fun item member => ih item member (level + 1)
  | object each ih =>
    intro mode stack rest opening _
    exact writing.run_object (fun member listed => ih member listed (level + 1)) opening stack rest

theorem read_object (writing : Writing write) (level : Nat) {members : List (String × Json)}
    (writable : Writable (.object members)) :
    Document.read? (write level (.object members)) = some (spelled (.object members)) := by
  cases writable with
  | object each =>
    have parts (member : String × Json) (listed : member ∈ members) :
        Reader.Reads (write (level + 1) member.2).toList member.2.spelled :=
      writing.reads (each member listed) (level + 1)
    have run := writing.run_object parts (.inl rfl) [] []
    rw [List.append_nil] at run
    rw [Document.read?, Reader.init, run]
    rfl

end Writing

theorem compactItems_eq (items : List Json) : compactItems items = items.map compact := by
  induction items with
  | nil => rfl
  | cons item rest ih => rw [compactItems, ih, List.map_cons]

theorem compactMembers_eq (members : List (String × Json)) :
    compactMembers members = members.map fun m => quoted m.1 ++ ":" ++ compact m.2 := by
  induction members with
  | nil => rfl
  | cons member rest ih => rw [compactMembers, ih, List.map_cons]

theorem prettyItems_eq (level : Nat) (items : List Json) :
    prettyItems level items = items.map (prettyAt level) := by
  induction items with
  | nil => rfl
  | cons item rest ih => rw [prettyItems, ih, List.map_cons]

theorem prettyMembers_eq (level : Nat) (members : List (String × Json)) :
    prettyMembers level members = members.map fun m => quoted m.1 ++ ": " ++ prettyAt level m.2 := by
  induction members with
  | nil => rfl
  | cons member rest ih => rw [prettyMembers, ih, List.map_cons]

theorem intercalate_toList {separator : String} {gap : List Char} (comma : separator.toList = ',' :: gap)
    (first : String) (rest : List String) : (String.intercalate separator (first :: rest)).toList
      = first.toList ++ (rest.map String.toList).flatMap (fun text => ',' :: (gap ++ text)) := by
  induction rest generalizing first with
  | nil => simp
  | cons second rest ih =>
    rw [String.intercalate_cons_cons, String.toList_append, String.toList_append, ih, comma]
    simp

theorem compact_listed (entries : List String) :
    (String.intercalate "," entries).toList = Reader.listed [] [] (entries.map String.toList) := by
  cases entries with
  | nil => rfl
  | cons first rest =>
    have comma : ",".toList = [','] := rfl
    rw [intercalate_toList comma, List.map_cons, Reader.listed, List.append_nil]
    rfl

theorem block_listed (opening closing : String) (level : Nat) (entries : List String) :
    (block opening closing level entries).toList = opening.toList ++
      (Reader.listed (lineStart (level + 1)).toList (lineStart level).toList (entries.map String.toList)
        ++ closing.toList) := by
  cases entries with
  | nil => simp [block, Reader.listed]
  | cons first rest =>
    have comma : ("," ++ lineStart (level + 1)).toList = ',' :: (lineStart (level + 1)).toList := by simp
    simp [block, intercalate_toList comma, Reader.listed]

def compactWriting : Writing fun _ => compact where
  gap _ := []
  space := []
  gaps := by simp
  spaces := by simp
  null _ := by rw [compact]
  bool _ _ := by rw [compact]
  number _ _ := by rw [compact]
  text _ _ := by rw [compact]
  array _ items := by
    rw [compact, compactItems_eq, String.toList_append, String.toList_append, compact_listed, List.map_map]
    rfl
  object _ members := by
    rw [compact, compactMembers_eq, String.toList_append, String.toList_append, compact_listed, List.map_map]
    simp [Function.comp_def]

def prettyWriting : Writing prettyAt where
  gap level := (lineStart level).toList
  space := [' ']
  gaps := by
    intro level c member
    rw [lineStart, String.toList_append] at member
    rcases List.mem_append.mp member with newline | blank
    · rw [List.mem_singleton.mp newline]
      rfl
    · rw [String.toList_ofList] at blank
      rw [List.eq_of_mem_replicate blank]
      rfl
  spaces c member := by
    rw [List.mem_singleton.mp member]
    rfl
  null _ := by rw [prettyAt]
  bool _ _ := by rw [prettyAt]
  number _ _ := by rw [prettyAt]
  text _ _ := by rw [prettyAt]
  array level items := by
    rw [prettyAt, prettyItems_eq, block_listed, List.map_map]
    rfl
  object level members := by
    rw [prettyAt, prettyMembers_eq, block_listed, List.map_map]
    simp [Function.comp_def]

end Blockwork.Json
