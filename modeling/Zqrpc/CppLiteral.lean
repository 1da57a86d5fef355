import Zqrpc.Numeral

/-! Adjacent C++ string literals, read phase by phase: trigraphs and spliced lines in the
text, the literals as tokens of it, the escape sequences of each, their concatenation. -/
namespace CppLiteral

open Numeral

def backslash : UInt8 := 92
def quote : UInt8 := 34
def question : UInt8 := 63
def newline : UInt8 := 10

section Phases

/-- What `??` and this byte stand for. -/
def trigraph (b : UInt8) : Option UInt8 :=
  ((ascii "=/'()!<>-").zip (ascii "#\\^[]|\x7b\x7d~")).lookup b

def replaceTrigraphs : Bytes → Bytes
  | a :: b :: c :: text =>
    if a = question ∧ b = question then
      match trigraph c with
      | some d => d :: replaceTrigraphs text
      | none => a :: replaceTrigraphs (b :: c :: text)
    else a :: replaceTrigraphs (b :: c :: text)
  | text => text

/-- A backslash takes the end of its line with it. -/
def splice : Bytes → Bytes
  | a :: b :: text =>
    if a = backslash ∧ b = newline then splice text else a :: splice (b :: text)
  | text => text

def isBlank (b : UInt8) : Bool := b == 32 || (9 ≤ b && b ≤ 12)

inductive Mode where
  | between
  | inside
  /-- behind a backslash in a literal -/
  | escaped

/-- Add bytes to the front of the literal that is being read. -/
def prepend (body : Bytes) (read : List Bytes × Bytes) : List Bytes × Bytes :=
  (read.1.modifyHead (body ++ ·), read.2)

/-- The bodies of adjacent literals, still escaped, with the text after the last. -/
def literals : Mode → Bytes → Option (List Bytes × Bytes)
  | .between, [] => some ([], [])
  | .between, b :: text =>
    if isBlank b then literals .between text
    else if b = quote then literals .inside text
    else some ([], b :: text)
  | .inside, b :: text =>
    if b = quote then (literals .between text).map fun (bodies, rest) => ([] :: bodies, rest)
    else if b = newline then none
    else (literals (if b = backslash then .escaped else .inside) text).map (prepend [b])
  | .escaped, b :: text =>
    if b = newline then none else (literals .inside text).map (prepend [b])
  | _, [] => none

def simpleEscape (b : UInt8) : Option UInt8 :=
  ((ascii "'\"?\\abfnrtv").zip [39, 34, 63, 92, 7, 8, 12, 10, 13, 9, 11]).lookup b

def digit (b : UInt8) : Nat :=
  if b ≤ 57 then b.toNat - 48 else if b ≤ 70 then b.toNat - 55 else b.toNat - 87

def isDigitOf (base : Nat) (b : UInt8) : Bool :=
  (isDigit b || (65 ≤ b && b ≤ 70) || (97 ≤ b && b ≤ 102)) && digit b < base

/-- The byte that the digits of a numeric escape sequence name, with their number. -/
def numeric (base : Nat) (digits : Bytes) : Option (UInt8 × Nat) :=
  let n := digits.foldl (fun total b => base * total + digit b) 0
  if digits ≠ [] ∧ n < 256 then some (n.toUInt8, digits.length) else none

/-- The byte of the escape sequence whose backslash stands before this text, with the
length of the rest of the sequence. -/
def escape : Bytes → Option (UInt8 × Nat)
  | [] => none
  | b :: text =>
    match simpleEscape b with
    | some named => some (named, 1)
    | none =>
      if b = 120 then
        (numeric 16 (text.takeWhile (isDigitOf 16))).map fun (byte, length) => (byte, length + 1)
      else numeric 8 (((b :: text).take 3).takeWhile (isDigitOf 8))

/-- The bytes a body denotes, after so many bytes of an escape sequence are passed. -/
def unescape : Nat → Bytes → Option Bytes
  | _, [] => some []
  | passed + 1, _ :: text => unescape passed text
  | 0, b :: text =>
    if b = backslash then
      match escape text with
      | some (byte, length) => (unescape length text).map (byte :: ·)
      | none => none
    else (unescape 0 text).map (b :: ·)

/-- The value of one or more adjacent literals, with the text after them. -/
def denote (text : Bytes) : Option (Bytes × Bytes) := do
  let (bodies, rest) ← literals .between text
  if bodies = [] then none
  else
    let values ← bodies.mapM (unescape 0)
    some (values.flatten, rest)

/-- The value of a decimal literal, which starts with no zero. -/
def decimalLiteral (text : Bytes) : Option Nat :=
  match text with
  | [] => none
  | b :: _ => if isDigit b ∧ b ≠ 48 then some (value (text.takeWhile isDigit)) else none

/-- The arguments of a call of this name with a string and a number. -/
def readCall (name source : Bytes) : Option (Bytes × Nat) := do
  let text ← ((splice (replaceTrigraphs source)).dropWhile isBlank).dropPrefix? name
  let (data, text) ← denote text
  let text ← text.dropPrefix? (ascii ", ")
  let size ← decimalLiteral text
  if text.dropWhile isDigit = ascii ");\n" then some (data, size) else none

end Phases

section Text

/-- Neither a trigraph nor a spliced line starts with these two bytes. -/
def Unrelated (a b : UInt8) : Prop :=
  ¬(a = question ∧ b = question) ∧ ¬(a = backslash ∧ b = newline)

/-- Text that the first two phases leave as it is. -/
def Clear (text : Bytes) : Prop := text.IsChain Unrelated

/-- A byte that every byte may follow. -/
def Ends (b : UInt8) : Prop := b ≠ question ∧ b ≠ backslash

instance (b : UInt8) : Decidable (Ends b) := inferInstanceAs (Decidable (_ ∧ _))

/-- A byte that may follow every byte. -/
def Starts (b : UInt8) : Prop := b ≠ question ∧ b ≠ newline

theorem replaceTrigraphs_clear (text : Bytes) (clear : Clear text) :
    replaceTrigraphs text = text := by
  fun_induction replaceTrigraphs text with
  | case1 a b c text both d named ih => exact absurd both (List.isChain_cons_cons.mp clear).1.1
  | case2 a b c text both unnamed ih => exact absurd both (List.isChain_cons_cons.mp clear).1.1
  | case3 a b c text other ih => rw [ih (List.isChain_cons_cons.mp clear).2]
  | case4 => rfl

theorem splice_clear (text : Bytes) (clear : Clear text) : splice text = text := by
  fun_induction splice text with
  | case1 a b text both ih => exact absurd both (List.isChain_cons_cons.mp clear).1.2
  | case2 a b text other ih => rw [ih (List.isChain_cons_cons.mp clear).2]
  | case3 => rfl

theorem Clear.cons {b : UInt8} {text : Bytes} (ends : Ends b) (clear : Clear text) :
    Clear (b :: text) :=
  List.isChain_cons.mpr ⟨fun _ _ => ⟨fun both => ends.1 both.1, fun both => ends.2 both.1⟩, clear⟩

theorem Clear.append {body text : Bytes} (first : Clear body) (second : Clear text)
    (starts : ∀ b ∈ text.head?, Starts b) : Clear (body ++ text) := by
  refine List.isChain_append.mpr ⟨first, second, fun a _ b head => ?_⟩
  exact ⟨fun both => (starts b head).1 both.2, fun both => (starts b head).2 both.2⟩

theorem Clear.behind {front text : Bytes} (ends : ∀ b ∈ front, Ends b) (clear : Clear text) :
    Clear (front ++ text) := by
  induction front with
  | nil => exact clear
  | cons b front ih =>
    apply Clear.cons (ends b List.mem_cons_self)
    exact ih fun c member => ends c (List.mem_cons_of_mem _ member)

theorem ne_of_passes {test : UInt8 → Bool} {b c : UInt8} (passes : test b = true)
    (fails : test c = false) : b ≠ c := by
  rintro rfl
  cases passes.symm.trans fails

theorem blank_ends {b : UInt8} (blank : isBlank b = true) : Ends b :=
  ⟨ne_of_passes blank rfl, ne_of_passes blank rfl⟩

theorem digit_ends {b : UInt8} (digit : isDigit b = true) : Ends b :=
  ⟨ne_of_passes digit rfl, ne_of_passes digit rfl⟩

end Text

section Bodies

theorem prepend_nil : prepend [] = id := by
  funext ⟨bodies, rest⟩
  cases bodies <;> rfl

theorem prepend_prepend (first second : Bytes) (read : List Bytes × Bytes) :
    prepend first (prepend second read) = prepend (first ++ second) read := by
  obtain ⟨bodies, rest⟩ := read
  cases bodies <;> simp [prepend]

/-- The lexer passes over a body, whatever comes after it. -/
def Scanned (body : Bytes) : Prop :=
  ∀ text, literals .inside (body ++ text) = (literals .inside text).map (prepend body)

theorem Scanned.append {body more : Bytes} (first : Scanned body) (second : Scanned more) :
    Scanned (body ++ more) := by
  intro text
  rw [List.append_assoc, first, second, Option.map_map]
  exact congrFun (congrArg _ (funext fun read => prepend_prepend body more read)) _

theorem Scanned.byte {b : UInt8} (ends : Ends b) (starts : Starts b) (inner : b ≠ quote) :
    Scanned [b] := by
  intro text
  simp [literals, inner, starts.2, ends.2]

theorem Scanned.escaped {b : UInt8} (inner : b ≠ newline) : Scanned [backslash, b] := by
  intro text
  have first : literals .inside (backslash :: b :: text) =
      (literals .escaped (b :: text)).map (prepend [backslash]) := rfl
  have second : literals .escaped (b :: text) = (literals .inside text).map (prepend [b]) := by
    simp [literals, inner]
  rw [List.cons_append, List.cons_append, List.nil_append, first, second, Option.map_map]
  exact congrFun (congrArg _ (funext fun read => prepend_prepend [backslash] [b] read)) _

/-- A body that denotes these bytes, whatever it stands before in a literal. -/
structure Spells (body value : Bytes) : Prop where
  scanned : Scanned body
  read : ∀ text, unescape 0 (body ++ text) = (unescape 0 text).map (value ++ ·)
  clear : Clear body
  starts : ∀ b ∈ body.head?, Starts b

theorem Spells.nil : Spells [] [] where
  scanned text := by rw [prepend_nil, Option.map_id]; rfl
  read text := by simp
  clear := .nil
  starts := by simp

theorem Spells.append {body value more values : Bytes} (first : Spells body value)
    (second : Spells more values) : Spells (body ++ more) (value ++ values) where
  scanned := first.scanned.append second.scanned
  read text := by
    rw [List.append_assoc, first.read, second.read, Option.map_map]
    exact congrFun (congrArg _ (funext fun rest => (List.append_assoc _ _ rest).symm)) _
  clear := first.clear.append second.clear second.starts
  starts := by
    cases body with
    | nil => exact second.starts
    | cons => exact first.starts

theorem Spells.flatMap {spell : UInt8 → Bytes} (spells : ∀ b, Spells (spell b) [b])
    (data : Bytes) : Spells (data.flatMap spell) data := by
  induction data with
  | nil => exact .nil
  | cons b data ih => exact (spells b).append ih

theorem Spells.plain {b : UInt8} (ends : Ends b) (starts : Starts b) (inner : b ≠ quote) :
    Spells [b] [b] where
  scanned := .byte ends starts inner
  read text := by simp [unescape, ends.2]
  clear := .singleton b
  starts := by simpa using starts

theorem simpleEscape_mem {b value : UInt8} (named : simpleEscape b = some value) :
    b ∈ ascii "'\"?\\abfnrtv" := by
  obtain ⟨front, back, same, _⟩ := List.lookup_eq_some_iff.mp named
  exact (List.of_mem_zip (same ▸ List.mem_append_right _ List.mem_cons_self)).1

theorem clear_escaped {b : UInt8} (inner : b ≠ newline) : Clear [backslash, b] :=
  List.isChain_pair.mpr ⟨fun both => absurd both.1 (by decide), fun both => inner both.2⟩

theorem backslash_starts : Starts backslash := by
  constructor <;> decide

theorem Spells.simple {b value : UInt8} (named : simpleEscape b = some value) :
    Spells [backslash, b] [value] := by
  have inner : b ≠ newline := by
    rintro rfl
    exact absurd (simpleEscape_mem named) (by decide)
  constructor
  case scanned => exact .escaped inner
  case read =>
    intro text
    simp [unescape, escape, named]
  case clear => exact clear_escaped inner
  case starts => simpa using backslash_starts

set_option maxRecDepth 2000 in
theorem octalDigit_plain {b : UInt8} (octal : isDigitOf 8 b = true) :
    Ends b ∧ Starts b ∧ b ≠ quote ∧ b ≠ 120 ∧ simpleEscape b = none := by
  refine ⟨⟨ne_of_passes octal rfl, ne_of_passes octal rfl⟩,
    ⟨ne_of_passes octal rfl, ne_of_passes octal rfl⟩, ne_of_passes octal rfl,
    ne_of_passes octal rfl, ?_⟩
  cases named : simpleEscape b with
  | none => rfl
  | some =>
    have letters : ∀ c ∈ ascii "'\"?\\abfnrtv", isDigitOf 8 c = false := by decide
    exact absurd rfl (ne_of_passes octal (letters b (simpleEscape_mem named)))

/-- Three digits are read whatever comes after them. -/
theorem Spells.octal {a b c value : UInt8} (first : isDigitOf 8 a = true)
    (second : isDigitOf 8 b = true) (third : isDigitOf 8 c = true)
    (named : numeric 8 [a, b, c] = some (value, 3)) : Spells [backslash, a, b, c] [value] := by
  obtain ⟨_, startsA, _, noHex, unnamed⟩ := octalDigit_plain first
  obtain ⟨endsB, startsB, innerB, _⟩ := octalDigit_plain second
  obtain ⟨endsC, startsC, innerC, _⟩ := octalDigit_plain third
  constructor
  case scanned =>
    exact (Scanned.escaped startsA.2).append
      ((Scanned.byte endsB startsB innerB).append (.byte endsC startsC innerC))
  case read =>
    intro text
    have whole : escape (a :: b :: c :: text) = some (value, 3) := by
      simp [escape, unnamed, noHex, first, second, third, named]
    simp [unescape, whole]
  case clear =>
    exact (clear_escaped startsA.2).append (.cons endsB (.singleton c)) (by simpa using startsB)
  case starts => simpa using backslash_starts

end Bodies

section Sequences

/-- Adjacent literals with the bytes they denote together. -/
inductive Adjacent : Bytes → Bytes → Prop where
  | nil : Adjacent [] []
  | cons {blanks body value text values : Bytes} (blank : ∀ b ∈ blanks, isBlank b = true)
      (spells : Spells body value) (later : Adjacent text values) :
      Adjacent (blanks ++ quote :: (body ++ quote :: text)) (value ++ values)

theorem between_blanks {blanks : Bytes} (blank : ∀ b ∈ blanks, isBlank b = true) (text : Bytes) :
    literals .between (blanks ++ text) = literals .between text := by
  induction blanks with
  | nil => rfl
  | cons b blanks ih =>
    rw [List.cons_append, literals, if_pos (blank b List.mem_cons_self)]
    exact ih fun c member => blank c (List.mem_cons_of_mem _ member)

theorem Spells.literal {body value : Bytes} (spells : Spells body value) (text : Bytes) :
    literals .between (quote :: (body ++ quote :: text)) =
      (literals .between text).map fun (bodies, rest) => (body :: bodies, rest) := by
  have opened : literals .between (quote :: (body ++ quote :: text)) =
      literals .inside (body ++ quote :: text) := rfl
  have closed : literals .inside (quote :: text) =
      (literals .between text).map fun (bodies, rest) => ([] :: bodies, rest) := rfl
  rw [opened, spells.scanned, closed, Option.map_map]
  simp [Function.comp_def, prepend]

theorem Spells.value {body value : Bytes} (spells : Spells body value) :
    unescape 0 body = some value := by
  simpa [unescape] using spells.read []

theorem Adjacent.reads {text value rest : Bytes} (adjacent : Adjacent text value)
    (stops : literals .between rest = some ([], rest)) :
    ∃ bodies values, literals .between (text ++ rest) = some (bodies, rest) ∧
      bodies.mapM (unescape 0) = some values ∧ values.flatten = value ∧
      (text ≠ [] → bodies ≠ []) := by
  induction adjacent with
  | nil => exact ⟨[], [], stops, rfl, rfl, fun empty => absurd rfl empty⟩
  | @cons _ body value _ _ blank spells _ ih =>
    obtain ⟨bodies, values, lexed, decoded, joined, _⟩ := ih
    refine ⟨body :: bodies, value :: values, ?_, ?_, ?_, fun _ => List.cons_ne_nil _ _⟩
    · rw [List.append_assoc, between_blanks blank, List.cons_append, List.append_assoc,
        List.cons_append, spells.literal, lexed]
      rfl
    · simp [List.mapM_cons, spells.value, decoded]
    · rw [List.flatten_cons, joined]

theorem Adjacent.denote {text value rest : Bytes} (adjacent : Adjacent text value)
    (some' : text ≠ []) (stops : literals .between rest = some ([], rest)) :
    denote (text ++ rest) = some (value, rest) := by
  obtain ⟨bodies, values, lexed, decoded, joined, nonempty⟩ := adjacent.reads stops
  simp [CppLiteral.denote, lexed, nonempty some', decoded, joined]

example : denote (replaceTrigraphs (ascii "\"\\101\" \"??=\\?\", 1")) =
    some (ascii "A#?", ascii ", 1") := by decide

theorem Adjacent.clear {text value rest : Bytes} (adjacent : Adjacent text value)
    (clear : Clear rest) : Clear (text ++ rest) := by
  have quote_ends : Ends quote := by decide
  induction adjacent with
  | nil => exact clear
  | cons blank spells _ ih =>
    rw [List.append_assoc, List.cons_append, List.append_assoc, List.cons_append]
    apply Clear.behind fun b member => blank_ends (blank b member)
    refine .cons quote_ends (spells.clear.append (.cons quote_ends ih) fun b head => ?_)
    obtain rfl := Option.some.inj head
    constructor <;> decide

theorem decimal_first (n : Nat) (positive : 0 < n) : ∀ b ∈ (decimal n).head?, b ≠ 48 := by
  induction n using Nat.strong_induction_on with
  | _ n ih =>
    rw [decimal_eq]
    split
    · rename_i small
      intro b head
      obtain rfl := Option.some.inj head
      interval_cases n <;> decide
    · rename_i large
      obtain ⟨b, rest, shape, _⟩ := decimal_head (n / 10)
      have first := ih (n / 10) (by omega) (by omega)
      rw [shape] at first ⊢
      exact first

theorem decimalLiteral_decimal {n : Nat} (positive : 0 < n) {rest : Bytes}
    (stops : rest.takeWhile isDigit = []) : decimalLiteral (decimal n ++ rest) = some n := by
  have digits : (decimal n ++ rest).takeWhile isDigit = decimal n := by
    rw [List.takeWhile_append_of_pos (decimal_digits n), stops, List.append_nil]
  obtain ⟨b, later, shape, digit⟩ := decimal_head n
  have first : b ≠ 48 := decimal_first n positive b (by simp [shape])
  rw [shape] at digits ⊢
  rw [List.cons_append, decimalLiteral, if_pos ⟨digit, first⟩, ← List.cons_append, digits, ← shape,
    value_decimal]

set_option maxRecDepth 2000 in
/-- A call that is printed with adjacent literals and a decimal number is read back. -/
theorem Adjacent.readCall {indent name text value : Bytes} {b : UInt8} {n : Nat}
    (blank : ∀ b ∈ indent, isBlank b = true) (named : ∀ c ∈ b :: name, Ends c)
    (first : isBlank b = false) (adjacent : Adjacent text value)
    (some' : text ≠ []) (positive : 0 < n) :
    readCall (b :: name)
        (indent ++ (b :: name ++ (text ++ (ascii ", " ++ (decimal n ++ ascii ");\n"))))) =
      some (value, n) := by
  set rest := ascii ", " ++ (decimal n ++ ascii ");\n") with shape
  have ends : ∀ c ∈ rest, Ends c := by
    intro c member
    simp only [rest, List.mem_append] at member
    rcases member with comma | digit | closing
    · exact (by decide : ∀ c ∈ ascii ", ", Ends c) c comma
    · exact digit_ends (decimal_digits n c digit)
    · exact (by decide : ∀ c ∈ ascii ");\n", Ends c) c closing
  have clear : Clear (indent ++ (b :: name ++ (text ++ rest))) := by
    apply Clear.behind fun c member => blank_ends (blank c member)
    apply Clear.behind named
    apply adjacent.clear
    simpa using Clear.behind ends .nil
  have front : (indent ++ (b :: name ++ (text ++ rest))).dropWhile isBlank =
      b :: name ++ (text ++ rest) := by
    rw [List.dropWhile_append_of_pos blank, List.cons_append, List.dropWhile_cons_of_neg]
    simp [first]
  have called : (b :: name ++ (text ++ rest)).dropPrefix? (b :: name) = some (text ++ rest) :=
    List.dropPrefix?_eq_some_iff.mpr ⟨_, rfl, by simp⟩
  have comma : rest.dropPrefix? (ascii ", ") = some (decimal n ++ ascii ");\n") :=
    List.dropPrefix?_eq_some_iff.mpr ⟨_, rfl, by simp⟩
  have size : decimalLiteral (decimal n ++ ascii ");\n") = some n :=
    decimalLiteral_decimal positive (by decide)
  have closing : (decimal n ++ ascii ");\n").dropWhile isDigit = ascii ");\n" := by
    rw [List.dropWhile_append_of_pos (decimal_digits n)]
    decide
  have stops : literals .between rest = some ([], rest) := rfl
  unfold CppLiteral.readCall
  rw [replaceTrigraphs_clear _ clear, splice_clear _ clear, front, called]
  simp [adjacent.denote some' stops, comma, size, closing]

end Sequences

end CppLiteral
