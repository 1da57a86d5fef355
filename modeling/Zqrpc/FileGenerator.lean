import Zqrpc.CppLiteral

/-! The embedded descriptor: the serialized file, printed as adjacent string literals of
forty bytes each, and its size. The compiler reads the bytes back. -/
namespace Zqrpc

open Numeral

section Functions

/-- What the generator uses of protobuf's string utilities; `isprint` is the test
`CEscape` makes. -/
structure StrUtil where
  isprint : UInt8 → Bool
  cEscape : Bytes → Bytes
  /-- `StringReplace(s, oldsub, newsub, replace_all)` -/
  stringReplace : Bytes → Bytes → Bytes → Bool → Bytes
  simpleItoa : Nat → Bytes

variable (util : StrUtil)

/-- `EscapeTrigraphs`: question marks become `\?`. -/
def escapeTrigraphs (toEscape : Bytes) : Bytes :=
  util.stringReplace toEscape (ascii "?") (ascii "\\?") true

def kBytesPerLine : Nat := 40

def substr (data : Bytes) (pos n : Nat) : Bytes := (data.drop pos).take n

/-- `printer->Print("\n  \"$data$\"", "data", data)`, where each line starts with the
indentation of the printer. -/
def printLine (indent data : Bytes) : Bytes :=
  ascii "\n" ++ indent ++ ascii "  \"" ++ data ++ ascii "\""

/-- The loop over the lines, from position `i` on. -/
def printLines (indent fileData : Bytes) (i : Nat) : Bytes :=
  if i < fileData.length then
    printLine indent (escapeTrigraphs util (util.cEscape (substr fileData i kBytesPerLine))) ++
      printLines indent fileData (i + kBytesPerLine)
  else []
termination_by fileData.length - i
decreasing_by
  simp only [kBytesPerLine]
  omega

def addGeneratedFile : Bytes :=
  ascii "::google::protobuf::DescriptorPool::InternalAddGeneratedFile("

/-- What `GenerateBuildDescriptors` prints to embed the descriptor, at a depth of so many
calls of `Indent`. -/
def embedDescriptor (depth : Nat) (fileData : Bytes) : Bytes :=
  let indent := List.replicate (2 * depth) 32
  indent ++ addGeneratedFile ++ printLines util indent fileData 0 ++
    ascii ", " ++ util.simpleItoa fileData.length ++ ascii ");\n"

end Functions

section Escapes

def octalDigit (d : Nat) : UInt8 := (48 + d).toUInt8

def octal (b : UInt8) : Bytes :=
  [octalDigit (b.toNat / 64), octalDigit (b.toNat / 8 % 8), octalDigit (b.toNat % 8)]

/-- What `CEscape` writes for one byte. -/
def escaped (isprint : UInt8 → Bool) (b : UInt8) : Bytes :=
  if b = 10 then ascii "\\n"
  else if b = 13 then ascii "\\r"
  else if b = 9 then ascii "\\t"
  else if b = 34 then ascii "\\\""
  else if b = 39 then ascii "\\'"
  else if b = 92 then ascii "\\\\"
  else if isprint b then [b]
  else ascii "\\" ++ octal b

/-- The documented behaviour of the string utilities. -/
structure StrUtil.Documented (util : StrUtil) : Prop where
  escapes : ∀ src, util.cEscape src = src.flatMap (escaped util.isprint)
  /-- of one byte, every occurrence is replaced -/
  replaces : ∀ s b newsub, util.stringReplace s [b] newsub true =
    s.flatMap fun c => if c = b then newsub else [c]
  numbers : ∀ n, util.simpleItoa n = decimal n

/-- One byte of the data as it is printed. -/
def spelled (isprint : UInt8 → Bool) (b : UInt8) : Bytes :=
  (escaped isprint b).flatMap fun c => if c = 63 then ascii "\\?" else [c]

theorem StrUtil.Documented.spelled {util : StrUtil} (documented : util.Documented)
    (data : Bytes) :
    escapeTrigraphs util (util.cEscape data) = data.flatMap (Zqrpc.spelled util.isprint) := by
  have mark : ascii "?" = [63] := by decide
  rw [escapeTrigraphs, documented.escapes, mark, documented.replaces, List.flatMap_assoc]
  rfl

theorem octalDigit_read (d : Nat) (small : d < 8) :
    CppLiteral.isDigitOf 8 (octalDigit d) = true ∧ CppLiteral.digit (octalDigit d) = d ∧
      octalDigit d ≠ 63 := by
  interval_cases d <;> decide

theorem octal_numeric (b : UInt8) : CppLiteral.numeric 8 (octal b) = some (b, 3) := by
  have bound := b.toNat_lt
  obtain ⟨_, high, _⟩ := octalDigit_read (b.toNat / 64) (by omega)
  obtain ⟨_, middle, _⟩ := octalDigit_read (b.toNat / 8 % 8) (by omega)
  obtain ⟨_, low, _⟩ := octalDigit_read (b.toNat % 8) (by omega)
  have sum : 8 * (8 * (8 * 0 + b.toNat / 64) + b.toNat / 8 % 8) + b.toNat % 8 = b.toNat := by
    omega
  have total : (octal b).foldl (fun total c => 8 * total + CppLiteral.digit c) 0 = b.toNat := by
    simp only [octal, List.foldl_cons, List.foldl_nil, high, middle, low, sum]
  rw [CppLiteral.numeric, total, if_pos ⟨List.cons_ne_nil _ _, bound⟩]
  simp [octal]

theorem octal_spells (b : UInt8) : CppLiteral.Spells (CppLiteral.backslash :: octal b) [b] := by
  have bound := b.toNat_lt
  exact .octal (octalDigit_read _ (by omega)).1 (octalDigit_read _ (by omega)).1
    (octalDigit_read _ (by omega)).1 (octal_numeric b)

/-- Each byte denotes itself, whatever is printed before and after it. -/
theorem spelled_spells (isprint : UInt8 → Bool) (b : UInt8) :
    CppLiteral.Spells (spelled isprint b) [b] := by
  unfold spelled escaped
  split_ifs with newline return' tab quote apostrophe backslash printable
  · subst newline
    exact .simple (by decide)
  · subst return'
    exact .simple (by decide)
  · subst tab
    exact .simple (by decide)
  · subst quote
    exact .simple (by decide)
  · subst apostrophe
    exact .simple (by decide)
  · subst backslash
    exact .simple (by decide)
  · by_cases mark : b = 63
    · subst mark
      exact .simple (by decide)
    · simpa [mark] using CppLiteral.Spells.plain ⟨mark, backslash⟩ ⟨mark, newline⟩ quote
  · have bound := b.toNat_lt
    have same : (ascii "\\" ++ octal b).flatMap (fun c => if c = 63 then ascii "\\?" else [c]) =
        CppLiteral.backslash :: octal b := by
      have slash : ascii "\\" = [CppLiteral.backslash] := by decide
      have high := (octalDigit_read (b.toNat / 64) (by omega)).2.2
      have middle := (octalDigit_read (b.toNat / 8 % 8) (by omega)).2.2
      have low := (octalDigit_read (b.toNat % 8) (by omega)).2.2
      have other : CppLiteral.backslash ≠ 63 := by decide
      simp [octal, slash, high, middle, low, other]
    rw [same]
    exact octal_spells b

end Escapes

section RoundTrip

variable {util : StrUtil} (documented : util.Documented)

theorem printLine_eq (indent body text : Bytes) : printLine indent body ++ text =
    (ascii "\n" ++ indent ++ ascii "  ") ++
      CppLiteral.quote :: (body ++ CppLiteral.quote :: text) := by
  have opening : ascii "  \"" = ascii "  " ++ [CppLiteral.quote] := by decide
  have closing : ascii "\"" = [CppLiteral.quote] := by decide
  simp [printLine, opening, closing]

include documented in
/-- The loop prints literals that denote the data from its position on. -/
theorem printLines_adjacent {indent : Bytes}
    (blank : ∀ b ∈ indent, CppLiteral.isBlank b = true) (fileData : Bytes) (i : Nat) :
    CppLiteral.Adjacent (printLines util indent fileData i) (fileData.drop i) := by
  fun_induction printLines util indent fileData i with
  | case1 i inside ih =>
    have split' : fileData.drop i =
        substr fileData i kBytesPerLine ++ fileData.drop (i + kBytesPerLine) := by
      rw [substr, ← List.drop_drop, List.take_append_drop]
    rw [split', printLine_eq, documented.spelled]
    refine .cons (fun b member => ?_) (.flatMap (spelled_spells util.isprint) _) ih
    simp only [List.mem_append] at member
    rcases member with (line | front) | spaces
    · exact (by decide +kernel : ∀ b ∈ ascii "\n", CppLiteral.isBlank b = true) b line
    · exact blank b front
    · exact (by decide +kernel : ∀ b ∈ ascii "  ", CppLiteral.isBlank b = true) b spaces
  | case2 i outside =>
    rw [List.drop_eq_nil_of_le (by omega)]
    exact .nil

theorem printLines_ne_nil (indent : Bytes) {fileData : Bytes} (nonempty : fileData ≠ []) :
    printLines util indent fileData 0 ≠ [] := by
  rw [printLines, if_pos (List.length_pos_iff.mpr nonempty), printLine_eq]
  simp

/-- The compiler reads back the data and its length from what the generator prints. -/
theorem embedded_round_trip (util : StrUtil) (documented : util.Documented) (depth : Nat)
    (fileData : Bytes) (nonempty : fileData ≠ []) :
    CppLiteral.readCall addGeneratedFile (embedDescriptor util depth fileData) =
      some (fileData, fileData.length) := by
  have blank : ∀ b ∈ List.replicate (2 * depth) (32 : UInt8), CppLiteral.isBlank b = true := by
    intro b member
    rw [List.eq_of_mem_replicate member]
    rfl
  have ends : ∀ b ∈ addGeneratedFile, CppLiteral.Ends b := by
    simp [addGeneratedFile, ascii, CppLiteral.Ends, CppLiteral.question, CppLiteral.backslash]
  have adjacent := printLines_adjacent documented blank fileData 0
  rw [List.drop_zero] at adjacent
  obtain ⟨first, name, called, unblank⟩ : ∃ first name, addGeneratedFile = first :: name ∧
      CppLiteral.isBlank first = false := ⟨58, _, rfl, rfl⟩
  rw [called] at ends ⊢
  have reads := adjacent.readCall blank ends unblank (printLines_ne_nil _ nonempty)
    (List.length_pos_iff.mpr nonempty)
  simpa only [embedDescriptor, called, documented.numbers, List.append_assoc] using reads

/-- The string utilities in the C locale, as far as the generator calls them. -/
def cLocale : StrUtil where
  isprint b := 32 ≤ b && b < 127
  cEscape src := src.flatMap (escaped fun b => 32 ≤ b && b < 127)
  stringReplace s oldsub newsub replaceAll :=
    match oldsub, replaceAll with
    | [b], true => s.flatMap fun c => if c = b then newsub else [c]
    | _, _ => s
  simpleItoa := decimal

theorem cLocale_documented : cLocale.Documented where
  escapes _ := rfl
  replaces _ _ _ := rfl
  numbers _ := rfl

/-- A trigraph, a zero byte before a digit, a backslash and a byte above 127. -/
theorem embedded_round_trip_mixed : CppLiteral.readCall addGeneratedFile
    (embedDescriptor cLocale 1 [63, 63, 47, 0, 49, 92, 255, 10]) =
      some ([63, 63, 47, 0, 49, 92, 255, 10], 8) :=
  embedded_round_trip cLocale cLocale_documented 1 _ (by decide)

end RoundTrip

end Zqrpc
