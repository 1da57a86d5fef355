import Zqrpc.Numeral

/-! The files a run of the plugin writes. The name of the generated header is made from the
name of the proto file twice: when it is opened for output and when it is included. -/
namespace Zqrpc

open Numeral

section Suffixes

def hasSuffixString (str suffix : Bytes) : Bool :=
  suffix.length ≤ str.length && str.drop (str.length - suffix.length) == suffix

def stripSuffixString (str suffix : Bytes) : Bytes :=
  if hasSuffixString str suffix then str.take (str.length - suffix.length) else str

theorem hasSuffixString_iff (str suffix : Bytes) :
    hasSuffixString str suffix = true ↔ suffix <:+ str := by
  constructor
  · intro has
    simp only [hasSuffixString, Bool.and_eq_true, decide_eq_true_eq, beq_iff_eq] at has
    rw [← has.2]
    exact List.drop_suffix _ _
  · rintro ⟨front, rfl⟩
    simp [hasSuffixString]

theorem stripSuffixString_append (front suffix : Bytes) :
    stripSuffixString (front ++ suffix) suffix = front := by
  have has := (hasSuffixString_iff (front ++ suffix) suffix).mpr (List.suffix_append _ _)
  simp [stripSuffixString, has]

theorem stripSuffixString_other {str suffix : Bytes} (other : ¬suffix <:+ str) :
    stripSuffixString str suffix = str := by
  rw [stripSuffixString, if_neg (mt (hasSuffixString_iff str suffix).mp other)]

/-- Two texts are stripped to one when they are the same, or one is the other, which has
not the suffix, with the suffix put behind it. -/
theorem stripSuffixString_eq_iff (a b suffix : Bytes) :
    stripSuffixString a suffix = stripSuffixString b suffix ↔
      a = b ∨ (¬suffix <:+ a ∧ b = a ++ suffix) ∨ (¬suffix <:+ b ∧ a = b ++ suffix) := by
  constructor
  · intro same
    by_cases hasA : suffix <:+ a
    · obtain ⟨front, rfl⟩ := hasA
      rw [stripSuffixString_append] at same
      by_cases hasB : suffix <:+ b
      · obtain ⟨front', rfl⟩ := hasB
        rw [stripSuffixString_append] at same
        exact .inl (same ▸ rfl)
      · rw [stripSuffixString_other hasB] at same
        exact .inr (.inr ⟨hasB, same ▸ rfl⟩)
    · rw [stripSuffixString_other hasA] at same
      by_cases hasB : suffix <:+ b
      · obtain ⟨front, rfl⟩ := hasB
        rw [stripSuffixString_append] at same
        exact .inr (.inl ⟨hasA, same ▸ rfl⟩)
      · rw [stripSuffixString_other hasB] at same
        exact .inl same
  · rintro (rfl | ⟨other, rfl⟩ | ⟨other, rfl⟩)
    · rfl
    · rw [stripSuffixString_append, stripSuffixString_other other]
    · rw [stripSuffixString_append, stripSuffixString_other other]

end Suffixes

def stripProto (filename : Bytes) : Bytes :=
  if hasSuffixString filename (ascii ".protodevel") then
    stripSuffixString filename (ascii ".protodevel")
  else stripSuffixString filename (ascii ".proto")

/-- The names in the include lines at the head of `GenerateSource`. -/
def sourceIncludes (name : Bytes) : List Bytes :=
  [stripProto name ++ ascii ".zqrpc.h", stripProto name ++ ascii ".pb.h",
    ascii "google/protobuf/descriptor.h", ascii "google/protobuf/stubs/once.h",
    ascii "zqrpc.hpp"]

/-- `basename` in `Generate`. -/
def outputBasename (name : Bytes) : Bytes :=
  stripSuffixString name (ascii ".proto") ++ ascii ".zqrpc"

structure OutputNames where
  header : Bytes
  source : Bytes
  deriving DecidableEq

def OutputNames.files (outputs : OutputNames) : List Bytes := [outputs.header, outputs.source]

/-- The two calls of `Open`. -/
def outputNames (name : Bytes) : OutputNames :=
  ⟨outputBasename name ++ ascii ".h", outputBasename name ++ ascii ".cc"⟩

/-- The loop over the options: `dllexport_decl`, or the error. -/
def exportOption (options : List (Bytes × Bytes)) : Except Bytes Bytes :=
  options.foldlM (fun _ option =>
    if option.1 = ascii "dllexport_decl" then .ok option.2
    else .error (ascii "Unknown generator option: " ++ option.1)) []

/-- `Generate`: the names it opens for output, where `options` is what
`ParseGeneratorParameter` made of the parameter. -/
def generate (options : List (Bytes × Bytes)) (name : Bytes) : Except Bytes OutputNames :=
  match exportOption options with
  | .error error => .error error
  | .ok _ => .ok (outputNames name)

/-- In a run over these files every source includes the header that was opened for it, and
no two files share an output. -/
structure NamesAgree (options : List (Bytes × Bytes)) (names : List Bytes) : Prop where
  included : ∀ name ∈ names, ∀ outputs, generate options name = .ok outputs →
    (sourceIncludes name).head? = some outputs.header
  apart : ∀ a ∈ names, ∀ b ∈ names, a ≠ b → ∀ outputs outputs',
    generate options a = .ok outputs → generate options b = .ok outputs' →
    outputs.files.Disjoint outputs'.files

/-- The options are read to the end, or up to the first that is not known. -/
theorem exportOption_cases (options : List (Bytes × Bytes)) :
    ((∀ option ∈ options, option.1 = ascii "dllexport_decl") ∧
      ∃ decl, exportOption options = .ok decl) ∨
    ∃ option ∈ options, option.1 ≠ ascii "dllexport_decl" ∧
      exportOption options = .error (ascii "Unknown generator option: " ++ option.1) := by
  unfold exportOption
  generalize ([] : Bytes) = decl
  induction options generalizing decl with
  | nil => exact .inl ⟨by simp, decl, rfl⟩
  | cons option options ih =>
    rw [List.foldlM_cons]
    by_cases known : option.1 = ascii "dllexport_decl"
    · rw [if_pos known]
      rcases ih option.2 with ⟨all, result⟩ | ⟨other, member, unknown, result⟩
      · exact .inl ⟨List.forall_mem_cons.mpr ⟨known, all⟩, result⟩
      · exact .inr ⟨other, List.mem_cons_of_mem _ member, unknown, result⟩
    · rw [if_neg known]
      exact .inr ⟨option, List.mem_cons_self, known, rfl⟩

/-- `Generate` opens the two files, or it names the option and opens nothing. -/
theorem generate_cases (options : List (Bytes × Bytes)) :
    ((∀ option ∈ options, option.1 = ascii "dllexport_decl") ∧
      ∀ name, generate options name = .ok (outputNames name)) ∨
    ∃ option ∈ options, option.1 ≠ ascii "dllexport_decl" ∧
      ∀ name, generate options name =
        .error (ascii "Unknown generator option: " ++ option.1) := by
  rcases exportOption_cases options with ⟨known, _, read⟩ | ⟨option, member, unknown, read⟩
  · exact .inl ⟨known, fun name => by rw [generate, read]⟩
  · exact .inr ⟨option, member, unknown, fun name => by rw [generate, read]⟩

theorem not_proto_of_protodevel (front : Bytes) :
    ¬ascii ".proto" <:+ front ++ ascii ".protodevel" := by
  rintro ⟨other, same⟩
  have last := congrArg List.getLast? same
  simp [ascii] at last

/-- The two functions that strip the name agree on the names that are not `.protodevel`. -/
theorem stripProto_eq_iff (name : Bytes) :
    stripProto name = stripSuffixString name (ascii ".proto") ↔
      ¬ascii ".protodevel" <:+ name := by
  unfold stripProto
  split
  · rename_i has
    obtain ⟨front, rfl⟩ := (hasSuffixString_iff _ _).mp has
    rw [stripSuffixString_append, stripSuffixString_other (not_proto_of_protodevel front)]
    refine iff_of_false (fun same => ?_) (not_not_intro (List.suffix_append _ _))
    have lengths := congrArg List.length same
    simp [ascii] at lengths
  · rename_i has
    exact iff_of_true rfl (mt (hasSuffixString_iff _ _).mpr has)

theorem included_iff (name : Bytes) :
    (sourceIncludes name).head? = some (outputNames name).header ↔
      ¬ascii ".protodevel" <:+ name := by
  have split' : ascii ".zqrpc.h" = ascii ".zqrpc" ++ ascii ".h" := by decide
  rw [← stripProto_eq_iff, sourceIncludes, List.head?_cons, outputNames, outputBasename, split',
    ← List.append_assoc, Option.some.injEq, List.append_left_inj, List.append_left_inj]

theorem outputs_disjoint_iff (a b : Bytes) :
    (outputNames a).files.Disjoint (outputNames b).files ↔
      stripSuffixString a (ascii ".proto") ≠ stripSuffixString b (ascii ".proto") := by
  have crossed (front front' : Bytes) : front ++ ascii ".h" ≠ front' ++ ascii ".cc" := by
    intro same
    have last := congrArg List.getLast? same
    simp [ascii] at last
  have basename (suffix : Bytes) (same : outputBasename a ++ suffix = outputBasename b ++ suffix) :
      stripSuffixString a (ascii ".proto") = stripSuffixString b (ascii ".proto") :=
    List.append_cancel_right (List.append_cancel_right same)
  constructor
  · intro disjoint same
    have header : (outputNames a).header = (outputNames b).header := by
      rw [outputNames, outputNames, outputBasename, outputBasename, same]
    exact disjoint List.mem_cons_self (header ▸ List.mem_cons_self)
  · intro different file inA inB
    simp only [OutputNames.files, outputNames, List.mem_cons, List.not_mem_nil, or_false] at inA inB
    rcases inA with rfl | rfl
    · rcases inB with same | same
      · exact different (basename _ same)
      · exact crossed _ _ same
    · rcases inB with same | same
      · exact crossed _ _ same.symm
      · exact different (basename _ same)

/-- A run agrees on its names exactly when it opens nothing, or no file is a `.protodevel`
and none is another one's name with `.proto` behind it. -/
theorem names_agree_iff (options : List (Bytes × Bytes)) (names : List Bytes) :
    NamesAgree options names ↔
      (∃ option ∈ options, option.1 ≠ ascii "dllexport_decl") ∨
      ((∀ name ∈ names, ¬ascii ".protodevel" <:+ name) ∧
        ∀ name ∈ names, ¬ascii ".proto" <:+ name → name ++ ascii ".proto" ∉ names) := by
  rcases generate_cases options with ⟨known, opens⟩ | ⟨option, member, unknown, stops⟩
  · have none' : ¬∃ option ∈ options, option.1 ≠ ascii "dllexport_decl" := by
      rintro ⟨option, member, unknown⟩
      exact unknown (known option member)
    rw [or_iff_right none']
    constructor
    · intro agree
      refine ⟨fun name member => ?_, fun name member other added => ?_⟩
      · exact (included_iff name).mp (agree.included name member _ (opens name))
      · have different : name ≠ name ++ ascii ".proto" := by simp [ascii]
        have disjoint := agree.apart _ member _ added different _ _ (opens _) (opens _)
        refine (outputs_disjoint_iff _ _).mp disjoint ?_
        exact (stripSuffixString_eq_iff _ _ _).mpr (.inr (.inl ⟨other, rfl⟩))
    · rintro ⟨devel, single⟩
      constructor
      · intro name member outputs opened
        obtain rfl := Except.ok.inj ((opens name).symm.trans opened)
        exact (included_iff name).mpr (devel name member)
      · intro a inA b inB different _ _ openA openB
        obtain rfl := Except.ok.inj ((opens a).symm.trans openA)
        obtain rfl := Except.ok.inj ((opens b).symm.trans openB)
        rw [outputs_disjoint_iff]
        intro same
        rcases (stripSuffixString_eq_iff _ _ _).mp same with rfl | ⟨other, rfl⟩ | ⟨other, rfl⟩
        · exact different rfl
        · exact single a inA other inB
        · exact single b inB other inA
  · have nothing (name : Bytes) (outputs : OutputNames) : generate options name ≠ .ok outputs := by
      rw [stops]
      intro opened
      cases opened
    refine iff_of_true ⟨fun name _ outputs opened => ?_, fun a _ _ _ _ _ _ opened _ => ?_⟩
      (.inl ⟨option, member, unknown⟩)
    · exact absurd opened (nothing name outputs)
    · exact absurd opened (nothing a _)

/-- The header of `a.protodevel` is opened under the whole name and included without the
suffix. -/
theorem protodevel_disagrees : ¬∀ options names, NamesAgree options names := by
  intro claim
  have opened : generate [] (ascii "a.protodevel") =
      .ok ⟨ascii "a.protodevel.zqrpc.h", ascii "a.protodevel.zqrpc.cc"⟩ := by decide
  have included := (claim [] [ascii "a.protodevel"]).included _ List.mem_cons_self _ opened
  have printed : (sourceIncludes (ascii "a.protodevel")).head? = some (ascii "a.zqrpc.h") := by
    decide
  exact absurd (printed.symm.trans included) (by decide)

example : generate [] (ascii "a") = generate [] (ascii "a.proto") := by decide

end Zqrpc
