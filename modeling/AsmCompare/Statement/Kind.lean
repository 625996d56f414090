/-! # Kinds of statements

The first word of a statement decides its kind: a known directive, a label, an unknown directive
or an instruction.
-/
namespace AsmCompare

inductive Statement.Kind where
  | unknown
  | sourceFile
  | instruction
  | namedSection
  | text
  | data
  | bss
  | type
  | globalNames
  | localNames
  | dataDefinition
  | size
  | align
  | p2align
  | balign
  | common
  | localCommon
  | popSection
  | pushSection
  | label
  | ident
  | lineNumber
  | cfiStartProc
  | cfiEndProc
  | cfiOffset
  | cfiRememberState
  | cfiRestoreState
  | cfiRestore
  | cfiDefCfaOffset
  | cfiDefCfaRegister
  | cfiDefCfa
  | cfiSections
  | cfiEscape
  | weak
  | value
  | uleb128
  | sleb128
  deriving DecidableEq, Repr

namespace Statement

def Kind.all : List Kind :=
  [.unknown, .sourceFile, .instruction, .namedSection, .text, .data, .bss, .type, .globalNames,
   .localNames, .dataDefinition, .size, .align, .p2align, .balign, .common, .localCommon,
   .popSection, .pushSection, .label, .ident, .lineNumber, .cfiStartProc, .cfiEndProc, .cfiOffset,
   .cfiRememberState, .cfiRestoreState, .cfiRestore, .cfiDefCfaOffset, .cfiDefCfaRegister,
   .cfiDefCfa, .cfiSections, .cfiEscape, .weak, .value, .uleb128, .sleb128]

def Kind.name : Kind → String
  | .unknown => "UNKNOWN"
  | .sourceFile => "DOTFILE"
  | .instruction => "INSTRUCTION"
  | .namedSection => "SECTION"
  | .text => "TEXT"
  | .data => "DATA"
  | .bss => "BSS"
  | .type => "TYPE"
  | .globalNames => "GLOBAL"
  | .localNames => "LOCAL"
  | .dataDefinition => "DATADEF"
  | .size => "SIZE"
  | .align => "ALIGN"
  | .p2align => "P2ALIGN"
  | .balign => "BALIGN"
  | .common => "COMM"
  | .localCommon => "LCOMM"
  | .popSection => "POPSECTION"
  | .pushSection => "PUSHSECTION"
  | .label => "LABEL"
  | .ident => "IDENT"
  | .lineNumber => "LOC"
  | .cfiStartProc => "CFI_STARTPROC"
  | .cfiEndProc => "CFI_ENDPROC"
  | .cfiOffset => "CFI_OFFSET"
  | .cfiRememberState => "CFI_REMEMBER_STATE"
  | .cfiRestoreState => "CFI_RESTORE_STATE"
  | .cfiRestore => "CFI_RESTORE"
  | .cfiDefCfaOffset => "CFI_DEF_CFA_OFFSET"
  | .cfiDefCfaRegister => "CFI_DEF_CFA_REGISTER"
  | .cfiDefCfa => "CFI_DEF_CFA"
  | .cfiSections => "CFI_SECTIONS"
  | .cfiEscape => "CFI_ESCAPE"
  | .weak => "WEAK"
  | .value => "VALUE"
  | .uleb128 => "ULEB128"
  | .sleb128 => "SLEB128"

/-- The directives with a meaning of their own. -/
def directives : List (String × Kind) :=
  [(".file", .sourceFile), (".section", .namedSection), (".text", .text), (".data", .data),
   (".bss", .bss), (".type", .type), (".globl", .globalNames), (".global", .globalNames),
   (".local", .localNames), (".string", .dataDefinition), (".ascii", .dataDefinition),
   (".asciz", .dataDefinition), (".byte", .dataDefinition), (".short", .dataDefinition),
   (".word", .dataDefinition), (".int", .dataDefinition), (".long", .dataDefinition),
   (".quad", .dataDefinition), (".float", .dataDefinition), (".double", .dataDefinition),
   (".org", .dataDefinition), (".zero", .dataDefinition), (".skip", .dataDefinition),
   (".space", .dataDefinition), (".size", .size), (".align", .align), (".p2align", .p2align),
   (".balign", .balign), (".comm", .common), (".lcomm", .localCommon),
   (".popsection", .popSection), (".pushsection", .pushSection), (".ident", .ident),
   (".loc", .lineNumber), (".cfi_startproc", .cfiStartProc), (".cfi_endproc", .cfiEndProc),
   (".cfi_offset", .cfiOffset), (".cfi_remember_state", .cfiRememberState),
   (".cfi_restore_state", .cfiRestoreState), (".cfi_restore", .cfiRestore),
   (".cfi_def_cfa_offset", .cfiDefCfaOffset), (".cfi_def_cfa_register", .cfiDefCfaRegister),
   (".cfi_def_cfa", .cfiDefCfa), (".cfi_sections", .cfiSections), (".cfi_escape", .cfiEscape),
   (".weak", .weak), (".value", .value), (".uleb128", .uleb128), (".sleb128", .sleb128)]

/-- The kind of a first word, and the word as kept in the statement: a label loses its colon. -/
def classify (word : List Char) : Kind × String :=
  match directives.lookup (String.ofList word) with
  | some kind => (kind, String.ofList word)
  | none =>
    if word.getLast? = some ':' then (.label, String.ofList word.dropLast)
    else if word.head? = some '.' then (.unknown, String.ofList word)
    else (.instruction, String.ofList word)

namespace Kind

/-- Statements that put data into an object. -/
def isData : Kind → Bool
  | .dataDefinition | .value | .uleb128 | .sleb128 => true
  | _ => false

/-- Statements that only carry debug or unwind information. -/
def isDebug : Kind → Bool
  | .sourceFile | .lineNumber | .cfiStartProc | .cfiEndProc | .cfiOffset | .cfiRememberState
  | .cfiRestoreState | .cfiRestore | .cfiDefCfaOffset | .cfiDefCfaRegister | .cfiDefCfa
  | .cfiSections | .cfiEscape => true
  | _ => false

def isAlignment : Kind → Bool
  | .align | .p2align | .balign => true
  | _ => false

/-- Statements that select a section. -/
def isSection : Kind → Bool
  | .namedSection | .text | .data | .bss | .pushSection => true
  | _ => false

def isCommon : Kind → Bool
  | .common | .localCommon => true
  | _ => false

/-- Statements whose generated names are interchangeable when two statements are compared. -/
def isSymbolic : Kind → Bool
  | .instruction => true
  | k => k.isData

end Kind

end Statement

end AsmCompare
