import ServiceLang.Diagnostic

set_option autoImplicit false

/-! The diagnostics of one source, in the order in which they were found. -/

namespace ServiceLang

structure Report where
  entries : List Diagnostic
deriving DecidableEq, Repr

namespace Report

def empty : Report :=
  ⟨[]⟩

def push (report : Report) (diagnostic : Diagnostic) : Report :=
  ⟨report.entries ++ [diagnostic]⟩

def size (report : Report) : Nat :=
  report.entries.length

/-- No diagnostic at all, not even a warning. -/
def isEmpty (report : Report) : Bool :=
  report.entries.isEmpty

/-- Warnings alone are no errors. -/
def hasErrors (report : Report) : Bool :=
  report.entries.any Diagnostic.isError

def firstError? (report : Report) : Option Diagnostic :=
  report.entries.find? Diagnostic.isError

def last? (report : Report) : Option Diagnostic :=
  report.entries.getLast?

def truncate (report : Report) (size : Nat) : Report :=
  ⟨report.entries.take size⟩

def recoverLast (report : Report) (recovery : Recovery) : Report :=
  ⟨report.entries.modify (report.size - 1) (·.withRecovery recovery)⟩

def text (report : Report) : String :=
  "\n".intercalate (report.entries.map Diagnostic.text)

theorem firstError?_isSome (report : Report) :
    report.firstError?.isSome = report.hasErrors := by
  rw [Bool.eq_iff_iff]
  simp only [firstError?, hasErrors, List.find?_isSome, List.any_eq_true]

end Report

end ServiceLang
