import LoxLexer.Diagnostic.Basic

/-!
# Collections of diagnostics

A collection keeps diagnostics in the order in which they were reported, until
it is cleared.
-/

namespace LoxLexer

structure Collection where
  entries : List Diagnostic
deriving DecidableEq, Repr

namespace Collection

def empty : Collection :=
  ⟨[]⟩

def add (held : Collection) (diagnostic : Diagnostic) : Collection :=
  ⟨held.entries ++ [diagnostic]⟩

def addAll (held : Collection) (diagnostics : List Diagnostic) : Collection :=
  ⟨held.entries ++ diagnostics⟩

def size (held : Collection) : Nat :=
  held.entries.length

def isEmpty (held : Collection) : Bool :=
  held.entries.isEmpty

/-- Whether an error has been reported; warnings do not count. -/
def hasErrors (held : Collection) : Bool :=
  held.entries.any Diagnostic.isError

def errorCount (held : Collection) : Nat :=
  held.entries.countP Diagnostic.isError

theorem hasErrors_iff (held : Collection) : held.hasErrors = true ↔ 0 < held.errorCount := by
  rw [hasErrors, errorCount, List.any_eq_true, List.countP_pos_iff]

theorem hasErrors_iff_exists (held : Collection) :
    held.hasErrors = true ↔ ∃ diagnostic ∈ held.entries, diagnostic.category = .error := by
  rw [hasErrors, List.any_eq_true]
  exact exists_congr fun _ => and_congr_right fun _ => Diagnostic.isError_iff _

end Collection

/-- What a scan reports to: it takes diagnostics one at a time, and remembers whether any
was an error. -/
structure Sink (σ : Type) where
  report : σ → Diagnostic → σ
  hadError : σ → Bool

namespace Collection

def sink : Sink Collection where
  report := add
  hadError := hasErrors

end Collection

end LoxLexer
