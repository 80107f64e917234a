/-!
# Scopes

The scope of a declaration says where the requested artifact is used. There are five, in a fixed
canonical order, each with one lower-case name; reading a name is exact.
-/

namespace ArtifactTree

/-- Where a requested artifact is used. -/
inductive Scope where
  | compile
  | provided
  | runtime
  | test
  | system
deriving DecidableEq

namespace Scope

/-- The five scopes in canonical order. -/
def all : List Scope := [compile, provided, runtime, test, system]

def name : Scope → String
  | compile => "compile"
  | provided => "provided"
  | runtime => "runtime"
  | test => "test"
  | system => "system"

def ofName? (text : String) : Option Scope := all.find? fun scope => scope.name == text

theorem mem_all (scope : Scope) : scope ∈ all := by cases scope <;> simp [all]

theorem name_injective {a b : Scope} (h : a.name = b.name) : a = b := by
  cases a <;> cases b <;> simp_all [name]

theorem ofName?_name (scope : Scope) : ofName? scope.name = some scope := by
  cases scope <;> decide

theorem name_of_ofName? {text : String} {scope : Scope} (h : ofName? text = some scope) :
    scope.name = text := by
  simpa using List.find?_some h

end Scope

end ArtifactTree
