import TemplateActions.Visitor.Basic

/-!
Compiling a template tree: a fresh visitor walks it, and either all actions come back or the error.
-/
namespace TemplateActions

def compiledRecord (actions : Nat) : Record :=
  .debug (some ("Compiled " ++ Decimal.ofNat actions ++ " action(s)"))

def Node.compileActions (root : Node) : Except VisitError (List Action) × List Record :=
  match root.visit {} with
  | (v, some e) => (.error e, v.log)
  | (v, none) => (.ok v.actions, v.log ++ [compiledRecord v.actions.length])

end TemplateActions
