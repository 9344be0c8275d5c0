import RubyLint.Rule.CharacterReplacement

/-!
# The registry of rules

Rules are kept in the order in which they were registered.  A key names a rule by its identifier
or its name; no rule is registered whose identifier already names one.  A rule is enabled when a
selected key fits it and no ignored key does, where a key also fits every rule whose identifier
begins with it, and `ALL` fits every rule.
-/

namespace RubyLint

structure Registry where
  rules : List Rule

/-- The identifier of a rule that could not be registered. -/
structure AlreadyRegistered where
  id : String
  deriving DecidableEq, Repr

def AlreadyRegistered.message (e : AlreadyRegistered) : String :=
  "Rule '" ++ e.id ++ "' is already registered"

namespace Rule

/-- Whether `key` is the identifier or the name of the rule. -/
def isNamed (rule : Rule) (key : String) : Bool :=
  key == rule.id || key == rule.name

def fits (rule : Rule) (key : String) : Bool :=
  key == "ALL" || key == rule.name || key.toList.isPrefixOf rule.id.toList

end Rule

namespace Registry

/-- The first rule that `key` names. -/
def get? (registry : Registry) (key : String) : Option Rule :=
  registry.rules.find? (·.isNamed key)

def register (registry : Registry) (rule : Rule) : Except AlreadyRegistered Registry :=
  if (registry.get? rule.id).isSome then .error ⟨rule.id⟩ else .ok ⟨registry.rules ++ [rule]⟩

def registerAll (registry : Registry) (rules : List Rule) : Except AlreadyRegistered Registry :=
  rules.foldlM register registry

/-- The rules that a selected key fits and no ignored key. -/
def enabled (registry : Registry) (select ignore : List String) : List Rule :=
  registry.rules.filter fun rule => select.any rule.fits && !ignore.any rule.fits

def builtin [StackRoom] : Registry := ⟨[.characterReplacement]⟩

end Registry

end RubyLint
