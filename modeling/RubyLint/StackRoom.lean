/-!
# Room on the stack

Some functions call themselves for what is nested in their argument.  How many such calls fit on the
stack is not settled here: it depends on the platform and on how deep the stack is already.
-/

namespace RubyLint

/-- How deep the nested calls can go. -/
class StackRoom where
  /-- The number of constructors around an argument. -/
  constructors : Nat
  /-- The number of levels of directories below a path. -/
  directories : Nat
  constructors_pos : 0 < constructors

/-- About what a stack of a thousand frames has room for. -/
instance : StackRoom := ⟨490, 970, by decide⟩

end RubyLint
