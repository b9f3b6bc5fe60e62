import Schemata.Shorthand.Argument

/-!
Methods and method chains, the shorthand of one declaration line such as `belongsTo:User,user_id nullable`. White space
separates the methods of a line, a colon the name of a method from its arguments, and commas the arguments; none of them
counts inside quotes. The order of methods is the order of calls in generated code.
-/

namespace Schemata.Shorthand

open Schemata.Text

structure Method where
  name : String
  arguments : List Argument
  deriving Repr, DecidableEq, Inhabited

namespace Method

/-- A method without arguments. -/
def bare (name : String) : Method := ⟨name, []⟩

/-- Reads one `name:arg,arg` token. A colon without anything behind it is dropped. -/
def ofChars (token : List Char) : Method :=
  let token := trimChars token
  match cut ':' token with
  | none => bare (String.ofList token)
  | some (name, rest) =>
    let name := String.ofList (trimChars name)
    if (trimChars rest).isEmpty then bare name
    else ⟨name, (parts (· = ',') rest).map Argument.ofChars⟩

def parse (token : String) : Method :=
  ofChars token.toList

/-- The value at a position, absent for a null argument. -/
def value? (m : Method) (i : Nat) : Option String :=
  m.arguments[i]?.bind Argument.value?

def firstNonNull? (m : Method) : Option Argument :=
  m.arguments.find? (!·.isNull)

/-- The call form, such as `string('name', 100)`. -/
def render (m : Method) : String :=
  m.name ++ "(" ++ ", ".intercalate (m.arguments.map Argument.render) ++ ")"

end Method

/-- A chain of methods in call order. -/
structure Call where
  methods : List Method
  deriving Repr, DecidableEq, Inhabited

namespace Call

def empty : Call := ⟨[]⟩

def single (name : String) (arguments : List Argument) : Call := ⟨[⟨name, arguments⟩]⟩

/-- Reads a whole declaration line. -/
def parse (line : String) : Call :=
  ⟨((parts isBlank line.toList).filter (!·.isEmpty)).map Method.ofChars⟩

/-- Reads a line that may be absent, which is the same as an empty one. -/
def ofLine (line : Option String) : Call :=
  line.elim empty parse

def first? (c : Call) : Option Method :=
  c.methods.head?

/-- The name of the leading method. -/
def name? (c : Call) : Option String :=
  c.first?.map (·.name)

def find? (c : Call) (name : String) : Option Method :=
  c.methods.find? (·.name == name)

def has (c : Call) (name : String) : Bool :=
  c.methods.any (·.name == name)

def count (c : Call) (name : String) : Nat :=
  c.methods.countP (·.name == name)

/-- The chain without its first method of that name. -/
def remove (c : Call) (name : String) : Call :=
  ⟨c.methods.eraseP (·.name == name)⟩

/-- The chain without any method of that name. -/
def removeAll (c : Call) (name : String) : Call :=
  ⟨c.methods.filter (·.name != name)⟩

/-- The methods with one of the names, and the others, both in order. -/
def extract (c : Call) (names : List String) : Call × Call :=
  let (taken, kept) := c.methods.partition (names.contains ·.name)
  (⟨taken⟩, ⟨kept⟩)

/-- The chain without its leading method. -/
def tail (c : Call) : Call :=
  ⟨c.methods.tail⟩

def push (c : Call) (m : Method) : Call :=
  ⟨c.methods ++ [m]⟩

def append (c d : Call) : Call :=
  ⟨c.methods ++ d.methods⟩

instance : Append Call := ⟨append⟩

/-- The chained call form, such as `->string('name')->nullable()`. -/
def render (c : Call) : String :=
  String.join (c.methods.map fun m => "->" ++ m.render)

@[simp] theorem methods_append (c d : Call) : (c ++ d).methods = c.methods ++ d.methods := rfl

end Call

end Schemata.Shorthand
