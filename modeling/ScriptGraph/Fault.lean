/-!
Causes of failure, and the two texts each is reported by: the class of the
failure and the sentence that explains it.
-/

namespace ScriptGraph

/-- What an index is applied to. -/
inductive Indexed
  | list
  | text
  deriving DecidableEq

inductive Fault
  /-- Arguments where a construction takes none. -/
  | noParameters (owner : String)
  /-- An argument under a name that is no parameter's. -/
  | unknownArgument (owner name : String)
  | repeatedArgument (owner name : String)
  /-- More arguments by position than parameters; the thing under construction counts too. -/
  | surplusArguments (owner : String) (least most given : Nat)
  | missingArguments (owner : String) (names : List String)
  | notBoolean (type : String)
  | notCondition
  | negativeWidth (width : String)
  | lacks (type member : String)
  /-- An attribute was called that stands in the place of an operation. -/
  | notCallable (type : String)
  | noBuilder (stem : String)
  | readOnly (member : String)
  /-- An attribute that only something of its own kind can replace. -/
  | reserved (member : String)
  | notIterable (type : String)
  /-- A value that cannot be added to a text. -/
  | notText (type : String)
  /-- A value that a text cannot be added to. -/
  | notAddable (type : String)
  | notList
  /-- Something other than a sequence where texts are to be joined. -/
  | notJoinable
  | notPiece (position : Nat) (type : String)
  /-- A rendering that has to be a text and is none. -/
  | notWritten (type : String)
  /-- A repetition count that is no integer. -/
  | notCount
  /-- A comparison with zero of something that is no number. -/
  | notOrdered
  /-- A parent that is no node. -/
  | notReferable (type : String)
  | notIndexed (type : String)
  | notIndex (indexed : Indexed) (type : String)
  | notInteger (type : String)
  | noLength (type : String)
  | outOfRange (indexed : Indexed)
  | nothingLeft
  /-- An index beyond 64 bits. -/
  | hugeIndex
  /-- An integer beyond 64 bits where a size or a position is needed. -/
  | tooLarge
  /-- A text that is too long for the memory there is. -/
  | noMemory
  /-- The evaluation came back to something it was still in the middle of. -/
  | endless
  | undecodable
  /-- A path with a null character in it. -/
  | nullInPath
  | pathTooLong
  | unbound (name : String)
  /-- Raised by something that is not of the library. -/
  | foreign (label message : String)
  deriving DecidableEq

/-- Texts one after the other, the last set off by "and". -/
def enumerate : List String → String
  | [] => ""
  | [first] => first
  | [first, second] => first ++ " and " ++ second
  | [first, second, third] => first ++ ", " ++ second ++ ", and " ++ third
  | first :: rest => first ++ ", " ++ enumerate rest

namespace Fault

def label : Fault → String
  | noParameters _ | unknownArgument _ _ | repeatedArgument _ _ | surplusArguments _ _ _ _
  | missingArguments _ _ | notCallable _ | reserved _ | notIterable _ | notText _ | notAddable _
  | notList | notJoinable | notPiece _ _ | notWritten _ | notCount | notOrdered | notReferable _
  | notIndexed _ | notIndex _ _ | notInteger _ | noLength _ => "TypeError"
  | notBoolean _ | notCondition => "InvalidArgument"
  | negativeWidth _ | nullInPath => "ValueError"
  | lacks _ _ | noBuilder _ | readOnly _ => "AttributeError"
  | outOfRange _ | nothingLeft | hugeIndex => "IndexError"
  | tooLarge => "OverflowError"
  | noMemory => "MemoryError"
  | endless => "RecursionError"
  | undecodable => "UnicodeDecodeError"
  | pathTooLong => "OSError"
  | unbound _ => "KeyError"
  | foreign label _ => label

def message : Fault → String
  | noParameters owner => owner ++ "() takes no arguments"
  | unknownArgument owner name =>
    owner ++ ".__init__() got an unexpected keyword argument '" ++ name ++ "'"
  | repeatedArgument owner name =>
    owner ++ ".__init__() got multiple values for argument '" ++ name ++ "'"
  | surplusArguments owner least most given =>
    owner ++ ".__init__() takes " ++
      (if least = most then most.repr else "from " ++ least.repr ++ " to " ++ most.repr) ++
      " positional arguments but " ++ given.repr ++ " were given"
  | missingArguments owner names =>
    owner ++ ".__init__() missing " ++ names.length.repr ++ " required positional argument" ++
      (if names.length = 1 then "" else "s") ++ ": " ++
      enumerate (names.map fun name => "'" ++ name ++ "'")
  | notBoolean type => "BooleanLiteral requires a boolean value, got " ++ type
  | notCondition => "ConditionalStatement requires a node as its condition"
  | negativeWidth width => "Indent width must be non-negative, got " ++ width
  | lacks type member => "'" ++ type ++ "' object has no attribute '" ++ member ++ "'"
  | notCallable type => "'" ++ type ++ "' object is not callable"
  | noBuilder stem => "module 'jsir_fixture_" ++ stem ++ "' has no attribute 'build'"
  | readOnly member => "attribute '" ++ member ++ "' cannot be set"
  | reserved member => "attribute '" ++ member ++ "' cannot be set to a value"
  | notIterable type => "'" ++ type ++ "' object is not iterable"
  | notText type => "can only concatenate str (not \"" ++ type ++ "\") to str"
  | notAddable type => "unsupported operand type(s) for +: '" ++ type ++ "' and 'str'"
  | notList => "can only concatenate list (not \"str\") to list"
  | notJoinable => "can only join an iterable"
  | notPiece position type =>
    "sequence item " ++ position.repr ++ ": expected str instance, " ++ type ++ " found"
  | notWritten type => "__str__ returned non-string (type " ++ type ++ ")"
  | notCount => "a repetition count must be an integer"
  | notOrdered => "only numbers can be compared with zero"
  | notReferable type => "cannot create weak reference to '" ++ type ++ "' object"
  | notIndexed type => "'" ++ type ++ "' object is not subscriptable"
  | notIndex .list type => "list indices must be integers or slices, not " ++ type
  | notIndex .text type => "string indices must be integers, not '" ++ type ++ "'"
  | notInteger type => "'" ++ type ++ "' object cannot be interpreted as an integer"
  | noLength type => "object of type '" ++ type ++ "' has no len()"
  | outOfRange .list => "list index out of range"
  | outOfRange .text => "string index out of range"
  | nothingLeft => "pop from empty list"
  | hugeIndex | tooLarge => "cannot fit 'int' into an index-sized integer"
  | noMemory => ""
  | endless => "maximum recursion depth exceeded"
  | undecodable => "the bytes are not UTF-8"
  | nullInPath => "embedded null byte"
  | pathTooLong => "[Errno 36] File name too long"
  | unbound name => "'" ++ name ++ "'"
  | foreign _ message => message

/-- Why an attribute that everything has of its own cannot be set to a value. -/
def ofReserved? (name : String) : Option Fault :=
  if name = "__class__" ∨ name = "__dict__" then some (reserved name)
  else if name = "__weakref__" then some (readOnly name)
  else none

end Fault
end ScriptGraph
