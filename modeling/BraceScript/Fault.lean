import BraceScript.Parse.Basic

/-!
# Faults

What can go wrong while a program runs. A fault is kept as its cause; its wording is in one place,
and so is the family it belongs to.

* `Fault`           the causes
* `Fault.family`    the family of a fault
* `Fault.message?`  its wording, when it does not show a value of the store
* `Signal`          what ends an evaluation: a fault, the end of a loop or a turn, or lack of an answer
-/

namespace BraceScript

/-- the families of faults -/
inductive Family
  | attribute
  | endOfInput
  | general
  | fileExists
  | fileNotFound
  | index
  | isDirectory
  | key
  | memory
  | name
  | notDirectory
  | overflow
  | runtime
  | malformed
  | wrongType
  | decode
  | unsupported
  | value
  | zeroDivision
deriving DecidableEq, Repr

inductive PathFault
  | missing
  | exists
  | notDirectory
  | isDirectory
deriving DecidableEq, Repr

/-- what is wrong with a text that is no statement of the language of the host -/
inductive EmbeddedFlaw
  | quote
  | zeros
  | digits (count : Nat)
  | constant (name : String)
deriving DecidableEq, Repr

/-- the causes of failure; type names are given as messages show them -/
inductive Fault
  | parse (e : ParseError)
  -- names
  | undefined (name : String)
  | unassigned (name : String)
  | unknownName (name : String)
  -- values raised by programs, and keys that are not there
  | thrown (v : Value)
  | missingKey (v : Value)
  -- operators
  | unsupportedOperand (op left right : String)
  | cannotConcat (left right : String)
  | repeatBy (type : String)
  | notComparable (op left right : String)
  | notOrdered (left right : String)
  | divisionByZero
  | realDivisionByZero
  | moduloByZero
  | realModuloByZero
  | zeroToNegativePower
  | rangeOverflow
  | divisionOverflow
  | intTooLarge
  | infinityToInt
  | nanToInt
  | tooManyDigits
  | sizeOverflow
  | outOfMemory
  | complexResult
  -- types
  | notIterable (type : String)
  | notContainer (type : String)
  | textMember (type : String)
  | unhashable (type : String)
  | notInteger (type : String)
  | noLength (type : String)
  | notSubscriptable (type : String)
  | indexType (sequence type : String)
  | textIndexType (type : String)
  | noItemAssignment (type : String)
  | sliceIndexType
  | notCallable (type : String)
  | indexOnly
  | sliceOnly
  | loopList
  | unpackList
  | unpackKeywords
  | unpackNamed
  | unpackOperand
  | unpackRight
  | indexAssign (shown : String)
  | attributeAssign (attr shown : String)
  | nullAssign (attr shown : String)
  | cannotIndex (object index : String)
  | intFrom (type : String)
  | floatFrom (type : String)
  | badInteger (text : String)
  | longInteger (digits : Nat)
  | badNumber (text : String)
  | characterLength (count : Nat)
  | characterType (type : String)
  | characterRange
  | wordOverflow
  | countOverflow
  | textOverflow
  | dictElement (position : Nat)
  | dictElementLength (position length : Nat)
  | reduceIteration
  | reduceEmpty
  | emptySeparator
  | separatorType (type : String)
  | joinItem (position : Nat) (type : String)
  | decodeType (type : String)
  | decodeEscape (start stop : Nat) (byte : Nat) (reason : String)
  -- sequences
  | indexRange (sequence : String)
  | indexSize
  | assignRange
  | emptyPop
  | notInList (shown : String)
  | cannotRemove
  | zeroStep
  | zeroRangeStep
  | dictResized
  -- format templates
  | formatCount
  | formatExcess
  | formatIncomplete
  | formatKeyIncomplete
  | formatMapping
  | formatStar
  | formatWidth
  | formatPrecision
  | formatUnknown (c : Char) (position : Nat)
  | formatReal (c : Char) (type : String)
  | formatInteger (c : Char) (type : String)
  | formatFloat (type : String)
  | formatChar
  | formatCharRange
  -- calls
  | missingArgument (name : String)
  | unexpectedKeywords (names : String)
  | tooManyArguments
  | keywordDict (name : String)
  | fieldCount (className : String) (expected got : Nat)
  | notAFunction (shown : String)
  | methodExcess (least most given : Nat)
  | methodMissing (name : String)
  | unpackFew (expected got : Nat)
  | unpackMany (expected : Nat)
  | inputArity (given : Nat)
  | rangeArity
  | reduceArity
  | openArity
  | unknownNode (shown : String)
  -- attributes
  | noAttribute (attr : String)
  | noMember (className attr available : String)
  | noMethod (className attr : String)
  | lacksAttribute (type attr : String)
  -- files
  | path (cause : PathFault) (path : String)
  | badPath (type : String)
  | nullInPath
  | modeType (type : String)
  | badMode (mode : String)
  | modeClash
  | modeCount
  | modeMissing
  | closedFile
  | notReadable
  | notWritable
  | writeType (type : String)
  | endOfInput
  | includeMissing (name : String) (tried : Option String)
  | libraryMissing (name : String)
  | pathType (type : String)
  -- embedded statements
  | embedded (flaw : EmbeddedFlaw)
deriving DecidableEq, Repr

namespace Fault

/-- the family of a failed operation on a path -/
def pathFamily : PathFault → Family
  | .missing => .fileNotFound
  | .exists => .fileExists
  | .notDirectory => .notDirectory
  | .isDirectory => .isDirectory

/-- the number and text that the system gives for a failed operation on a path -/
def pathReason : PathFault → String
  | .missing => "[Errno 2] No such file or directory: "
  | .exists => "[Errno 17] File exists: "
  | .notDirectory => "[Errno 20] Not a directory: "
  | .isDirectory => "[Errno 21] Is a directory: "

def parseFamily : ParseError → Family
  | .badInteger _ => .value
  | .longInteger _ => .value
  | .badNumber _ => .value
  | _ => .malformed

def family : Fault → Family
  | parse e => parseFamily e
  | undefined _ | unassigned _ | unknownName _ => .name
  | thrown _ | rangeArity | reduceArity | includeMissing .. => .general
  | missingKey _ => .key
  | divisionByZero | realDivisionByZero | moduloByZero | realModuloByZero
  | zeroToNegativePower => .zeroDivision
  | rangeOverflow | divisionOverflow | intTooLarge | infinityToInt | sizeOverflow | wordOverflow
  | countOverflow | textOverflow
  | formatCharRange => .overflow
  | outOfMemory => .memory
  | nanToInt | tooManyDigits | badInteger _ | longInteger _ | badNumber _ | characterRange
  | dictElementLength .. | emptySeparator | notInList _ | cannotRemove | zeroStep | zeroRangeStep
  | formatIncomplete | formatKeyIncomplete | formatWidth | formatPrecision | formatUnknown ..
  | unpackFew .. | unpackMany _ | badMode _ | modeClash | modeCount | modeMissing | closedFile
  | nullInPath | complexResult => .value
  | indexRange _ | indexSize | assignRange | emptyPop => .index
  | nullAssign .. | cannotIndex .. | notAFunction _ | unknownNode _ | dictResized => .runtime
  | noAttribute _ | noMember .. | noMethod .. | lacksAttribute .. => .attribute
  | path cause _ => pathFamily cause
  | libraryMissing _ => .fileNotFound
  | notReadable | notWritable => .unsupported
  | endOfInput => .endOfInput
  | decodeEscape .. => .decode
  | embedded _ => .malformed
  | _ => .wrongType

def hexByte (n : Nat) : String := String.ofList (Text.hex 2 n)

def decodePlace (start stop byte : Nat) : String :=
  if stop ≤ start + 1 then "byte 0x" ++ hexByte byte ++ " in position " ++ toString start
  else "bytes in position " ++ toString start ++ "-" ++ toString (stop - 1)

/-- how many positional arguments a method takes, itself included -/
def takesCount (least most : Nat) : String :=
  if least = most then
    toString most ++ (if most = 1 then " positional argument" else " positional arguments")
  else "from " ++ toString least ++ " to " ++ toString most ++ " positional arguments"

def ofType (type : String) : String := "'" ++ type ++ "' object "

/-- the wording of a fault that shows no value of the store -/
def message? : Fault → Option String
  | parse e => some e.message
  | undefined name => some ("Undefined variable " ++ name)
  | unassigned name => some (name ++ " not defined")
  | unknownName name => some ("name '" ++ name ++ "' is not defined")
  | thrown _ => none
  | missingKey _ => none
  | unsupportedOperand op left right =>
    some ("unsupported operand type(s) for " ++ op ++ ": '" ++ left ++ "' and '" ++ right ++ "'")
  | cannotConcat left right =>
    some ("can only concatenate " ++ left ++ " (not \"" ++ right ++ "\") to " ++ left)
  | repeatBy type => some ("can't multiply sequence by non-int of type '" ++ type ++ "'")
  | notComparable op left right =>
    some ("Cannot compare with operator '" ++ op ++ "' between " ++ left ++ " and " ++ right)
  | notOrdered left right =>
    some ("'<' not supported between instances of '" ++ left ++ "' and '" ++ right ++ "'")
  | divisionByZero => some "division by zero"
  | realDivisionByZero => some "float division by zero"
  | moduloByZero => some "integer modulo by zero"
  | realModuloByZero => some "float modulo"
  | zeroToNegativePower => some "0.0 cannot be raised to a negative power"
  | rangeOverflow => some "(34, 'Numerical result out of range')"
  | divisionOverflow => some "integer division result too large for a float"
  | intTooLarge => some "int too large to convert to float"
  | infinityToInt => some "cannot convert float infinity to integer"
  | nanToInt => some "cannot convert float NaN to integer"
  | tooManyDigits =>
    some ("Exceeds the limit (4300 digits) for integer string conversion; " ++
      "use sys.set_int_max_str_digits() to increase the limit")
  | sizeOverflow => some "cannot fit 'int' into an index-sized integer"
  | outOfMemory => some ""
  | complexResult => some "result is not real"
  | notIterable type => some (ofType type ++ "is not iterable")
  | notContainer type => some ("argument of type '" ++ type ++ "' is not iterable")
  | textMember type =>
    some ("'in <string>' requires string as left operand, not " ++ type)
  | unhashable type => some ("unhashable type: '" ++ type ++ "'")
  | notInteger type => some (ofType type ++ "cannot be interpreted as an integer")
  | noLength type => some ("object of type '" ++ type ++ "' has no len()")
  | notSubscriptable type => some (ofType type ++ "is not subscriptable")
  | indexType sequence type =>
    some (sequence ++ " indices must be integers or slices, not " ++ type)
  | textIndexType type => some ("string indices must be integers, not '" ++ type ++ "'")
  | noItemAssignment type => some (ofType type ++ "does not support item assignment")
  | sliceIndexType =>
    some "slice indices must be integers or None or have an __index__ method"
  | notCallable type => some (ofType type ++ "is not callable")
  | indexOnly => some "Indexing only supported on lists and strings"
  | sliceOnly => some "Slicing only supported on lists and strings"
  | loopList => some "Expected list for 'for' loop iterable"
  | unpackList => some "Can only unpack lists or tuples with *"
  | unpackKeywords => some "Can only keyword-unpack dicts with ^"
  | unpackNamed => some "Can only keyword-unpack dicts"
  | unpackOperand => some "** unpack argument must be a dict"
  | unpackRight => some "Right-hand side of ** must evaluate to a dict"
  | indexAssign shown => some ("Cannot index-assign to non-list/dict object: " ++ shown)
  | attributeAssign attr shown =>
    some ("Cannot set attribute '" ++ attr ++ "' on non-class object " ++ shown)
  | nullAssign attr shown =>
    some ("Attempted to assign to index " ++ attr ++ " on null object: " ++ shown)
  | cannotIndex object index =>
    some ("Cannot index into object: " ++ object ++ " with key " ++ index)
  | intFrom type =>
    some ("int() argument must be a string, a bytes-like object or a real number, not '" ++ type ++
      "'")
  | floatFrom type =>
    some ("float() argument must be a string or a real number, not '" ++ type ++ "'")
  | badInteger text => some (badIntegerMessage text)
  | longInteger digits => some (longIntegerMessage digits)
  | badNumber text => some (badNumberMessage text)
  | characterLength count =>
    some ("ord() expected a character, but string of length " ++ toString count ++ " found")
  | characterType type => some ("ord() expected string of length 1, but " ++ type ++ " found")
  | characterRange => some "chr() arg not in range(0x110000)"
  | wordOverflow => some "Python int too large to convert to C int"
  | countOverflow => some "Python int too large to convert to C ssize_t"
  | textOverflow => some "repeated string is too long"
  | dictElement position =>
    some ("cannot convert dictionary update sequence element #" ++ toString position ++
      " to a sequence")
  | dictElementLength position length =>
    some ("dictionary update sequence element #" ++ toString position ++ " has length " ++
      toString length ++ "; 2 is required")
  | reduceIteration => some "reduce() arg 2 must support iteration"
  | reduceEmpty => some "reduce() of empty iterable with no initial value"
  | emptySeparator => some "empty separator"
  | separatorType type => some ("must be str or None, not " ++ type)
  | joinItem position type =>
    some ("sequence item " ++ toString position ++ ": expected str instance, " ++ type ++ " found")
  | decodeType type =>
    some ("decoding with 'unicode_escape' codec failed (TypeError: a bytes-like object is " ++
      "required, not '" ++ type ++ "')")
  | decodeEscape start stop byte reason =>
    some ("'unicodeescape' codec can't decode " ++ decodePlace start stop byte ++ ": " ++ reason)
  | indexRange sequence => some (sequence ++ " index out of range")
  | indexSize => some "cannot fit 'int' into an index-sized integer"
  | assignRange => some "list assignment index out of range"
  | emptyPop => some "pop from empty list"
  | notInList shown => some (shown ++ " is not in list")
  | cannotRemove => some "list.remove(x): x not in list"
  | zeroStep => some "slice step cannot be zero"
  | zeroRangeStep => some "range() arg 3 must not be zero"
  | dictResized => some "dictionary changed size during iteration"
  | formatCount => some "not enough arguments for format string"
  | formatExcess => some "not all arguments converted during string formatting"
  | formatIncomplete => some "incomplete format"
  | formatKeyIncomplete => some "incomplete format key"
  | formatMapping => some "format requires a mapping"
  | formatStar => some "* wants int"
  | formatWidth => some "width too big"
  | formatPrecision => some "precision too big"
  | formatUnknown c position =>
    let shown := if 31 ≤ c.toNat && c.toNat ≤ 126 then c else '?'
    some ("unsupported format character '" ++ shown.toString ++ "' (0x" ++
      String.ofList (Text.hex 0 c.toNat) ++ ") at index " ++ toString position)
  | formatReal c type =>
    some ("%" ++ c.toString ++ " format: a real number is required, not " ++ type)
  | formatInteger c type =>
    some ("%" ++ c.toString ++ " format: an integer is required, not " ++ type)
  | formatFloat type => some ("must be real number, not " ++ type)
  | formatChar => some "%c requires int or char"
  | formatCharRange => some "%c arg not in range(0x110000)"
  | missingArgument name => some ("Missing required argument '" ++ name ++ "'")
  | unexpectedKeywords names => some ("Unexpected keyword arguments: " ++ names)
  | tooManyArguments => some "Too many arguments provided"
  | keywordDict name => some ("Invalid arguments for ^" ++ name ++ ", expected a single dict")
  | fieldCount className expected got =>
    some (className ++ " expects " ++ toString expected ++ " fields, got " ++ toString got)
  | notAFunction shown => some ("Attempted to call non-callable: " ++ shown)
  | methodExcess least most given =>
    some ("Interpreter.__init__.<locals>.<lambda>() takes " ++ takesCount least most ++ " but " ++
      toString given ++ " were given")
  | methodMissing name =>
    some ("Interpreter.__init__.<locals>.<lambda>() missing 1 required positional argument: '" ++
      name ++ "'")
  | unpackFew expected got =>
    some ("not enough values to unpack (expected " ++ toString expected ++ ", got " ++
      toString got ++ ")")
  | unpackMany expected =>
    some ("too many values to unpack (expected " ++ toString expected ++ ")")
  | inputArity given => some ("input expected at most 1 argument, got " ++ toString given)
  | rangeArity => some "range expects 1 to 3 arguments"
  | reduceArity => some "reduce expects 2 or 3 arguments"
  | openArity => some "open expects 1 or 2 arguments"
  | unknownNode shown => some ("Unknown node: " ++ shown)
  | noAttribute attr => some ("Object has no attribute '" ++ attr ++ "'")
  | noMember className attr available =>
    some ("Object of type '" ++ className ++ "' has no attribute '" ++ attr ++ "'. Available: " ++
      available)
  | noMethod className attr => some ("Class '" ++ className ++ "' has no method '" ++ attr ++ "'")
  | lacksAttribute type attr => some (ofType type ++ "has no attribute '" ++ attr ++ "'")
  | path cause p => some (pathReason cause ++ Text.quoted p)
  | badPath type => some ("expected str, bytes or os.PathLike object, not " ++ type)
  | nullInPath => some "embedded null byte"
  | modeType type => some ("open() argument 'mode' must be str, not " ++ type)
  | badMode mode => some ("invalid mode: '" ++ mode ++ "'")
  | modeClash => some "can't have text and binary mode at once"
  | modeCount => some "must have exactly one of create/read/write/append mode"
  | modeMissing =>
    some "Must have exactly one of create/read/write/append mode and at most one plus"
  | closedFile => some "I/O operation on closed file."
  | notReadable => some "not readable"
  | notWritable => some "not writable"
  | writeType type => some ("write() argument must be str, not " ++ type)
  | endOfInput => some "EOF when reading a line"
  | includeMissing name tried =>
    some ("Included file '" ++ name ++ "' not found" ++
      tried.elim "" fun p => " (tried '" ++ p ++ "')")
  | libraryMissing name =>
    some (name ++ " not found in ['tests', 'lib', 'examples']")
  | pathType type =>
    some ("expected str, bytes or os.PathLike object, not " ++ type)
  | embedded .quote =>
    some "unterminated string literal (detected at line 1) (<string>, line 1)"
  | embedded .zeros =>
    some ("leading zeros in decimal integer literals are not permitted; " ++
      "use an 0o prefix for octal integers (<string>, line 1)")
  | embedded (.digits count) =>
    some ("Exceeds the limit (4300 digits) for integer string conversion: value has " ++
      toString count ++ " digits; use sys.set_int_max_str_digits() to increase the limit - " ++
      "Consider hexadecimal for huge integer literals to avoid decimal conversion limits. " ++
      "(<string>, line 1)")
  | embedded (.constant name) => some ("cannot assign to " ++ name ++ " (<string>, line 1)")

end Fault

/-- what ends an evaluation before it has a value -/
inductive Signal
  | fault (f : Fault)
  | breakLoop
  | continueLoop
  /-- there is no answer: the fuel is used up, or something is met that is not followed here -/
  | exhausted
deriving DecidableEq, Repr

end BraceScript
