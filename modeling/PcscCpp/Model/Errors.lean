import PcscCpp.Formats.Text

/-! Byte strings, the exception classes and the texts they carry
(`pcsc-cpp.hpp`, `pcsc-cpp-utils.hpp`, `bytes2hexstr` of `utils.cpp`). -/

namespace PcscCpp

abbrev ByteType := UInt8

abbrev ByteVector := List ByteType

abbrev StringT := List ByteType

abbrev SizeT := UInt64

abbrev Dword := UInt64

/-- The 64-bit pattern of a `LONG` result code, which is only compared and printed. -/
abbrev Long := UInt64

def bytes2hexstr (bytes : ByteVector) : String := String.ofList (bytes.flatMap Text.byteDigits)

def int2hexstr (value : Long) : String :=
  "0x" ++ String.ofList (List.leftpad 16 '0' (Nat.toDigits 16 value.toNat))

/-- The part of a path from the last occurrence of `pattern` on. -/
def rfind (pattern : List Char) : List Char → Option (List Char)
  | [] => none
  | c :: cs => (rfind pattern cs).or (if pattern.isPrefixOf (c :: cs) then some (c :: cs) else none)

def removeAbsolutePathPrefix (filePath : String) : String :=
  ((rfind "src".toList filePath.toList).map String.ofList).getD filePath

inductive ExceptionType
  | exception
  | logicError
  | invalidArgument
  | outOfRange
  | lengthError
  | runtimeError
  | error
  | systemError
  | scardError
  | scardServiceNotRunningError
  | scardNoReadersError
  | scardNoCardError
  | scardCardCommunicationFailedError
  | scardCardRemovedError
  | scardTransactionFailedError
  | unexpectedResponseError
  deriving DecidableEq, Repr

namespace ExceptionType

def base : ExceptionType → Option ExceptionType
  | .exception => none
  | .logicError => some .exception
  | .invalidArgument => some .logicError
  | .outOfRange => some .logicError
  | .lengthError => some .logicError
  | .runtimeError => some .exception
  | .error => some .runtimeError
  | .systemError => some .error
  | .scardError => some .error
  | .scardServiceNotRunningError => some .scardError
  | .scardNoReadersError => some .scardError
  | .scardNoCardError => some .scardError
  | .scardCardCommunicationFailedError => some .scardError
  | .scardCardRemovedError => some .scardError
  | .scardTransactionFailedError => some .scardError
  | .unexpectedResponseError => some .error

def ancestors : Nat → ExceptionType → List ExceptionType
  | 0, _ => []
  | n + 1, t => t :: t.base.elim [] (ancestors n)

/-- `t` is caught by a handler for `handler`; no class is more than five levels deep. -/
def isA (t handler : ExceptionType) : Bool := (ancestors 5 t).contains handler

end ExceptionType

structure Exception where
  type : ExceptionType
  what : String
  deriving DecidableEq, Repr

def throwWithCallerInfo (exceptionType : ExceptionType) (message file : String) (line : Nat)
    (func : String) : Exception where
  type := exceptionType
  what := message ++ " in " ++ removeAbsolutePathPrefix file ++ ":" ++ toString line ++ ":" ++ func

def requireNonNull (val file : String) (line : Nat) (func : String) : Exception where
  type := .logicError
  what := "Null " ++ val ++ " in " ++ removeAbsolutePathPrefix file ++ ":" ++ toString line ++ ":"
    ++ func

end PcscCpp
