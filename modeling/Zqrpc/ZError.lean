import Zqrpc.Numeral

/-! Error codes, C strings and the exceptions that cross the modelled functions. -/
namespace Zqrpc

open Numeral

/-- The enum is an `int` which casts and handlers fill with any value; the
enumerators below are those that the code uses. -/
abbrev ErrorCodeE := Int32

namespace ErrorCodeE

def success : ErrorCodeE := 0
def invalidHeader : ErrorCodeE := 1
def noSuchMethod : ErrorCodeE := 3
def methodNotImplemented : ErrorCodeE := 4
def connectionError : ErrorCodeE := 5
def dataCorrupted : ErrorCodeE := 6
def clientError : ErrorCodeE := 7

end ErrorCodeE

/-- What a `const char*` denotes: the bytes before the terminating zero. -/
structure CStr where
  bytes : Bytes
  noZero : ∀ b ∈ bytes, b ≠ 0
  deriving DecidableEq

/-- `c_str()` read as a C string stops at the first zero byte. -/
def cStr (text : Bytes) : CStr where
  bytes := text.takeWhile (· ≠ 0)
  noZero := fun b member => by simpa using List.mem_takeWhile_imp member

structure ZError where
  ecode : ErrorCodeE
  emesg : CStr := cStr []
  deriving DecidableEq

/-- `reset(ecode, emesg="")` with its default message. -/
def ZError.reset (_ : ZError) (ecode : ErrorCodeE) : ZError := ⟨ecode, cStr []⟩

def ZError.icode (e : ZError) : Int := e.ecode.toInt
def ZError.what (e : ZError) : CStr := e.emesg

inductive Exn where
  | zerror (e : ZError)
  | retryException
  | timeoutException
  | fatalException
  | proxyException
  | exitException
  /-- `zmq::error_t` -/
  | zmqError
  /-- `boost::bad_lexical_cast` -/
  | badLexicalCast
  /-- `std::out_of_range` -/
  | outOfRange
  /-- any other class derived from `std::exception` -/
  | stdException
  /-- a value of any other type -/
  | other
  deriving DecidableEq

/-- The types a `catch (std::exception&)` clause takes. -/
def Exn.isStd : Exn → Bool
  | .zerror _ | .zmqError | .badLexicalCast | .outOfRange | .stdException => true
  | _ => false

end Zqrpc
