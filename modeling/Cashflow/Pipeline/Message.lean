import Cashflow.Lib.Json

/-!
# AMQP messages

What the outbox publisher puts into a message and the consumer reads from it.
Headers are compared by what `fmt.Sprint` prints of them.
-/

namespace Cashflow.Pipeline

open Lib

/-- A header value: a text, an integer, or another value with what is printed
of it. -/
inductive HeaderValue where
  | text (s : Text)
  | int (n : Int64)
  | other (printed : Text)
deriving DecidableEq, Repr

/-- `fmt.Sprint` of a header; one that is absent prints as `<nil>`. -/
def sprint : Option HeaderValue → Text
  | none => "<nil>".toList
  | some (.text s) => s
  | some (.int n) => Json.intLiteral n.toInt
  | some (.other printed) => printed

/-- The properties, headers and body of a message. -/
structure Message where
  headers : List (Text × HeaderValue)
  contentType : Text
  persistent : Bool
  messageID : Text
  correlationID : Text
  timestamp : Int
  type : Text
  appID : Text
  body : Text
deriving DecidableEq, Repr

def Message.header (m : Message) (name : Text) : Option HeaderValue := m.headers.lookup name

end Cashflow.Pipeline
